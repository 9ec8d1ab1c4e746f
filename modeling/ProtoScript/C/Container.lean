import ProtoScript.C.Name
import ProtoScript.C.Text
import ProtoScript.Ty.Basic

set_option autoImplicit false

/-!
# Types in C

Scalars are fixed-width C types and prototypes pointers to structs. Every container type has a
struct of its own with a few functions: lists and maps are used through a pointer, windows by
value. The container types that a module uses are registered in an order in which each one stands
behind those it is built from.
-/

namespace ProtoScript.C

/-- The C type of a primitive. -/
def primitiveType : Primitive → String
  | .bool => "bool"
  | .byte => "uint8_t"
  | .int => "int64_t"
  | .float => "double"
  | .glyph => "uint32_t"
  | .string => "ps_str"
  | .void => "void"

/-- The C type of a type. -/
def spell : Ty → String
  | .prim p => primitiveType p
  | .named name => structName name ++ "*"
  | .list t => containerName (.list t) ++ "*"
  | .map k v => containerName (.map k v) ++ "*"
  | .view t => containerName (.view t)
  | .slice t => containerName (.slice t)

/-- The type has a C type: nothing in it is a container of `void`. -/
def isRepresentable (t : Ty) : Bool := t.args.all fun a => !a.containsVoid

/-! ## Registration -/

/-- Container types in the order in which they are defined. -/
abbrev Containers := List Ty

namespace Containers

/-- Adds a type at the end, unless it is there. -/
def insert (known : Containers) (t : Ty) : Containers :=
  if t ∈ known then known else known ++ [t]

/-- Registers the container types a type is built from. If the type has no C type, those before the
part that has none are registered. -/
def register (known : Containers) : Ty → Containers
  | .prim _ | .named _ => known
  | .list t => if t.containsVoid then known else (register known t).insert (.list t)
  | .view t => if t.containsVoid then known else (register known t).insert (.view t)
  | .slice t => if t.containsVoid then known else (register known t).insert (.slice t)
  | .map k v =>
    if k.containsVoid then known
    else if v.containsVoid then register known k
    else (register (register known k) v).insert (.map k v)

end Containers

/-! ## Definitions -/

/-- The definition of a struct type. -/
def structType (name fields : String) : String :=
  "typedef struct " ++ name ++ " " ++ braces fields ++ " " ++ name ++ ";"

/-- The size of a number of values of a C type. -/
def sizeOf (ty count : String) : String := "sizeof(" ++ ty ++ ") * " ++ count

/-- The struct and functions of a list. -/
def listText (n e : String) : Lines :=
  structType n (e ++ "* ptr; int64_t len; int64_t cap;") ::
  block ("static " ++ n ++ "* " ++ n ++ "_new(void)")
    [n ++ "* l = ps_alloc(sizeof(" ++ n ++ "));",
      "l->cap = 4;",
      "l->ptr = ps_alloc(" ++ sizeOf e "4" ++ ");",
      "return l;"] ++
  block ("static void " ++ n ++ "_push(" ++ n ++ "* l, " ++ e ++ " v)")
    (block "if (l->len == l->cap)"
      ["l->cap *= 2;",
        "l->ptr = ps_realloc(l->ptr, " ++ sizeOf e "(size_t)l->cap" ++ ");"] ++
      ["l->ptr[l->len++] = v;"]) ++
  block ("static " ++ e ++ " " ++ n ++ "_pop(" ++ n ++ "* l)")
    ["if (l->len == 0) ps_fail(\"R1005\", \"pop from an empty list\");",
      "return l->ptr[--l->len];"] ++
  [""]

/-- The struct of a window. -/
def windowText (n e : String) : Lines := [structType n (e ++ "* ptr; int64_t len;"), ""]

/-- The struct and functions of a map; `eq` compares the key at `i` with `k`. -/
def mapText (n k v eq : String) : Lines :=
  let find := "int64_t i = " ++ n ++ "_find(m, k);"
  structType n (k ++ "* keys; " ++ v ++ "* values; int64_t len; int64_t cap;") ::
  block ("static " ++ n ++ "* " ++ n ++ "_new(void)")
    [n ++ "* m = ps_alloc(sizeof(" ++ n ++ "));",
      "m->cap = 4;",
      "m->keys = ps_alloc(" ++ sizeOf k "4" ++ ");",
      "m->values = ps_alloc(" ++ sizeOf v "4" ++ ");",
      "return m;"] ++
  block ("static int64_t " ++ n ++ "_find(" ++ n ++ "* m, " ++ k ++ " k)")
    (block "for (int64_t i = 0; i < m->len; i++)" ["if (" ++ eq ++ ") return i;"] ++
      ["return -1;"]) ++
  ["static bool " ++ n ++ "_has(" ++ n ++ "* m, " ++ k ++ " k) " ++
    braces ("return " ++ n ++ "_find(m, k) >= 0;")] ++
  block ("static " ++ v ++ " " ++ n ++ "_get(" ++ n ++ "* m, " ++ k ++ " k)")
    [find,
      "if (i < 0) ps_fail(\"R1006\", \"missing map key\");",
      "return m->values[i];"] ++
  block ("static void " ++ n ++ "_set(" ++ n ++ "* m, " ++ k ++ " k, " ++ v ++ " v)")
    ([find] ++
      block "if (i >= 0)" ["m->values[i] = v;", "return;"] ++
      block "if (m->len == m->cap)"
        ["m->cap *= 2;",
          "m->keys = ps_realloc(m->keys, " ++ sizeOf k "(size_t)m->cap" ++ ");",
          "m->values = ps_realloc(m->values, " ++ sizeOf v "(size_t)m->cap" ++ ");"] ++
      ["m->keys[m->len] = k;", "m->values[m->len] = v;", "m->len++;"]) ++
  block ("static void " ++ n ++ "_remove(" ++ n ++ "* m, " ++ k ++ " k)")
    [find,
      "if (i < 0) return;",
      "size_t tail = (size_t)(m->len - i - 1);",
      "memmove(&m->keys[i], &m->keys[i + 1], " ++ sizeOf k "tail" ++ ");",
      "memmove(&m->values[i], &m->values[i + 1], " ++ sizeOf v "tail" ++ ");",
      "m->len--;"] ++
  [""]

/-- The definition of a container type. -/
def containerText (t : Ty) : Lines :=
  match t with
  | .list e => listText (containerName t) (spell e)
  | .view e | .slice e => windowText (containerName t) (spell e)
  | .map k v =>
    mapText (containerName t) (spell k) (spell v)
      (if k.isString then "ps_str_eq(m->keys[i], k)" else "m->keys[i] == k")
  | .prim _ | .named _ => []

/-- The definitions of registered types. -/
def Containers.text (known : Containers) : Lines := known.flatMap containerText

end ProtoScript.C
