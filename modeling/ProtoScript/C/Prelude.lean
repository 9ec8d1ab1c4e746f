import ProtoScript.C.Text

set_option autoImplicit false

/-!
# The run-time support of generated C

What every generated file starts with: memory, exceptions, safety checks, strings and printing. A
check that fails prints a code with a message and ends the program. A file can include a header in
place of this text.
-/

namespace ProtoScript.C

/-- The header that holds the same definitions. -/
def runtimeHeader : String := "protoscript_runtime.h"

/-- A statement that ends the program. -/
def failure (code message : String) : String :=
  "ps_fail(\"" ++ code ++ "\", \"" ++ message ++ "\");"

/-- A function that ends the program if a condition holds. -/
def checkFunction (name params condition code message : String) : Lines :=
  block ("static void " ++ name ++ "(" ++ params ++ ")")
    ["if (" ++ condition ++ ") " ++ failure code message]

/-- A function that converts a number unless a condition holds. -/
def conversion (ret name param condition message : String) : Lines :=
  block ("static " ++ ret ++ " " ++ name ++ "(" ++ param ++ " x)")
    ["if (" ++ condition ++ ") " ++ failure "R1001" message, "return (" ++ ret ++ ")x;"]

/-- The headers of the C library and the types used throughout. -/
def preludeTypes : List Lines :=
  [ ["math.h", "setjmp.h", "stdbool.h", "stddef.h", "stdint.h", "stdio.h", "stdlib.h",
      "string.h"].map fun header => "#include <" ++ header ++ ">",
    ["typedef const char* ps_str;"],
    blockThen "typedef struct ps_header" ["int32_t proto_id;"] " ps_header;",
    blockThen "typedef struct ps_handler" ["jmp_buf env;", "struct ps_handler* prev;"]
      " ps_handler;",
    ["static ps_handler* ps_handlers = NULL;", "static void* ps_current_exception = NULL;"],
    ["static const char* ps_proto_name(int32_t id);",
      "static const char* ps_exception_message(void* exception);"] ]

/-- The body of a function that gets memory and ends the program if there is none. -/
def allocation (var source : String) : Lines :=
  ["void* " ++ var ++ " = " ++ source ++ ";"] ++
    block ("if (!" ++ var ++ ")") ["fputs(\"out of memory\\n\", stderr);", "abort();"] ++
    ["return " ++ var ++ ";"]

/-- Failures, memory and exceptions. -/
def preludeMemory : List Lines :=
  [ block "static void ps_fail(const char* code, const char* message)"
      ["fflush(stdout);", "fprintf(stderr, \"1:1: %s %s\\n\", code, message);", "exit(1);"],
    block "static void* ps_alloc(size_t size)" (allocation "p" "calloc(1, size ? size : 1)"),
    block "static void* ps_realloc(void* p, size_t size)"
      (allocation "q" "realloc(p, size ? size : 1)"),
    block "static void* ps_new_object(size_t size, int32_t proto_id)"
      ["ps_header* object = ps_alloc(size);", "object->proto_id = proto_id;", "return object;"],
    block "static void ps_throw(void* exception)"
      (["ps_handler* handler = ps_handlers;", "ps_current_exception = exception;"] ++
        block "if (!handler)"
          ["char message[512];",
            "int32_t id = ((ps_header*)exception)->proto_id;",
            "snprintf(message, sizeof message, \"uncaught %s: %s\", ps_proto_name(id), " ++
              "ps_exception_message(exception));",
            "ps_fail(\"R1007\", message);"] ++
        ["ps_handlers = handler->prev;", "longjmp(handler->env, 1);"]) ]

/-- The safety checks. -/
def preludeChecks : List Lines :=
  [ checkFunction "ps_check_add_int" "int64_t a, int64_t b"
      "(b > 0 && a > INT64_MAX - b) || (b < 0 && a < INT64_MIN - b)" "R1001" "integer overflow",
    checkFunction "ps_check_sub_int" "int64_t a, int64_t b"
      "(b < 0 && a > INT64_MAX + b) || (b > 0 && a < INT64_MIN + b)" "R1001" "integer overflow",
    block "static void ps_check_mul_int(int64_t a, int64_t b)"
      ["if (a == 0 || b == 0) return;",
        "bool overflow = a > 0 ? (b > 0 ? a > INT64_MAX / b : b < INT64_MIN / a)",
        "                      : (b > 0 ? a < INT64_MIN / b : a < INT64_MAX / b);",
        "if (overflow) " ++ failure "R1001" "integer overflow"],
    checkFunction "ps_check_add_byte" "uint8_t a, uint8_t b" "(int)a + (int)b > 255" "R1001"
      "byte overflow",
    checkFunction "ps_check_sub_byte" "uint8_t a, uint8_t b" "a < b" "R1001" "byte overflow",
    checkFunction "ps_check_mul_byte" "uint8_t a, uint8_t b" "(int)a * (int)b > 255" "R1001"
      "byte overflow",
    checkFunction "ps_check_neg_int" "int64_t a" "a == INT64_MIN" "R1002" "negation overflow",
    checkFunction "ps_check_neg_byte" "uint8_t a" "a != 0" "R1002" "negation overflow",
    checkFunction "ps_check_div_zero" "int64_t divisor" "divisor == 0" "R1003" "division by zero",
    checkFunction "ps_check_shift" "int64_t amount, int64_t width"
      "amount < 0 || amount >= width" "R1004" "shift amount out of range",
    checkFunction "ps_check_index" "int64_t index, int64_t len" "index < 0 || index >= len"
      "R1005" "index out of bounds",
    checkFunction "ps_check_range" "int64_t start, int64_t end, int64_t len"
      "start < 0 || end < start || end > len" "R1005" "range out of bounds",
    checkFunction "ps_check_key" "bool present" "!present" "R1006" "missing map key" ]

/-- The operations on numbers that are more than a C operator. -/
def preludeNumbers : List Lines :=
  [ block "static int64_t ps_div_int(int64_t a, int64_t b)"
      ["if (a == INT64_MIN && b == -1) " ++ failure "R1001" "integer overflow", "return a / b;"],
    block "static int64_t ps_mod_int(int64_t a, int64_t b)" ["return b == -1 ? 0 : a % b;"],
    block "static int64_t ps_shl_int(int64_t a, int64_t b)"
      ["return (int64_t)((uint64_t)a << b);"],
    conversion "int64_t" "ps_float_to_int" "double"
      "!(x >= -9223372036854775808.0 && x < 9223372036854775808.0)" "float out of int range",
    conversion "uint8_t" "ps_float_to_byte" "double" "!(x > -1.0 && x < 256.0)"
      "float out of byte range",
    conversion "uint8_t" "ps_int_to_byte" "int64_t" "x < 0 || x > 255" "int out of byte range" ]

/-- Starts a walk over the bytes of a string. -/
def walkBytes : String := "const unsigned char* p = (const unsigned char*)(s ? s : \"\");"

/-- Strings, which are UTF-8. -/
def preludeStrings : List Lines :=
  [ block "static int64_t ps_utf8_width(unsigned char lead)"
      ["if (lead < 0x80) return 1;", "if ((lead & 0xE0) == 0xC0) return 2;",
        "if ((lead & 0xF0) == 0xE0) return 3;", "return 4;"],
    block "static uint32_t ps_utf8_decode(const unsigned char* s)"
      ["switch (ps_utf8_width(s[0])) \x7b",
        "case 1: return s[0];",
        "case 2: return ((uint32_t)(s[0] & 0x1F) << 6) | (s[1] & 0x3F);",
        "case 3: return ((uint32_t)(s[0] & 0x0F) << 12) | ((uint32_t)(s[1] & 0x3F) << 6) | " ++
          "(s[2] & 0x3F);",
        "default:",
        "    return ((uint32_t)(s[0] & 0x07) << 18) | ((uint32_t)(s[1] & 0x3F) << 12) |",
        "           ((uint32_t)(s[2] & 0x3F) << 6) | (s[3] & 0x3F);",
        "\x7d"],
    block "static int64_t ps_str_len(ps_str s)"
      ([walkBytes, "int64_t n = 0;"] ++
        block "while (*p)" ["p += ps_utf8_width(*p);", "n++;"] ++
        ["return n;"]),
    block "static uint32_t ps_str_at(ps_str s, int64_t index)"
      [walkBytes, "for (int64_t i = 0; i < index && *p; i++) p += ps_utf8_width(*p);",
        "return ps_utf8_decode(p);"],
    block "static uint32_t* ps_str_decode(ps_str s)"
      (["int64_t n = ps_str_len(s);",
          "uint32_t* glyphs = ps_alloc(sizeof(uint32_t) * (size_t)(n ? n : 1));", walkBytes] ++
        block "for (int64_t i = 0; i < n; i++)"
          ["glyphs[i] = ps_utf8_decode(p);", "p += ps_utf8_width(*p);"] ++
        ["return glyphs;"]),
    block "static ps_str ps_str_concat(ps_str a, ps_str b)"
      ["size_t la = a ? strlen(a) : 0;", "size_t lb = b ? strlen(b) : 0;",
        "char* out = ps_alloc(la + lb + 1);", "if (la) memcpy(out, a, la);",
        "if (lb) memcpy(out + la, b, lb);", "return out;"],
    block "static int ps_str_cmp(ps_str a, ps_str b)"
      ["return strcmp(a ? a : \"\", b ? b : \"\");"],
    block "static bool ps_str_eq(ps_str a, ps_str b)" ["return ps_str_cmp(a, b) == 0;"] ]

/-- A function on one line. -/
def shortFunction (head body : String) : String := head ++ " " ++ braces body

/-- The byte of a UTF-8 sequence at a position. -/
def encodedByte (position : Nat) (value : String) : String :=
  "buf[" ++ toString position ++ "] = (char)" ++ value ++ ";"

/-- Printing of each scalar type. -/
def preludePrinting : List Lines :=
  [ [ shortFunction "static void ps_print_bool(bool v)" "puts(v ? \"true\" : \"false\");",
      shortFunction "static void ps_print_byte(uint8_t v)" "printf(\"%u\\n\", (unsigned)v);",
      shortFunction "static void ps_print_int(int64_t v)" "printf(\"%lld\\n\", (long long)v);",
      shortFunction "static void ps_print_float(double v)" "printf(\"%g\\n\", v);",
      shortFunction "static void ps_print_string(ps_str v)" "puts(v ? v : \"\");" ],
    block "static void ps_print_glyph(uint32_t c)"
      (["char buf[5] = \x7b0\x7d;"] ++
        choices "if (c < 0x80)" [encodedByte 0 "c"]
          [ ("else if (c < 0x800)",
              [encodedByte 0 "(0xC0 | (c >> 6))", encodedByte 1 "(0x80 | (c & 0x3F))"]),
            ("else if (c < 0x10000)",
              [encodedByte 0 "(0xE0 | (c >> 12))", encodedByte 1 "(0x80 | ((c >> 6) & 0x3F))",
                encodedByte 2 "(0x80 | (c & 0x3F))"]),
            ("else",
              [encodedByte 0 "(0xF0 | (c >> 18))", encodedByte 1 "(0x80 | ((c >> 12) & 0x3F))",
                encodedByte 2 "(0x80 | ((c >> 6) & 0x3F))", encodedByte 3 "(0x80 | (c & 0x3F))"]) ] ++
        ["puts(buf);"]) ]

/-- The whole of the run-time support, with an empty line between definitions. -/
def preludeText : Lines :=
  [""].intercalate (preludeTypes ++ preludeMemory ++ preludeChecks ++ preludeNumbers ++
    preludeStrings ++ preludePrinting)

end ProtoScript.C
