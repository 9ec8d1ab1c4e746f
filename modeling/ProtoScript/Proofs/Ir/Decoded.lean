import ProtoScript.Proofs.Ir.Encoded
import ProtoScript.Proofs.Ty.RoundTrip

set_option autoImplicit false

/-!
# What is decoded can be written

Whatever is decoded from a value with finite floats is made of 32-bit numbers, of types with a written
form and of finite floats. The decoders of the instruction families are gone through once; what a field
yields depends on the reader of the field alone.
-/

namespace ProtoScript.Ir

/-! ## Parts of instructions -/

theorem yields_word32 : Json.Yields word32? IsWord := by
  intro j n _ h
  obtain ⟨k, -, h⟩ := Option.bind_eq_some_iff.1 h
  split at h
  · next hk =>
    cases h
    have hbound := hk.2
    show k.toNat < UInt32.size
    omega
  · cases h

theorem yields_temp : Json.Yields tempOf? IsWord := yields_word32

theorem yields_temps : Json.Yields tempsOf? fun ts => ∀ t ∈ ts, IsWord t := yields_temp.list

theorem yields_ty : Json.Yields Json.ty? IsWritten := by
  intro j t _ h
  obtain ⟨text, -, h⟩ := Option.bind_eq_some_iff.1 h
  cases hparse : Ty.parse text with
  | error e =>
      rw [hparse] at h
      cases h
  | ok u =>
      rw [hparse] at h
      cases h
      exact ⟨text, hparse⟩

/-- The constant is no float, or a finite one. -/
def IsFinite (c : Constant) : Prop := ∀ x, c = .float x → x.isFinite = true

theorem yields_constant : Json.Yields constantOf? IsFinite := by
  intro j c hj h x hx
  subst hx
  unfold constantOf? at h
  split at h
  case h_2 => cases h
  obtain ⟨⟨word, k⟩, hlast, h⟩ := Option.bind_eq_some_iff.1 h
  simp only [Option.ite_none_right_eq_some] at h
  replace h := h.2
  have hk : k.AllFinite := by
    obtain ⟨depth, hdepth⟩ := Json.allFinite_obj.1 hj
    exact ⟨depth, hdepth (word, k) (List.mem_of_getLast? hlast)⟩
  unfold constantUnder? at h
  split at h
  case h_4 =>
    obtain ⟨y, hy, hyx⟩ := Option.map_eq_some_iff.1 h
    cases hyx
    exact Json.yields_float hk hy
  case h_7 => cases h
  all_goals
    obtain ⟨y, -, hyx⟩ := Option.map_eq_some_iff.1 h
    cases hyx

section Fields

variable {f : Json.Fields} {name : String}

theorem need_temp {t : Temp} (hf : f.AllFinite) (h : f.need name tempOf? = some t) : IsWord t :=
  yields_temp.need hf h

theorem need_temps {ts : List Temp} (hf : f.AllFinite) (h : f.need name tempsOf? = some ts) :
    ∀ t ∈ ts, IsWord t :=
  yields_temps.need hf h

theorem need_pairs {es : List (Temp × Temp)} (hf : f.AllFinite)
    (h : f.need name (Json.list? (Json.pair? tempOf? tempOf?)) = some es) :
    ∀ e ∈ es, IsWord e.1 ∧ IsWord e.2 :=
  (yields_temp.pair yields_temp).list.need hf h

theorem need_width {n : Nat} (hf : f.AllFinite) (h : f.need name word32? = some n) : IsWord n :=
  yields_word32.need hf h

theorem need_ty {t : Ty} (hf : f.AllFinite) (h : f.need name Json.ty? = some t) : IsWritten t :=
  yields_ty.need hf h

theorem opt_temp {t? : Option Temp} (hf : f.AllFinite) (h : f.opt name tempOf? = some t?) :
    ∀ t ∈ t?.toList, IsWord t :=
  fun t ht => yields_temp.opt hf h t (Option.mem_toList.1 ht)

end Fields

/-! ## Instructions -/

/-- Everything in the instruction fits a document. -/
def Instr.Storable (i : Instr) : Prop := Ir.Storable i.numbers i.tys i.floats

section Families

variable {op : String}

theorem yields_readCheck : Json.Yields (Check.read? op) fun c => (Instr.check c).Storable := by
  intro j c hj h
  unfold Check.read? at h
  split at h
  case h_7 => cases h
  all_goals
    simp only [Option.bind_eq_bind, Option.bind_eq_some_iff, Option.pure_def, Option.some.injEq]
      at h
    obtain ⟨f, hrecord, h⟩ := h
    have hf := Json.allFinite_record hj hrecord
    grind [Instr.Storable, storable_iff, Instr.numbers, Instr.dest?, Instr.operands,
      Check.operands, Instr.widths, Check.widths, Instr.tys, Check.tys, Instr.floats, → need_temp, → need_width, → need_ty]

theorem yields_readValue : Json.Yields (Instr.readValue? op) Instr.Storable := by
  intro j i hj h
  unfold Instr.readValue? at h
  split at h
  case h_10 => cases h
  all_goals
    simp only [Option.bind_eq_bind, Option.bind_eq_some_iff, Option.pure_def, Option.some.injEq]
      at h
    obtain ⟨f, hrecord, h⟩ := h
    have hf := Json.allFinite_record hj hrecord
  case h_1 =>
    obtain ⟨d, hd, c, hc, rfl⟩ := h
    have hfinite := yields_constant.need hf hc
    have hdest := need_temp hf hd
    refine ⟨by simpa [Instr.numbers, Instr.dest?, Instr.operands, Instr.widths] using hdest,
      by simp [Instr.tys], ?_⟩
    cases c with
    | float x => simpa [Instr.floats] using hfinite x rfl
    | _ => simp [Instr.floats]
  all_goals
    grind [Instr.Storable, storable_iff, Instr.numbers, Instr.dest?, Instr.operands, Instr.widths,
      Instr.tys, Instr.floats, → need_temp, → need_ty]

theorem yields_readCall : Json.Yields (Instr.readCall? op) Instr.Storable := by
  intro j i hj h
  unfold Instr.readCall? at h
  split at h
  case h_4 => cases h
  all_goals
    simp only [Option.bind_eq_bind, Option.bind_eq_some_iff, Option.pure_def, Option.some.injEq]
      at h
    obtain ⟨f, hrecord, h⟩ := h
    have hf := Json.allFinite_record hj hrecord
    grind [Instr.Storable, storable_iff, Instr.numbers, Instr.dest?, Instr.operands, Instr.widths,
      Instr.tys, Instr.floats, → need_temp, → need_temps, → opt_temp, → need_ty]

theorem yields_readObject : Json.Yields (Instr.readObject? op) Instr.Storable := by
  intro j i hj h
  unfold Instr.readObject? at h
  split at h
  case h_6 => cases h
  all_goals
    simp only [Option.bind_eq_bind, Option.bind_eq_some_iff, Option.pure_def, Option.some.injEq]
      at h
    obtain ⟨f, hrecord, h⟩ := h
    have hf := Json.allFinite_record hj hrecord
    grind [Instr.Storable, storable_iff, Instr.numbers, Instr.dest?, Instr.operands, Instr.widths,
      Instr.tys, Instr.floats, → need_temp]

theorem yields_window : Json.Yields windowOf? fun w => IsWord w.1 ∧ IsWord w.2.1 ∧
    IsWord w.2.2.1 ∧ IsWord w.2.2.2.1 ∧ IsWritten w.2.2.2.2 := by
  intro j w hj h
  simp only [windowOf?, Option.bind_eq_bind, Option.bind_eq_some_iff, Option.pure_def,
    Option.some.injEq] at h
  obtain ⟨f, hrecord, d, hd, s, hs, i, hi, k, hk, t, ht, rfl⟩ := h
  have hf := Json.allFinite_record hj hrecord
  exact ⟨need_temp hf hd, need_temp hf hs, need_temp hf hi, need_temp hf hk, need_ty hf ht⟩

theorem yields_readContainer : Json.Yields (Instr.readContainer? op) Instr.Storable := by
  intro j i hj h
  unfold Instr.readContainer? at h
  split at h
  case h_15 => cases h
  case h_5 | h_6 =>
    obtain ⟨w, hw, h⟩ := Option.bind_eq_some_iff.1 h
    cases h
    obtain ⟨hd, hs, hi, hk, ht⟩ := yields_window hj hw
    simp [Instr.Storable, storable_iff, Instr.numbers, Instr.dest?, Instr.operands, Instr.widths,
      Instr.tys, Instr.floats, hd, hs, hi, hk, ht]
  all_goals
    simp only [Option.bind_eq_bind, Option.bind_eq_some_iff, Option.pure_def, Option.some.injEq]
      at h
    obtain ⟨f, hrecord, h⟩ := h
    have hf := Json.allFinite_record hj hrecord
    grind [Instr.Storable, storable_iff, Instr.numbers, Instr.dest?, Instr.operands, Instr.widths,
      Instr.tys, Instr.floats, → need_temp, → need_temps, → need_pairs, → need_ty]

theorem yields_readEffect : Json.Yields (Instr.readEffect? op) Instr.Storable := by
  intro j i hj h
  unfold Instr.readEffect? at h
  split at h
  case h_6 => cases h
  case h_4 =>
    obtain ⟨-, -, rfl⟩ := Option.map_eq_some_iff.1 h
    simp [Instr.Storable, storable_iff, Instr.numbers, Instr.dest?, Instr.operands, Instr.widths,
      Instr.tys, Instr.floats]
  all_goals
    simp only [Option.bind_eq_bind, Option.bind_eq_some_iff, Option.pure_def, Option.some.injEq]
      at h
    obtain ⟨f, hrecord, h⟩ := h
    have hf := Json.allFinite_record hj hrecord
    grind [Instr.Storable, storable_iff, Instr.numbers, Instr.dest?, Instr.operands, Instr.widths,
      Instr.tys, Instr.floats, → need_temp]

end Families

theorem yields_instr : Json.Yields Instr.ofJson? Instr.Storable := by
  intro j i hj h
  obtain ⟨⟨op, rest⟩, htagged, h⟩ := Option.bind_eq_some_iff.1 h
  have hrest := Json.allFinite_tagged hj htagged
  simp only [Option.orElse_eq_orElse, Option.orElse_eq_or, Option.or_eq_some_iff] at h
  rcases h with h | ⟨-, h | ⟨-, h | ⟨-, h | ⟨-, h | ⟨-, h⟩⟩⟩⟩⟩
  · exact yields_readValue hrest h
  · exact yields_readCall hrest h
  · exact yields_readObject hrest h
  · exact yields_readContainer hrest h
  · exact yields_readEffect hrest h
  · obtain ⟨c, hc, rfl⟩ := Option.map_eq_some_iff.1 h
    exact yields_readCheck hrest hc

/-! ## Modules -/

theorem yields_terminator : Json.Yields Terminator.ofJson? fun t => ∀ n ∈ t.operands, IsWord n := by
  intro j t hj h
  obtain ⟨⟨op, rest⟩, htagged, h⟩ := Option.bind_eq_some_iff.1 h
  have hrest := Json.allFinite_tagged hj htagged
  simp only at h
  split at h
  case h_7 => cases h
  case h_2 | h_6 =>
    obtain ⟨-, -, rfl⟩ := Option.map_eq_some_iff.1 h
    simp [Terminator.operands]
  all_goals
    simp only [Option.bind_eq_bind, Option.bind_eq_some_iff, Option.pure_def, Option.some.injEq]
      at h
    obtain ⟨f, hrecord, h⟩ := h
    have hf := Json.allFinite_record hrest hrecord
    grind [Terminator.operands, → need_temp]

/-- Everything in the block fits a document. -/
def Block.Storable (b : Block) : Prop := Ir.Storable b.numbers b.tys b.floats

theorem yields_block : Json.Yields Block.ofJson? Block.Storable := by
  intro j b hj h
  simp only [Block.ofJson?, Option.bind_eq_bind, Option.bind_eq_some_iff, Option.pure_def,
    Option.some.injEq] at h
  obtain ⟨f, hrecord, label, -, instrs, hinstrs, terminator, hterminator, rfl⟩ := h
  have hf := Json.allFinite_record hj hrecord
  have hbody := Storable.flatMap (yields_instr.list.need hf hinstrs)
  have hend : Ir.Storable terminator.operands [] [] :=
    ⟨yields_terminator.need hf hterminator, by simp, by simp⟩
  simpa [Block.Storable, Block.numbers, Block.tys, Block.floats] using hbody.append hend

theorem yields_typed : Json.Yields typedOf? fun p => IsWritten p.2 := by
  intro j p hj h
  simp only [typedOf?, Option.bind_eq_bind, Option.bind_eq_some_iff, Option.pure_def,
    Option.some.injEq] at h
  obtain ⟨f, hrecord, name, -, t, ht, rfl⟩ := h
  exact need_ty (Json.allFinite_record hj hrecord) ht

/-- Everything in the function fits a document. -/
def Function.Storable (f : Function) : Prop := Ir.Storable f.numbers f.tys f.floats

theorem yields_function : Json.Yields Function.ofJson? Function.Storable := by
  intro j g hj h
  simp only [Function.ofJson?, Option.bind_eq_bind, Option.bind_eq_some_iff, Option.pure_def,
    Option.some.injEq] at h
  obtain ⟨f, hrecord, params, hparams, name, -, ret, hret, blocks, hblocks, rfl⟩ := h
  have hf := Json.allFinite_record hj hrecord
  have htys : ∀ p ∈ params, IsWritten p.2 := yields_typed.list.need hf hparams
  have hhead : Ir.Storable [] (params.map (·.2) ++ [ret]) [] := by
    refine ⟨by simp, fun t ht => ?_, by simp⟩
    rcases List.mem_append.1 ht with ht | ht
    · obtain ⟨p, hp, rfl⟩ := List.mem_map.1 ht
      exact htys p hp
    · rw [List.mem_singleton.1 ht]
      exact need_ty hf hret
  have hbody := hhead.append (Storable.flatMap (yields_block.list.need hf hblocks))
  simpa [Function.Storable, Function.numbers, Function.tys, Function.floats, Function.comp_def]
    using hbody

theorem yields_layout : Json.Yields Layout.ofJson? fun l => IsWord l.id ∧
    ∀ t ∈ l.tys, IsWritten t := by
  intro j l hj h
  simp only [Layout.ofJson?, Option.bind_eq_bind, Option.bind_eq_some_iff, Option.pure_def,
    Option.some.injEq] at h
  obtain ⟨f, hrecord, fields, hfields, name, -, id, hid, parent, -, rfl⟩ := h
  have hf := Json.allFinite_record hj hrecord
  have htys : ∀ p ∈ fields, IsWritten p.2 := yields_typed.list.need hf hfields
  refine ⟨need_width hf hid, fun t ht => ?_⟩
  obtain ⟨_, hfield, rfl⟩ := List.mem_map.1 ht
  obtain ⟨p, hp, rfl⟩ := List.mem_map.1 hfield
  exact htys p hp

/-- Everything in the module fits a document. -/
def Module.Storable (m : Module) : Prop := Ir.Storable m.numbers m.tys m.floats

theorem yields_module : Json.Yields Module.ofJson? Module.Storable := by
  intro j m hj h
  simp only [Module.ofJson?, Option.bind_eq_bind, Option.bind_eq_some_iff, Option.pure_def,
    Option.some.injEq] at h
  obtain ⟨f, hrecord, name, -, functions, hfunctions, layouts, hlayouts, rfl⟩ := h
  have hf := Json.allFinite_record hj hrecord
  have hbody := Storable.flatMap (yields_function.list.need hf hfunctions)
  have hlist := yields_layout.list.need hf hlayouts
  have hdata : Ir.Storable (layouts.map Layout.id) (layouts.flatMap Layout.tys) [] := by
    refine ⟨fun n hn => ?_, fun t ht => ?_, by simp⟩
    · obtain ⟨l, hl, rfl⟩ := List.mem_map.1 hn
      exact (hlist l hl).1
    · obtain ⟨l, hl, htl⟩ := List.mem_flatMap.1 ht
      exact (hlist l hl).2 t htl
  simpa [Module.Storable, Module.numbers, Module.tys, Module.floats] using hbody.append hdata

end ProtoScript.Ir
