import Mathlib.Data.List.Forall2
import LuaTestcase.Output.Arguments

/-!
# Messages that are printed as they are meant

`vstringify` reads a format string in its own way, so a message comes out as `string.format` would
print it only if both find the same conversions in it, and nothing is raised only if every
conversion gets an argument it takes.  For a message of the program this can be read off its format
string.

* `ReadAs` — both readers find these conversions, and the same ones of them are `%s`.
* `formatRest` — what is meant: `string.format`, and `tostring` of the further arguments.
* `legible_of_readAs` — **such a message is printed as it is meant**.
* `legible_plain` — so is one that is not formatted.
-/

namespace Testcase

variable {F U : Type}

/-! ## Reading a format string -/

/-- A literal character or a conversion. -/
def Piece.direct : Piece → Bool
  | literal _ => true
  | spec _ => true
  | _ => false

/-- `string.format` finds these conversions in the format string and no escape, and `parse_format`
notifies as many, with an `s` for those that are `%s`. -/
def ReadAs (s : Str) (sps : List Spec) : Prop :=
  specs (pieces none s) = sps ∧ (notes none s).map (· == ['s']) = sps.map (·.conv == 's') ∧
    ∀ p ∈ pieces none s, p.direct = true

instance (s : Str) (sps : List Spec) : Decidable (ReadAs s sps) :=
  inferInstanceAs (Decidable (_ ∧ _ ∧ _))

/-- A percent sign begins everything that is not literal. -/
theorem readAs_literal {s : Str} (h : '%' ∉ s) : ReadAs s [] := by
  induction s with
  | nil => decide
  | cons c s ih =>
      have hc : c ≠ '%' := fun heq => h (by simp [heq])
      obtain ⟨hspecs, hnotes, hdirect⟩ := ih fun hmem => h (by simp [hmem])
      have hpieces : pieces none (c :: s) = .literal c :: pieces none s := by
        rw [pieces, if_neg hc]
      refine ⟨?_, ?_, ?_⟩
      · rw [hpieces]
        exact hspecs
      · rw [notes_literal hc]
        exact hnotes
      · rw [hpieces]
        exact List.forall_mem_cons.mpr ⟨rfl, hdirect⟩

/-- A `%s` and a blank in front. -/
theorem ReadAs.behind_text {s : Str} {sps : List Spec} (h : ReadAs s sps) :
    ReadAs ("%s ".toList ++ s) (plainSpec :: sps) := by
  obtain ⟨hspecs, hnotes, hdirect⟩ := h
  have hpieces : pieces none ("%s ".toList ++ s)
      = .spec plainSpec :: .literal ' ' :: pieces none s := rfl
  have hnote : notes none ("%s ".toList ++ s) = ['s'] :: notes none s := rfl
  refine ⟨?_, ?_, ?_⟩
  · rw [hpieces, ← hspecs]
    rfl
  · rw [hnote, List.map_cons, hnotes]
    rfl
  · rw [hpieces]
    exact List.forall_mem_cons.mpr ⟨rfl, List.forall_mem_cons.mpr ⟨rfl, hdirect⟩⟩

/-! ## What is meant -/

/-- The format string with its conversions, and the other arguments behind it. -/
def formatRest (L : Lua F U) (s : Str) (args : List (Value F U)) : Except (Value F U) Str := do
  let head ← formatAny L s (args.take (specs (pieces none s)).length)
  let texts ← (args.drop (specs (pieces none s)).length).mapM L.tostring
  return List.intercalate [' '] (head :: texts)

/-- A call of a printer gives the text that is meant: with formatting every conversion has an
argument, and without, the text is that of the arguments, joined by blanks, or that of `nil`. -/
inductive Legible (L : Lua F U) : Bool → List (Value F U) → Prop where
  | format {s : Str} {args : List (Value F U)} {text : Str} :
      (specs (pieces none s)).length ≤ args.length → formatRest L s args = .ok text →
      vstringify L true (.string s) args = .ok text → Legible L true (.string s :: args)
  | plain {v : Value F U} {args : List (Value F U)} {texts : List Str} :
      (v :: args).mapM L.tostring = .ok texts →
      vstringify L false v args = .ok (List.intercalate [' '] texts) → Legible L false (v :: args)
  | nothing {text : Str} : L.tostring .nil = .ok text → vstringify L false .nil [] = .ok text →
      Legible L false []

/-- The conversion accepts the value. -/
def Converts (L : Lua F U) (sp : Spec) (v : Value F U) : Prop :=
  L.accepts sp = true ∧ ∃ x, L.convert sp v = .ok x

/-- Every conversion accepts its argument, where `%s` takes any value. -/
abbrev Takes (L : Lua F U) (sps : List Spec) (args : List (Value F U)) : Prop :=
  List.Forall₂ (fun sp v => ∃ e, taken L sp v = .ok e ∧ Converts L sp e) sps args

section Legible

variable {L : Lua F U}

/-- A value of a `%s`. -/
theorem takes_text {v : Value F U} {t : Str} (htostring : L.tostring v = .ok t)
    (h : Converts L plainSpec (.string t)) :
    ∃ e, taken L plainSpec v = .ok e ∧ Converts L plainSpec e :=
  ⟨.string t, map_eq_ok.mpr ⟨t, htostring, rfl⟩, h⟩

/-- A value of another conversion. -/
theorem takes_value {sp : Spec} {v : Value F U} (hconv : sp.conv ≠ 's') (h : Converts L sp v) :
    ∃ e, taken L sp v = .ok e ∧ Converts L sp e :=
  ⟨v, if_neg hconv, h⟩

/-- `string.format` accepts what it is given. -/
theorem takes_format {ps : List Piece} (hps : ∀ p ∈ ps, p.direct = true)
    {args : List (Value F U)} (h : Takes L (specs ps) args) :
    ∃ vs text, takenAll L (specs ps) args = .ok vs ∧ L.formatPieces ps vs = .ok text := by
  induction ps generalizing args with
  | nil =>
      cases h
      exact ⟨[], [], rfl, rfl⟩
  | cons p ps ih =>
      have hrest := List.forall_mem_cons.mp hps
      cases p with
      | literal c =>
          obtain ⟨vs, text, hvs, htext⟩ := ih hrest.2 h
          exact ⟨vs, c :: text, hvs, bind_eq_ok.mpr ⟨text, htext, rfl⟩⟩
      | spec sp =>
          obtain ⟨v, args, ⟨e, htaken, haccepts, x, hx⟩, hargs, rfl⟩ :=
            List.forall₂_cons_left_iff.mp h
          obtain ⟨vs, text, hvs, htext⟩ := ih hrest.2 hargs
          refine ⟨e :: vs, x ++ text, ?_, ?_⟩
          · exact bind_eq_ok.mpr ⟨e, htaken, bind_eq_ok.mpr ⟨vs, hvs, rfl⟩⟩
          · exact Lua.formatPieces_spec.mpr ⟨haccepts, x, text, hx, htext, rfl⟩
      | percent => cases hrest.1
      | unfinished mods => cases hrest.1

/-- Literal characters only. -/
theorem formatPieces_literals (L : Lua F U) {ps : List Piece} (hps : ∀ p ∈ ps, p.direct = true)
    (hspecs : specs ps = []) (args : List (Value F U)) :
    L.formatPieces ps args = .ok (textOf ps) := by
  induction ps with
  | nil => rfl
  | cons p ps ih =>
      have hrest := List.forall_mem_cons.mp hps
      cases p with
      | literal c =>
          rw [Lua.formatPieces, ih hrest.2 hspecs]
          rfl
      | spec sp => cases hspecs
      | percent => cases hrest.1
      | unfinished mods => cases hrest.1

/-- The arguments of the conversions come to `string.format` as it takes them. -/
theorem stringified_readAs {sps : List Spec} {cs : List Str}
    (h : cs.map (· == ['s']) = sps.map (·.conv == 's')) (args : List (Value F U)) :
    stringified L cs args = takenAll L sps args := by
  induction cs generalizing sps args with
  | nil =>
      obtain rfl := List.map_eq_nil_iff.mp h.symm
      rfl
  | cons c cs ih =>
      cases sps with
      | nil => cases h
      | cons sp sps =>
          obtain ⟨hc, hcs⟩ := List.cons.inj h
          cases args with
          | nil => rfl
          | cons v args =>
              have hpassed : passed L c v = taken L sp v := by
                have hiff : c = ['s'] ↔ sp.conv = 's' := by
                  have hbool : (c == ['s']) = (sp.conv == 's') := hc
                  rw [← beq_iff_eq, hbool, beq_iff_eq]
                simp only [passed, taken, hiff]
              rw [stringified, takenAll, hpassed]
              simp only [ih hcs]

/-- What is meant, if every conversion accepts its argument. -/
theorem formatRest_takes {s : Str} {sps : List Spec} (hread : ReadAs s sps)
    {args args' : List (Value F U)} (htakes : Takes L sps args) {texts : List Str}
    (htexts : args'.mapM L.tostring = .ok texts) :
    ∃ vs head, takenAll L sps args = .ok vs ∧ L.format (.string s) vs = .ok head ∧
      formatRest L s (args ++ args') = .ok (List.intercalate [' '] (head :: texts)) := by
  obtain ⟨rfl, -, hdirect⟩ := hread
  obtain ⟨vs, head, hvs, hhead⟩ := takes_format hdirect htakes
  refine ⟨vs, head, hvs, hhead, ?_⟩
  have hany : formatAny L s args = .ok head := bind_eq_ok.mpr ⟨vs, hvs, hhead⟩
  rw [formatRest, htakes.length_eq, List.take_left, List.drop_left, hany, htexts]
  rfl

/-- **A message is printed as it is meant**: its format string is read alike, every conversion
accepts its argument, and `tostring` the further ones. -/
theorem legible_of_readAs {s : Str} {sps : List Spec} (hread : ReadAs s sps)
    {args args' : List (Value F U)} (htakes : Takes L sps args) {texts : List Str}
    (htexts : args'.mapM L.tostring = .ok texts) :
    Legible L true (.string s :: (args ++ args')) := by
  obtain ⟨vs, head, hvs, hhead, hrest⟩ := formatRest_takes hread htakes htexts
  obtain ⟨hspecs, hnotes, hdirect⟩ := hread
  have hlen : (notes none s).length = args.length := by
    have h := congrArg List.length hnotes
    rw [List.length_map, List.length_map] at h
    exact h.trans htakes.length_eq
  refine .format ?_ hrest ?_
  · rw [hspecs, htakes.length_eq, List.length_append]
    exact Nat.le_add_right _ _
  · by_cases hnone : notes none s = []
    · -- nothing is formatted, and a format string without conversions is its own text
      rw [hnone] at hlen
      obtain rfl := List.length_eq_zero_iff.mp hlen.symm
      cases htakes
      obtain rfl := Except.ok.inj hvs
      obtain rfl : s = head := by
        have hself := formatPieces_literals L hdirect hspecs []
        rw [textOf_pieces] at hself
        exact Except.ok.inj (hself.symm.trans hhead)
      have hcount : parseFormat L (.string s) .nil () = .ok (0, ()) := by
        rw [parseFormat_nil, hnone]
        rfl
      rw [vstringify_plain L fun _ => hcount]
      simp only [List.nil_append, List.mapM_cons, L.tostring_string, ok_bind, htexts]
      rfl
    · rw [vstringify_format L hnone hlen, stringified_readAs hnotes, hvs]
      simp only [ok_bind, hhead, htexts]
      rfl

/-- **A message that is not formatted is printed as it is meant**, if its arguments have texts. -/
theorem legible_plain {args texts : List _} (h : args.mapM L.tostring = .ok texts)
    (hnil : ∃ text, L.tostring .nil = .ok text) : Legible L false args := by
  have hformat : ∀ v : Value F U, false = true → parseFormat L v .nil () = .ok (0, ()) :=
    fun _ h => by cases h
  cases args with
  | nil =>
      obtain ⟨text, htext⟩ := hnil
      refine .nothing htext ?_
      rw [vstringify_plain L (hformat _), List.mapM_cons, htext]
      simp [List.intercalate]
  | cons v args =>
      refine .plain h ?_
      rw [vstringify_plain L (hformat _), h]
      rfl

end Legible

end Testcase
