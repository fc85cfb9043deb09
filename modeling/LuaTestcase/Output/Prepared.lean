import LuaTestcase.Output.Notes

/-!
# Arguments that are prepared for their conversions

A way to treat the arguments of a format string gives each conversion its argument, possibly
converted before.  `taken`, `passed` and others are such ways; a key of the list of keys says what
a way knows about the conversion.

* `prepareAll` — all arguments, one behind the other.
* `transfers_iff` — **when what is formatted one way is formatted alike the other way**, for all
  arguments: if it is so for each conversion and one argument.
* `mem_notedSpecs_iff` — the conversions of a format string with their notes.
-/

namespace Testcase

variable {F U κ : Type}

/-- A way to treat an argument. -/
abbrev Preparation (F U κ : Type) : Type := κ → Value F U → Except (Value F U) (Value F U)

/-- All arguments; those without a conversion stay as they are. -/
def prepareAll (f : Preparation F U κ) :
    List κ → List (Value F U) → Except (Value F U) (List (Value F U))
  | k :: ks, v :: vs => do
    let v ← f k v
    let vs ← prepareAll f ks vs
    return v :: vs
  | _, vs => return vs

theorem prepareAll_cons {f : Preparation F U κ} {k : κ} {ks : List κ} {v : Value F U}
    {vs ws : List (Value F U)} : prepareAll f (k :: ks) (v :: vs) = .ok ws ↔
      ∃ w ws', f k v = .ok w ∧ prepareAll f ks vs = .ok ws' ∧ w :: ws' = ws := by
  rw [prepareAll]
  constructor
  · intro h
    obtain ⟨w, hw, h⟩ := bind_eq_ok.mp h
    obtain ⟨ws', hws', h⟩ := bind_eq_ok.mp h
    exact ⟨w, ws', hw, hws', Except.ok.inj h⟩
  · rintro ⟨w, ws', hw, hws', rfl⟩
    rw [hw, ok_bind, hws']
    rfl

/-- A way that knows a part of the key only. -/
theorem prepareAll_map {κ' : Type} (f : Preparation F U κ') (part : κ → κ') (ks : List κ)
    (vs : List (Value F U)) :
    prepareAll (fun k => f (part k)) ks vs = prepareAll f (ks.map part) vs := by
  induction ks generalizing vs with
  | nil => rfl
  | cons k ks ih =>
      cases vs with
      | nil => rfl
      | cons v vs => simp only [List.map_cons, prepareAll, ih]

/-! ## Numerals -/

/-- A numeral for every conversion. -/
def numerals (ps : List Piece) : List (Value F U) :=
  List.replicate (specs ps).length (.string ['0'])

/-- Strings stay as they are. -/
def Preparation.KeepsStrings (f : Preparation F U κ) : Prop :=
  ∀ k t, f k (.string t) = .ok (.string t)

/-- Arguments behind numerals. -/
theorem prepareAll_numerals {f : Preparation F U κ} (hf : f.KeepsStrings) {ps : List Piece}
    {ks : List κ} (h : ks.length = (specs ps).length) (ks' : List κ) (vs : List (Value F U)) :
    prepareAll f (ks ++ ks') (numerals ps ++ vs) = (do
      let vs ← prepareAll f ks' vs
      return numerals ps ++ vs) := by
  rw [numerals, ← h]
  clear h
  induction ks with
  | nil => simp
  | cons k ks ih =>
      simp only [List.length_cons, List.replicate_succ, List.cons_append, prepareAll, hf k,
        ok_bind, ih, bind_assoc, pure_bind]

theorem prepareAll_only {f : Preparation F U κ} (hf : f.KeepsStrings) (ks : List κ)
    (ps : List Piece) : prepareAll f ks (numerals ps) = .ok (numerals ps) := by
  rw [numerals]
  generalize (specs ps).length = n
  induction ks generalizing n with
  | nil => rfl
  | cons k ks ih =>
      cases n with
      | zero => rfl
      | succ n =>
          rw [List.replicate_succ, prepareAll, hf k, ok_bind, ih, ok_bind]
          rfl

/-- Every conversion accepts its numeral. -/
theorem formatPieces_numerals {L : Lua F U} {ps : List Piece}
    (haccepts : ∀ p ∈ ps, L.acceptsPiece p = true) :
    ∃ text, L.formatPieces ps (numerals ps) = .ok text := by
  induction ps with
  | nil => exact ⟨[], rfl⟩
  | cons p ps ih =>
      obtain ⟨text, htext⟩ := ih fun q hq => haccepts q (by simp [hq])
      have hp := haccepts p (by simp)
      cases p with
      | literal c => exact ⟨c :: text, bind_eq_ok.mpr ⟨text, htext, rfl⟩⟩
      | percent => exact ⟨'%' :: text, bind_eq_ok.mpr ⟨text, htext, rfl⟩⟩
      | spec sp =>
          obtain ⟨x, hx⟩ := L.numeral sp hp
          exact ⟨x ++ text, Lua.formatPieces_spec.mpr ⟨hp, x, text, hx, htext, rfl⟩⟩
      | unfinished mods => cases hp

/-! ## From one way to another -/

/-- What is formatted with `f` is formatted alike with `g`, argument by argument. -/
def TransfersAt (L : Lua F U) (sp : Spec) (k : κ) (f g : Preparation F U κ) : Prop :=
  ∀ v e x, f k v = .ok e → L.convert sp e = .ok x → ∃ w, g k v = .ok w ∧ L.convert sp w = .ok x

/-- The same for all arguments. -/
def Transfers (L : Lua F U) (ps : List Piece) (ks : List κ) (f g : Preparation F U κ) : Prop :=
  ∀ args head, args.length = (specs ps).length →
    (prepareAll f ks args >>= L.formatPieces ps) = .ok head →
    (prepareAll g ks args >>= L.formatPieces ps) = .ok head

section Transfer

variable {L : Lua F U} {ps : List Piece} {ks : List κ} {spec : κ → Spec} {f g : Preparation F U κ}

/-- **All arguments**, if each conversion does so with one. -/
theorem transfers_of_each (hspec : ks.map spec = specs ps)
    (h : ∀ k ∈ ks, TransfersAt L (spec k) k f g) : Transfers L ps ks f g := by
  intro args head hargs hhead
  induction ps generalizing ks args head with
  | nil =>
      obtain rfl := List.map_eq_nil_iff.mp hspec
      exact hhead
  | cons p ps ih =>
      obtain ⟨es, hes, htext⟩ := bind_eq_ok.mp hhead
      cases p with
      | literal c =>
          obtain ⟨rest, hrest, hcons⟩ := bind_eq_ok.mp htext
          obtain ⟨ws, hws, htext⟩ := bind_eq_ok.mp
            (ih hspec h args rest hargs (bind_eq_ok.mpr ⟨es, hes, hrest⟩))
          rw [hws, ok_bind, Lua.formatPieces, htext]
          exact hcons
      | percent =>
          obtain ⟨rest, hrest, hcons⟩ := bind_eq_ok.mp htext
          obtain ⟨ws, hws, htext⟩ := bind_eq_ok.mp
            (ih hspec h args rest hargs (bind_eq_ok.mpr ⟨es, hes, hrest⟩))
          rw [hws, ok_bind, Lua.formatPieces, htext]
          exact hcons
      | spec sp =>
          obtain ⟨k, ks, rfl, hk, hspec⟩ := List.map_eq_cons_iff.mp hspec
          cases args with
          | nil => cases hargs
          | cons v args =>
              obtain ⟨e, es', he, hes', rfl⟩ := prepareAll_cons.mp hes
              obtain ⟨haccepts, x, rest, hx, hrest, rfl⟩ := Lua.formatPieces_spec.mp htext
              rw [← hk] at hx
              obtain ⟨w, hw, hx'⟩ := h k (by simp) v e x he hx
              rw [hk] at hx'
              obtain ⟨ws, hws, htext⟩ := bind_eq_ok.mp
                (ih hspec (fun k' hk' => h k' (by simp [hk'])) args rest (Nat.succ.inj hargs)
                  (bind_eq_ok.mpr ⟨es', hes', hrest⟩))
              rw [prepareAll_cons.mpr ⟨w, ws, hw, hws, rfl⟩, ok_bind]
              exact Lua.formatPieces_spec.mpr ⟨haccepts, x, rest, hx', htext, rfl⟩
      | unfinished mods => cases htext

/-- One argument among numerals. -/
theorem formatPieces_one {pre post : List Piece} {sp : Spec}
    (haccepts : ∀ p ∈ pre ++ .spec sp :: post, L.acceptsPiece p = true) {e : Value F U} {x : Str}
    {before behind : Str} (hbefore : L.formatPieces pre (numerals pre) = .ok before)
    (hbehind : L.formatPieces post (numerals post) = .ok behind) :
    L.formatPieces (pre ++ .spec sp :: post) (numerals pre ++ e :: numerals post)
      = .ok (before ++ (x ++ behind)) ↔ L.convert sp e = .ok x := by
  have hpre : ∀ p ∈ pre, L.acceptsPiece p = true := fun p hp => haccepts p (by simp [hp])
  rw [Lua.formatPieces_append hpre (by simp [numerals]), hbefore, ok_bind, bind_eq_ok]
  constructor
  · rintro ⟨rest, hrest, hcat⟩
    obtain rfl : rest = x ++ behind := List.append_cancel_left (Except.ok.inj hcat)
    obtain ⟨_, y, rest, hy, hrest, hcat⟩ := Lua.formatPieces_spec.mp hrest
    rw [hbehind] at hrest
    obtain rfl := Except.ok.inj hrest
    rw [hy, List.append_cancel_right hcat]
  · intro hx
    have hsp := haccepts (.spec sp) (by simp)
    exact ⟨x ++ behind, Lua.formatPieces_spec.mpr ⟨hsp, x, behind, hx, hbehind, rfl⟩, rfl⟩

/-- The argument of one conversion, among numerals. -/
theorem prepareAll_one (hf : f.KeepsStrings) {pre post : List Piece} {ks ks' : List κ}
    (hks : ks.length = (specs pre).length) (k : κ) (v : Value F U) :
    prepareAll f (ks ++ k :: ks') (numerals pre ++ v :: numerals post) = (do
      let e ← f k v
      return numerals pre ++ e :: numerals post) := by
  rw [prepareAll_numerals hf hks, prepareAll, prepareAll_only hf]
  cases f k v with
  | error err => rfl
  | ok e => rfl

/-- A conversion at its place among the pieces. -/
theorem specs_split {ps : List Piece} {sps sps' : List Spec} {sp : Spec}
    (h : specs ps = sps ++ sp :: sps') : ∃ pre post, ps = pre ++ .spec sp :: post ∧
      specs pre = sps ∧ specs post = sps' := by
  induction ps generalizing sps with
  | nil => simp [specs] at h
  | cons p ps ih =>
      have hstep : (∀ q : Spec, p ≠ .spec q) → ∃ pre post, p :: ps = pre ++ .spec sp :: post ∧
          specs pre = sps ∧ specs post = sps' := by
        intro hp
        have hnil : ∀ qs : List Piece, specs (p :: qs) = specs qs := by
          intro qs
          cases p with
          | spec q => exact absurd rfl (hp q)
          | _ => rfl
        obtain ⟨pre, post, rfl, hpre, hpost⟩ := ih (by rwa [hnil] at h)
        exact ⟨p :: pre, post, rfl, by rwa [hnil], hpost⟩
      cases p with
      | spec q =>
          cases sps with
          | nil =>
              obtain ⟨rfl, rfl⟩ := List.cons.inj h
              exact ⟨[], ps, rfl, rfl, rfl⟩
          | cons s sps =>
              obtain ⟨rfl, hrest⟩ := List.cons.inj h
              obtain ⟨pre, post, rfl, hpre, hpost⟩ := ih hrest
              exact ⟨.spec q :: pre, post, rfl, by rw [specs, hpre], hpost⟩
      | _ => exact hstep (by simp)

/-- **When what is formatted one way is formatted alike the other way.** -/
theorem transfers_iff (haccepts : ∀ p ∈ ps, L.acceptsPiece p = true)
    (hspec : ks.map spec = specs ps) (hf : f.KeepsStrings) (hg : g.KeepsStrings) :
    Transfers L ps ks f g ↔ ∀ k ∈ ks, TransfersAt L (spec k) k f g := by
  refine ⟨fun h k hk v e x he hx => ?_, transfers_of_each hspec⟩
  obtain ⟨ks₁, ks₂, rfl⟩ := List.append_of_mem hk
  rw [List.map_append, List.map_cons] at hspec
  obtain ⟨pre, post, rfl, hpre, hpost⟩ := specs_split hspec.symm
  obtain ⟨before, hbefore⟩ := formatPieces_numerals fun p (hp : p ∈ pre) =>
    haccepts p (by simp [hp])
  obtain ⟨behind, hbehind⟩ := formatPieces_numerals fun p (hp : p ∈ post) =>
    haccepts p (by simp [hp])
  have hlen : ks₁.length = (specs pre).length := by rw [hpre, List.length_map]
  have hargs : (numerals pre ++ v :: numerals post : List (Value F U)).length
      = (specs (pre ++ .spec (spec k) :: post)).length := by
    simp [numerals, specs]
  have hhead := h (numerals pre ++ v :: numerals post) (before ++ (x ++ behind)) hargs <| by
    rw [prepareAll_one hf hlen, he]
    exact (formatPieces_one haccepts hbefore hbehind).mpr hx
  rw [prepareAll_one hg hlen] at hhead
  rcases hw : g k v with err | w
  · rw [hw] at hhead
    cases hhead
  · rw [hw] at hhead
    exact ⟨w, rfl, (formatPieces_one haccepts hbefore hbehind).mp hhead⟩

end Transfer

/-! ## Conversions with their notes -/

/-- The conversions, each with its note. -/
def notedSpecs (ps : List Piece) : List (Spec × Str) := (specs ps).zip (notes none (textOf ps))

section Noted

variable {ps : List Piece}

theorem notedSpecs_fst (h : (notes none (textOf ps)).length = (specs ps).length) :
    (notedSpecs ps).map Prod.fst = specs ps := List.map_fst_zip h.ge

theorem notedSpecs_snd (h : (notes none (textOf ps)).length = (specs ps).length) :
    (notedSpecs ps).map Prod.snd = notes none (textOf ps) := List.map_snd_zip h.le

/-- **A conversion with its note**, where every conversion is noted. -/
theorem mem_notedSpecs_iff (hsound : ∀ p ∈ ps, p.Sound)
    (hnoted : EachSpec (fun sp post => noted sp post ≠ none) ps) {sp : Spec} {c : Str} :
    (sp, c) ∈ notedSpecs ps ↔ ∃ pre post, ps = pre ++ .spec sp :: post ∧ Noted sp post c := by
  induction ps with
  | nil => simp [notedSpecs, specs]
  | cons p ps ih =>
      have hps : ∀ q ∈ ps, q.Sound := fun q hq => hsound q (by simp [hq])
      have hp := hsound p (by simp)
      obtain ⟨hhere, hrest⟩ := eachSpec_cons.mp hnoted
      have hcons : (∃ pre post, p :: ps = pre ++ .spec sp :: post ∧ Noted sp post c) ↔
          (p = .spec sp ∧ Noted sp ps c) ∨ (sp, c) ∈ notedSpecs ps := by
        rw [ih hps hrest]
        constructor
        · rintro ⟨pre, post, heq, hc⟩
          cases pre with
          | nil =>
              obtain ⟨rfl, rfl⟩ := List.cons.inj heq
              exact Or.inl ⟨rfl, hc⟩
          | cons q pre =>
              obtain ⟨rfl, rfl⟩ := List.cons.inj heq
              exact Or.inr ⟨pre, post, rfl, hc⟩
        · rintro (⟨rfl, hc⟩ | ⟨pre, post, rfl, hc⟩)
          · exact ⟨[], ps, rfl, hc⟩
          · exact ⟨p :: pre, post, rfl, hc⟩
      rw [hcons]
      cases p with
      | literal x =>
          have hnotes : notes none (textOf (.literal x :: ps)) = notes none (textOf ps) :=
            notes_literal hp _
          rw [notedSpecs, hnotes]
          simp [specs, notedSpecs]
      | percent => simp [notedSpecs, specs, textOf, Piece.text, notes_percent, notes_escape]
      | spec q =>
          obtain ⟨d, hd⟩ := Option.ne_none_iff_exists'.mp (hhere q rfl)
          rw [notedSpecs, specs, notes_spec hsound hd, List.zip_cons_cons, List.mem_cons,
            ← noted_eq_some hps]
          constructor
          · rintro (h | h)
            · obtain ⟨rfl, rfl⟩ := Prod.mk.inj h
              exact Or.inl ⟨rfl, hd⟩
            · exact Or.inr h
          · rintro (⟨h, hc⟩ | h)
            · obtain rfl := Piece.spec.inj h
              rw [hd] at hc
              exact Or.inl (by rw [Option.some.inj hc])
            · exact Or.inr h
      | unfinished mods => exact hp.elim

end Noted

end Testcase
