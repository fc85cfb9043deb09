import Mathlib.Data.List.Induction
import LuaTestcase.Output.Printer

/-!
# What `parse_format` makes of a format string

The scanner of `parse_format` against the grammar of `string.format`.  A conversion opens a
specifier unless a specifier is open, which it then closes.  An open specifier is notified at the
next space or at the end of the string, and an escaped percent sign in between opens it anew.

* `noted` — what is notified for a conversion in front of other pieces.
* `notes_spec` — a conversion and the pieces behind it.
* `notes_length_le` — **never more notes than conversions**.
* `notes_length_eq_iff` — as many if and only if every conversion is noted.
* `Noted`, `noted_eq_some` — which conversions these are, without the scanner.
-/

namespace Testcase

variable {F U : Type}

/-- A piece of a format string that is accepted. -/
def Piece.Sound : Piece → Prop
  | literal c => c ≠ '%'
  | percent => True
  | spec sp => '%' ∉ sp.mods ∧ sp.conv ≠ '%' ∧ sp.conv ≠ ' '
  | unfinished _ => False

/-- The pieces as a string. -/
def textOf (ps : List Piece) : Str := ps.flatMap Piece.text

theorem textOf_pieces (s : Str) : textOf (pieces none s) = s := flatMap_text none s

theorem Lua.Accepts.sound {L : Lua F U} {s : Str} (h : L.Accepts s) :
    ∀ p ∈ pieces none s, p.Sound := by
  intro p hp
  have hread : p.IsRead := isRead_of_mem (by simp) p hp
  have haccepts := h p hp
  cases p with
  | literal c => exact hread
  | percent => trivial
  | spec sp =>
      have hletter : sp.conv.isAlpha = true := by
        have hgrammar := L.grammar sp haccepts
        simp only [Spec.wellFormed, Bool.and_eq_true] at hgrammar
        exact hgrammar.2
      refine ⟨fun hmem => absurd (hread _ hmem) (by decide), ?_, ?_⟩
      · intro hconv
        rw [hconv] at hletter
        exact absurd hletter (by decide)
      · intro hconv
        rw [hconv] at hletter
        exact absurd hletter (by decide)
  | unfinished mods => cases haccepts

/-! ## The scanner on pieces -/

/-- What is notified of a specifier that is open, with what stands behind its percent sign. -/
def followed : Str → List Piece → Option Str
  | behind, [] => some (behind.take 1)
  | behind, .literal c :: ps =>
    if c = ' ' then if behind = [] then none else some (behind.take 1)
    else followed (behind ++ [c]) ps
  | _, .percent :: ps => followed [] ps
  | _, .spec _ :: _ => none
  | _, .unfinished _ :: _ => none

/-- What is notified for a conversion in front of the pieces. -/
def noted (sp : Spec) (ps : List Piece) : Option Str :=
  if sp.mods.head? = some ' ' then none
  else if ' ' ∈ sp.mods then some (sp.mods.take 1)
  else followed (sp.mods ++ [sp.conv]) ps

/-- Characters while no specifier is open. -/
theorem notes_closed {t : Str} (ht : '%' ∉ t) (s : Str) : notes none (t ++ s) = notes none s := by
  induction t with
  | nil => rfl
  | cons c t ih =>
      have hc : c ≠ '%' := fun h => ht (by simp [h])
      simp only [List.cons_append, notes, scanChar, if_neg hc, List.nil_append]
      exact ih fun hmem => ht (by simp [hmem])

/-- Characters behind the percent sign. -/
theorem notes_open {t : Str} (ht : '%' ∉ t) (hblank : ' ' ∉ t) (behind s : Str) :
    notes (some behind) (t ++ s) = notes (some (behind ++ t)) s := by
  induction t generalizing behind with
  | nil => simp
  | cons c t ih =>
      have hc : c ≠ '%' := fun h => ht (by simp [h])
      have hc' : c ≠ ' ' := fun h => hblank (by simp [h])
      simp only [List.cons_append, notes, scanChar, if_neg hc, if_neg hc', List.nil_append]
      rw [ih (fun hmem => ht (by simp [hmem])) fun hmem => hblank (by simp [hmem])]
      simp

theorem notes_percent (s : Str) : notes none ('%' :: s) = notes (some []) s := rfl

theorem notes_escape (behind s : Str) : notes (some behind) ('%' :: s) = notes none s := rfl

theorem notes_space (behind s : Str) : notes (some behind) (' ' :: s)
    = (if behind = [] then [] else [behind.take 1]) ++ notes none s := rfl

/-- A conversion with a space among its flags. -/
theorem notes_flag {sp : Spec} (hsound : (Piece.spec sp).Sound) (hflag : ' ' ∈ sp.mods) (s : Str) :
    notes none (sp.text ++ s) = (if sp.mods.head? = some ' ' then [] else [sp.mods.take 1])
      ++ notes none s := by
  obtain ⟨hmods, hconv, _⟩ := hsound
  -- the first space ends the specifier, and the rest of the conversion is taken for text
  obtain ⟨pre, post, heq, hpre⟩ := List.eq_append_cons_of_mem hflag
  have hpercent : '%' ∉ pre := fun h => hmods (by simp [heq, h])
  have hrest : '%' ∉ post ++ [sp.conv] := by
    intro h
    rcases List.mem_append.mp h with h | h
    · exact hmods (by simp [heq, h])
    · exact hconv (List.mem_singleton.mp h).symm
  have htext : sp.text ++ s = '%' :: (pre ++ ' ' :: ((post ++ [sp.conv]) ++ s)) := by
    simp [Spec.text, heq]
  rw [htext, notes_percent, notes_open hpercent hpre, List.nil_append, notes_space,
    notes_closed hrest, heq]
  cases pre with
  | nil => rfl
  | cons c pre =>
      have hc : c ≠ ' ' := fun h => hpre (by simp [h])
      simp [hc]

/-- A conversion without one. -/
theorem notes_noflag {sp : Spec} (hsound : (Piece.spec sp).Sound) (hflag : ' ' ∉ sp.mods)
    (s : Str) : notes none (sp.text ++ s) = notes (some (sp.mods ++ [sp.conv])) s := by
  obtain ⟨hmods, hconv, hblank⟩ := hsound
  refine (notes_percent _).trans (notes_open ?_ ?_ [] s)
  · simp [hmods, hconv.symm]
  · simp [hflag, hblank.symm]

/-- A conversion while a specifier is open. -/
theorem notes_lost {sp : Spec} (hsound : (Piece.spec sp).Sound) (behind s : Str) :
    notes (some behind) (sp.text ++ s) = notes none s := by
  obtain ⟨hmods, hconv, _⟩ := hsound
  refine (notes_escape behind _).trans (notes_closed ?_ s)
  simp [hmods, hconv.symm]

theorem notes_literal {c : Char} (hc : c ≠ '%') (s : Str) : notes none (c :: s) = notes none s :=
  @notes_closed [c] (by simp [hc.symm]) s

theorem notes_behind {c : Char} (hc : c ≠ '%') (hblank : c ≠ ' ') (behind s : Str) :
    notes (some behind) (c :: s) = notes (some (behind ++ [c])) s :=
  @notes_open [c] (by simp [hc.symm]) (by simp [hblank.symm]) behind s

/-- While a specifier is open: its note comes first. -/
theorem notes_followed {ps : List Piece} (hsound : ∀ p ∈ ps, p.Sound) {behind c : Str}
    (h : followed behind ps = some c) :
    notes (some behind) (textOf ps) = c :: notes none (textOf ps) := by
  induction ps generalizing behind with
  | nil =>
      obtain rfl := Option.some.inj h
      rfl
  | cons p ps ih =>
      have hps : ∀ q ∈ ps, q.Sound := fun q hq => hsound q (by simp [hq])
      have hp := hsound p (by simp)
      cases p with
      | literal x =>
          change notes _ (x :: textOf ps) = _ :: notes none (x :: textOf ps)
          rw [notes_literal hp]
          rw [followed] at h
          split_ifs at h with hblank hnil
          · obtain rfl := Option.some.inj h
            rw [hblank, notes_space, if_neg hnil]
            rfl
          · rw [notes_behind hp hblank, ih hps h]
      | percent => exact ih hps h
      | spec sp => cases h
      | unfinished mods => exact hp.elim

/-- A conversion and what is notified for it. -/
theorem notes_spec {sp : Spec} {ps : List Piece} (hsound : ∀ p ∈ Piece.spec sp :: ps, p.Sound)
    {c : Str} (h : noted sp ps = some c) :
    notes none (textOf (.spec sp :: ps)) = c :: notes none (textOf ps) := by
  have hsp := hsound (.spec sp) (by simp)
  change notes none (sp.text ++ textOf ps) = _
  rw [noted] at h
  split_ifs at h with hfirst hflag
  · obtain rfl := Option.some.inj h
    rw [notes_flag hsp hflag, if_neg hfirst]
    rfl
  · rw [notes_noflag hsp hflag]
    exact notes_followed (fun q hq => hsound q (by simp [hq])) h

/-- The notes, while no specifier is open, and while one is open that is lost. -/
theorem notes_bounds {ps : List Piece} (hsound : ∀ p ∈ ps, p.Sound) :
    (notes none (textOf ps)).length ≤ (specs ps).length ∧ ∀ behind, followed behind ps = none →
      (notes (some behind) (textOf ps)).length ≤ (specs ps).length := by
  induction ps with
  | nil => exact ⟨Nat.le_refl _, fun behind h => by cases h⟩
  | cons p ps ih =>
      have hps : ∀ q ∈ ps, q.Sound := fun q hq => hsound q (by simp [hq])
      have hp := hsound p (by simp)
      obtain ⟨hclosed, hopen⟩ := ih hps
      cases p with
      | literal x =>
          refine ⟨?_, fun behind h => ?_⟩
          · change (notes none (x :: textOf ps)).length ≤ _
            rw [notes_literal hp]
            exact hclosed
          · change (notes _ (x :: textOf ps)).length ≤ _
            rw [followed] at h
            split_ifs at h with hblank hnil
            · rw [hblank, notes_space, if_pos hnil]
              exact hclosed
            · rw [notes_behind hp hblank]
              exact hopen _ h
      | percent => exact ⟨hclosed, fun _ h => hopen [] h⟩
      | spec sp =>
          refine ⟨?_, fun behind _ => ?_⟩
          · change (notes none (sp.text ++ textOf ps)).length ≤ (specs ps).length + 1
            by_cases hflag : ' ' ∈ sp.mods
            · rw [notes_flag hp hflag, List.length_append]
              split_ifs
              · simp only [List.length_nil]
                omega
              · simp only [List.length_singleton]
                omega
            · rw [notes_noflag hp hflag]
              rcases hfollowed : followed (sp.mods ++ [sp.conv]) ps with _ | c
              · exact Nat.le_succ_of_le (hopen _ hfollowed)
              · rw [notes_followed hps hfollowed]
                exact Nat.succ_le_succ hclosed
          · change (notes _ (sp.text ++ textOf ps)).length ≤ (specs ps).length + 1
            rw [notes_lost hp]
            exact Nat.le_succ_of_le hclosed
      | unfinished mods => exact hp.elim

/-- **Never more notes than conversions.** -/
theorem notes_length_le {ps : List Piece} (hsound : ∀ p ∈ ps, p.Sound) :
    (notes none (textOf ps)).length ≤ (specs ps).length :=
  (notes_bounds hsound).1

/-- A conversion for which nothing is notified is one less. -/
theorem notes_unnoted {sp : Spec} {ps : List Piece} (hsound : ∀ p ∈ Piece.spec sp :: ps, p.Sound)
    (h : noted sp ps = none) :
    (notes none (textOf (.spec sp :: ps))).length ≤ (specs ps).length := by
  have hps : ∀ q ∈ ps, q.Sound := fun q hq => hsound q (by simp [hq])
  have hsp := hsound (.spec sp) (by simp)
  change (notes none (sp.text ++ textOf ps)).length ≤ _
  rw [noted] at h
  split_ifs at h with hfirst hflag
  · have hflag : ' ' ∈ sp.mods := List.mem_of_mem_head? hfirst
    rw [notes_flag hsp hflag, if_pos hfirst]
    exact notes_length_le hps
  · rw [notes_noflag hsp hflag]
    exact (notes_bounds hps).2 _ h

/-- What holds of every conversion and the pieces behind it. -/
def EachSpec (P : Spec → List Piece → Prop) (ps : List Piece) : Prop :=
  ∀ pre sp post, ps = pre ++ .spec sp :: post → P sp post

theorem eachSpec_cons {P : Spec → List Piece → Prop} {p : Piece} {ps : List Piece} :
    EachSpec P (p :: ps) ↔ (∀ sp, p = .spec sp → P sp ps) ∧ EachSpec P ps := by
  constructor
  · intro h
    refine ⟨fun sp hp => h [] sp ps (by rw [hp]; rfl), fun pre sp post hps => ?_⟩
    exact h (p :: pre) sp post (by rw [hps]; rfl)
  · rintro ⟨hp, hps⟩ pre sp post heq
    cases pre with
    | nil =>
        obtain ⟨rfl, rfl⟩ := List.cons.inj heq
        exact hp sp rfl
    | cons q pre =>
        obtain ⟨rfl, rfl⟩ := List.cons.inj heq
        exact hps pre sp post rfl

/-- **As many notes as conversions**, if and only if something is notified for each of them. -/
theorem notes_length_eq_iff {ps : List Piece} (hsound : ∀ p ∈ ps, p.Sound) :
    (notes none (textOf ps)).length = (specs ps).length ↔
      EachSpec (fun sp post => noted sp post ≠ none) ps := by
  induction ps with
  | nil => simp [textOf, specs, notes, EachSpec]
  | cons p ps ih =>
      have hps : ∀ q ∈ ps, q.Sound := fun q hq => hsound q (by simp [hq])
      have hp := hsound p (by simp)
      rw [eachSpec_cons, ← ih hps]
      cases p with
      | literal c =>
          change (notes none (c :: textOf ps)).length = (specs ps).length ↔ _
          rw [notes_literal hp]
          simp
      | percent =>
          change (notes none (textOf ps)).length = (specs ps).length ↔ _
          simp
      | spec sp =>
          rcases hnoted : noted sp ps with _ | c
          · have hle := notes_unnoted hsound hnoted
            simp only [specs, List.length_cons, Piece.spec.injEq, forall_eq', hnoted]
            constructor
            · intro h
              omega
            · rintro ⟨h, _⟩
              exact absurd rfl h
          · rw [notes_spec hsound hnoted]
            simp [specs, hnoted]
      | unfinished mods => exact hp.elim

/-! ## The conversions that are noted -/

/-- The text up to the next space, without a conversion. -/
def IsGap (gap : List Piece) : Prop := ∀ p ∈ gap, p ≠ .literal ' ' ∧ ∀ sp, p ≠ .spec sp

/-- What stands behind the last percent sign. -/
def lastPart : Str → List Piece → Str
  | behind, [] => behind
  | behind, .literal c :: ps => lastPart (behind ++ [c]) ps
  | _, .percent :: ps => lastPart [] ps
  | behind, .spec _ :: ps => lastPart behind ps
  | behind, .unfinished _ :: ps => lastPart behind ps

/-- Which conversions in front of other pieces are noted, and with what: those with a space among
their flags that is not the first of them, and those without one, if behind them a space or the end
of the string comes before the next conversion.  The space must not stand right behind an escaped
percent sign. -/
inductive Noted (sp : Spec) : List Piece → Str → Prop
  | flag {ps : List Piece} : ' ' ∈ sp.mods → sp.mods.head? ≠ some ' ' →
      Noted sp ps (sp.mods.take 1)
  | last {gap : List Piece} : ' ' ∉ sp.mods → IsGap gap →
      Noted sp gap ((lastPart (sp.mods ++ [sp.conv]) gap).take 1)
  | space {gap ps : List Piece} : ' ' ∉ sp.mods → IsGap gap → gap.getLast? ≠ some .percent →
      Noted sp (gap ++ .literal ' ' :: ps) ((lastPart (sp.mods ++ [sp.conv]) gap).take 1)

theorem lastPart_append (behind : Str) (ps qs : List Piece) :
    lastPart behind (ps ++ qs) = lastPart (lastPart behind ps) qs := by
  induction ps generalizing behind with
  | nil => rfl
  | cons p ps ih =>
      cases p with
      | _ => exact ih _

theorem lastPart_ne_nil {behind : Str} (hbehind : behind ≠ []) {gap : List Piece}
    (hgap : IsGap gap) (hsound : ∀ p ∈ gap, p.Sound) :
    lastPart behind gap ≠ [] ↔ gap.getLast? ≠ some .percent := by
  induction gap using List.reverseRecOn with
  | nil => simpa [lastPart] using hbehind
  | append_singleton gap p =>
      rw [lastPart_append]
      cases p with
      | literal c => simp [lastPart]
      | percent => simp [lastPart]
      | spec sp => exact absurd rfl ((hgap (.spec sp) (by simp)).2 sp)
      | unfinished mods => exact (hsound (.unfinished mods) (by simp)).elim

/-- Up to the next space. -/
theorem followed_gap {gap : List Piece} (hgap : IsGap gap) (hsound : ∀ p ∈ gap, p.Sound)
    (behind : Str) (ps : List Piece) :
    followed behind (gap ++ ps) = followed (lastPart behind gap) ps := by
  induction gap generalizing behind with
  | nil => rfl
  | cons p gap ih =>
      have hrest := ih (fun q hq => hgap q (by simp [hq])) fun q hq => hsound q (by simp [hq])
      cases p with
      | literal c =>
          have hc : c ≠ ' ' := by
            rintro rfl
            exact (hgap _ (by simp)).1 rfl
          simp only [List.cons_append, followed, if_neg hc, lastPart, hrest]
      | percent => exact hrest []
      | spec sp => exact absurd rfl ((hgap (.spec sp) (by simp)).2 sp)
      | unfinished mods => exact (hsound (.unfinished mods) (by simp)).elim

theorem followed_eq_some {behind c : Str} {ps : List Piece} (h : followed behind ps = some c) :
    ∃ gap, IsGap gap ∧ c = (lastPart behind gap).take 1 ∧
      (ps = gap ∨ ∃ rest, ps = gap ++ .literal ' ' :: rest ∧ lastPart behind gap ≠ []) := by
  induction ps generalizing behind with
  | nil =>
      obtain rfl := Option.some.inj h
      exact ⟨[], by simp [IsGap], rfl, Or.inl rfl⟩
  | cons p ps ih =>
      have hcons : ∀ behind', lastPart behind' = (fun gap => lastPart behind (p :: gap)) →
          p ≠ .literal ' ' → (∀ sp, p ≠ .spec sp) → followed behind' ps = some c →
          ∃ gap, IsGap gap ∧ c = (lastPart behind gap).take 1 ∧ (p :: ps = gap ∨
            ∃ rest, p :: ps = gap ++ .literal ' ' :: rest ∧ lastPart behind gap ≠ []) := by
        intro behind' hlast hblank hspec h
        obtain ⟨gap, hgap, hc, hps⟩ := ih h
        rw [hlast] at hc hps
        refine ⟨p :: gap, ?_, hc, ?_⟩
        · intro q hq
          rcases List.mem_cons.mp hq with rfl | hq
          · exact ⟨hblank, hspec⟩
          · exact hgap q hq
        · rcases hps with rfl | ⟨rest, rfl, hne⟩
          · exact Or.inl rfl
          · exact Or.inr ⟨rest, rfl, hne⟩
      cases p with
      | literal x =>
          rw [followed] at h
          split_ifs at h with hblank hnil
          · obtain rfl := Option.some.inj h
            refine ⟨[], by simp [IsGap], rfl, Or.inr ⟨ps, ?_, hnil⟩⟩
            rw [hblank, List.nil_append]
          · exact hcons _ rfl (by simpa using hblank) (by simp) h
      | percent => exact hcons [] rfl (by simp) (by simp) h
      | spec sp => cases h
      | unfinished mods => cases h

/-- **What the scanner notes**, said without it. -/
theorem noted_eq_some {sp : Spec} {ps : List Piece} (hsound : ∀ p ∈ ps, p.Sound) {c : Str} :
    noted sp ps = some c ↔ Noted sp ps c := by
  have hne : sp.mods ++ [sp.conv] ≠ [] := by simp
  constructor
  · intro h
    rw [noted] at h
    split_ifs at h with hfirst hflag
    · obtain rfl := Option.some.inj h
      exact Noted.flag hflag hfirst
    · obtain ⟨gap, hgap, rfl, rfl | ⟨rest, rfl, hlast⟩⟩ := followed_eq_some h
      · exact Noted.last hflag hgap
      · refine Noted.space hflag hgap ((lastPart_ne_nil hne hgap fun p hp => ?_).mp hlast)
        exact hsound p (by simp [hp])
  · intro h
    have hnoted : ' ' ∉ sp.mods → noted sp ps = followed (sp.mods ++ [sp.conv]) ps := by
      intro hflag
      have hfirst : sp.mods.head? ≠ some ' ' := fun h => hflag (List.mem_of_mem_head? h)
      rw [noted, if_neg hfirst, if_neg hflag]
    cases h with
    | flag hflag hfirst => rw [noted, if_neg hfirst, if_pos hflag]
    | last hflag hgap =>
        have hfollowed := followed_gap hgap hsound (sp.mods ++ [sp.conv]) []
        rw [List.append_nil] at hfollowed
        rw [hnoted hflag, hfollowed]
        rfl
    | @space gap rest hflag hgap hlast =>
        have hsound' : ∀ p ∈ gap, p.Sound := fun p hp => hsound p (by simp [hp])
        rw [hnoted hflag, followed_gap hgap hsound', followed, if_pos rfl,
          if_neg ((lastPart_ne_nil hne hgap hsound').mpr hlast)]

end Testcase
