import Mathlib.Data.List.Sort

/-!
# Sorting with a comparison function, whatever the algorithm

`Sorts lt l l'` is all that a correct sorting algorithm promises about its result: a permutation
of the input without an inversion.  Elements that the comparison does not tell apart may come out
in any order: a stable sort of two inputs that list a tied pair in opposite order gives two
different results (`sortBy_keeps_ties`, `eq_of_pair_sublists`).
-/

namespace Testcase

variable {α κ : Type}

/-- A comparison function sorting algorithms may rely on. -/
structure StrictWeak (lt : α → α → Bool) : Prop where
  asymm : ∀ a b, lt a b = true → lt b a = false
  trans : ∀ a b c, lt b a = false → lt c b = false → lt c a = false

/-- Comparing a key in a linear order. -/
theorem strictWeak_key [LinearOrder κ] (key : α → κ) :
    StrictWeak fun a b => decide (key a < key b) where
  asymm a b h := by
    simp only [decide_eq_true_eq, decide_eq_false_iff_not, not_lt] at h ⊢
    exact h.le
  trans a b c hab hbc := by
    simp only [decide_eq_false_iff_not, not_lt] at hab hbc ⊢
    exact hab.trans hbc

/-- `l'` is a result a correct sorting algorithm may give for `l`. -/
structure Sorts (lt : α → α → Bool) (l l' : List α) : Prop where
  perm : l'.Perm l
  sorted : l'.Pairwise fun a b => lt b a = false

/-- A stable sort. -/
def sortBy (lt : α → α → Bool) (l : List α) : List α := l.insertionSort fun a b => lt b a = false

/-- The stable sort is a correct one. -/
theorem sortBy_sorts {lt : α → α → Bool} (hlt : StrictWeak lt) (l : List α) :
    Sorts lt l (sortBy lt l) := by
  have : Std.Total fun a b => lt b a = false := ⟨fun a b => by
    by_cases h : lt b a = true
    · exact Or.inr (hlt.asymm _ _ h)
    · exact Or.inl (by simpa using h)⟩
  have : IsTrans α fun a b => lt b a = false := ⟨fun a b c hab hbc => hlt.trans a b c hab hbc⟩
  exact ⟨List.perm_insertionSort _ l, List.pairwise_insertionSort _ l⟩

/-- The stable sort keeps two elements in order that the comparison does not invert. -/
theorem sortBy_keeps_ties {lt : α → α → Bool} {a b : α} {l : List α} (hab : lt b a = false)
    (h : [a, b].Sublist l) : [a, b].Sublist (sortBy lt l) :=
  List.pair_sublist_insertionSort hab h

/-- In a list without repetitions two different elements come in one order only. -/
theorem eq_of_pair_sublists {a b : α} {l : List α} (hl : l.Nodup) (hab : [a, b].Sublist l)
    (hba : [b, a].Sublist l) : a = b := by
  induction l with
  | nil => simp at hab
  | cons c l ih =>
      obtain ⟨hc, hl⟩ := List.nodup_cons.mp hl
      by_cases hac : a = c
      · subst hac
        -- `a` is at the front, so it does not come again behind `b`
        rcases hba with _ | ⟨_, hba⟩ | ⟨_, hba⟩
        · exact absurd (hba.subset (by simp)) hc
        · rfl
      · by_cases hbc : b = c
        · subst hbc
          rcases hab with _ | ⟨_, hab⟩ | ⟨_, hab⟩
          · exact absurd (hab.subset (by simp)) hc
          · exact absurd rfl hac
        · refine ih hl ?_ ?_
          · rcases hab with _ | ⟨_, hab⟩ | ⟨_, hab⟩
            · exact hab
            · exact absurd rfl hac
          · rcases hba with _ | ⟨_, hba⟩ | ⟨_, hba⟩
            · exact hba
            · exact absurd rfl hbc

/-- Two different members of a list come in one order or in the other. -/
theorem pair_sublist_of_mem {a b : α} {l : List α} (ha : a ∈ l) (hb : b ∈ l) (hne : a ≠ b) :
    [a, b].Sublist l ∨ [b, a].Sublist l := by
  induction l with
  | nil => simp at ha
  | cons c l ih =>
      rcases List.mem_cons.mp ha with rfl | ha'
      · rcases List.mem_cons.mp hb with rfl | hb'
        · exact absurd rfl hne
        · exact Or.inl ((List.singleton_sublist.mpr hb').cons_cons a)
      · rcases List.mem_cons.mp hb with rfl | hb'
        · exact Or.inr ((List.singleton_sublist.mpr ha').cons_cons b)
        · exact (ih ha' hb').imp (fun h => h.cons c) (fun h => h.cons c)

end Testcase
