import Mathlib.Data.Option.Basic
import Mathlib.Logic.Function.Basic

/-!
# Tables and holders

A table says which resource a number stands for, and each holder of a resource remembers its number.
The two partial maps match if they are inverse to each other: then no two holders have one number,
no holder has a number that stands for something else, and no number stands for a resource that
nobody holds.

* `Matched.bind`, `Matched.unbind` — handing out a free number, and giving one back, keep the match.
* `Matched.congr` — so does everything that changes neither map.
-/

namespace Testcase

variable {N R : Type}

/-- A number stands for a resource exactly if the holder of the resource has that number. -/
def Matched (table : N → Option R) (holds : R → Option N) : Prop :=
  ∀ n r, table n = some r ↔ holds r = some n

namespace Matched

variable {table : N → Option R} {holds : R → Option N}

theorem congr {table' : N → Option R} {holds' : R → Option N} (h : Matched table holds)
    (htable : ∀ n, table' n = table n) (hholds : ∀ r, holds' r = holds r) :
    Matched table' holds' := by
  intro n r
  rw [htable, hholds]
  exact h n r

variable [DecidableEq N] [DecidableEq R] {n : N} {r : R}

/-- A free number is handed out for a resource that nobody holds. -/
theorem bind (h : Matched table holds) (hfree : table n = none) (hnone : holds r = none) :
    Matched (Function.update table n (some r)) (Function.update holds r (some n)) := by
  intro m q
  by_cases hm : m = n
  · subst hm
    by_cases hq : q = r
    · subst hq
      simp
    · have hother : holds q ≠ some m := by
        rw [ne_eq, ← h m q, hfree]
        simp
      simp [Function.update_of_ne hq, hother, Ne.symm hq]
  · by_cases hq : q = r
    · subst hq
      have hother : table m ≠ some q := by
        rw [ne_eq, h m q, hnone]
        simp
      simp [Function.update_of_ne hm, hother, Ne.symm hm]
    · rw [Function.update_of_ne hm, Function.update_of_ne hq]
      exact h m q

/-- The number of a resource is given back. -/
theorem unbind (h : Matched table holds) (hheld : holds r = some n) :
    Matched (Function.update table n none) (Function.update holds r none) := by
  have htable := (h n r).mpr hheld
  intro m q
  by_cases hm : m = n
  · subst hm
    have hother : Function.update holds r none q ≠ some m := by
      by_cases hq : q = r
      · simp [hq]
      · rw [Function.update_of_ne hq, ne_eq, ← h m q, htable, Option.some.injEq]
        exact Ne.symm hq
    simp [hother]
  · rw [Function.update_of_ne hm]
    by_cases hq : q = r
    · subst hq
      have hother : table m ≠ some q := by
        rw [ne_eq, h m q, hheld, Option.some.injEq]
        exact Ne.symm hm
      simp [hother]
    · rw [Function.update_of_ne hq]
      exact h m q

end Matched

end Testcase
