import Mathlib.Data.Char
import Mathlib.Data.List.Lex

/-!
# Lua strings and `string.sub`

A Lua string is a sequence of bytes.  It is modelled as a `List Char` in which every character
stands for one byte: the programs compare bytes with ASCII constants and with each other and
never decode them, so a statement about every `List Char` covers every byte string, and the
lexicographic order of `List Char` is the byte order that `<` has in the C locale.

`sub` is `string.sub` with its index conventions — 1-based, negative indices counted from the
end, out-of-range indices clipped.  The programs use it in four fixed shapes, and the lemmas
below reduce those shapes to `take` and `drop` once and for all:

* `sub s 1 n`, the first `n` bytes (`sub_one`);
* `sub s (n + 1) (-1)`, all but the first `n` bytes (`sub_from`);
* `sub s (a + 1) b`, the bytes between two positions (`sub_range`);
* `sub s (-n) (-1)`, the last `n` bytes (`sub_last`).
-/

namespace Testcase

/-- A Lua string, one character for each byte. -/
abbrev Str := List Char

instance : LawfulBEq Str := inferInstance

/-- `posrelat` of the string library: a negative index counts from the end, and one before the
first byte becomes `0`. -/
def posrelat (i : Int) (len : Nat) : Int :=
  if 0 ≤ i then i else if (len : Int) < -i then 0 else len + i + 1

/-- `string.sub(s, i, j)`.  Lua's default for `j` is `-1`, and the callers below write it out. -/
def sub (s : Str) (i j : Int) : Str :=
  let first := max (posrelat i s.length) 1
  let last := min (posrelat j s.length) s.length
  if last < first then [] else (s.drop (first - 1).toNat).take (last - first + 1).toNat

/-- `sub(s, 1, n)` is the first `n` bytes. -/
theorem sub_one (s : Str) (n : Nat) : sub s 1 n = s.take n := by
  have hp : posrelat (n : Int) s.length = n := by simp [posrelat]
  have h1 : posrelat 1 s.length = 1 := by simp [posrelat]
  simp only [sub, hp, h1]
  by_cases hn : n = 0 ∨ s.length = 0
  · rw [if_pos (by omega)]
    rcases hn with rfl | hs
    · simp
    · simp [List.length_eq_zero_iff.mp hs]
  · rw [if_neg (by omega)]
    have hlen : (min (n : Int) s.length - max 1 1 + 1).toNat = min n s.length := by omega
    rw [hlen]
    simp

/-- `sub(s, n + 1)` is all but the first `n` bytes. -/
theorem sub_from (s : Str) (n : Nat) : sub s (n + 1) (-1) = s.drop n := by
  have hp : posrelat ((n : Int) + 1) s.length = n + 1 := by
    rw [posrelat, if_pos (by omega)]
  have hl : posrelat (-1) s.length = s.length := by
    simp only [posrelat]
    split_ifs <;> omega
  simp only [sub, hp, hl]
  by_cases hn : s.length ≤ n
  · rw [if_pos (by omega), List.drop_eq_nil_of_le hn]
  · rw [if_neg (by omega)]
    have hfirst : (max ((n : Int) + 1) 1 - 1).toNat = n := by omega
    have hcount : (min (s.length : Int) s.length - max ((n : Int) + 1) 1 + 1).toNat
        = s.length - n := by omega
    rw [hfirst, hcount]
    exact List.take_of_length_le (by simp)

/-- `sub(s, a + 1, b)` is what stands behind the first `a` bytes, up to the `b`-th. -/
theorem sub_range (s : Str) (a b : Nat) : sub s (a + 1) b = (s.drop a).take (b - a) := by
  have hp : posrelat ((a : Int) + 1) s.length = a + 1 := by
    rw [posrelat, if_pos (by omega)]
  have hq : posrelat (b : Int) s.length = b := by simp [posrelat]
  simp only [sub, hp, hq]
  by_cases hab : b ≤ a ∨ s.length ≤ a
  · rw [if_pos (by omega)]
    rcases hab with hab | hab
    · simp [Nat.sub_eq_zero_of_le hab]
    · simp [List.drop_eq_nil_of_le hab]
  · rw [if_neg (by omega)]
    have hfirst : (max ((a : Int) + 1) 1 - 1).toNat = a := by omega
    have hcount : (min (b : Int) s.length - max ((a : Int) + 1) 1 + 1).toNat
        = min (b - a) (s.length - a) := by omega
    have hall : (s.drop a).take (s.length - a) = s.drop a := List.take_of_length_le (by simp)
    rw [hfirst, hcount, ← List.take_take, hall]

/-- `sub(s, -n)` is the last `n` bytes, for a positive `n`; `sub(s, -0)` is all of `s`. -/
theorem sub_last (s : Str) (n : Nat) (hn : 0 < n) :
    sub s (-n) (-1) = s.drop (s.length - n) := by
  by_cases hlt : s.length < n
  · have hp : posrelat (-(n : Int)) s.length = 0 := by
      rw [posrelat, if_neg (by omega), if_pos (by omega)]
    have h1 : posrelat 1 s.length = 1 := by simp [posrelat]
    have hz : s.length - n = 0 := by omega
    -- clipped to the first byte, so the same string as `sub(s, 1)`
    have h : sub s 1 (-1) = s.drop 0 := sub_from s 0
    rw [hz, ← h]
    simp only [sub, hp, h1]
    rfl
  · have hp : posrelat (-(n : Int)) s.length = ((s.length - n : Nat) : Int) + 1 := by
      rw [posrelat, if_neg (by omega), if_neg (by omega)]
      omega
    have hq : posrelat (((s.length - n : Nat) : Int) + 1) s.length
        = ((s.length - n : Nat) : Int) + 1 := by
      rw [posrelat, if_pos (by omega)]
    have h := sub_from s (s.length - n)
    simp only [sub, hq] at h
    simp only [sub, hp]
    exact h

/-- `sub(s, 1, #p) == p` is the prefix test. -/
theorem sub_one_eq_iff (s p : Str) : sub s 1 p.length = p ↔ p <+: s := by
  rw [sub_one]
  constructor
  · intro h
    exact List.prefix_iff_eq_take.mpr h.symm
  · intro h
    exact (List.prefix_iff_eq_take.mp h).symm

end Testcase
