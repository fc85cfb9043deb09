import LuaTestcase.Lua.Pattern

/-!
# `testcase.trim`

`lib/trim.lua`, and what its users need to know: what `trim.prefix` does on a string that has the
prefix and on one that has not, and which part of a string `trim.space` keeps.  Nothing below
unfolds the definitions again.
-/

namespace Testcase

/-- `trim_space(s)`: `match(s, '^%s*(.-)%s*$')`, which matches every string. -/
def trimSpace (s : Str) : Str :=
  ((matchItems List.isEmpty (spaces ++ [⟨fun _ => true, .minus⟩] ++ spaces) s).bind
    fun segs => segs[1]?).getD []

/-- `trim_prefix(s, prefix)`. -/
def trimPrefix (s pre : Str) : Str :=
  if sub s 1 pre.length = pre then sub s (pre.length + 1) (-1) else s

/-- `trim_suffix(s, suffix)`.  With an empty suffix the test compares the whole string. -/
def trimSuffix (s suffix : Str) : Str :=
  if sub s (-suffix.length) (-1) = suffix then sub s 1 (s.length - suffix.length) else s

/-- `%s*$` matches white space, and nothing else. -/
theorem matchItems_spaces (s : Str) :
    matchItems List.isEmpty spaces s = if s.all isSpace then some [s] else none := by
  have hstop : ∀ c rest, isSpace c = true →
      matchItems List.isEmpty [] (c :: rest) = none := fun c rest _ => rfl
  show (maxExpand isSpace (matchItems List.isEmpty []) s).map (fun r => r.1 :: r.2) = _
  rw [maxExpand_eq hstop, Option.map_map]
  by_cases hs : s.all isSpace = true
  · have hall : ∀ c ∈ s, isSpace c = true := by simpa using hs
    have hdrop : s.dropWhile isSpace = [] := List.dropWhile_eq_nil_iff.mpr hall
    have htake : s.takeWhile isSpace = s := List.takeWhile_eq_self_iff.mpr hall
    rw [hdrop, if_pos hs]
    simp [matchItems, htake]
  · have hdrop : s.dropWhile isSpace ≠ [] := by
      intro hdrop
      exact hs (by simpa using List.dropWhile_eq_nil_iff.mp hdrop)
    rw [if_neg hs]
    simp [matchItems, hdrop]

/-- **What `trim.space` keeps**: the string without its leading and trailing white space. -/
theorem trimSpace_eq (s : Str) : trimSpace s = (s.dropWhile isSpace).rdropWhile isSpace := by
  have hrest : ∀ t : Str,
      matchItems List.isEmpty ([⟨fun _ => true, .minus⟩] ++ spaces) t
        = some [t.rdropWhile isSpace, t.rtakeWhile isSpace] := by
    intro t
    have hspace : (t.rtakeWhile isSpace).all isSpace = true := by
      simpa using fun c hc => List.mem_rtakeWhile_imp hc
    have hmin : minExpand (fun _ => true) (matchItems List.isEmpty spaces)
        (t.rdropWhile isSpace ++ t.rtakeWhile isSpace)
          = some (t.rdropWhile isSpace, [t.rtakeWhile isSpace]) := by
      refine minExpand_eq (by simp) ?_ (by rw [matchItems_spaces, if_pos hspace])
      -- what ends with the last byte that is kept is not all white space
      intro u hu hsuffix
      rw [matchItems_spaces, if_neg]
      intro hall
      have hne : t.rdropWhile isSpace ≠ [] := hsuffix.ne_nil hu
      refine List.rdropWhile_last_not isSpace t hne ?_
      rw [← hsuffix.getLast hu]
      have hmem : u.getLast hu ∈ u ++ t.rtakeWhile isSpace := by simp
      exact List.all_eq_true.mp hall _ hmem
    rw [List.rdropWhile_append_rtakeWhile] at hmin
    show (minExpand (fun _ => true) (matchItems List.isEmpty spaces) t).map
      (fun r => r.1 :: r.2) = _
    rw [hmin]
    rfl
  have hwhole : matchItems List.isEmpty (spaces ++ [⟨fun _ => true, .minus⟩] ++ spaces) s
      = some [s.takeWhile isSpace, (s.dropWhile isSpace).rdropWhile isSpace,
          (s.dropWhile isSpace).rtakeWhile isSpace] := by
    show (maxExpand isSpace
      (matchItems List.isEmpty ([⟨fun _ => true, .minus⟩] ++ spaces)) s).map _ = _
    rw [maxExpand_of_some (hrest (s.dropWhile isSpace))]
    rfl
  rw [trimSpace, hwhole]
  rfl

/-- A leading `pre` is removed, once. -/
@[simp] theorem trimPrefix_append (pre s : Str) : trimPrefix (pre ++ s) pre = s := by
  have h : sub (pre ++ s) 1 pre.length = pre :=
    (sub_one_eq_iff _ _).mpr (List.prefix_append pre s)
  rw [trimPrefix, if_pos h, sub_from]
  simp

/-- Without the prefix nothing is removed. -/
theorem trimPrefix_of_not_leading {s pre : Str} (h : ¬ pre <+: s) : trimPrefix s pre = s := by
  rw [trimPrefix, if_neg (fun h' => h ((sub_one_eq_iff _ _).mp h'))]

/-- Nothing is added. -/
theorem trimPrefix_length_le (s pre : Str) : (trimPrefix s pre).length ≤ s.length := by
  rw [trimPrefix]
  split_ifs
  · rw [sub_from, List.length_drop]
    omega
  · exact Nat.le_refl _

end Testcase
