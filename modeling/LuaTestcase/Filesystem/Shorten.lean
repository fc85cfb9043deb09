import LuaTestcase.Core.Pathname
import LuaTestcase.Filesystem.Def

/-!
# What the shortened names denote

`trim_cwd` is a string-prefix test followed by two trims; what its result means is a matter of
pathname components.  The two agree exactly when the working directory ends where a component of
the pathname ends:

* `ShortensAtSlash` — the condition: `CWD` is not a string prefix of the pathname at all, or it is
  one and the cut falls on a slash with something left behind it.
* `trimCwd_resolve_of_shortensAtSlash` — under the condition the shortened name, resolved from
  the working directory, denotes what the pathname denotes, in every file tree.
* `shortensAtSlash_of_trimCwd_resolve` — without it, the free tree tells the two apart.  The
  siblings `/a` and `/ab` are the typical case: with `CWD = /a`, the file `/ab/x` is shortened
  to `b/x`.

`walkdir` only ever returns shortened names of files it saw (`walkdir_found`), so what holds of
`trim_cwd` holds of every name `getfiles` returns.
-/

namespace Testcase

/-- Shortening `pathname` by `CWD` cuts at a component boundary, or does not cut. -/
def ShortensAtSlash (CWD pathname : Str) : Prop :=
  ¬ CWD <+: pathname ∨
    ∃ rest : Str, rest ≠ [] ∧ rest.head? ≠ some '/' ∧
      (pathname = CWD ++ '/' :: rest ∨ (pathname = CWD ++ rest ∧ ∃ c, CWD = c ++ ['/']))

section Resolve

variable {Node : Type} (t : FileTree Node)

/-- **Where the cut falls on a slash, the shortened name denotes the same file.** -/
theorem trimCwd_resolve_of_shortensAtSlash {CWD pathname : Str} {here : Node}
    (hCWD : CWD.head? = some '/') (hhere : t.resolve t.root CWD = some here)
    (h : ShortensAtSlash CWD pathname) :
    t.resolve here (trimCwd CWD pathname) = t.resolve here pathname := by
  obtain ⟨s, rfl⟩ := List.head?_eq_some_iff.mp hCWD
  -- the working directory is absolute, so it is found from anywhere
  have hhere' : t.resolve here ('/' :: s) = some here := by
    rw [FileTree.resolve_absolute] at hhere ⊢
    exact hhere
  rcases h with hno | ⟨rest, hne, hhead, rfl | ⟨rfl, c, hc⟩⟩
  · rw [trimCwd_of_not_leading hno]
  · rw [trimCwd_append, trimPrefix_slash, t.resolve_relative here hne hhead,
      t.resolve_append_slash hCWD hhere']
  · -- the slash of the cut is the last one of the working directory
    rw [trimCwd_append, trimPrefix_slash_of_head hhead, t.resolve_relative here hne hhead]
    have hroot : t.walk t.root (components c) = some here := by
      have h0 := FileTree.resolve_absolute t t.root s
      rw [hhere] at h0
      have hcomp : components ('/' :: s) = components c := by
        rw [hc, components_append_slash, components_nil, List.append_nil]
      rw [components_slash] at hcomp
      rw [← hcomp, ← h0]
    have hsplit : components (s ++ rest) = components c ++ components rest := by
      rw [← components_slash, ← List.cons_append, hc, List.append_assoc,
        List.singleton_append, components_append_slash]
    rw [List.cons_append, FileTree.resolve_absolute, hsplit, FileTree.walk_append, hroot]
    rfl

end Resolve

/-- The free tree resolves an absolute pathname to its components, with `.` and `..` applied. -/
theorem freeTree_resolve_absolute (cwd : List Str) (s : Str) :
    freeTree.resolve cwd ('/' :: s) = some ((components s).foldl pushName []) := by
  rw [FileTree.resolve_absolute, freeTree_walk]
  rfl

/-- A name that was cut off inside of another one denotes something else. -/
theorem resolve_inside_ne {s rest : Str} (hp : Canonical ('/' :: s ++ rest)) (hne : rest ≠ [])
    (hrest : rest.head? ≠ some '/') (hend : ¬∃ c, '/' :: s = c ++ ['/']) :
    freeTree.resolve ((components s).foldl pushName []) rest ≠
      some ((components (s ++ rest)).foldl pushName []) := by
  -- `c` and `d` are the two halves of the name
  intro hsame
  obtain ⟨a, c, hac, hcslash⟩ := exists_last_slash (List.mem_cons_self (a := '/') (l := s))
  have hcne : c ≠ [] := by
    rintro rfl
    exact hend ⟨a, hac⟩
  obtain ⟨d, b, rfl, hdslash, hb⟩ := exists_first_slash rest
  have hdne : d ≠ [] := by
    rintro rfl
    rcases hb with rfl | ⟨b, rfl⟩
    · exact hne rfl
    · simp at hrest
  -- the components behind the name are the same on both sides
  obtain ⟨bs, hbs⟩ : ∃ bs, ∀ x : Str, '/' ∉ x → x ≠ [] → components (x ++ b) = x :: bs := by
    rcases hb with rfl | ⟨b, rfl⟩
    · exact ⟨[], fun x hx hxne => by rw [List.append_nil, components_name hxne hx]⟩
    · exact ⟨components b, fun x hx hxne => by
        rw [components_append_slash, components_name hxne hx]
        rfl⟩
  have hs : components s = components a ++ [c] := by
    rw [← components_slash s, hac, components_append_slash, components_name hcne hcslash]
  have hwhole : components (s ++ (d ++ b)) = components a ++ (c ++ d) :: bs := by
    have hcd : '/' ∉ c ++ d := by simp [hcslash, hdslash]
    rw [← components_slash, ← List.cons_append, hac, List.append_assoc, List.cons_append,
      components_append_slash, ← List.append_assoc, hbs (c ++ d) hcd (by simp [hcne])]
  have hregular : ∀ x ∈ components a ++ (c ++ d) :: bs, RegularName x := by
    intro x hx
    rw [← hwhole, ← components_slash, ← List.cons_append] at hx
    exact hp.regular x hx
  have hbregular : ∀ x ∈ bs, RegularName x := fun x hx => hregular x (by simp [hx])
  have hrel : freeTree.resolve ((components s).foldl pushName []) (d ++ b)
      = some (((d :: bs).foldl pushName ((components s).foldl pushName []))) := by
    rw [FileTree.resolve_relative freeTree _ hne hrest, freeTree_walk, hbs d hdslash hdne]
  rw [hrel, hwhole, hs, List.foldl_append, List.foldl_append, Option.some.injEq] at hsame
  simp only [List.foldl_cons, List.foldl_nil] at hsame
  rw [foldl_pushName_regular hbregular, foldl_pushName_regular hbregular,
    List.append_cancel_right_eq] at hsame
  have hcd := hregular (c ++ d) (by simp)
  refine pushName_halves_ne ((components a).foldl pushName []) hcne hdne ?_
  rw [hsame, pushName, if_neg hcd.ne_dot, if_neg hcd.ne_dotdot]

/-- **Where the cut falls inside a name, the free tree tells the two apart.** -/
theorem shortensAtSlash_of_trimCwd_resolve {CWD pathname : Str} (hCWD : CWD.head? = some '/')
    (hp : Canonical pathname)
    (h : ∀ here, freeTree.resolve freeTree.root CWD = some here →
      freeTree.resolve here (trimCwd CWD pathname) = freeTree.resolve here pathname) :
    ShortensAtSlash CWD pathname := by
  by_cases hpre : CWD <+: pathname
  swap
  · exact Or.inl hpre
  obtain ⟨rest, rfl⟩ := hpre
  obtain ⟨s, rfl⟩ := List.head?_eq_some_iff.mp hCWD
  have hsame := h _ (freeTree_resolve_absolute _ s)
  rw [trimCwd_append] at hsame
  by_cases hrest : rest.head? = some '/'
  · obtain ⟨rest, rfl⟩ := List.head?_eq_some_iff.mp hrest
    refine Or.inr ⟨rest, ?_, ?_, Or.inl rfl⟩
    · rintro rfl
      exact absurd (hp.not_trailing_slash rfl) (by simp)
    · intro hr
      obtain ⟨r, rfl⟩ := List.head?_eq_some_iff.mp hr
      exact hp.not_double_slash _ r rfl
  by_cases hne : rest = []
  · -- the working directory itself is shortened to the empty name, which denotes nothing
    subst hne
    rw [trimPrefix_slash_of_head (by simp), FileTree.resolve_empty, List.append_nil,
      freeTree_resolve_absolute] at hsame
    exact absurd hsame (by simp)
  by_cases hend : ∃ c, '/' :: s = c ++ ['/']
  · exact Or.inr ⟨rest, hne, hrest, Or.inr ⟨rfl, hend⟩⟩
  rw [trimPrefix_slash_of_head hrest, List.cons_append, freeTree_resolve_absolute] at hsame
  exact absurd hsame (resolve_inside_ne hp hne hrest hend)

end Testcase
