import Mathlib.Data.List.Basic

/-!
# Pathnames and what they denote

POSIX pathname resolution over an arbitrary file tree.  A pathname is a list of characters; its
*components* are the non-empty pieces between slashes.  A file tree is a type of nodes with a
root and a partial `child` function — following a symbolic link is part of `child`, which is
sound because what a link means depends only on the directory it is read in.  A pathname then
denotes what is reached by walking its components, from the root when it starts with a slash and
from the current directory when it does not; the empty pathname denotes nothing.

* `components_append_slash` — cutting a pathname at a slash cuts its component list.
* `FileTree.resolve_append_slash` — **resolution is compositional**: an absolute pathname
  `a/b` denotes what `b` denotes relative to what `a` denotes.
* `Canonical` — the spelling `realpath` produces; a canonical pathname has no empty component and
  no trailing slash (`Canonical.not_double_slash`, `Canonical.not_trailing_slash`).
* `freeTree` — the tree in which every name exists everywhere.  Two pathnames that differ after
  normalisation denote different nodes of it, so it separates spellings.
-/

namespace Testcase

/-! ## Components -/

/-- The non-empty pieces of a pathname between slashes. -/
def components (s : List Char) : List (List Char) := (s.splitOn '/').filter (· ≠ [])

@[simp] theorem components_nil : components [] = [] := by
  simp [components, List.splitOn_nil]

/-- Cutting a pathname at a slash cuts its component list. -/
theorem components_append_slash (a b : List Char) :
    components (a ++ '/' :: b) = components a ++ components b := by
  rw [components, List.splitOn_append_cons_self, List.filter_append]
  rfl

/-- A leading slash adds no component. -/
@[simp] theorem components_slash (s : List Char) : components ('/' :: s) = components s := by
  simpa using components_append_slash [] s

/-- A non-empty name without a slash is its own only component. -/
theorem components_name {c : List Char} (hne : c ≠ []) (hc : '/' ∉ c) : components c = [c] := by
  rw [components, List.splitOn_eq_singleton hc]
  simp [hne]

/-- A pathname with a slash, cut at the last one. -/
theorem exists_last_slash {s : List Char} (h : '/' ∈ s) :
    ∃ a c, s = a ++ '/' :: c ∧ '/' ∉ c := by
  obtain ⟨c, a, hs, hc⟩ := List.eq_append_cons_of_mem (List.mem_reverse.mpr h)
  refine ⟨a.reverse, c.reverse, ?_, by simpa using hc⟩
  have := congrArg List.reverse hs
  simpa using this

/-- A pathname, cut before its first slash. -/
theorem exists_first_slash (s : List Char) :
    ∃ c b, s = c ++ b ∧ '/' ∉ c ∧ (b = [] ∨ ∃ b', b = '/' :: b') := by
  by_cases h : '/' ∈ s
  · obtain ⟨c, b, hs, hc⟩ := List.eq_append_cons_of_mem h
    exact ⟨c, '/' :: b, hs, hc, Or.inr ⟨b, rfl⟩⟩
  · exact ⟨s, [], by simp, h, Or.inl rfl⟩

/-! ## Canonical pathnames -/

/-- A name a directory entry other than `.` and `..` can have. -/
structure RegularName (c : List Char) : Prop where
  ne_nil : c ≠ []
  no_slash : '/' ∉ c
  ne_dot : c ≠ ['.']
  ne_dotdot : c ≠ ['.', '.']

instance (c : List Char) : Decidable (RegularName c) :=
  decidable_of_iff (c ≠ [] ∧ '/' ∉ c ∧ c ≠ ['.'] ∧ c ≠ ['.', '.'])
    ⟨fun ⟨h1, h2, h3, h4⟩ => ⟨h1, h2, h3, h4⟩, fun h => ⟨h.1, h.2, h.3, h.4⟩⟩

/-- The spelling `realpath` produces: a slash, then regular names with one slash between them. -/
def Canonical (p : List Char) : Prop :=
  ∃ cs : List (List Char), (∀ c ∈ cs, RegularName c) ∧ p = '/' :: ['/'].intercalate cs

namespace Canonical

variable {p : List Char}

/-- Splitting a canonical pathname gives back the names it was spelled from. -/
theorem splitOn_eq (h : Canonical p) :
    ∃ cs : List (List Char), (∀ c ∈ cs, RegularName c) ∧
      ((cs = [] ∧ p = ['/']) ∨ (cs ≠ [] ∧ p.splitOn '/' = [] :: cs)) := by
  obtain ⟨cs, hcs, rfl⟩ := h
  refine ⟨cs, hcs, ?_⟩
  by_cases hne : cs = []
  · exact Or.inl ⟨hne, by simp [hne]⟩
  · refine Or.inr ⟨hne, ?_⟩
    have hsplit := List.splitOn_append_cons_self (a := '/') [] (['/'].intercalate cs)
    rw [List.nil_append] at hsplit
    rw [hsplit, List.splitOn_intercalate '/' (fun c hc => (hcs c hc).no_slash) hne]
    simp [List.splitOn_nil]

/-- Every component of a canonical pathname is a regular name. -/
theorem regular (h : Canonical p) : ∀ c ∈ components p, RegularName c := by
  obtain ⟨cs, hcs, ⟨_, rfl⟩ | ⟨_, hsplit⟩⟩ := h.splitOn_eq
  · simp
  · intro c hc
    simp only [components, hsplit, List.mem_filter, List.mem_cons] at hc
    rcases hc with ⟨rfl | hc, hne⟩
    · simp at hne
    · exact hcs c hc

/-- A canonical pathname is absolute. -/
theorem exists_cons (h : Canonical p) : ∃ s, p = '/' :: s := by
  obtain ⟨cs, _, rfl⟩ := h
  exact ⟨_, rfl⟩

/-- A canonical pathname has no two slashes in a row. -/
theorem not_double_slash (h : Canonical p) (a b : List Char) : p ≠ a ++ '/' :: '/' :: b := by
  rintro rfl
  obtain ⟨cs, hcs, ⟨_, heq⟩ | ⟨_, hsplit⟩⟩ := h.splitOn_eq
  · have := congrArg List.length heq
    simp at this
    omega
  · -- the empty piece between the slashes would be one of the names
    have hmid := List.splitOn_append_cons_self (a := '/') [] b
    rw [List.nil_append] at hmid
    rw [List.splitOn_append_cons_self, hmid, List.splitOn_nil] at hsplit
    have hmem : [] ∈ cs := by
      rcases hsa : a.splitOn '/' with _ | ⟨x, xs⟩
      · exact absurd hsa (List.splitOn_ne_nil _ _)
      · rw [hsa] at hsplit
        simp only [List.cons_append, List.cons.injEq] at hsplit
        rw [← hsplit.2]
        simp
    exact (hcs [] hmem).ne_nil rfl

/-- Only the root is spelled with a slash at its end. -/
theorem not_trailing_slash (h : Canonical p) {a : List Char} (hp : p = a ++ ['/']) : a = [] := by
  obtain ⟨cs, hcs, ⟨_, heq⟩ | ⟨hne, hsplit⟩⟩ := h.splitOn_eq
  · have hlen := congrArg List.length (hp.symm.trans heq)
    simpa using hlen
  · rw [hp, List.splitOn_append_cons_self, List.splitOn_nil] at hsplit
    have hmem : [] ∈ cs := by
      rcases hsa : a.splitOn '/' with _ | ⟨x, xs⟩
      · exact absurd hsa (List.splitOn_ne_nil _ _)
      · rw [hsa] at hsplit
        simp only [List.cons_append, List.cons.injEq] at hsplit
        rw [← hsplit.2]
        simp
    exact absurd rfl (hcs [] hmem).ne_nil

end Canonical

/-! ## File trees -/

/-- A file tree as pathname resolution sees it: which node is reached from a directory by a
name, symbolic links already followed. -/
structure FileTree (Node : Type) where
  root : Node
  isDir : Node → Bool
  child : Node → List Char → Option Node
  root_isDir : isDir root = true
  child_of_file : ∀ n c, isDir n = false → child n c = none
  child_dot : ∀ n, isDir n = true → child n ['.'] = some n
  child_dotdot : ∀ n, isDir n = true → ∃ m, child n ['.', '.'] = some m ∧ isDir m = true

namespace FileTree

variable {Node : Type}

/-- Follow a list of names from a node. -/
def walk (t : FileTree Node) (n : Node) (cs : List (List Char)) : Option Node :=
  cs.foldlM t.child n

/-- What a pathname denotes for a process whose current directory is `cwd`. -/
def resolve (t : FileTree Node) (cwd : Node) (p : List Char) : Option Node :=
  if p = [] then none
  else t.walk (if p.head? = some '/' then t.root else cwd) (components p)

variable (t : FileTree Node)

theorem walk_append (n : Node) (cs ds : List (List Char)) :
    t.walk n (cs ++ ds) = (t.walk n cs).bind fun m => t.walk m ds := by
  rw [walk, List.foldlM_append]
  rfl

@[simp] theorem resolve_empty (cwd : Node) : t.resolve cwd [] = none := rfl

/-- An absolute pathname is walked from the root. -/
theorem resolve_absolute (cwd : Node) (s : List Char) :
    t.resolve cwd ('/' :: s) = t.walk t.root (components s) := by
  simp [resolve]

/-- A relative pathname is walked from the current directory. -/
theorem resolve_relative (cwd : Node) {s : List Char} (hne : s ≠ []) (hs : s.head? ≠ some '/') :
    t.resolve cwd s = t.walk cwd (components s) := by
  rw [resolve, if_neg hne, if_neg hs]

/-- **Resolution is compositional.**  Behind an absolute pathname that denotes `d`, the rest is
walked from `d`. -/
theorem resolve_append_slash {cwd d : Node} {a : List Char} (ha : a.head? = some '/')
    (hd : t.resolve cwd a = some d) (b : List Char) :
    t.resolve cwd (a ++ '/' :: b) = t.walk d (components b) := by
  obtain ⟨s, rfl⟩ := List.head?_eq_some_iff.mp ha
  rw [resolve_absolute] at hd
  rw [List.cons_append, resolve_absolute, components_append_slash, walk_append, hd]
  rfl

end FileTree

/-! ## The free tree -/

/-- One name pushed onto a stack of names, with `.` and `..` interpreted. -/
def pushName (st : List (List Char)) (c : List Char) : List (List Char) :=
  if c = ['.'] then st else if c = ['.', '.'] then st.dropLast else st ++ [c]

/-- The tree in which every directory contains a directory of every name. -/
def freeTree : FileTree (List (List Char)) where
  root := []
  isDir _ := true
  child st c := some (pushName st c)
  root_isDir := rfl
  child_of_file _ _ h := absurd h (by simp)
  child_dot _ _ := by simp [pushName]
  child_dotdot st _ := ⟨st.dropLast, by simp [pushName], rfl⟩

theorem freeTree_walk (st : List (List Char)) (cs : List (List Char)) :
    freeTree.walk st cs = some (cs.foldl pushName st) := by
  induction cs generalizing st with
  | nil => rfl
  | cons c cs ih => exact ih (pushName st c)

/-- Regular names are pushed as they are. -/
theorem foldl_pushName_regular {cs : List (List Char)} (h : ∀ c ∈ cs, RegularName c)
    (st : List (List Char)) : cs.foldl pushName st = st ++ cs := by
  induction cs generalizing st with
  | nil => simp
  | cons c cs ih =>
      have hc := h c (by simp)
      have hpush : pushName st c = st ++ [c] := by
        rw [pushName, if_neg hc.ne_dot, if_neg hc.ne_dotdot]
      rw [List.foldl_cons, hpush, ih (fun d hd => h d (by simp [hd]))]
      simp

theorem length_pushName_le (st : List (List Char)) (c : List Char) :
    (pushName st c).length ≤ st.length + 1 := by
  rw [pushName]
  split_ifs
  · omega
  · rw [List.length_dropLast]
    omega
  · simp

/-- **A name is never the same as its two halves pushed one after the other**, whatever `.` and
`..` the halves may be. -/
theorem pushName_halves_ne (st : List (List Char)) {c d : List Char} (hc : c ≠ []) (hd : d ≠ []) :
    pushName (pushName st c) d ≠ st ++ [c ++ d] := by
  intro h
  by_cases hdot : d = ['.']
  · rw [pushName, if_pos hdot] at h
    by_cases hcdot : c = ['.']
    · rw [pushName, if_pos hcdot] at h
      simpa using congrArg List.length h
    · by_cases hcdd : c = ['.', '.']
      · rw [pushName, if_neg hcdot, if_pos hcdd] at h
        have hlen := congrArg List.length h
        simp only [List.length_dropLast, List.length_append, List.length_singleton] at hlen
        omega
      · rw [pushName, if_neg hcdot, if_neg hcdd, List.append_cancel_left_eq] at h
        simp only [List.cons.injEq, List.self_eq_append_right, and_true] at h
        exact hd h
  · by_cases hdd : d = ['.', '.']
    · rw [pushName, if_neg hdot, if_pos hdd] at h
      have hlen := congrArg List.length h
      have hle := length_pushName_le st c
      simp only [List.length_dropLast, List.length_append, List.length_singleton] at hlen
      omega
    · rw [pushName, if_neg hdot, if_neg hdd] at h
      have hlast := (List.append_inj' h rfl).2
      simp only [List.cons.injEq, List.self_eq_append_left, and_true] at hlast
      exact hc hlast

end Testcase
