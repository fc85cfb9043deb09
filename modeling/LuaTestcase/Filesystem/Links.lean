import LuaTestcase.Filesystem.Search

/-!
# Directories that are linked to directories

`stat` follows symbolic links, and the search keeps no record of the directories it came by.  So on
a graph of directories it goes along every chain of names, and only the system puts an end to it:
a pathname with too many links in it, or one that is too long, is refused.

* `Chain`, `Mirrors` — chains of names in a file graph, and a system that shows this graph.
* `Mirrors.descends` — every search ends, because long pathnames are refused.
* `linked_search` — **what `getfiles` returns**: a list with every matching file if no pathname
  below the directory is refused, and an error otherwise, in particular along a cycle.
-/

namespace Testcase

open Filter

/-! ## File graphs -/

/-- The files, with the entries of the directories; an entry that is a symbolic link stands for
what it leads to. -/
structure FileGraph (Node : Type) where
  kind : Node → FileType
  entries : Node → List (Str × Node)

variable {Node : Type} {G : FileGraph Node}

/-- The names lead from one node to another, through directories and without hidden names. -/
inductive Chain (G : FileGraph Node) : Node → List Str → Node → Prop
  | nil (n : Node) : Chain G n [] n
  | cons {n m k : Node} {e : Str} {es : List Str} : G.kind n = .directory →
      (e, m) ∈ G.entries n → isDotfile e = false → Chain G m es k → Chain G n (e :: es) k

theorem Chain.append {n m k : Node} {es es' : List Str} (h : Chain G n es m)
    (h' : Chain G m es' k) : Chain G n (es ++ es') k := by
  induction h with
  | nil n => exact h'
  | cons hdir hentry hvisible _ ih => exact Chain.cons hdir hentry hvisible (ih h')

theorem Chain.single {n m : Node} {e : Str} (hdir : G.kind n = .directory)
    (hentry : (e, m) ∈ G.entries n) (hvisible : isDotfile e = false) : Chain G n [e] m :=
  Chain.cons hdir hentry hvisible (Chain.nil m)

theorem Chain.visible {n m : Node} {es : List Str} (h : Chain G n es m) :
    ∀ e ∈ es, isDotfile e = false := by
  induction h with
  | nil n => simp
  | cons _ _ hvisible _ ih =>
      intro e he
      rcases List.mem_cons.mp he with rfl | he
      · exact hvisible
      · exact ih e he

/-- A chain, cut in two. -/
theorem Chain.split {n k : Node} {es es' : List Str} (h : Chain G n (es ++ es') k) :
    ∃ m, Chain G n es m ∧ Chain G m es' k := by
  induction es generalizing n with
  | nil => exact ⟨n, Chain.nil n, h⟩
  | cons e es ih =>
      cases h with
      | cons hdir hentry hvisible h =>
          obtain ⟨m, hm, hk⟩ := ih h
          exact ⟨m, Chain.cons hdir hentry hvisible hm, hk⟩

/-- Along a cycle there are chains of any length. -/
theorem Chain.long {n m : Node} {es cyc : List Str} (h : Chain G n es m) (hcyc : Chain G m cyc m)
    (hne : cyc ≠ []) (N : Nat) : ∃ es', N < es'.length ∧ Chain G n es' m := by
  induction N with
  | zero =>
      refine ⟨es ++ cyc, ?_, h.append hcyc⟩
      have := List.length_pos_iff.mpr hne
      rw [List.length_append]
      omega
  | succ N ih =>
      obtain ⟨es', hlen, hes'⟩ := ih
      refine ⟨es' ++ cyc, ?_, hes'.append hcyc⟩
      have := List.length_pos_iff.mpr hne
      rw [List.length_append]
      omega

@[simp] theorem below_append (d : Str) (es es' : List Str) :
    below d (es ++ es') = below (below d es) es' := List.foldl_append

/-- The system shows the graph below a directory.  A pathname may be refused, and then neither its
`stat` succeeds nor can it be read; that is no `ENOENT`, and it happens to all pathnames with many
components. -/
structure Mirrors (os : Os) (G : FileGraph Node) (refuses : Str → Option SysError) (d : Str)
    (n : Node) : Prop where
  stat : ∀ es m, Chain G n es m → os.stat (below d es) true
    = match refuses (below d es) with
      | some err => .error err
      | none => .ok (G.kind m)
  entries : ∀ es m, Chain G n es m → G.kind m = .directory → refuses (below d es) = none →
    ∀ e, isDotfile e = false → (e ∈ (os.readdir (below d es)).1 ↔ ∃ k, (e, k) ∈ G.entries m)
  once : ∀ es m, Chain G n es m → G.kind m = .directory → (os.readdir (below d es)).1.Nodup
  ends : ∀ es m, Chain G n es m → G.kind m = .directory →
    ((os.readdir (below d es)).2 = none ↔ refuses (below d es) = none)
  refused : ∀ es m, Chain G n es m → G.kind m = .directory → refuses (below d es) ≠ none →
    (os.readdir (below d es)).1 = []
  errors : ∀ p err, refuses p = some err → err.type ≠ ENOENT
  limit : ∃ N : Nat, ∀ es m, Chain G n es m → N < es.length → refuses (below d es) ≠ none

section Mirrors

variable {os : Os} {refuses : Str → Option SysError} {d : Str} {n : Node} {suffix : Str}

/-- A directory that the search finds is one of the graph, and its pathname is not refused. -/
theorem Mirrors.subDir (h : Mirrors os G refuses d n) {es : List Str} {m : Node}
    (hes : Chain G n es m) (hm : G.kind m = .directory) {dir : Str}
    (hsub : SubDir os dir (below d es)) :
    ∃ e k, dir = below d (es ++ [e]) ∧ Chain G n (es ++ [e]) k ∧ G.kind k = .directory ∧
      refuses dir = none := by
  obtain ⟨e, hlisted, hvisible, hstat, rfl⟩ := subDir_iff.mp hsub
  have hopen : refuses (below d es) = none := by
    by_contra hrefused
    rw [h.refused es m hes hm hrefused] at hlisted
    cases hlisted
  obtain ⟨k, hentry⟩ := (h.entries es m hes hm hopen e hvisible).mp hlisted
  have hchain : Chain G n (es ++ [e]) k := hes.append (Chain.single hm hentry hvisible)
  have hpath : below d es ++ '/' :: e = below d (es ++ [e]) := by rw [below_append]; rfl
  rw [hpath, h.stat _ k hchain] at hstat
  rw [hpath]
  rcases hrefuses : refuses (below d (es ++ [e])) with _ | err
  · rw [hrefuses] at hstat
    exact ⟨e, k, rfl, hchain, Except.ok.inj hstat, rfl⟩
  · rw [hrefuses] at hstat
    cases hstat

/-- What is visited belongs to a chain. -/
theorem Mirrors.visited (h : Mirrors os G refuses d n) (hn : G.kind n = .directory) {dir : Str}
    (hdir : Visited os d dir) :
    ∃ es m, dir = below d es ∧ Chain G n es m ∧ G.kind m = .directory := by
  induction hdir with
  | top => exact ⟨[], n, rfl, Chain.nil n, hn⟩
  | child _ hlisted hvisible hstat ih =>
      obtain ⟨es, m, rfl, hes, hm⟩ := ih
      obtain ⟨e, k, hpath, hchain, hk, _⟩ :=
        h.subDir hes hm (subDir_iff.mpr ⟨_, hlisted, hvisible, hstat, rfl⟩)
      exact ⟨es ++ [e], k, hpath, hchain, hk⟩

/-- **Every search ends.** -/
theorem Mirrors.descends (h : Mirrors os G refuses d n) (hn : G.kind n = .directory) :
    Acc (SubDir os) d := by
  obtain ⟨N, hN⟩ := h.limit
  -- the number of components that are still allowed
  have hbound : ∀ k es m, Chain G n es m → G.kind m = .directory → N ≤ es.length + k →
      Acc (SubDir os) (below d es) := by
    intro k
    induction k with
    | zero =>
        intro es m hes hm hlen
        refine Acc.intro _ fun dir hsub => ?_
        obtain ⟨e, k, rfl, hchain, _, hopen⟩ := h.subDir hes hm hsub
        refine absurd hopen (hN _ k hchain ?_)
        rw [List.length_append, List.length_singleton]
        omega
    | succ k ih =>
        intro es m hes hm hlen
        refine Acc.intro _ fun dir hsub => ?_
        obtain ⟨e, j, rfl, hchain, hj, _⟩ := h.subDir hes hm hsub
        refine ih _ j hchain hj ?_
        rw [List.length_append, List.length_singleton]
        omega
  exact hbound N [] n (Chain.nil n) hn (Nat.le_add_left N _)

/-- Where the search comes by: it fails somewhere, or it gets along every chain. -/
theorem Mirrors.passes (h : Mirrors os G refuses d n) (hn : G.kind n = .directory)
    {es : List Str} {m : Node} (hes : Chain G n es m) :
    (∃ dir, Visited os d dir ∧ ¬ Settled os dir) ∨
      refuses (below d es) = none ∧ (G.kind m = .directory → Visited os d (below d es)) := by
  induction es using List.reverseRecOn generalizing m with
  | nil =>
      rcases eq_or_ne (refuses d) none with hopen | hrefused
      · exact Or.inr ⟨hopen, fun _ => Visited.top⟩
      · refine Or.inl ⟨d, Visited.top, fun hsettled => hrefused ?_⟩
        exact (h.ends [] n (Chain.nil n) hn).mp hsettled.readable
  | append_singleton es e ih =>
      obtain ⟨k, hk, hlast⟩ := hes.split
      cases hlast with
      | @cons _ j _ _ _ hkdir hentry hvisible hnil =>
          cases hnil
          rcases ih hk with hfails | ⟨hopen, hvisited⟩
          · exact Or.inl hfails
          · have hlisted := (h.entries es k hk hkdir hopen e hvisible).mpr ⟨_, hentry⟩
            have hstat := h.stat _ _ hes
            have hpath : below d (es ++ [e]) = below d es ++ '/' :: e := by
              rw [below_append]
              rfl
            rcases hrefuses : refuses (below d (es ++ [e])) with _ | err
            · rw [hrefuses] at hstat
              refine Or.inr ⟨rfl, fun hm => ?_⟩
              rw [hpath] at hstat ⊢
              exact (hvisited hkdir).child hlisted hvisible (hm ▸ hstat)
            · rw [hrefuses, hpath] at hstat
              refine Or.inl ⟨_, hvisited hkdir, fun hsettled => hsettled.entries e hlisted ?_⟩
              exact ⟨hvisible, err, hstat, h.errors _ err hrefuses⟩

/-- A pathname that is refused is a failure where the search comes by. -/
theorem Mirrors.unsettled (h : Mirrors os G refuses d n) (hn : G.kind n = .directory)
    {es : List Str} {m : Node} (hes : Chain G n es m) (hrefused : refuses (below d es) ≠ none) :
    ∃ dir, Visited os d dir ∧ ¬ Settled os dir := by
  rcases h.passes hn hes with hfails | ⟨hopen, _⟩
  · exact hfails
  · exact absurd hopen hrefused

/-- If nothing is refused, nothing fails. -/
theorem Mirrors.settled (h : Mirrors os G refuses d n) (hn : G.kind n = .directory)
    (hopen : ∀ es m, Chain G n es m → refuses (below d es) = none) :
    ∀ dir, Visited os d dir → Settled os dir := by
  intro dir hdir
  obtain ⟨es, m, rfl, hes, hm⟩ := h.visited hn hdir
  refine ⟨(h.ends es m hes hm).mpr (hopen es m hes), ?_⟩
  rintro e he ⟨hvisible, err, hstat, _⟩
  obtain ⟨k, hentry⟩ := (h.entries es m hes hm (hopen es m hes) e hvisible).mp he
  have hchain : Chain G n (es ++ [e]) k := hes.append (Chain.single hm hentry hvisible)
  have hstat' := h.stat _ k hchain
  rw [hopen _ k hchain, below_append] at hstat'
  rw [show below d es ++ '/' :: e = below (below d es) [e] from rfl, hstat'] at hstat
  cases hstat

/-- A file of the graph is found under its names, if no pathname is refused. -/
theorem Mirrors.isMatch (h : Mirrors os G refuses d n)
    (hopen : ∀ es m, Chain G n es m → refuses (below d es) = none) {es : List Str} {name : Str}
    {m : Node} (hes : Chain G n es m) (hm : G.kind m = .file) (hname : es.getLast? = some name)
    (hsuffix : suffix <:+ name) : IsMatch os suffix d es where
  visible := hes.visible
  listed pre e hpre := by
    obtain ⟨post, rfl⟩ := hpre
    rw [List.append_assoc] at hes
    obtain ⟨k, hk, hrest⟩ := hes.split
    cases hrest with
    | cons hdir hentry hvisible _ =>
        exact (h.entries pre k hk hdir (hopen pre k hk) e hvisible).mpr ⟨_, hentry⟩
  dirs pre _ hpre hproper := by
    obtain ⟨post, rfl⟩ := hpre
    obtain ⟨k, hk, hrest⟩ := hes.split
    cases hrest with
    | nil => exact absurd (List.append_nil pre).symm hproper
    | cons hdir _ _ _ => rw [h.stat pre k hk, hopen pre k hk, hdir]
  file := by rw [h.stat es m hes, hopen es m hes, hm]
  ends := ⟨name, hname, hsuffix⟩

end Mirrors

/-! ## The search -/

/-- **The search on a file graph.**  Where the system refuses the pathnames with many components,
`getfiles` on a directory ends.  If no pathname below the directory is refused, it returns a list,
and in it a name for every file of the graph that has the suffix and is not hidden.  If one is
refused, it returns an error; so it does if a directory below leads back to itself. -/
theorem linked_search (os : Os) (G : FileGraph Node) (refuses : Str → Option SysError) (d : Str)
    (n : Node) (suffix : Str) (pathname : Str) (opt : Option Str) (hsuffix : suffix ≠ [])
    (h : Mirrors os G refuses d n) (hn : G.kind n = .directory)
    (hdir : os.stat pathname true = .ok .directory) (hd : trimSuffix pathname ['/'] = d)
    (hopt : opt.getD defaultSuffix = suffix) :
    ((∀ es m, Chain G n es m → refuses (below d es) = none) →
      ∃ names, (∀ᶠ fuel in atTop, getfiles os fuel pathname opt = some (.files names)) ∧
        ∀ es m name, Chain G n es m → G.kind m = .file → es.getLast? = some name →
          suffix <:+ name → trimCwd os.CWD (below d es) ∈ names) ∧
    ((∃ es m, Chain G n es m ∧ refuses (below d es) ≠ none) →
      ∃ err, ∀ᶠ fuel in atTop, getfiles os fuel pathname opt = some (.failed err)) ∧
    ((∃ es m cyc, Chain G n es m ∧ Chain G m cyc m ∧ cyc ≠ []) →
      ∃ err, ∀ᶠ fuel in atTop, getfiles os fuel pathname opt = some (.failed err)) := by
  have hdescends := h.descends hn
  have hfails : (∃ es m, Chain G n es m ∧ refuses (below d es) ≠ none) →
      ∃ err, ∀ᶠ fuel in atTop, getfiles os fuel pathname opt = some (.failed err) := by
    rintro ⟨es, m, hes, hrefused⟩
    exact getfiles_fails hdescends hdir hd hopt (h.unsettled hn hes hrefused)
  refine ⟨fun hopen => ?_, hfails, ?_⟩
  · have honce : ∀ dir, Visited os d dir → (os.readdir dir).1.Nodup := by
      intro dir hvisited
      obtain ⟨es, m, rfl, hes, hm⟩ := h.visited hn hvisited
      exact h.once es m hes hm
    obtain ⟨paths, hpaths⟩ := walkdir_paths hsuffix hdescends (h.settled hn hopen) honce
    refine ⟨_, getfiles_finds hdir hd hopt hpaths, ?_⟩
    intro es m name hes hm hname hends
    rw [sortNames, List.mem_insertionSort, List.mem_map]
    exact ⟨es, (hpaths.mem es).mpr (h.isMatch hopen hes hm hname hends), rfl⟩
  · rintro ⟨es, m, cyc, hes, hcyc, hne⟩
    obtain ⟨N, hN⟩ := h.limit
    obtain ⟨es', hlen, hes'⟩ := hes.long hcyc hne N
    exact hfails ⟨es', m, hes', hN es' m hes' hlen⟩

/-! ### A directory with a link to itself -/

/-- `ELOOP`. -/
def ELOOP : Nat := 40

/-- The pathnames that are refused. -/
def refusesLong (name : Str) : Option SysError :=
  if name.length ≤ 200 then none else some ⟨ELOOP, "stat".toList⟩

/-- `d` holds the link `loop` to itself, and pathnames with too many links are refused. -/
def selfLoop : Os where
  CWD := "/a".toList
  realpath name := .ok ("/a/".toList ++ name)
  stat name _ :=
    match refusesLong name with
    | some err => .error err
    | none => .ok .directory
  readdir name :=
    match refusesLong name with
    | some _ => ([], some ⟨ELOOP, "readdir".toList⟩)
    | none => ([".".toList, "..".toList, "loop".toList], none)

/-- The graph of that directory. -/
def loopGraph : FileGraph Unit where
  kind _ := .directory
  entries _ := [("loop".toList, ())]

theorem loopGraph_cycle : Chain loopGraph () ["loop".toList] () :=
  Chain.single rfl (List.mem_singleton.mpr rfl) (by decide)

/-- Every component of a pathname makes it longer. -/
theorem length_below (d : Str) (es : List Str) : d.length + es.length ≤ (below d es).length := by
  induction es generalizing d with
  | nil => simp
  | cons e es ih =>
      have hrest := ih (d ++ '/' :: e)
      simp only [List.length_append, List.length_cons] at hrest
      simp only [below_cons, List.length_cons]
      omega

theorem selfLoop_open {name : Str} (h : refusesLong name = none) :
    selfLoop.readdir name = ([".".toList, "..".toList, "loop".toList], none) := by
  simp only [selfLoop, h]

theorem selfLoop_refused {name : Str} (h : refusesLong name ≠ none) :
    selfLoop.readdir name = ([], some ⟨ELOOP, "readdir".toList⟩) := by
  obtain ⟨err, herr⟩ := Option.ne_none_iff_exists'.mp h
  simp only [selfLoop, herr]

theorem selfLoop_mirrors : Mirrors selfLoop loopGraph refusesLong "d".toList () where
  stat es m _ := rfl
  entries es m _ _ hopen e hvisible := by
    rw [selfLoop_open hopen]
    constructor
    · intro he
      simp only [List.mem_cons, List.not_mem_nil, or_false] at he
      rcases he with rfl | rfl | rfl
      · cases hvisible
      · cases hvisible
      · exact ⟨(), List.mem_singleton.mpr rfl⟩
    · rintro ⟨k, hk⟩
      obtain ⟨rfl, _⟩ := Prod.mk.inj (List.mem_singleton.mp hk)
      simp
  once es m _ _ := by
    rcases eq_or_ne (refusesLong (below "d".toList es)) none with hopen | hrefused
    · rw [selfLoop_open hopen]
      decide
    · rw [selfLoop_refused hrefused]
      exact List.nodup_nil
  ends es m _ _ := by
    rcases eq_or_ne (refusesLong (below "d".toList es)) none with hopen | hrefused
    · simp only [selfLoop_open hopen, hopen]
    · simp only [selfLoop_refused hrefused, hrefused, reduceCtorEq]
  refused es m _ _ hrefused := by rw [selfLoop_refused hrefused]
  errors p err herr := by
    rw [refusesLong] at herr
    split at herr
    · cases herr
    · cases herr
      decide
  limit := by
    refine ⟨200, fun es m _ hlen => ?_⟩
    have hlong := length_below "d".toList es
    rw [refusesLong, if_neg (by omega)]
    simp

/-- Every directory of `selfLoop` can be read and has a `stat`, but there is no list. -/
theorem selfLoop_fails : ¬ ∃ fuel names,
    getfiles selfLoop fuel "d".toList none = some (.files names) := by
  rintro ⟨fuel, names, hfiles⟩
  obtain ⟨N, hN⟩ := selfLoop_mirrors.limit
  obtain ⟨es, hlen, hes⟩ := (Chain.nil ()).long loopGraph_cycle (by simp) N
  obtain ⟨dir, hvisited, hnot⟩ := selfLoop_mirrors.unsettled rfl hes (hN es () hes hlen)
  exact hnot (getfiles_settled rfl rfl hfiles dir hvisited)

/-- There is an error. -/
theorem selfLoop_error :
    ∃ err, ∀ᶠ fuel in atTop, getfiles selfLoop fuel "d".toList none = some (.failed err) :=
  (linked_search selfLoop loopGraph refusesLong "d".toList () defaultSuffix "d".toList none
    (by decide) selfLoop_mirrors rfl rfl rfl rfl).2.2
    ⟨[], (), ["loop".toList], Chain.nil (), loopGraph_cycle, by simp⟩

end Testcase
