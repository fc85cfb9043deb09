import LuaTestcase.Filesystem.Shorten

/-!
# The names `getfiles` returns

Every name in the result of `getfiles` is the shortened form of a pathname at which `stat` saw a
regular file (`getfiles_found`): the pathname itself when it is one, and otherwise an entry of a
directory the search visited.  Which file the shortened name denotes when it is looked up again
is then a question about `trim_cwd` alone, and `shortened_names_denote` answers it: exactly the
pathnames that `CWD` cuts at a slash, and those it does not cut, keep their meaning.
-/

namespace Testcase

/-! ## What the search visits and finds -/

/-- The directories a search from `top` can visit. -/
inductive Visited (os : Os) (top : Str) : Str → Prop
  | top : Visited os top top
  | child {dir entry : Str} : Visited os top dir → entry ∈ (os.readdir dir).1 →
      isDotfile entry = false → os.stat (dir ++ '/' :: entry) true = .ok .directory →
      Visited os top (dir ++ '/' :: entry)

/-- A regular file with the suffix, as an entry of a directory a search from `top` visits. -/
def FoundUnder (os : Os) (top suffix full : Str) : Prop :=
  ∃ dir entry, Visited os top dir ∧ entry ∈ (os.readdir dir).1 ∧ isDotfile entry = false ∧
    hasSuffix entry suffix = true ∧ full = dir ++ '/' :: entry ∧ os.stat full true = .ok .file

/-- All names of `files` were in `before` or are shortened names of files found under `top`. -/
def NamesFound (os : Os) (top suffix : Str) (before files : List Str) : Prop :=
  ∀ name ∈ files, name ∈ before ∨ ∃ full, FoundUnder os top suffix full ∧
    name = trimCwd os.CWD full

theorem NamesFound.trans {os : Os} {top suffix : Str} {a b c : List Str}
    (hab : NamesFound os top suffix a b) (hbc : NamesFound os top suffix b c) :
    NamesFound os top suffix a c := by
  intro name hname
  rcases hbc name hname with hb | hfound
  · exact hab name hb
  · exact Or.inr hfound

/-- What one call of the callback can do to its two tables. -/
theorem onEntry_cases (os : Os) (dir suffix : Str) (scan : Scan) (entry : Str) :
    (onEntry os dir suffix scan entry).1 = scan ∨
    (isDotfile entry = false ∧ os.stat (dir ++ '/' :: entry) true = .ok .directory ∧
      (onEntry os dir suffix scan entry).1
        = { scan with dirs := scan.dirs ++ [dir ++ '/' :: entry] }) ∨
    (isDotfile entry = false ∧ os.stat (dir ++ '/' :: entry) true = .ok .file ∧
      hasSuffix entry suffix = true ∧
      (onEntry os dir suffix scan entry).1
        = { scan with files := scan.files ++ [trimCwd os.CWD (dir ++ '/' :: entry)] }) := by
  by_cases hdot : isDotfile entry = true
  · exact Or.inl (by rw [onEntry, if_pos hdot])
  have hvisible : isDotfile entry = false := by simpa using hdot
  rcases hstat : os.stat (dir ++ '/' :: entry) true with err | ty
  · refine Or.inl ?_
    simp only [onEntry, hvisible, hstat]
    split_ifs <;> rfl
  · cases ty with
    | directory => exact Or.inr (Or.inl ⟨hvisible, rfl, by simp [onEntry, hvisible, hstat]⟩)
    | file =>
        by_cases hsuffix : hasSuffix entry suffix = true
        · refine Or.inr (Or.inr ⟨hvisible, rfl, hsuffix, ?_⟩)
          simp [onEntry, hvisible, hstat, hsuffix]
        · exact Or.inl (by simp [onEntry, hvisible, hstat, hsuffix])
    | _ => exact Or.inl (by simp [onEntry, hvisible, hstat])

/-- **The invariant rule of `readdir`.**  What every call of the callback preserves holds after
the stream was read, whether it was read to its end or not. -/
theorem readdirEach_invariant {σ : Type} {callback : σ → Str → σ × Option SysError}
    (P : σ → Prop) : ∀ (entries : List Str) (s : σ),
      (∀ s entry, entry ∈ entries → P s → P (callback s entry).1) → P s →
      P (readdirEach callback entries s).1
  | [], s, _, hs => hs
  | entry :: rest, s, hstep, hs => by
      have hnext := hstep s entry (by simp) hs
      rcases hcall : callback s entry with ⟨s', _ | err⟩
      · simp only [readdirEach, hcall]
        rw [hcall] at hnext
        exact readdirEach_invariant P rest s'
          (fun s e he => hstep s e (by simp [he])) hnext
      · simp only [readdirEach, hcall]
        rw [hcall] at hnext
        exact hnext

/-- **One directory.**  Reading a visited directory adds found files to the names and visitable
directories to the work list, and nothing else. -/
theorem scanDir_found {os : Os} {top dir : Str} (suffix : Str) (files : List Str)
    (hdir : Visited os top dir) :
    NamesFound os top suffix files (scanDir os dir suffix files).1.files ∧
      ∀ d ∈ (scanDir os dir suffix files).1.dirs, Visited os top d := by
  have hscan : (scanDir os dir suffix files).1
      = (readdirEach (onEntry os dir suffix) (os.readdir dir).1 ⟨files, []⟩).1 := by
    rw [scanDir]
    rcases readdirEach (onEntry os dir suffix) (os.readdir dir).1 ⟨files, []⟩ with ⟨scan, _ | err⟩
      <;> rfl
  rw [hscan]
  refine readdirEach_invariant
    (fun scan : Scan =>
      NamesFound os top suffix files scan.files ∧ ∀ d ∈ scan.dirs, Visited os top d)
    _ _ ?_ ⟨fun name hname => Or.inl hname, fun d hd => absurd hd (List.not_mem_nil)⟩
  intro scan entry hentry ⟨hfiles, hdirs⟩
  rcases onEntry_cases os dir suffix scan entry with h | ⟨hdot, hstat, h⟩ | ⟨hdot, hstat, hsuf, h⟩
  · rw [h]
    exact ⟨hfiles, hdirs⟩
  · rw [h]
    refine ⟨hfiles, fun d hd => ?_⟩
    rcases List.mem_append.mp hd with hd | hd
    · exact hdirs d hd
    · rw [List.mem_singleton.mp hd]
      exact Visited.child hdir hentry hdot hstat
  · rw [h]
    refine ⟨fun name hname => ?_, hdirs⟩
    rcases List.mem_append.mp hname with hname | hname
    · exact hfiles name hname
    · exact Or.inr ⟨dir ++ '/' :: entry, ⟨dir, entry, hdir, hentry, hdot, hsuf, rfl, hstat⟩,
        List.mem_singleton.mp hname⟩

/-- The loop over the directories: what each walk adds, the loop adds. -/
theorem eachDir_found {os : Os} {top suffix : Str}
    {walk : List Str → Str → Option (List Str × Option SysError)}
    (hwalk : ∀ dir files files' err, Visited os top dir → walk files dir = some (files', err) →
      NamesFound os top suffix files files') :
    ∀ (dirs files files' : List Str) (err : Option SysError),
      (∀ d ∈ dirs, Visited os top d) → eachDir walk dirs files = some (files', err) →
      NamesFound os top suffix files files'
  | [], files, files', err, _, h => by
      simp only [eachDir, Option.some.injEq, Prod.mk.injEq] at h
      rw [← h.1]
      exact fun name hname => Or.inl hname
  | dir :: dirs, files, files', err, hdirs, h => by
      rcases hd : walk files dir with _ | ⟨mid, _ | e⟩
      · simp [eachDir, hd] at h
      · simp only [eachDir, hd] at h
        exact (hwalk dir files mid none (hdirs dir (by simp)) hd).trans
          (eachDir_found hwalk dirs mid files' err (fun d hd => hdirs d (by simp [hd])) h)
      · simp only [eachDir, hd, Option.some.injEq, Prod.mk.injEq] at h
        rw [← h.1]
        exact hwalk dir files mid (some e) (hdirs dir (by simp)) hd

/-- **`walkdir` only adds shortened names of files it found.** -/
theorem walkdir_found {os : Os} {top suffix : Str} :
    ∀ (fuel : Nat) (files files' : List Str) (dir : Str) (err : Option SysError),
      Visited os top dir → walkdir os suffix fuel files dir = some (files', err) →
      NamesFound os top suffix files files'
  | 0, _, _, _, _, _, h => by simp [walkdir] at h
  | fuel + 1, files, files', dir, err, hdir, h => by
      have hscan := scanDir_found suffix files hdir
      rcases hs : scanDir os dir suffix files with ⟨scan, _ | e⟩
      · rw [hs] at hscan
        simp only [walkdir, hs] at h
        refine hscan.1.trans (eachDir_found ?_ scan.dirs scan.files files' err hscan.2 h)
        intro d fs fs' e hd hw
        exact walkdir_found fuel fs fs' d e hd hw
      · rw [hs] at hscan
        simp only [walkdir, hs, Option.some.injEq, Prod.mk.injEq] at h
        rw [← h.1]
        exact hscan.1

/-- The pathnames whose shortened names a call of `getfiles` can return. -/
def Found (os : Os) (pathname : Str) (suffix : Option Str) (full : Str) : Prop :=
  (full = pathname ∧ os.stat pathname true = .ok .file) ∨
    FoundUnder os (trimSuffix pathname ['/']) (suffix.getD defaultSuffix) full

theorem Found.stat {os : Os} {pathname : Str} {suffix : Option Str} {full : Str}
    (h : Found os pathname suffix full) : os.stat full true = .ok .file := by
  rcases h with ⟨rfl, hstat⟩ | ⟨_, _, _, _, _, _, _, hstat⟩
  · exact hstat
  · exact hstat

/-- **Every name `getfiles` returns is the shortened pathname of a regular file it saw.** -/
theorem getfiles_found {os : Os} {fuel : Nat} {pathname : Str} {suffix : Option Str}
    {names : List Str} (h : getfiles os fuel pathname suffix = some (.files names)) :
    ∀ name ∈ names, ∃ full, Found os pathname suffix full ∧ name = trimCwd os.CWD full := by
  intro name hname
  rcases hstat : os.stat pathname true with err | ty
  · simp only [getfiles, hstat, Option.some.injEq] at h
    split_ifs at h
  · cases ty with
    | file =>
        simp only [getfiles, hstat, Option.some.injEq, FileList.files.injEq] at h
        rw [← h] at hname
        exact ⟨pathname, Or.inl ⟨rfl, hstat⟩, List.mem_singleton.mp hname⟩
    | directory =>
        simp only [getfiles, hstat] at h
        rcases hw : walkdir os (suffix.getD defaultSuffix) fuel [] (trimSuffix pathname ['/'])
          with _ | ⟨files, _ | err⟩
        · simp [hw] at h
        · simp only [hw, Option.some.injEq, FileList.files.injEq] at h
          rw [← h, sortNames, List.mem_insertionSort] at hname
          rcases walkdir_found fuel [] files _ none Visited.top hw name hname with hno | hfound
          · simp at hno
          · obtain ⟨full, hfull, heq⟩ := hfound
            exact ⟨full, Or.inr hfull, heq⟩
        · simp [hw] at h
    | _ =>
        simp only [getfiles, hstat, Option.some.injEq, FileList.files.injEq] at h
        rw [← h] at hname
        simp [sortNames] at hname

/-! ## Looking the names up again -/

/-- The system calls answer for the file tree `t`, in the directory `here` that `CWD` names.
`realpath` accepts names that are no longer than one of the same file that `stat` accepts. -/
structure Backed {Node : Type} (os : Os) (t : FileTree Node) (kind : Node → FileType)
    (here : Node) : Prop where
  cwd_absolute : os.CWD.head? = some '/'
  cwd_resolve : t.resolve t.root os.CWD = some here
  stat_ok : ∀ p ty, os.stat p true = .ok ty → ∃ n, t.resolve here p = some n ∧ kind n = ty
  realpath_ok : ∀ p ty p' n, os.stat p true = .ok ty → t.resolve here p = some n →
    t.resolve here p' = some n → p'.length ≤ p.length →
    ∃ r, os.realpath p' = .ok r ∧ t.resolve here r = some n

/-- **Shortened names denote the files they were made from exactly where `CWD` does not cut a
name in two.**  The first part is about `trim_cwd` and every file tree; the second says what it
means for the names `getfiles` returns when they are resolved again from the working directory. -/
theorem shortened_names_denote (CWD : Str) (hCWD : CWD.head? = some '/') :
    (∀ p, Canonical p →
      ((∀ (Node : Type) (t : FileTree Node) (here : Node), t.resolve t.root CWD = some here →
          t.isDir here = true → t.resolve here (trimCwd CWD p) = t.resolve here p) ↔
        ShortensAtSlash CWD p)) ∧
    ∀ (Node : Type) (os : Os) (t : FileTree Node) (kind : Node → FileType) (here : Node),
      os.CWD = CWD → Backed os t kind here →
      ∀ (fuel : Nat) (pathname : Str) (suffix : Option Str) (names : List Str),
        getfiles os fuel pathname suffix = some (.files names) → ∀ name ∈ names,
          ∃ full n, Found os pathname suffix full ∧ name = trimCwd CWD full ∧
            t.resolve here full = some n ∧ kind n = .file ∧
            (ShortensAtSlash CWD full → t.resolve here name = some n ∧
              ∃ r, os.realpath name = .ok r ∧ t.resolve here r = some n) := by
  refine ⟨fun p hp => ⟨fun h => ?_, fun h Node t here hhere _ => ?_⟩, ?_⟩
  · exact shortensAtSlash_of_trimCwd_resolve hCWD hp fun here hhere =>
      h _ freeTree here hhere rfl
  · exact trimCwd_resolve_of_shortensAtSlash t hCWD hhere h
  · rintro Node os t kind here rfl hback fuel pathname suffix names hfiles name hname
    obtain ⟨full, hfull, rfl⟩ := getfiles_found hfiles name hname
    obtain ⟨n, hn, hkind⟩ := hback.stat_ok full .file hfull.stat
    refine ⟨full, n, hfull, rfl, hn, hkind, fun hslash => ?_⟩
    have hsame := trimCwd_resolve_of_shortensAtSlash t hback.cwd_absolute hback.cwd_resolve hslash
    rw [hn] at hsame
    exact ⟨hsame, hback.realpath_ok full .file _ n hfull.stat hn hsame (trimCwd_length_le _ _)⟩

/-! ### Two siblings -/

/-- `/a/y_test.lua` (node 3) and `/ab/x_test.lua` (node 4). -/
def siblings : FileTree (Fin 5) where
  root := 0
  isDir n := n < 3
  child n c :=
    if 3 ≤ n then none
    else if c = ['.'] then some n
    else if c = ['.', '.'] then some 0
    else if n = 0 ∧ c = "a".toList then some 1
    else if n = 0 ∧ c = "ab".toList then some 2
    else if n = 1 ∧ c = "y_test.lua".toList then some 3
    else if n = 2 ∧ c = "x_test.lua".toList then some 4
    else none
  root_isDir := rfl
  child_of_file n c h := by
    have h3 : 3 ≤ n := by simpa using h
    rw [if_pos h3]
  child_dot n h := by
    have h3 : ¬ 3 ≤ n := by simpa using h
    rw [if_neg h3, if_pos rfl]
  child_dotdot n h := by
    have h3 : ¬ 3 ≤ n := by simpa using h
    exact ⟨0, by rw [if_neg h3, if_neg (by decide), if_pos rfl], rfl⟩

/-- In `/a`, the file `/a/y_test.lua` keeps its meaning. -/
theorem siblings_below : siblings.resolve 1 (trimCwd "/a".toList "/a/y_test.lua".toList)
    = siblings.resolve 1 "/a/y_test.lua".toList := by
  have hcanonical : Canonical "/a/y_test.lua".toList :=
    ⟨["a".toList, "y_test.lua".toList], by decide, by decide⟩
  have hslash : ShortensAtSlash "/a".toList "/a/y_test.lua".toList :=
    Or.inr ⟨"y_test.lua".toList, by decide, by decide, Or.inl (by decide)⟩
  exact ((shortened_names_denote "/a".toList (by decide)).1 _ hcanonical).mpr hslash _ siblings 1
    (by decide) (by decide)

/-- In `/a`, the file `/ab/x_test.lua` of the sibling directory is shortened to a name that
denotes nothing. -/
theorem siblings_beside : Canonical "/ab/x_test.lua".toList ∧
    siblings.resolve 0 "/a".toList = some 1 ∧ siblings.isDir 1 = true ∧
    siblings.resolve 1 "/ab/x_test.lua".toList = some 4 ∧
    trimCwd "/a".toList "/ab/x_test.lua".toList = "b/x_test.lua".toList ∧
    siblings.resolve 1 (trimCwd "/a".toList "/ab/x_test.lua".toList) = none := by
  have hcanonical : Canonical "/ab/x_test.lua".toList :=
    ⟨["ab".toList, "x_test.lua".toList], by decide, by decide⟩
  exact ⟨hcanonical, by decide, by decide, by decide, by decide, by decide⟩

end Testcase
