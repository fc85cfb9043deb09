import LuaTestcase.Command.Loading
import LuaTestcase.Filesystem.Search

/-!
# The test files below the pathnames

The command resolves its pathnames, searches them with `getfiles`, and resolves the shortened names
that it gets back to find out which ones are the same file.  Whether it loads every test file below
its pathnames, and no other file, needs all three: the search has to be complete, the shortened
names have to denote the files they were made from, and the real paths have to tell files apart.

* `TestFile` — what there is to be loaded.
* `mem_getfiles` — a search that succeeds has found exactly this.
* `test_files_loaded` — **the test files below the pathnames are loaded, each once**.
-/

namespace Testcase

variable {W F U : Type}

/-! ## What a search has found -/

section Found

variable {os : Os} {suffix : Str}

theorem foundUnder_iff {dir full : Str} : FoundUnder os dir suffix full ↔
    (∃ e ∈ (os.readdir dir).1, isTestfile os suffix dir e = true ∧ full = dir ++ '/' :: e) ∨
      ∃ dir', SubDir os dir' dir ∧ FoundUnder os dir' suffix full := by
  have htest : ∀ {d e : Str}, isTestfile os suffix d e = true ↔ isDotfile e = false ∧
      os.stat (d ++ '/' :: e) true = .ok .file ∧ hasSuffix e suffix = true := by
    intro d e
    simp only [isTestfile, Bool.and_eq_true, Bool.not_eq_true', beq_iff_eq, stat_type_iff,
      and_assoc]
  constructor
  · rintro ⟨d, e, hvisited, he, hvisible, hsuffix, rfl, hfile⟩
    rcases visited_iff.mp hvisited with rfl | ⟨dir', hsub, hvisited⟩
    · exact .inl ⟨e, he, htest.mpr ⟨hvisible, hfile, hsuffix⟩, rfl⟩
    · exact .inr ⟨dir', hsub, d, e, hvisited, he, hvisible, hsuffix, rfl, hfile⟩
  · rintro (⟨e, he, hfile, rfl⟩ | ⟨dir', hsub, d, e, hvisited, hfound⟩)
    · obtain ⟨hvisible, hfile, hsuffix⟩ := htest.mp hfile
      exact ⟨dir, e, .top, he, hvisible, hsuffix, rfl, hfile⟩
    · exact ⟨d, e, visited_iff.mpr (.inr ⟨dir', hsub, hvisited⟩), hfound⟩

/-- The loop over directories, when it ends without an error. -/
theorem eachDir_includes {fuel : Nat}
    (hwalk : ∀ {dir : Str} {files files' : List Str},
      walkdir os suffix fuel files dir = some (files', none) → files ⊆ files' ∧
        ∀ full, FoundUnder os dir suffix full → trimCwd os.CWD full ∈ files')
    {dirs files files' : List Str}
    (h : eachDir (walkdir os suffix fuel) dirs files = some (files', none)) :
    files ⊆ files' ∧ ∀ dir ∈ dirs, ∀ full, FoundUnder os dir suffix full →
      trimCwd os.CWD full ∈ files' := by
  induction dirs generalizing files with
  | nil =>
      rw [eachDir] at h
      cases h
      exact ⟨List.Subset.refl _, by simp⟩
  | cons dir dirs ih =>
      rw [eachDir] at h
      rcases hfirst : walkdir os suffix fuel files dir with _ | ⟨mid, _ | err⟩
      · rw [hfirst] at h
        cases h
      · rw [hfirst] at h
        obtain ⟨hkeeps, hfinds⟩ := hwalk hfirst
        obtain ⟨hkeeps', hfinds'⟩ := ih h
        refine ⟨fun name hname => hkeeps' (hkeeps hname), fun d hd full hfull => ?_⟩
        rcases List.mem_cons.mp hd with rfl | hd
        · exact hkeeps' (hfinds full hfull)
        · exact hfinds' d hd full hfull
      · rw [hfirst] at h
        cases h

/-- **A walk that succeeds is complete**, whatever links the directories have. -/
theorem walkdir_includes {fuel : Nat} {dir : Str} {files files' : List Str}
    (h : walkdir os suffix fuel files dir = some (files', none)) :
    files ⊆ files' ∧ ∀ full, FoundUnder os dir suffix full → trimCwd os.CWD full ∈ files' := by
  induction fuel generalizing dir files files' with
  | zero => cases h
  | succ fuel ih =>
      have hsettled := walkdir_settled h dir .top
      rw [walkdir, scanDir_settled hsettled] at h
      obtain ⟨hkeeps, hfinds⟩ := eachDir_includes ih h
      refine ⟨fun name hname => hkeeps (List.mem_append_left _ hname), fun full hfull => ?_⟩
      rcases foundUnder_iff.mp hfull with ⟨e, he, hfile, rfl⟩ | ⟨dir', hsub, hfull⟩
      · refine hkeeps (List.mem_append_right _ (List.mem_map.mpr ⟨e, ?_, rfl⟩))
        exact List.mem_filter.mpr ⟨he, hfile⟩
      · exact hfinds dir' hsub full hfull

/-- A test file of a pathname: the pathname itself if it is a regular file, and the files with the
suffix that are found below it if it is a directory. -/
def TestFile (os : Os) (suffix : Option Str) (path full : Str) : Prop :=
  (os.stat path true = .ok .file ∧ full = path) ∨
    (os.stat path true = .ok .directory ∧
      FoundUnder os (trimSuffix path ['/']) (suffix.getD defaultSuffix) full)

theorem TestFile.stat {opt : Option Str} {path full : Str} (h : TestFile os opt path full) :
    os.stat full true = .ok .file := by
  rcases h with ⟨hfile, rfl⟩ | ⟨-, _, _, -, -, -, -, -, hfile⟩
  · exact hfile
  · exact hfile

/-- **A search that succeeds has found the test files**, and nothing else. -/
theorem mem_getfiles {fuel : Nat} {path : Str} {opt : Option Str} {names : List Str}
    (h : getfiles os fuel path opt = some (.files names)) (name : Str) :
    name ∈ names ↔ ∃ full, TestFile os opt path full ∧ name = trimCwd os.CWD full := by
  constructor
  · intro hname
    obtain ⟨full, hfound, rfl⟩ := getfiles_found h name hname
    rcases hstat : os.stat path true with err | ty
    · rw [getfiles, hstat] at h
      dsimp only at h
      split_ifs at h
      · cases h
      · cases h
    · cases ty with
      | file =>
          rw [getfiles, hstat] at h
          cases h
          exact ⟨path, .inl ⟨hstat, rfl⟩, List.mem_singleton.mp hname⟩
      | directory =>
          rcases hfound with ⟨-, hfile⟩ | hunder
          · rw [hstat] at hfile
            cases hfile
          · exact ⟨full, .inr ⟨hstat, hunder⟩, rfl⟩
      | _ =>
          rw [getfiles, hstat] at h
          cases h
          cases hname
  · rintro ⟨full, ⟨hfile, rfl⟩ | ⟨hdir, hunder⟩, rfl⟩
    · rw [getfiles, hfile] at h
      cases h
      exact List.mem_singleton.mpr rfl
    · rw [getfiles, hdir] at h
      dsimp only at h
      rcases hwalk : walkdir os (opt.getD defaultSuffix) fuel [] (trimSuffix path ['/'])
        with _ | ⟨files, _ | err⟩
      · rw [hwalk] at h
        cases h
      · rw [hwalk] at h
        cases h
        rw [sortNames, List.mem_insertionSort]
        exact (walkdir_includes hwalk).2 full hunder
      · rw [hwalk] at h
        cases h

end Found

/-! ## What the command loads -/

/-- The command resolves names and searches with `lib/filesystem.lua` on a file tree; a real path
stands for one file.  `realpath` accepts names that are no longer than one of the same file that
`stat` accepts. -/
structure Searches {Node : Type} (cmd : Command W F U) (w : W) (os : Os) (t : FileTree Node)
    (here : Node) : Prop where
  getfiles_eq : ∀ path suffix list, cmd.getfiles path suffix w = .ok (some list) →
    ∃ fuel, getfiles os fuel path suffix = some (.files list)
  CWD_absolute : os.CWD.head? = some '/'
  CWD_tree : t.resolve t.root os.CWD = some here
  stat_resolve : ∀ name ty, os.stat name true = .ok ty → ∃ n, t.resolve here name = some n
  realpath_resolve : ∀ name ty name' n, os.stat name true = .ok ty → t.resolve here name = some n →
    t.resolve here name' = some n → name'.length ≤ name.length →
    cmd.realpath name' w = cmd.realpath name w

section Loaded

variable {Node : Type} {cmd : Command W F U} {w : W} {os : Os} {t : FileTree Node} {here : Node}

/-- The shortened name has the real path of the file. -/
theorem Searches.canonical_trimCwd (hs : Searches cmd w os t here) {full : Str}
    (hfile : os.stat full true = .ok .file) (hslash : ShortensAtSlash os.CWD full) :
    cmd.canonical w (trimCwd os.CWD full) = cmd.canonical w full := by
  obtain ⟨n, hn⟩ := hs.stat_resolve full .file hfile
  have hsame := trimCwd_resolve_of_shortensAtSlash t hs.CWD_absolute hs.CWD_tree hslash
  rw [Command.canonical, hs.realpath_resolve full .file _ n hfile hn (hsame.trans hn)
    (trimCwd_length_le _ _), Command.canonical]

/-- The file is a test file of a pathname of the command line. -/
def Command.Targets (cmd : Command W F U) (w : W) (os : Os) (opts : Options) (full : Str) : Prop :=
  ∃ arg ∈ opts.args, ∃ path, cmd.canonical w arg = some path ∧ TestFile os opts.suffix path full

/-- The names that are collected are those of the test files. -/
theorem Collected.mem_names {opts : Options} {paths : List Str} {lists : List (List Str)}
    (h : Collected cmd w opts paths lists) (hs : Searches cmd w os t here) (name : Str) :
    name ∈ lists.flatten ↔ ∃ full, cmd.Targets w os opts full ∧ name = trimCwd os.CWD full := by
  rw [List.mem_flatten]
  constructor
  · rintro ⟨list, hlist, hname⟩
    obtain ⟨path, hpath, hget⟩ := (mem_of_map_eq_map ok_some_injective h.searched).mp hlist
    obtain ⟨arg, harg, hres⟩ :=
      (mem_of_map_eq_map (Option.some_injective _) h.resolved).mp hpath
    obtain ⟨fuel, hfiles⟩ := hs.getfiles_eq _ _ _ hget
    obtain ⟨full, hfull, rfl⟩ := (mem_getfiles hfiles name).mp hname
    exact ⟨full, ⟨arg, harg, path, hres, hfull⟩, rfl⟩
  · rintro ⟨full, ⟨arg, harg, path, hres, hfull⟩, rfl⟩
    obtain ⟨list, hlist, hget⟩ := h.found harg hres
    obtain ⟨fuel, hfiles⟩ := hs.getfiles_eq _ _ _ hget
    exact ⟨list, hlist, (mem_getfiles hfiles _).mpr ⟨full, hfull, rfl⟩⟩

/-- **The test files below the pathnames are loaded, each once.**  Behind the options `get_files`
returns a list; no test file has a pathname that `CWD` cuts inside of a name.  Then a file that is
loaded is a test file of a pathname, by its shortened name; every test file is loaded, perhaps by
another name with the same real path; and no two loaded files have the same real path. -/
theorem test_files_loaded (cmd : Command W F U) (arg : List Str) (p p' : Proc W)
    (es : List (CommandEvent W F U)) (opts : Options) (files : List Str) (os : Os)
    (t : FileTree Node) (here : Node) (hs : Searches cmd p'.world os t here)
    (hopts : checkOpts cmd arg p = ⟨es, .ok opts, p'⟩)
    (hfiles : getFiles cmd opts p' = ⟨[], .ok files, p'⟩)
    (hslash : ∀ full, cmd.Targets p'.world os opts full → ShortensAtSlash os.CWD full) :
    (loads (main cmd arg p).events).map Prod.fst = files ∧
      (∀ name ∈ files, ∃ full, cmd.Targets p'.world os opts full ∧ name = trimCwd os.CWD full ∧
        cmd.canonical p'.world name = cmd.canonical p'.world full) ∧
      (∀ full, cmd.Targets p'.world os opts full → ∃ name ∈ files,
        cmd.canonical p'.world name = cmd.canonical p'.world full) ∧
      (files.map (cmd.canonical p'.world)).Nodup := by
  have hes : loads es = [] := by
    have h := NoLoad.loads (checkOpts_onlyEvents (display_noLoad cmd .print) arg) p
    rwa [hopts] at h
  have hloads : (loads (main cmd arg p).events).map Prod.fst = files := by
    rw [main_run hopts hfiles, loads_append, loads_append, hes, loads_load,
      (testSources_noLoad cmd _ _).loads, List.nil_append, List.append_nil, loadAll_files]
  rcases getFiles_cases cmd opts p' with ⟨paths, lists, hcollected, hrun⟩ |
    ⟨-, es', h, hrun, -, -⟩
  · obtain rfl : firsts (cmd.canonical p'.world) lists.flatten = files := by
      rw [hrun] at hfiles
      exact Except.ok.inj (congrArg Outcome.result hfiles)
    have hcanonical : ∀ full, cmd.Targets p'.world os opts full →
        cmd.canonical p'.world (trimCwd os.CWD full) = cmd.canonical p'.world full := by
      intro full hfull
      have hstat : os.stat full true = .ok .file := by
        obtain ⟨_, -, _, -, htest⟩ := hfull
        exact htest.stat
      exact hs.canonical_trimCwd hstat (hslash full hfull)
    refine ⟨hloads, ?_, ?_, firsts_keys_nodup _⟩
    · intro name hname
      obtain ⟨full, hfull, rfl⟩ := (hcollected.mem_names hs name).mp (mem_of_mem_firsts hname)
      exact ⟨full, hfull, rfl, hcanonical full hfull⟩
    · intro full hfull
      have hname := (hcollected.mem_names hs _).mpr ⟨full, hfull, rfl⟩
      obtain ⟨name, hmem, hsame⟩ :=
        @exists_mem_firsts _ _ _ (cmd.canonical p'.world) _ _ hname
      exact ⟨name, hmem, hsame.trans (hcanonical full hfull)⟩
  · rw [hrun] at hfiles
    cases congrArg Outcome.result hfiles

end Loaded

/-! ### Two names of one file -/

/-- The directory `/a` (node 1) has a file `y_test.lua` (node 3), a directory `sub` (node 2) with a
file `x_test.lua` (node 4), and a link `l_test.lua` to that file. -/
def nestedTree : FileTree Nat where
  root := 0
  isDir n := n < 3
  child n c :=
    if 3 ≤ n then none
    else if c = ['.'] then some n
    else if c = ['.', '.'] then some (n - 1)
    else if n = 0 ∧ c = "a".toList then some 1
    else if n = 1 ∧ c = "sub".toList then some 2
    else if n = 1 ∧ c = "y_test.lua".toList then some 3
    else if n = 1 ∧ c = "l_test.lua".toList then some 4
    else if n = 2 ∧ c = "x_test.lua".toList then some 4
    else none
  root_isDir := rfl
  child_of_file n c h := by
    have h3 : 3 ≤ n := by simpa using h
    rw [if_pos h3]
  child_dot n h := by
    have h3 : ¬ 3 ≤ n := by simpa using h
    rw [if_neg h3, if_pos rfl]
  child_dotdot n h := by
    have h3 : ¬ 3 ≤ n := by simpa using h
    refine ⟨n - 1, by rw [if_neg h3, if_neg (by decide), if_pos rfl], ?_⟩
    simp only [decide_eq_true_eq]
    omega

/-- The tree, seen from `/a`. -/
def nestedOs : Os where
  CWD := "/a".toList
  realpath name :=
    (nestedTree.resolve 1 name).elim (.error ⟨ENOENT, "realpath".toList⟩) fun n =>
      .ok ((["/", "/a", "/a/sub", "/a/y_test.lua", "/a/sub/x_test.lua"].map
        String.toList).getD n [])
  stat name _ := (nestedTree.resolve 1 name).elim (.error ⟨ENOENT, "stat".toList⟩) fun n =>
    .ok (if n < 3 then .directory else .file)
  readdir name :=
    (nestedTree.resolve 1 name).elim ([], some ⟨ENOENT, "readdir".toList⟩) fun n =>
      ((if n = 0 then ["a"] else if n = 1 then ["y_test.lua", "sub", "l_test.lua"]
        else if n = 2 then ["x_test.lua"] else []).map String.toList, none)

def nestedCommand : Command Unit Bool Unit where
  toEnv := plainEnv
  requireLuacov w := (.ok (), w)
  realpath name _ := nestedOs.realpath name
  getfiles path suffix _ :=
    match getfiles nestedOs 3 path suffix with
    | some (.files list) => .ok (some list)
    | some (.failed err) => .error err
    | _ => .ok none
  eval _ w := (.ok (), w)
  traversal := Traversal.forward
  registry _ := ∅
  date _ := []
  total _ := ((), "clock".toList)

theorem nestedCommand_searches : Searches nestedCommand () nestedOs nestedTree 1 where
  getfiles_eq path suffix list h := by
    refine ⟨3, ?_⟩
    simp only [nestedCommand] at h
    split at h
    · next heq =>
        cases h
        exact heq
    · cases h
    · cases h
  CWD_absolute := rfl
  CWD_tree := by decide
  stat_resolve name ty h := by
    simp only [nestedOs] at h
    cases hn : nestedTree.resolve 1 name with
    | some n => exact ⟨n, rfl⟩
    | none =>
        rw [hn] at h
        cases h
  realpath_resolve name ty name' n _ h h' _ := by
    simp only [nestedCommand, nestedOs, h, h']

/-- The options of `testcase sub .`. -/
def nestedOptions : Options := ⟨false, false, false, [], ["sub".toList, ".".toList]⟩

/-- The subdirectory has one test file. -/
theorem nestedOs_sub {full : Str}
    (h : FoundUnder nestedOs "/a/sub".toList defaultSuffix full) :
    full = "/a/sub/x_test.lua".toList := by
  rcases foundUnder_iff.mp h with ⟨e, he, -, rfl⟩ | ⟨dir', hsub, -⟩
  · obtain rfl := List.mem_singleton.mp he
    rfl
  · cases hsub

/-- `/a` has two, one of which is a link, and that of the subdirectory. -/
theorem nestedOs_top {full : Str} (h : FoundUnder nestedOs "/a".toList defaultSuffix full) :
    full ∈ ["/a/y_test.lua", "/a/l_test.lua", "/a/sub/x_test.lua"].map String.toList := by
  rcases foundUnder_iff.mp h with ⟨e, he, htest, rfl⟩ | ⟨dir', hsub, hunder⟩
  · have hentry : e ∈ ["y_test.lua".toList, "sub".toList, "l_test.lua".toList] := he
    simp only [List.mem_cons, List.not_mem_nil, or_false] at hentry
    rcases hentry with rfl | rfl | rfl
    · decide
    · exact absurd htest (by decide)
    · decide
  · have hdirs : subdirsIn nestedOs "/a".toList (nestedOs.readdir "/a".toList).1 =
        ["/a/sub".toList] := by decide
    rw [SubDir, hdirs] at hsub
    obtain rfl := List.mem_singleton.mp hsub
    rw [nestedOs_sub hunder]
    decide

/-- The test files of both pathnames. -/
theorem nestedCommand_targets {full : Str}
    (h : nestedCommand.Targets () nestedOs nestedOptions full) :
    full ∈ ["/a/y_test.lua", "/a/l_test.lua", "/a/sub/x_test.lua"].map String.toList := by
  obtain ⟨arg, harg, path, hpath, htest⟩ := h
  simp only [nestedOptions, List.mem_cons, List.not_mem_nil, or_false] at harg
  rcases harg with rfl | rfl
  · obtain rfl : path = "/a/sub".toList := (Option.some.inj hpath).symm
    rcases htest with ⟨hfile, -⟩ | ⟨-, hunder⟩
    · cases hfile
    · rw [nestedOs_sub hunder]
      decide
  · obtain rfl : path = "/a".toList := (Option.some.inj hpath).symm
    rcases htest with ⟨hfile, -⟩ | ⟨-, hunder⟩
    · cases hfile
    · exact nestedOs_top hunder

/-- Both pathnames have the file of the subdirectory below them, and it has two names; it is loaded
once. -/
theorem nestedCommand_loaded :
    ((loads (main nestedCommand ["sub".toList, ".".toList] ⟨(), false⟩).events).map Prod.fst =
      ["sub/x_test.lua".toList, "y_test.lua".toList]) ∧
    ∃ name ∈ ["sub/x_test.lua".toList, "y_test.lua".toList],
      nestedCommand.canonical () name = nestedCommand.canonical () "/a/l_test.lua".toList := by
  have hslash : ∀ full, nestedCommand.Targets () nestedOs nestedOptions full →
      ShortensAtSlash nestedOs.CWD full := by
    intro full hfull
    have hmem := nestedCommand_targets hfull
    simp only [List.map_cons, List.map_nil, List.mem_cons, List.not_mem_nil, or_false] at hmem
    rcases hmem with rfl | rfl | rfl
    · exact .inr ⟨"y_test.lua".toList, by decide, by decide, .inl (by decide)⟩
    · exact .inr ⟨"l_test.lua".toList, by decide, by decide, .inl (by decide)⟩
    · exact .inr ⟨"sub/x_test.lua".toList, by decide, by decide, .inl (by decide)⟩
  obtain ⟨hloads, -, hall, -⟩ := test_files_loaded nestedCommand ["sub".toList, ".".toList]
    ⟨(), false⟩ ⟨(), false⟩ [] nestedOptions ["sub/x_test.lua".toList, "y_test.lua".toList] nestedOs
    nestedTree 1 nestedCommand_searches rfl (by rfl) hslash
  refine ⟨hloads, hall _ ⟨".".toList, by decide, "/a".toList, rfl, .inr ⟨rfl, ?_⟩⟩⟩
  exact foundUnder_iff.mpr (.inl ⟨"l_test.lua".toList, by decide, by decide, rfl⟩)

end Testcase
