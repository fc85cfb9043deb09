import Mathlib.Order.Filter.AtTopBot.Basic
import LuaTestcase.Filesystem.Names

/-!
# The search is complete

`walkdir` appends the files of a directory while it reads it and descends into the directories it
found afterwards.  If no chain of directories is infinite and nothing fails, the table gets every
matching file once; if something fails where the search comes by, the error is returned.

* `scanDir_settled`, `scanDir_unsettled` — one directory, when nothing in it fails and when
  something does.
* `walkdir_total` — with enough fuel the search ends.
* `walkdir_paths` — **it appends the matching paths, each once**.
* `directory_search` — the search from a directory, and `getfiles`.
-/

namespace Testcase

open Filter

variable {os : Os} {suffix : Str}

/-! ## Paths below a directory -/

/-- `d/e1/.../en`. -/
def below (d : Str) (es : List Str) : Str := es.foldl (fun dir entry => dir ++ '/' :: entry) d

@[simp] theorem below_nil (d : Str) : below d [] = d := rfl

@[simp] theorem below_cons (d e : Str) (es : List Str) :
    below d (e :: es) = below (d ++ '/' :: e) es := rfl

/-- The path leads to a file with the suffix: no component starts with a dot, each is an entry of
the directory before it, the proper prefixes are directories, and at the end there is a regular
file whose name ends with the suffix. -/
structure IsMatch (os : Os) (suffix d : Str) (es : List Str) : Prop where
  visible : ∀ e ∈ es, isDotfile e = false
  listed : ∀ pre e, pre ++ [e] <+: es → e ∈ (os.readdir (below d pre)).1
  dirs : ∀ pre, pre ≠ [] → pre <+: es → pre ≠ es → os.stat (below d pre) true = .ok .directory
  file : os.stat (below d es) true = .ok .file
  ends : ∃ name, es.getLast? = some name ∧ suffix <:+ name

theorem not_isMatch_nil {d : Str} : ¬ IsMatch os suffix d [] := by
  intro h
  obtain ⟨name, hname, _⟩ := h.ends
  cases hname

theorem isMatch_single {d e : Str} : IsMatch os suffix d [e] ↔
    e ∈ (os.readdir d).1 ∧ isDotfile e = false ∧ os.stat (d ++ '/' :: e) true = .ok .file ∧
      suffix <:+ e := by
  constructor
  · intro h
    obtain ⟨name, hname, hsuffix⟩ := h.ends
    obtain rfl : e = name := Option.some.inj hname
    exact ⟨h.listed [] e (List.prefix_refl _), h.visible e (by simp), h.file, hsuffix⟩
  · rintro ⟨hlisted, hvisible, hfile, hsuffix⟩
    refine ⟨by simpa using hvisible, ?_, ?_, hfile, e, rfl, hsuffix⟩
    · intro pre e' hpre
      cases pre with
      | nil =>
          obtain rfl : e' = e := by simpa using hpre
          exact hlisted
      | cons x pre =>
          have hlen := hpre.length_le
          simp at hlen
    · intro pre hne hpre hproper
      cases pre with
      | nil => exact absurd rfl hne
      | cons x pre => exact absurd (hpre.eq_of_length_le (by simp)) hproper

theorem isMatch_cons {d e e' : Str} {es : List Str} : IsMatch os suffix d (e :: e' :: es) ↔
    e ∈ (os.readdir d).1 ∧ isDotfile e = false ∧ os.stat (d ++ '/' :: e) true = .ok .directory ∧
      IsMatch os suffix (d ++ '/' :: e) (e' :: es) := by
  constructor
  · intro h
    refine ⟨h.listed [] e (by simp), h.visible e (by simp), h.dirs [e] (by simp) (by simp)
      (by simp), ?_⟩
    refine ⟨fun x hx => h.visible x (by simp [hx]), fun pre x hpre => ?_, ?_, h.file, ?_⟩
    · exact h.listed (e :: pre) x (List.cons_prefix_cons.mpr ⟨rfl, hpre⟩)
    · intro pre _ hpre hproper
      exact h.dirs (e :: pre) (by simp) (List.cons_prefix_cons.mpr ⟨rfl, hpre⟩)
        (by simpa using hproper)
    · simpa using h.ends
  · rintro ⟨hlisted, hvisible, hdir, h⟩
    refine ⟨?_, fun pre x hpre => ?_, fun pre hne hpre hproper => ?_, h.file, by simpa using h.ends⟩
    · intro x hx
      rcases List.mem_cons.mp hx with rfl | hx
      · exact hvisible
      · exact h.visible x hx
    · cases pre with
      | nil =>
          obtain rfl : x = e := by simpa using hpre
          exact hlisted
      | cons y pre =>
          obtain ⟨rfl, hrest⟩ := List.cons_prefix_cons.mp hpre
          exact h.listed pre x hrest
    · cases pre with
      | nil => exact absurd rfl hne
      | cons y pre =>
          obtain ⟨rfl, hrest⟩ := List.cons_prefix_cons.mp hpre
          rcases eq_or_ne pre [] with rfl | hpre'
          · exact hdir
          · exact h.dirs pre hpre' hrest (by simpa using hproper)

/-! ## One directory -/

/-- The `stat` of an entry fails, and not because the file is gone. -/
def Blocked (os : Os) (dir entry : Str) : Prop :=
  isDotfile entry = false ∧ ∃ err, os.stat (dir ++ '/' :: entry) true = .error err ∧
    err.type ≠ ENOENT

/-- Nothing fails in the directory. -/
structure Settled (os : Os) (dir : Str) : Prop where
  readable : (os.readdir dir).2 = none
  entries : ∀ e ∈ (os.readdir dir).1, ¬ Blocked os dir e

/-- The entry is a directory that is not hidden. -/
def isSubdir (os : Os) (dir entry : Str) : Bool :=
  !isDotfile entry && (os.stat (dir ++ '/' :: entry) true).toOption == some .directory

/-- The entry is a regular file with the suffix that is not hidden. -/
def isTestfile (os : Os) (suffix dir entry : Str) : Bool :=
  !isDotfile entry && (os.stat (dir ++ '/' :: entry) true).toOption == some .file &&
    hasSuffix entry suffix

theorem onEntry_blocked (suffix : Str) {dir e : Str} (h : Blocked os dir e) (scan : Scan) :
    ∃ err, onEntry os dir suffix scan e = (scan, some err) := by
  obtain ⟨hvisible, err, hstat, herr⟩ := h
  refine ⟨err, ?_⟩
  simp [onEntry, hvisible, hstat, herr]

theorem onEntry_open {dir e : Str} (h : ¬ Blocked os dir e) (scan : Scan) :
    onEntry os dir suffix scan e
      = (⟨scan.files ++ ([e].filter (isTestfile os suffix dir)).map
          fun x => trimCwd os.CWD (dir ++ '/' :: x),
        scan.dirs ++ ([e].filter (isSubdir os dir)).map fun x => dir ++ '/' :: x⟩, none) := by
  rcases hdot : isDotfile e with _ | _
  · rcases hstat : os.stat (dir ++ '/' :: e) true with err | ty
    · have hgone : err.type = ENOENT := by
        by_contra hne
        exact h ⟨hdot, err, hstat, hne⟩
      simp [onEntry, hdot, hstat, hgone, isTestfile, isSubdir, Except.toOption]
    · cases ty with
      | file =>
          by_cases hsuffix : hasSuffix e suffix = true
          · simp [onEntry, hdot, hstat, hsuffix, isTestfile, isSubdir, Except.toOption]
          · simp [onEntry, hdot, hstat, hsuffix, isTestfile, isSubdir, Except.toOption]
      | _ => simp [onEntry, hdot, hstat, isTestfile, isSubdir, Except.toOption]
  · simp [onEntry, hdot, isTestfile, isSubdir]

/-- The names that are found among the entries of a directory. -/
def foundIn (os : Os) (suffix dir : Str) (entries : List Str) : List Str :=
  (entries.filter (isTestfile os suffix dir)).map fun e => trimCwd os.CWD (dir ++ '/' :: e)

/-- The directories among the entries. -/
def subdirsIn (os : Os) (dir : Str) (entries : List Str) : List Str :=
  (entries.filter (isSubdir os dir)).map fun e => dir ++ '/' :: e

theorem readdirEach_open {dir : Str} {entries : List Str}
    (h : ∀ e ∈ entries, ¬ Blocked os dir e) (scan : Scan) :
    readdirEach (onEntry os dir suffix) entries scan
      = (⟨scan.files ++ foundIn os suffix dir entries, scan.dirs ++ subdirsIn os dir entries⟩,
        none) := by
  induction entries generalizing scan with
  | nil => simp [readdirEach, foundIn, subdirsIn]
  | cons e entries ih =>
      have hcons : ∀ p : Str → Bool,
          (e :: entries).filter p = [e].filter p ++ entries.filter p := by
        intro p
        rw [← List.filter_append, List.singleton_append]
      rw [readdirEach, onEntry_open (h e (by simp))]
      simp only
      rw [ih fun x hx => h x (by simp [hx])]
      simp only [foundIn, subdirsIn, hcons, List.map_append, List.append_assoc]

theorem readdirEach_blocked (suffix : Str) {dir : Str} {entries : List Str}
    (h : ∃ e ∈ entries, Blocked os dir e) (scan : Scan) :
    ∃ scan' err, readdirEach (onEntry os dir suffix) entries scan = (scan', some err) := by
  induction entries generalizing scan with
  | nil => simp at h
  | cons e entries ih =>
      rw [readdirEach]
      by_cases hblocked : Blocked os dir e
      · obtain ⟨err, herr⟩ := onEntry_blocked suffix hblocked scan
        rw [herr]
        exact ⟨scan, err, rfl⟩
      · rw [onEntry_open hblocked]
        obtain ⟨x, hx, hxb⟩ := h
        rcases List.mem_cons.mp hx with rfl | hx
        · exact absurd hxb hblocked
        · exact ih ⟨x, hx, hxb⟩ _

/-- **A directory in which nothing fails.** -/
theorem scanDir_settled {dir : Str} (h : Settled os dir) (files : List Str) :
    scanDir os dir suffix files = (⟨files ++ foundIn os suffix dir (os.readdir dir).1,
      subdirsIn os dir (os.readdir dir).1⟩, none) := by
  rw [scanDir, readdirEach_open h.entries]
  simp only [h.readable, List.nil_append]

/-- **A directory in which something fails.** -/
theorem scanDir_unsettled (suffix : Str) {dir : Str} (h : ¬ Settled os dir) (files : List Str) :
    ∃ scan err, scanDir os dir suffix files = (scan, some err) := by
  rw [scanDir]
  by_cases hblocked : ∃ e ∈ (os.readdir dir).1, Blocked os dir e
  · obtain ⟨scan, err, hstop⟩ := readdirEach_blocked suffix hblocked ⟨files, []⟩
    rw [hstop]
    exact ⟨scan, err, rfl⟩
  · push Not at hblocked
    rw [readdirEach_open hblocked]
    rcases hend : (os.readdir dir).2 with _ | err
    · exact absurd ⟨hend, hblocked⟩ h
    · exact ⟨_, err, rfl⟩

/-! ## The walk -/

/-- The one directory is found in the other. -/
def SubDir (os : Os) (dir' dir : Str) : Prop := dir' ∈ subdirsIn os dir (os.readdir dir).1

/-- What `stat` reports of a type. -/
theorem stat_type_iff {dir e : Str} {ty : FileType} :
    (os.stat (dir ++ '/' :: e) true).toOption = some ty ↔
      os.stat (dir ++ '/' :: e) true = .ok ty := by
  rcases os.stat (dir ++ '/' :: e) true with err | ty'
  · simp [Except.toOption]
  · simp [Except.toOption]

theorem isSubdir_iff {dir e : Str} : isSubdir os dir e = true ↔
    isDotfile e = false ∧ os.stat (dir ++ '/' :: e) true = .ok .directory := by
  simp only [isSubdir, Bool.and_eq_true, Bool.not_eq_true', beq_iff_eq, stat_type_iff]

theorem subDir_iff {dir dir' : Str} : SubDir os dir' dir ↔ ∃ e ∈ (os.readdir dir).1,
    isDotfile e = false ∧ os.stat (dir ++ '/' :: e) true = .ok .directory ∧
      dir' = dir ++ '/' :: e := by
  simp only [SubDir, subdirsIn, List.mem_map, List.mem_filter, isSubdir_iff]
  constructor
  · rintro ⟨e, ⟨hlisted, hvisible, hdir⟩, rfl⟩
    exact ⟨e, hlisted, hvisible, hdir, rfl⟩
  · rintro ⟨e, hlisted, hvisible, hdir, rfl⟩
    exact ⟨e, ⟨hlisted, hvisible, hdir⟩, rfl⟩

/-- What is visited: the directory, and what is visited from those that are found in it. -/
theorem visited_iff {dir d : Str} :
    Visited os dir d ↔ d = dir ∨ ∃ dir', SubDir os dir' dir ∧ Visited os dir' d := by
  constructor
  · intro h
    induction h with
    | top => exact Or.inl rfl
    | @child d e _ hlisted hvisible hdir ih =>
        right
        rcases ih with rfl | ⟨dir', hsub, hvisited⟩
        · exact ⟨_, subDir_iff.mpr ⟨e, hlisted, hvisible, hdir, rfl⟩, Visited.top⟩
        · exact ⟨dir', hsub, hvisited.child hlisted hvisible hdir⟩
  · rintro (rfl | ⟨dir', hsub, hvisited⟩)
    · exact Visited.top
    · obtain ⟨e, hlisted, hvisible, hdir, rfl⟩ := subDir_iff.mp hsub
      induction hvisited with
      | top => exact Visited.top.child hlisted hvisible hdir
      | child _ hlisted hvisible hdir ih => exact ih.child hlisted hvisible hdir

/-- What holds for all large fuel but one less holds for all large fuel. -/
theorem eventually_of_succ {P : Nat → Prop} (h : ∀ᶠ fuel in atTop, P (fuel + 1)) :
    ∀ᶠ fuel in atTop, P fuel := by
  obtain ⟨n, hn⟩ := eventually_atTop.mp h
  refine eventually_atTop.mpr ⟨n + 1, fun fuel hfuel => ?_⟩
  obtain ⟨k, rfl⟩ := Nat.exists_eq_add_of_le' hfuel
  exact hn (k + n) (by omega)

/-- The loop over directories whose walks end. -/
theorem eachDir_total {dirs : List Str} (h : ∀ dir ∈ dirs, ∀ files,
      ∃ res, ∀ᶠ fuel in atTop, walkdir os suffix fuel files dir = some res) (files : List Str) :
    ∃ res, ∀ᶠ fuel in atTop, eachDir (walkdir os suffix fuel) dirs files = some res := by
  induction dirs generalizing files with
  | nil => exact ⟨_, Eventually.of_forall fun _ => rfl⟩
  | cons dir dirs ih =>
      obtain ⟨⟨files', err⟩, hwalk⟩ := h dir (by simp) files
      cases err with
      | some err =>
          refine ⟨(files', some err), hwalk.mono fun fuel hfuel => ?_⟩
          rw [eachDir, hfuel]
      | none =>
          obtain ⟨res, hrest⟩ := ih (fun d hd => h d (by simp [hd])) files'
          refine ⟨res, (hwalk.and hrest).mono fun fuel hfuel => ?_⟩
          rw [eachDir, hfuel.1]
          exact hfuel.2

/-- **The search ends**, if no chain of directories is infinite. -/
theorem walkdir_total {dir : Str} (hacc : Acc (SubDir os) dir) (files : List Str) :
    ∃ res, ∀ᶠ fuel in atTop, walkdir os suffix fuel files dir = some res := by
  induction hacc generalizing files with
  | intro dir _ ih =>
      by_cases hsettled : Settled os dir
      · obtain ⟨res, hres⟩ := eachDir_total (fun d hd files => ih d hd files)
          (files ++ foundIn os suffix dir (os.readdir dir).1)
        refine ⟨res, eventually_of_succ (hres.mono fun fuel hfuel => ?_)⟩
        rw [walkdir, scanDir_settled hsettled]
        exact hfuel
      · obtain ⟨scan, err, hscan⟩ := scanDir_unsettled suffix hsettled files
        refine ⟨(scan.files, some err), eventually_of_succ (Eventually.of_forall fun fuel => ?_)⟩
        rw [walkdir, hscan]

/-- The loop over directories, when it ends without an error. -/
theorem eachDir_settled {fuel : Nat} (hwalk : ∀ {dir : Str} {files files' : List Str},
      walkdir os suffix fuel files dir = some (files', none) →
      ∀ d, Visited os dir d → Settled os d) {dirs files files' : List Str}
    (h : eachDir (walkdir os suffix fuel) dirs files = some (files', none)) :
    ∀ dir ∈ dirs, ∀ d, Visited os dir d → Settled os d := by
  induction dirs generalizing files with
  | nil =>
      intro dir hdir
      cases hdir
  | cons dir₁ dirs ih =>
      intro dir hdir
      rcases hfirst : walkdir os suffix fuel files dir₁ with _ | ⟨mid, _ | err⟩
      · rw [eachDir, hfirst] at h
        cases h
      · rw [eachDir, hfirst] at h
        rcases List.mem_cons.mp hdir with rfl | hdir
        · exact hwalk hfirst
        · exact ih h dir hdir
      · rw [eachDir, hfirst] at h
        cases h

/-- What is walked without an error has no failure anywhere. -/
theorem walkdir_settled {fuel : Nat} {dir : Str} {files files' : List Str}
    (h : walkdir os suffix fuel files dir = some (files', none)) :
    ∀ d, Visited os dir d → Settled os d := by
  induction fuel generalizing dir files files' with
  | zero => cases h
  | succ fuel ih =>
      have hsettled : Settled os dir := by
        by_contra hnot
        obtain ⟨scan, err, hscan⟩ := scanDir_unsettled suffix hnot files
        rw [walkdir, hscan] at h
        cases h
      rw [walkdir, scanDir_settled hsettled] at h
      intro d hd
      rcases visited_iff.mp hd with rfl | ⟨dir', hsub, hvisited⟩
      · exact hsettled
      · exact eachDir_settled ih h dir' hsub d hvisited

/-! ## What is found -/

/-- `sub(name, -#suffix) == suffix` asks for the suffix, unless it is empty. -/
theorem hasSuffix_iff {name : Str} (h : suffix ≠ []) : hasSuffix name suffix = true ↔
    suffix <:+ name := by
  rw [hasSuffix, sub_last name suffix.length (List.length_pos_iff.mpr h), beq_iff_eq,
    List.suffix_iff_eq_drop]
  exact eq_comm

theorem isTestfile_iff {dir e : Str} (h : suffix ≠ []) : isTestfile os suffix dir e = true ↔
    isDotfile e = false ∧ os.stat (dir ++ '/' :: e) true = .ok .file ∧ suffix <:+ e := by
  simp only [isTestfile, Bool.and_eq_true, Bool.not_eq_true', beq_iff_eq, stat_type_iff,
    hasSuffix_iff h, and_assoc]

/-- A path that matches is a file of the directory, or it matches below a directory in it. -/
theorem isMatch_iff (hsuffix : suffix ≠ []) {dir : Str} {es : List Str} :
    IsMatch os suffix dir es ↔
      es ∈ ((os.readdir dir).1.filter (isTestfile os suffix dir)).map (fun e => [e]) ∨
      ∃ e ∈ (os.readdir dir).1.filter (isSubdir os dir), ∃ es', es = e :: es' ∧
        IsMatch os suffix (dir ++ '/' :: e) es' := by
  match es with
  | [] => simp [not_isMatch_nil]
  | [e] =>
      rw [isMatch_single]
      constructor
      · rintro ⟨hlisted, htest⟩
        exact Or.inl (List.mem_map.mpr ⟨e, List.mem_filter.mpr
          ⟨hlisted, (isTestfile_iff hsuffix).mpr htest⟩, rfl⟩)
      · rintro (hfile | ⟨e', _, es', heq, hmatch⟩)
        · obtain ⟨e', he', heq⟩ := List.mem_map.mp hfile
          obtain rfl := List.singleton_inj.mp heq
          obtain ⟨hlisted, htest⟩ := List.mem_filter.mp he'
          exact ⟨hlisted, (isTestfile_iff hsuffix).mp htest⟩
        · obtain ⟨rfl, rfl⟩ := List.cons.inj heq
          exact absurd hmatch not_isMatch_nil
  | e :: e' :: es =>
      rw [isMatch_cons]
      constructor
      · rintro ⟨hlisted, hvisible, hdir, hmatch⟩
        exact Or.inr ⟨e, List.mem_filter.mpr ⟨hlisted, isSubdir_iff.mpr ⟨hvisible, hdir⟩⟩, _, rfl,
          hmatch⟩
      · rintro (hfile | ⟨x, hx, es', heq, hmatch⟩)
        · obtain ⟨x, _, heq⟩ := List.mem_map.mp hfile
          cases heq
        · obtain ⟨rfl, rfl⟩ := List.cons.inj heq
          obtain ⟨hlisted, hsubdir⟩ := List.mem_filter.mp hx
          obtain ⟨hvisible, hdir⟩ := isSubdir_iff.mp hsubdir
          exact ⟨hlisted, hvisible, hdir, hmatch⟩

/-- The name that is appended for a path. -/
def nameOf (os : Os) (dir : Str) (es : List Str) : Str := trimCwd os.CWD (below dir es)

/-- The paths are those that match, each once, and with enough fuel their names are appended. -/
structure Finds (os : Os) (suffix dir : Str) (paths : List (List Str)) : Prop where
  nodup : paths.Nodup
  mem : ∀ es, es ∈ paths ↔ IsMatch os suffix dir es
  walk : ∀ files, ∀ᶠ fuel in atTop,
    walkdir os suffix fuel files dir = some (files ++ paths.map (nameOf os dir), none)

/-- The loop over the directories among the entries. -/
theorem eachDir_paths {dir : Str} {entries : List Str} (hnodup : entries.Nodup)
    (h : ∀ e ∈ entries, ∃ paths, Finds os suffix (dir ++ '/' :: e) paths) :
    ∃ paths : List (List Str), paths.Nodup ∧
      (∀ es, es ∈ paths ↔
        ∃ e ∈ entries, ∃ es', es = e :: es' ∧ IsMatch os suffix (dir ++ '/' :: e) es') ∧
      ∀ files, ∀ᶠ fuel in atTop,
        eachDir (walkdir os suffix fuel) (entries.map fun e => dir ++ '/' :: e) files
          = some (files ++ paths.map (nameOf os dir), none) := by
  induction entries with
  | nil => exact ⟨[], List.nodup_nil, by simp, fun files => Eventually.of_forall fun _ => by
      simp [eachDir]⟩
  | cons e entries ih =>
      obtain ⟨he, hnodup⟩ := List.nodup_cons.mp hnodup
      obtain ⟨paths, hfinds⟩ := h e (by simp)
      obtain ⟨rest, hrest, hmem, hwalk⟩ := ih hnodup fun x hx => h x (by simp [hx])
      refine ⟨paths.map (e :: ·) ++ rest, ?_, fun es => ?_, fun files => ?_⟩
      · refine List.Nodup.append (hfinds.nodup.map (List.cons_injective)) hrest ?_
        intro es hes hes'
        obtain ⟨es₁, _, rfl⟩ := List.mem_map.mp hes
        obtain ⟨e', he', es₂, heq, _⟩ := (hmem _).mp hes'
        obtain ⟨rfl, rfl⟩ := List.cons.inj heq
        exact he he'
      · rw [List.mem_append, hmem, List.exists_mem_cons_iff, List.mem_map]
        refine or_congr_left ?_
        constructor
        · rintro ⟨es', hes', rfl⟩
          exact ⟨es', rfl, (hfinds.mem es').mp hes'⟩
        · rintro ⟨es', rfl, hmatch⟩
          exact ⟨es', (hfinds.mem es').mpr hmatch, rfl⟩
      · have hnames : (paths.map (e :: ·)).map (nameOf os dir)
            = paths.map (nameOf os (dir ++ '/' :: e)) := by
          rw [List.map_map]
          rfl
        refine ((hfinds.walk files).and
          (hwalk (files ++ paths.map (nameOf os (dir ++ '/' :: e))))).mono fun fuel hfuel => ?_
        rw [List.map_cons, eachDir, hfuel.1]
        simp only
        rw [hfuel.2, List.map_append, hnames, List.append_assoc]

/-- **The matching paths are appended, each once.** -/
theorem walkdir_paths {dir : Str} (hsuffix : suffix ≠ []) (hacc : Acc (SubDir os) dir)
    (hsettled : ∀ d, Visited os dir d → Settled os d)
    (hnodup : ∀ d, Visited os dir d → (os.readdir d).1.Nodup) :
    ∃ paths, Finds os suffix dir paths := by
  induction hacc with
  | intro dir _ ih =>
      have hsub : ∀ e ∈ (os.readdir dir).1.filter (isSubdir os dir),
          SubDir os (dir ++ '/' :: e) dir := fun e he => List.mem_map.mpr ⟨e, he, rfl⟩
      obtain ⟨rest, hrest, hmem, hwalk⟩ := eachDir_paths
        ((hnodup dir Visited.top).filter (isSubdir os dir)) fun e he =>
          ih _ (hsub e he) (fun d hd => hsettled d (visited_iff.mpr (Or.inr ⟨_, hsub e he, hd⟩)))
            fun d hd => hnodup d (visited_iff.mpr (Or.inr ⟨_, hsub e he, hd⟩))
      refine ⟨((os.readdir dir).1.filter (isTestfile os suffix dir)).map (fun e => [e]) ++ rest,
        ?_, fun es => ?_, fun files => ?_⟩
      · refine List.Nodup.append (((hnodup dir Visited.top).filter _).map ?_) hrest ?_
        · exact fun e e' heq => List.singleton_inj.mp heq
        · intro es hes hes'
          obtain ⟨e, _, rfl⟩ := List.mem_map.mp hes
          obtain ⟨e', _, es', heq, hmatch⟩ := (hmem _).mp hes'
          obtain ⟨rfl, rfl⟩ := List.cons.inj heq
          exact not_isMatch_nil hmatch
      · rw [List.mem_append, hmem, isMatch_iff hsuffix]
      · refine eventually_of_succ
          ((hwalk (files ++ foundIn os suffix dir (os.readdir dir).1)).mono fun fuel hfuel => ?_)
        rw [walkdir, scanDir_settled (hsettled dir Visited.top)]
        simp only
        rw [subdirsIn, hfuel, List.map_append, foundIn, List.map_map, List.append_assoc]
        rfl

/-! ## Other orders -/

/-- The one system lists the same entries as the other, perhaps in another order. -/
structure Reordered (os os' : Os) : Prop where
  cwd : os'.CWD = os.CWD
  stat : os'.stat = os.stat
  entries : ∀ dir, (os'.readdir dir).1.Perm (os.readdir dir).1
  ends : ∀ dir, (os'.readdir dir).2 = (os.readdir dir).2

/-- No chain of directories is infinite, and no directory lists an entry twice. -/
structure SearchTree (os : Os) (d : Str) : Prop where
  descends : Acc (SubDir os) d
  once : ∀ dir, Visited os d dir → (os.readdir dir).1.Nodup

section Reordered

variable {os' : Os}

theorem Reordered.subDir (h : Reordered os os') : SubDir os' = SubDir os := by
  funext dir' dir
  refine propext ?_
  rw [subDir_iff, subDir_iff, h.stat]
  simp only [(h.entries dir).mem_iff]

theorem Reordered.symm (h : Reordered os os') : Reordered os' os :=
  ⟨h.cwd.symm, h.stat.symm, fun dir => (h.entries dir).symm, fun dir => (h.ends dir).symm⟩

theorem Reordered.visit (h : Reordered os os') {d dir : Str} (hvisited : Visited os' d dir) :
    Visited os d dir := by
  induction hvisited with
  | top => exact Visited.top
  | child _ hlisted hvisible hdir ih =>
      exact ih.child ((h.entries _).mem_iff.mp hlisted) hvisible (h.stat ▸ hdir)

theorem Reordered.visited (h : Reordered os os') {d dir : Str} :
    Visited os' d dir ↔ Visited os d dir :=
  ⟨h.visit, h.symm.visit⟩

theorem Reordered.searchTree (h : Reordered os os') {d : Str} (ht : SearchTree os d) :
    SearchTree os' d where
  descends := h.subDir ▸ ht.descends
  once dir hdir := (h.entries dir).nodup_iff.mpr (ht.once dir (h.visited.mp hdir))

theorem Reordered.settled (h : Reordered os os') {dir : Str} (hs : Settled os dir) :
    Settled os' dir where
  readable := (h.ends dir).trans hs.readable
  entries e he hblocked := by
    refine hs.entries e ((h.entries dir).mem_iff.mp he) ?_
    rwa [Blocked, h.stat] at hblocked

theorem Reordered.matches (h : Reordered os os') {d : Str} {es : List Str}
    (hm : IsMatch os' suffix d es) : IsMatch os suffix d es where
  visible := hm.visible
  listed pre e hpre := (h.entries _).mem_iff.mp (hm.listed pre e hpre)
  dirs := h.stat ▸ hm.dirs
  file := h.stat ▸ hm.file
  ends := hm.ends

theorem Reordered.isMatch (h : Reordered os os') {d : Str} {es : List Str} :
    IsMatch os' suffix d es ↔ IsMatch os suffix d es :=
  ⟨h.matches, h.symm.matches⟩

end Reordered

/-! ## The search -/

theorem sortNames_perm {names names' : List Str} (h : names.Perm names') :
    sortNames names = sortNames names' := by
  have hperm : (sortNames names).Perm (sortNames names') :=
    ((List.perm_insertionSort _ names).trans h).trans (List.perm_insertionSort _ names').symm
  exact hperm.eq_of_pairwise (fun a b _ _ hab hba => le_antisymm hab hba)
    (List.pairwise_insertionSort _ names) (List.pairwise_insertionSort _ names')

/-- `getfiles` on a directory. -/
theorem getfiles_directory {fuel : Nat} {pathname d : Str} {opt : Option Str}
    (hdir : os.stat pathname true = .ok .directory) (hd : trimSuffix pathname ['/'] = d)
    (hsuffix : opt.getD defaultSuffix = suffix) {res : List Str × Option SysError}
    (hwalk : walkdir os suffix fuel [] d = some res) :
    getfiles os fuel pathname opt = some (match res.2 with
      | none => .files (sortNames res.1)
      | some err => .failed err) := by
  rw [getfiles, hdir]
  simp only
  rw [hd, hsuffix, hwalk]
  obtain ⟨files, _ | err⟩ := res
  · rfl
  · rfl

/-- The names of the paths that are found, sorted. -/
theorem getfiles_finds {pathname d : Str} {opt : Option Str} {paths : List (List Str)}
    (hdir : os.stat pathname true = .ok .directory) (hd : trimSuffix pathname ['/'] = d)
    (hsuffix : opt.getD defaultSuffix = suffix) (hpaths : Finds os suffix d paths) :
    ∀ᶠ fuel in atTop, getfiles os fuel pathname opt
      = some (.files (sortNames (paths.map (nameOf os d)))) := by
  refine (hpaths.walk []).mono fun fuel hfuel => ?_
  rw [getfiles_directory hdir hd hsuffix hfuel, List.nil_append]

/-- A list is returned only if nothing fails. -/
theorem getfiles_settled {fuel : Nat} {pathname d : Str} {opt : Option Str} {names : List Str}
    (hdir : os.stat pathname true = .ok .directory) (hd : trimSuffix pathname ['/'] = d)
    (h : getfiles os fuel pathname opt = some (.files names)) :
    ∀ dir, Visited os d dir → Settled os dir := by
  rw [getfiles, hdir] at h
  simp only [hd] at h
  rcases hwalk : walkdir os (opt.getD defaultSuffix) fuel [] d with _ | ⟨files, _ | err⟩
  · rw [hwalk] at h
    cases h
  · exact walkdir_settled hwalk
  · rw [hwalk] at h
    cases h

/-- An error, if something fails where the search comes by. -/
theorem getfiles_fails {pathname d : Str} {opt : Option Str} (hacc : Acc (SubDir os) d)
    (hdir : os.stat pathname true = .ok .directory) (hd : trimSuffix pathname ['/'] = d)
    (hsuffix : opt.getD defaultSuffix = suffix)
    (hfails : ∃ dir, Visited os d dir ∧ ¬ Settled os dir) :
    ∃ err, ∀ᶠ fuel in atTop, getfiles os fuel pathname opt = some (.failed err) := by
  obtain ⟨dir, hvisited, hnot⟩ := hfails
  have htotal : ∃ res, ∀ᶠ fuel in atTop, walkdir os suffix fuel [] d = some res :=
    walkdir_total hacc []
  obtain ⟨⟨files, err⟩, hwalk⟩ := htotal
  obtain ⟨n, hn⟩ := eventually_atTop.mp hwalk
  cases err with
  | none => exact absurd (walkdir_settled (hn n le_rfl) dir hvisited) hnot
  | some err =>
      refine ⟨err, hwalk.mono fun fuel hfuel => ?_⟩
      rw [getfiles_directory hdir hd hsuffix hfuel]

/-- **The search from a directory**, for a suffix that is not empty, if no chain of directories is
infinite and no directory lists an entry twice.  If nothing fails where the search comes by, the
names of the matching paths are appended, each path once, and `getfiles` returns these names
sorted, in whatever order the directories are listed.  If something fails, `getfiles` returns an
error. -/
theorem directory_search (os : Os) (suffix d : Str) (hsuffix : suffix ≠ [])
    (htree : SearchTree os d) :
    ((∀ dir, Visited os d dir → Settled os dir) → ∃ paths : List (List Str), paths.Nodup ∧
      (∀ es, es ∈ paths ↔ IsMatch os suffix d es) ∧
      (∀ files, ∀ᶠ fuel in atTop, walkdir os suffix fuel files d
        = some (files ++ paths.map fun es => trimCwd os.CWD (below d es), none)) ∧
      ∀ os' pathname opt, Reordered os os' → os.stat pathname true = .ok .directory →
        trimSuffix pathname ['/'] = d → opt.getD defaultSuffix = suffix →
        ∀ᶠ fuel in atTop, getfiles os' fuel pathname opt
          = some (.files (sortNames (paths.map fun es => trimCwd os.CWD (below d es))))) ∧
    ((∃ dir, Visited os d dir ∧ ¬ Settled os dir) →
      ∀ pathname opt, os.stat pathname true = .ok .directory → trimSuffix pathname ['/'] = d →
        opt.getD defaultSuffix = suffix →
        ∃ err, ∀ᶠ fuel in atTop, getfiles os fuel pathname opt = some (.failed err)) := by
  constructor
  · intro hsettled
    obtain ⟨paths, hpaths⟩ := walkdir_paths hsuffix htree.descends hsettled htree.once
    refine ⟨paths, hpaths.nodup, hpaths.mem, hpaths.walk, fun os' pathname opt h hdir hd hopt => ?_⟩
    have htree' := h.searchTree htree
    obtain ⟨paths', hpaths'⟩ := walkdir_paths hsuffix htree'.descends
      (fun dir hdir' => h.settled (hsettled dir (h.visited.mp hdir'))) htree'.once
    have hperm : paths'.Perm paths := (List.perm_ext_iff_of_nodup hpaths'.nodup hpaths.nodup).mpr
      fun es => (hpaths'.mem es).trans (h.isMatch.trans (hpaths.mem es).symm)
    have hname : nameOf os' d = nameOf os d := by
      funext es
      rw [nameOf, nameOf, h.cwd]
    have hsorted : sortNames (paths'.map (nameOf os' d)) = sortNames (paths.map (nameOf os d)) := by
      rw [hname]
      exact sortNames_perm (hperm.map _)
    have hfiles := getfiles_finds (h.stat ▸ hdir) hd hopt hpaths'
    rw [hsorted] at hfiles
    exact hfiles
  · rintro hfails pathname opt hdir hd hopt
    exact getfiles_fails htree.descends hdir hd hopt hfails

/-! ### A directory with a subdirectory -/

/-- `t` holds a test file, a hidden file, a dangling link and a directory with a test file. -/
def smallTree : Os where
  CWD := "/a".toList
  realpath name := .ok ("/a/".toList ++ name)
  stat name _ :=
    if name ∈ ["t".toList, "t/".toList, "t/sub".toList] then .ok .directory
    else if name ∈ ["t/x_test.lua".toList, "t/sub/y_test.lua".toList] then .ok .file
    else .error ⟨ENOENT, "stat".toList⟩
  readdir name :=
    if name = "t".toList then ([".".toList, "..".toList, ".x_test.lua".toList, "sub".toList,
      "gone_test.lua".toList, "x_test.lua".toList], none)
    else if name = "t/sub".toList then ([".".toList, "..".toList, "y_test.lua".toList], none)
    else ([], some ⟨ENOENT, "readdir".toList⟩)

theorem smallTree_subDir {dir dir' : Str} (h : SubDir smallTree dir' dir) :
    dir = "t".toList ∧ dir' = "t/sub".toList := by
  unfold SubDir at h
  by_cases ht : dir = "t".toList
  · subst ht
    have hsub : subdirsIn smallTree "t".toList (smallTree.readdir "t".toList).1
        = ["t/sub".toList] := by decide
    rw [hsub] at h
    exact ⟨rfl, List.mem_singleton.mp h⟩
  · by_cases hsub : dir = "t/sub".toList
    · subst hsub
      have hnone : subdirsIn smallTree "t/sub".toList (smallTree.readdir "t/sub".toList).1
          = [] := by decide
      rw [hnone] at h
      cases h
    · have hnone : (smallTree.readdir dir).1 = [] := by
        simp only [smallTree, if_neg ht, if_neg hsub]
      rw [hnone] at h
      cases h

theorem smallTree_visited {dir : Str} (h : Visited smallTree "t".toList dir) :
    dir = "t".toList ∨ dir = "t/sub".toList := by
  rcases visited_iff.mp h with rfl | ⟨dir', hsub, hvisited⟩
  · exact Or.inl rfl
  · obtain ⟨_, rfl⟩ := smallTree_subDir hsub
    rcases visited_iff.mp hvisited with rfl | ⟨dir'', hsub', _⟩
    · exact Or.inr rfl
    · exact absurd (smallTree_subDir hsub').1 (by decide)

/-- The file in the subdirectory is found, whether the directory is called `t` or `t/`. -/
theorem smallTree_names : ∃ paths : List (List Str),
    ["sub".toList, "y_test.lua".toList] ∈ paths ∧ ∀ pathname ∈ ["t".toList, "t/".toList],
    ∀ᶠ fuel in atTop, getfiles smallTree fuel pathname none
      = some (.files (sortNames (paths.map fun es => trimCwd "/a".toList (below "t".toList es)))) := by
  have hacc : Acc (SubDir smallTree) "t".toList := by
    refine Acc.intro _ fun dir hdir => ?_
    obtain ⟨_, rfl⟩ := smallTree_subDir hdir
    exact Acc.intro _ fun dir' hdir' => absurd (smallTree_subDir hdir').1 (by decide)
  have honce : ∀ dir, Visited smallTree "t".toList dir → (smallTree.readdir dir).1.Nodup := by
    intro dir hdir
    rcases smallTree_visited hdir with rfl | rfl
    · decide
    · decide
  have hsettled : ∀ dir, Visited smallTree "t".toList dir → Settled smallTree dir := by
    intro dir hdir
    have hgone : ∀ name err, smallTree.stat name true = .error err → err.type = ENOENT := by
      intro name err herr
      simp only [smallTree] at herr
      split_ifs at herr
      cases herr
      rfl
    rcases smallTree_visited hdir with rfl | rfl
    · exact ⟨rfl, fun e _ ⟨_, err, herr, hne⟩ => hne (hgone _ _ herr)⟩
    · exact ⟨rfl, fun e _ ⟨_, err, herr, hne⟩ => hne (hgone _ _ herr)⟩
  obtain ⟨paths, _, hmem, _, hfiles⟩ := (directory_search smallTree defaultSuffix "t".toList
    (by decide) ⟨hacc, honce⟩).1 hsettled
  refine ⟨paths, (hmem _).mpr ?_, fun pathname hpathname => ?_⟩
  · refine isMatch_cons.mpr ⟨by decide, by decide, rfl, isMatch_single.mpr ?_⟩
    exact ⟨by decide, by decide, rfl, by decide⟩
  · have hrefl : Reordered smallTree smallTree :=
      ⟨rfl, rfl, fun _ => List.Perm.refl _, fun _ => rfl⟩
    simp only [List.mem_cons, List.not_mem_nil, or_false] at hpathname
    rcases hpathname with rfl | rfl
    · exact hfiles smallTree _ none hrefl rfl rfl rfl
    · exact hfiles smallTree _ none hrefl rfl rfl rfl

end Testcase
