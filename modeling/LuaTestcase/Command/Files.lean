import LuaTestcase.Command.Def
import LuaTestcase.Core.Lists

/-!
# Which files are loaded

The pathnames of the command line must have pairwise different real paths.  The names that the
searches find may repeat each other, and of the names with one real path the first is kept.

* `Rejected`, `Collected` — what may be wrong with the pathnames, and what is found if nothing is.
* `rejected_or_collected`, `Collected.not_rejected` — exactly one of the two is the case.
* `getFiles_cases` — **what `get_files` does**: it collects the first names with each real path, or
  it refuses.
-/

namespace Testcase

variable {W F U : Type}

/-! ## What is collected -/

/-- The real path of a name, if it resolves. -/
def Command.canonical (cmd : Command W F U) (w : W) (name : Str) : Option Str :=
  (cmd.realpath name w).toOption

/-- Something is wrong with the pathnames: one does not resolve; two have the same real path; the
search of one fails; or a name that was found does not resolve. -/
inductive Rejected (cmd : Command W F U) (w : W) (opts : Options) : Prop where
  | unresolved {arg : Str} : arg ∈ opts.args → cmd.canonical w arg = none → Rejected cmd w opts
  | duplicate {arg arg' path : Str} : [arg, arg'].Sublist opts.args →
      cmd.canonical w arg = some path → cmd.canonical w arg' = some path → Rejected cmd w opts
  | searchFailed {arg path : Str} : arg ∈ opts.args → cmd.canonical w arg = some path →
      (∀ list, cmd.getfiles path opts.suffix w ≠ .ok (some list)) → Rejected cmd w opts
  | nameUnresolved {arg path name : Str} {list : List Str} : arg ∈ opts.args →
      cmd.canonical w arg = some path → cmd.getfiles path opts.suffix w = .ok (some list) →
      name ∈ list → cmd.canonical w name = none → Rejected cmd w opts

/-- Nothing is wrong: the real paths of the pathnames, and what is found in each. -/
structure Collected (cmd : Command W F U) (w : W) (opts : Options) (paths : List Str)
    (lists : List (List Str)) : Prop where
  resolved : opts.args.map (cmd.canonical w) = paths.map some
  distinct : paths.Nodup
  searched : paths.map (fun path => cmd.getfiles path opts.suffix w)
    = lists.map fun list => .ok (some list)
  named : ∀ name ∈ lists.flatten, cmd.canonical w name ≠ none

theorem ok_some_injective : Function.Injective fun list : List Str =>
    (.ok (some list) : Except SysError (Option (List Str))) := by
  intro list list' heq
  cases heq
  rfl

/-- **One of the two is the case.** -/
theorem rejected_or_collected (cmd : Command W F U) (w : W) (opts : Options) :
    Rejected cmd w opts ∨ ∃ paths lists, Collected cmd w opts paths lists := by
  by_cases hrejected : Rejected cmd w opts
  · exact Or.inl hrejected
  · have hresolved : ∀ arg ∈ opts.args, ∃ path, cmd.canonical w arg = some path := by
      intro arg harg
      rcases hpath : cmd.canonical w arg with _ | path
      · exact absurd (.unresolved harg hpath) hrejected
      · exact ⟨path, rfl⟩
    obtain ⟨paths, hpaths⟩ := exists_map_eq_map hresolved
    have hsearched : ∀ path ∈ paths, ∃ list,
        cmd.getfiles path opts.suffix w = .ok (some list) := by
      intro path hpath
      obtain ⟨arg, harg, hres⟩ := (mem_of_map_eq_map (Option.some_injective _) hpaths).mp hpath
      by_contra hnone
      push Not at hnone
      exact hrejected (.searchFailed harg hres hnone)
    obtain ⟨lists, hlists⟩ := exists_map_eq_map hsearched
    refine Or.inr ⟨paths, lists, hpaths, ?_, hlists, ?_⟩
    · have hnodup : (opts.args.map (cmd.canonical w)).Nodup := by
        refine nodup_map_iff.mpr fun {arg arg'} hsub heq => ?_
        obtain ⟨path, hpath⟩ := hresolved arg (hsub.subset (by simp))
        exact hrejected (.duplicate hsub hpath (heq ▸ hpath))
      rw [hpaths] at hnodup
      exact hnodup.of_map
    · intro name hname hnone
      obtain ⟨list, hlist, hin⟩ := List.mem_flatten.mp hname
      obtain ⟨path, hpath, hget⟩ := (mem_of_map_eq_map ok_some_injective hlists).mp hlist
      obtain ⟨arg, harg, hres⟩ := (mem_of_map_eq_map (Option.some_injective _) hpaths).mp hpath
      exact hrejected (.nameUnresolved harg hres hget hin hnone)

/-- What is found for a pathname. -/
theorem Collected.found {cmd : Command W F U} {w : W} {opts : Options} {paths : List Str}
    {lists : List (List Str)} (h : Collected cmd w opts paths lists) {arg path : Str}
    (harg : arg ∈ opts.args) (hres : cmd.canonical w arg = some path) :
    ∃ list ∈ lists, cmd.getfiles path opts.suffix w = .ok (some list) := by
  have hpath := (mem_of_map_eq_map (Option.some_injective _) h.resolved).mpr ⟨arg, harg, hres⟩
  exact exists_of_map_eq_map h.searched hpath

theorem Collected.not_rejected {cmd : Command W F U} {w : W} {opts : Options} {paths : List Str}
    {lists : List (List Str)} (h : Collected cmd w opts paths lists) :
    ¬ Rejected cmd w opts := by
  intro hrejected
  cases hrejected with
  | unresolved harg hnone =>
      obtain ⟨path, _, hres⟩ := exists_of_map_eq_map h.resolved harg
      rw [hnone] at hres
      cases hres
  | duplicate hsub hres hres' =>
      have hnodup : (opts.args.map (cmd.canonical w)).Nodup := by
        rw [h.resolved]
        exact h.distinct.map (Option.some_injective _)
      exact nodup_map_iff.mp hnodup hsub (hres.trans hres'.symm)
  | searchFailed harg hres hnone =>
      obtain ⟨list, _, hget⟩ := h.found harg hres
      exact hnone list hget
  | nameUnresolved harg hres hget hname hnone =>
      obtain ⟨list, hlist, hget'⟩ := h.found harg hres
      rw [hget] at hget'
      cases hget'
      exact h.named _ (List.mem_flatten.mpr ⟨_, hlist, hname⟩) hnone

/-! ## `get_files` -/

/-- The event is printing. -/
def CommandEvent.IsPrint (e : CommandEvent W F U) : Prop := ∃ printer args, e = .print printer args

/-- The process ends with a failure. -/
def Halt.fails (h : Halt F U) : Prop := exitStatus (.error h) ≠ 0

/-- The action prints, stops with a failure and changes nothing. -/
def Refuses {α : Type} (m : Task W F U α) (p : Proc W) : Prop :=
  ∃ es h, m p = ⟨es, .error h, p⟩ ∧ (∀ e ∈ es, e.IsPrint) ∧ h.fails

section Operations

variable {α β : Type} {cmd : Command W F U} {p : Proc W}

theorem Refuses.bind {m : Task W F U α} (h : Refuses m p) (k : α → Task W F U β) :
    Refuses (m >>= k) p := by
  obtain ⟨es, halt, hrun, hes, hfails⟩ := h
  exact ⟨es, halt, Act.bind_of_error hrun, hes, hfails⟩

theorem Refuses.behind {m : Task W F U α} {k : α → Task W F U β} {a : α}
    (hm : m p = ⟨[], .ok a, p⟩) (hk : Refuses (k a) p) : Refuses (m >>= k) p := by
  obtain ⟨es, halt, hrun, hes, hfails⟩ := hk
  refine ⟨es, halt, ?_, hes, hfails⟩
  rw [Act.bind_of_ok hm, hrun]
  rfl

theorem fails_minus_one : (.exit (-1) : Halt F U).fails := by
  simp [Halt.fails, exitStatus]

/-- `exit(-1, ...)` with arguments that need not be converted. -/
theorem exit_refuses {msg : List (Value F U)} (h : conversions msg = []) :
    Refuses (exit cmd (-1) msg : Task W F U α) p := by
  cases msg with
  | nil => exact ⟨[], _, rfl, by simp, fails_minus_one⟩
  | cons v vs =>
      refine ⟨[.print .print (v :: vs)], .exit (-1), ?_, ?_, fails_minus_one⟩
      · simp only [exit, display, printing_plain h]
        rfl
      · intro e he
        exact ⟨_, _, List.mem_singleton.mp he⟩

theorem checkPathname_cases (cmd : Command W F U) (name : Str) (p : Proc W) :
    (∃ path, cmd.canonical p.world name = some path ∧
      checkPathname cmd name p = ⟨[], .ok path, p⟩) ∨
    cmd.canonical p.world name = none ∧ Refuses (checkPathname cmd name) p := by
  unfold Refuses
  simp only [checkPathname, Command.canonical, Act.reads_bind_run]
  rcases cmd.realpath name p.world with err | path
  · refine Or.inr ⟨rfl, ?_⟩
    by_cases herr : err.type ≠ ENOENT
    · simp only [if_pos herr]
      exact exit_refuses rfl
    · simp only [if_neg herr]
      exact exit_refuses rfl
  · exact Or.inl ⟨path, rfl, rfl⟩

/-- The state of the loop of `get_pathnames`. -/
structure PathnamesSeen (acc : List Str × Table Bool) : Prop where
  nodup : acc.1.Nodup
  seen : ∀ path, acc.2.lookup path = some true ↔ path ∈ acc.1

theorem PathnamesSeen.insert {acc : List Str × Table Bool} (h : PathnamesSeen acc) {path : Str}
    (hnew : path ∉ acc.1) : PathnamesSeen (acc.1 ++ [path], acc.2.insert path true) where
  nodup := by
    rw [← List.concat_eq_append]
    exact h.nodup.concat hnew
  seen path' := by
    rw [lookup_insert_if, List.mem_append, List.mem_singleton]
    split_ifs with heq
    · exact iff_of_true rfl (Or.inr heq)
    · rw [h.seen, or_iff_left heq]

/-- One step of the loop. -/
theorem getPathname_cases (cmd : Command W F U) {acc : List Str × Table Bool}
    (h : PathnamesSeen acc) (arg : Str) :
    (∃ path, cmd.canonical p.world arg = some path ∧ path ∉ acc.1 ∧
      getPathname cmd acc arg p
        = ⟨[], .ok (acc.1 ++ [path], acc.2.insert path true), p⟩) ∨
    (∀ path, cmd.canonical p.world arg = some path → path ∈ acc.1) ∧
      Refuses (getPathname cmd acc arg) p := by
  rcases checkPathname_cases cmd arg p with ⟨path, hpath, hrun⟩ | ⟨hnone, hrefuses⟩
  · by_cases hseen : acc.2.lookup path = some true
    · refine Or.inr ⟨fun path' hpath' => ?_, Refuses.behind hrun ?_⟩
      · rw [hpath] at hpath'
        cases hpath'
        exact (h.seen path).mp hseen
      · rw [if_pos hseen]
        exact exit_refuses rfl
    · refine Or.inl ⟨path, hpath, fun hin => hseen ((h.seen path).mpr hin), ?_⟩
      rw [getPathname, Act.bind_of_ok hrun, if_neg hseen]
      rfl
  · refine Or.inr ⟨fun path hpath => ?_, Refuses.bind hrefuses _⟩
    rw [hnone] at hpath
    cases hpath

/-- The loop of `get_pathnames`. -/
theorem forEach_getPathname (cmd : Command W F U) (args : List Str)
    {acc : List Str × Table Bool} (h : PathnamesSeen acc) :
    (∃ paths seen, args.map (cmd.canonical p.world) = paths.map some ∧
      (acc.1 ++ paths).Nodup ∧
      Act.forEach (getPathname cmd) args acc p = ⟨[], .ok (acc.1 ++ paths, seen), p⟩) ∨
    (¬ ∃ paths, args.map (cmd.canonical p.world) = paths.map some ∧ (acc.1 ++ paths).Nodup) ∧
      Refuses (Act.forEach (getPathname cmd) args acc) p := by
  induction args generalizing acc with
  | nil => exact Or.inl ⟨[], acc.2, rfl, by simpa using h.nodup, by simp [Act.forEach]⟩
  | cons arg args ih =>
      rcases getPathname_cases (p := p) cmd h arg with ⟨path, hpath, hnew, hrun⟩ |
        ⟨hold, hrefuses⟩
      · rcases ih (h.insert hnew) with ⟨paths, seen, hpaths, hnodup, hloop⟩ | ⟨hnone, hrefuses⟩
        · refine Or.inl ⟨path :: paths, seen, ?_, by simpa using hnodup, ?_⟩
          · rw [List.map_cons, List.map_cons, hpath, hpaths]
          · rw [Act.forEach, Act.bind_of_ok hrun, hloop]
            simp
        · refine Or.inr ⟨?_, Refuses.behind hrun hrefuses⟩
          rintro ⟨_ | ⟨path', paths⟩, hpaths, hnodup⟩
          · cases hpaths
          · rw [List.map_cons, List.map_cons, List.cons.injEq, hpath] at hpaths
            cases hpaths.1
            exact hnone ⟨paths, hpaths.2, by simpa using hnodup⟩
      · refine Or.inr ⟨?_, Refuses.bind hrefuses _⟩
        rintro ⟨_ | ⟨path, paths⟩, hpaths, hnodup⟩
        · cases hpaths
        · rw [List.map_cons, List.map_cons, List.cons.injEq] at hpaths
          exact (List.nodup_append.mp hnodup).2.2 _ (hold path hpaths.1) _ (by simp) rfl

/-- The state of the loops of `get_files` behind the names `done`. -/
def FilesSeen (cmd : Command W F U) (w : W) (done : List Str) (acc : List Str × Table Bool) :
    Prop :=
  acc.1 = firsts (cmd.canonical w) done ∧
    ∀ path, acc.2.lookup path = some true ↔ some path ∈ done.map (cmd.canonical w)

/-- One step of the inner loop. -/
theorem getFile_cases {done : List Str} {acc : List Str × Table Bool}
    (h : FilesSeen cmd p.world done acc) (name : Str) :
    (cmd.canonical p.world name ≠ none ∧ ∃ acc', FilesSeen cmd p.world (done ++ [name]) acc' ∧
      getFile cmd acc name p = ⟨[], .ok acc', p⟩) ∨
    cmd.canonical p.world name = none ∧ Refuses (getFile cmd acc name) p := by
  rcases checkPathname_cases cmd name p with ⟨path, hpath, hrun⟩ | ⟨hnone, hrefuses⟩
  · refine Or.inl ⟨by rw [hpath]; simp, ?_⟩
    obtain ⟨hfiles, hseen⟩ := h
    by_cases hold : acc.2.lookup path = some true
    · have hin : cmd.canonical p.world name ∈ done.map (cmd.canonical p.world) := by
        rw [hpath, ← hseen]
        exact hold
      refine ⟨acc, ⟨?_, fun path' => ?_⟩, ?_⟩
      · rw [firsts_concat, if_pos hin, hfiles]
      · rw [hseen, List.map_append, List.mem_append, List.map_singleton, List.mem_singleton]
        refine (or_iff_left_of_imp fun heq => ?_).symm
        rw [heq]
        exact hin
      · rw [getFile, Act.bind_of_ok hrun, if_pos hold]
        rfl
    · have hout : cmd.canonical p.world name ∉ done.map (cmd.canonical p.world) := by
        rw [hpath, ← hseen]
        exact hold
      refine ⟨(acc.1 ++ [name], acc.2.insert path true), ⟨?_, fun path' => ?_⟩, ?_⟩
      · rw [firsts_concat, if_neg hout, hfiles]
      · rw [lookup_insert_if, List.map_append, List.mem_append, List.map_singleton,
          List.mem_singleton, hpath, Option.some.injEq, ← hseen]
        split_ifs with heq
        · exact iff_of_true rfl (Or.inr heq)
        · rw [or_iff_left heq]
      · rw [getFile, Act.bind_of_ok hrun, if_neg hold]
        rfl
  · exact Or.inr ⟨hnone, Refuses.bind hrefuses _⟩

/-- The inner loop. -/
theorem forEach_getFile (list : List Str) {done : List Str} {acc : List Str × Table Bool}
    (h : FilesSeen cmd p.world done acc) :
    ((∀ name ∈ list, cmd.canonical p.world name ≠ none) ∧
      ∃ acc', FilesSeen cmd p.world (done ++ list) acc' ∧
        Act.forEach (getFile cmd) list acc p = ⟨[], .ok acc', p⟩) ∨
    (¬ ∀ name ∈ list, cmd.canonical p.world name ≠ none) ∧
      Refuses (Act.forEach (getFile cmd) list acc) p := by
  induction list generalizing done acc with
  | nil => exact Or.inl ⟨by simp, acc, by simpa using h, rfl⟩
  | cons name list ih =>
      rcases getFile_cases h name with ⟨hname, acc', hacc', hrun⟩ | ⟨hnone, hrefuses⟩
      · rcases ih hacc' with ⟨hlist, acc'', hacc'', hloop⟩ | ⟨hnot, hrefuses⟩
        · refine Or.inl ⟨List.forall_mem_cons.mpr ⟨hname, hlist⟩, acc'', ?_, ?_⟩
          · rwa [List.append_assoc, List.singleton_append] at hacc''
          · rw [Act.forEach, Act.bind_of_ok hrun, hloop]
            rfl
        · refine Or.inr ⟨?_, Refuses.behind hrun hrefuses⟩
          exact fun hall => hnot (List.forall_mem_cons.mp hall).2
      · refine Or.inr ⟨?_, Refuses.bind hrefuses _⟩
        exact fun hall => (List.forall_mem_cons.mp hall).1 hnone

/-- One step of the outer loop. -/
theorem getFilesOf_cases (suffix : Option Str) (path : Str) {done : List Str}
    {acc : List Str × Table Bool} (h : FilesSeen cmd p.world done acc) :
    (∃ list acc', cmd.getfiles path suffix p.world = .ok (some list) ∧
      (∀ name ∈ list, cmd.canonical p.world name ≠ none) ∧
      FilesSeen cmd p.world (done ++ list) acc' ∧
      getFilesOf cmd suffix acc path p = ⟨[], .ok acc', p⟩) ∨
    (∀ list, cmd.getfiles path suffix p.world = .ok (some list) →
      ¬ ∀ name ∈ list, cmd.canonical p.world name ≠ none) ∧
      Refuses (getFilesOf cmd suffix acc path) p := by
  unfold Refuses
  simp only [getFilesOf, Act.reads_bind_run]
  rcases cmd.getfiles path suffix p.world with err | _ | list
  · exact Or.inr ⟨by simp, exit_refuses rfl⟩
  · refine Or.inr ⟨by simp, [], _, rfl, by simp, ?_⟩
    simp [Halt.fails, exitStatus]
  · rcases forEach_getFile list h with ⟨hlist, acc', hacc', hrun⟩ | ⟨hnot, hrefuses⟩
    · exact Or.inl ⟨list, acc', rfl, hlist, hacc', hrun⟩
    · refine Or.inr ⟨fun list' heq => ?_, hrefuses⟩
      cases heq
      exact hnot

/-- The outer loop. -/
theorem forEach_getFilesOf (suffix : Option Str) (paths : List Str) {done : List Str}
    {acc : List Str × Table Bool} (h : FilesSeen cmd p.world done acc) :
    (∃ (lists : List (List Str)) (acc' : List Str × Table Bool),
      paths.map (fun path => cmd.getfiles path suffix p.world)
        = lists.map (fun list => .ok (some list)) ∧
      (∀ name ∈ lists.flatten, cmd.canonical p.world name ≠ none) ∧
      FilesSeen cmd p.world (done ++ lists.flatten) acc' ∧
      Act.forEach (getFilesOf cmd suffix) paths acc p = ⟨[], .ok acc', p⟩) ∨
    (¬ ∃ lists : List (List Str), paths.map (fun path => cmd.getfiles path suffix p.world)
        = lists.map (fun list => .ok (some list)) ∧
      ∀ name ∈ lists.flatten, cmd.canonical p.world name ≠ none) ∧
      Refuses (Act.forEach (getFilesOf cmd suffix) paths acc) p := by
  induction paths generalizing done acc with
  | nil => exact Or.inl ⟨[], acc, rfl, by simp, by simpa using h, rfl⟩
  | cons path paths ih =>
      rcases getFilesOf_cases suffix path h with ⟨list, acc', hget, hlist, hacc', hrun⟩ |
        ⟨hbad, hrefuses⟩
      · rcases ih hacc' with ⟨lists, acc'', hgets, hlists, hacc'', hloop⟩ | ⟨hnot, hrefuses⟩
        · refine Or.inl ⟨list :: lists, acc'', ?_, ?_, ?_, ?_⟩
          · rw [List.map_cons, List.map_cons, hget, hgets]
          · rw [List.flatten_cons, List.forall_mem_append]
            exact ⟨hlist, hlists⟩
          · rwa [List.append_assoc, ← List.flatten_cons] at hacc''
          · rw [Act.forEach, Act.bind_of_ok hrun, hloop]
            rfl
        · refine Or.inr ⟨?_, Refuses.behind hrun hrefuses⟩
          rintro ⟨lists, hgets, hnames⟩
          cases lists with
          | nil => cases hgets
          | cons list' lists =>
              rw [List.map_cons, List.map_cons, List.cons.injEq] at hgets
              rw [List.flatten_cons, List.forall_mem_append] at hnames
              exact hnot ⟨lists, hgets.2, hnames.2⟩
      · refine Or.inr ⟨?_, Refuses.bind hrefuses _⟩
        rintro ⟨lists, hgets, hnames⟩
        cases lists with
        | nil => cases hgets
        | cons list lists =>
            rw [List.map_cons, List.map_cons, List.cons.injEq] at hgets
            rw [List.flatten_cons, List.forall_mem_append] at hnames
            exact hbad list hgets.1 hnames.1

/-- **`get_files`**: the first names with each real path, if nothing is wrong. -/
theorem getFiles_cases (cmd : Command W F U) (opts : Options) (p : Proc W) :
    (∃ paths lists, Collected cmd p.world opts paths lists ∧
      getFiles cmd opts p = ⟨[], .ok (firsts (cmd.canonical p.world) lists.flatten), p⟩) ∨
    (¬ ∃ paths lists, Collected cmd p.world opts paths lists) ∧ Refuses (getFiles cmd opts) p := by
  have hnil : PathnamesSeen (([], ∅) : List Str × Table Bool) := ⟨List.nodup_nil, by simp⟩
  rcases forEach_getPathname (p := p) cmd opts.args hnil with
    ⟨paths, seen, hpaths, hnodup, hrun⟩ | ⟨hnot, hrefuses⟩
  · have hrun : getPathnames cmd opts p = ⟨[], .ok paths, p⟩ := by
      rw [getPathnames, Act.bind_of_ok hrun]
      rfl
    have hnodup : paths.Nodup := by simpa using hnodup
    have hstart : FilesSeen cmd p.world [] ([], ∅) := ⟨rfl, by simp⟩
    rcases forEach_getFilesOf opts.suffix paths hstart with
      ⟨lists, acc, hlists, hnames, hacc, hloop⟩ | ⟨hnot, hrefuses⟩
    · refine Or.inl ⟨paths, lists, ⟨hpaths, hnodup, hlists, hnames⟩, ?_⟩
      rw [getFiles, Act.bind_of_ok hrun, Act.bind_of_ok hloop, ← List.nil_append lists.flatten,
        ← hacc.1]
      rfl
    · refine Or.inr ⟨?_, Refuses.behind hrun (Refuses.bind hrefuses _)⟩
      rintro ⟨paths', lists, hcollected⟩
      obtain rfl : paths' = paths := by
        refine List.map_injective_iff.mpr (Option.some_injective _) ?_
        rw [← hpaths, hcollected.resolved]
      exact hnot ⟨lists, hcollected.searched, hcollected.named⟩
  · refine Or.inr ⟨?_, Refuses.bind (Refuses.bind hrefuses _) _⟩
    rintro ⟨paths, lists, hcollected⟩
    exact hnot ⟨paths, hcollected.resolved, by simpa using hcollected.distinct⟩

end Operations

end Testcase
