import LuaTestcase.Command.Loading
import LuaTestcase.Runner.Verdict

/-!
# The verdict of the command

The status of the process is computed from what three modules count, behind several early exits.
It is success exactly if everything went well: the options, the pathnames, the files, the names
that were asked for, the changes of directory, and every function of the plan.

* `checkOpts_cases`, `testSources_cases` — the parts of the main block that may fail.
* `Passed` — everything went well.
* `command_verdict` — **the process ends with success exactly then**.
-/

namespace Testcase

variable {W F U : Type}

/-! ## Stopping with a failure -/

section Fails

variable {α : Type} (cmd : Command W F U) {p : Proc W}

/-- The action stops with a failure. -/
abbrev FailsAt (m : Task W F U α) (p : Proc W) : Prop := Act.StopsAt Halt.fails m p

/-- If the action stops, it is with a failure. -/
abbrev OnlyFails (α : Type) (m : Task W F U α) : Prop := Act.EndsOnly Halt.fails α m

theorem Refuses.failsAt {m : Task W F U α} (h : Refuses m p) : FailsAt m p := by
  obtain ⟨es, halt, hrun, _, hfails⟩ := h
  exact ⟨halt, by rw [hrun], hfails⟩

theorem FailsAt.not_succeeds {m : Task W F U Unit} (h : FailsAt m p) :
    ¬ Succeeds (m p).result := by
  obtain ⟨halt, hres, hfails⟩ := h
  rw [hres]
  exact hfails

theorem fails_raise (v : Value F U) : (.raise v : Halt F U).fails := by
  simp [Halt.fails, exitStatus]

theorem onlyFails_closed : Act.Closed (OnlyFails (W := W) (F := F) (U := U)) :=
  Act.endsOnly_closed _

theorem display_onlyFails (printer : Printer) (args : List (Value F U)) :
    OnlyFails Unit (display cmd printer args) := by
  refine onlyFails_closed.bind (onlyFails_closed.forEach (fun _ u p h hres => ?_) _ _)
    fun _ _ _ hres => by cases hres
  rw [convert_run] at hres
  rcases hraised : (cmd.tostring u p.world).1 with _ | v
  · rw [hraised] at hres
    cases hres
  · rw [hraised] at hres
    obtain rfl : Halt.raise v = h := Except.error.inj hres
    exact fails_raise v

theorem exit_failsAt (msg : List (Value F U)) : FailsAt (exit cmd (-1) msg : Task W F U α) p := by
  cases msg with
  | nil => exact Act.StopsAt.halt fails_minus_one
  | cons v msg =>
      exact Act.StopsAt.behind_endsOnly (display_onlyFails cmd _ _) fun _ _ =>
        Act.StopsAt.halt fails_minus_one

end Fails

/-! ## The options -/

/-- The world behind `check_opts`. -/
def Command.optsWorld (cmd : Command W F U) (opts : Options) (w : W) : W :=
  if opts.coverage then (cmd.requireLuacov w).2 else w

/-- The options are accepted, and the library for code coverage loads if it is asked for. -/
def Accepted (cmd : Command W F U) (arg : List Str) (w : W) (opts : Options) : Prop :=
  getopts arg = .ok opts ∧ (opts.coverage = true → (cmd.requireLuacov w).1 = .ok ())

/-- **`check_opts`**, for a command line with a pathname that does not ask for help. -/
theorem checkOpts_cases (cmd : Command W F U) {arg : List Str} (p : Proc W)
    (hhelp : ∀ s ∈ arg, optionName s ≠ some "--help".toList)
    (hpath : ∃ s ∈ arg, optionName s = none) :
    (∃ opts, Accepted cmd arg p.world opts ∧ checkOpts cmd arg p
      = ⟨[], .ok opts, p.update fun _ => cmd.optsWorld opts p.world⟩) ∨
    (¬ ∃ opts, Accepted cmd arg p.world opts) ∧ FailsAt (checkOpts cmd arg) p := by
  unfold Accepted
  rcases hopts : getopts arg with err | opts
  · refine Or.inr ⟨by simp, ?_⟩
    rw [checkOpts, hopts]
    exact exit_failsAt cmd _
  · have hnohelp : ¬ opts.help = true := by
      rw [getopts_help hopts]
      rintro ⟨s, hs, hname⟩
      exact hhelp s hs hname
    have hargs : opts.args ≠ [] := by
      obtain ⟨s, hs, hname⟩ := hpath
      rw [getopts_args hopts]
      exact List.ne_nil_of_mem (List.mem_filter.mpr ⟨hs, by simpa using hname⟩)
    simp only [checkOpts, hopts, if_neg hnohelp, if_neg hargs, Command.optsWorld]
    by_cases hcoverage : opts.coverage = true
    · have houtside : (outside cmd.requireLuacov : Task W F U _) p
          = ⟨[], .ok (cmd.requireLuacov p.world).1,
              p.update fun _ => (cmd.requireLuacov p.world).2⟩ := rfl
      simp only [if_pos hcoverage]
      rcases hres : (cmd.requireLuacov p.world).1 with loaderr | _
      · rw [hres] at houtside
        refine Or.inr ⟨?_, Act.StopsAt.behind houtside (exit_failsAt cmd _)⟩
        rintro ⟨opts', heq, hluacov⟩
        cases heq
        cases hluacov hcoverage
      · rw [hres] at houtside
        refine Or.inl ⟨opts, ⟨rfl, fun _ => rfl⟩, ?_⟩
        rw [Act.bind_of_ok houtside, if_pos hcoverage]
        rfl
    · refine Or.inl ⟨opts, ⟨rfl, fun h => absurd h hcoverage⟩, ?_⟩
      rw [if_neg hcoverage, if_neg hcoverage]
      rfl

/-! ## The run -/

/-- The event of the runner. -/
def CommandEvent.ofRun : CommandEvent W F U → Option (Event W F U)
  | .run e => some e
  | _ => none

/-- The events of the runner. -/
def runEvents (es : List (CommandEvent W F U)) : List (Event W F U) :=
  es.filterMap CommandEvent.ofRun

@[simp] theorem runEvents_append (es es' : List (CommandEvent W F U)) :
    runEvents (es ++ es') = runEvents es ++ runEvents es' := List.filterMap_append

theorem runEvents_run (es : List (Event W F U)) :
    runEvents (es.map fun e => (.run e : CommandEvent W F U)) = es := by
  rw [runEvents, List.filterMap_map]
  exact List.filterMap_some

theorem runEvents_prints {es : List (CommandEvent W F U)} (h : ∀ e ∈ es, e.IsPrint) :
    runEvents es = [] := by
  refine List.filterMap_eq_nil_iff.mpr fun e he => ?_
  obtain ⟨printer, args, rfl⟩ := h e he
  rfl

theorem runEvents_loads (ls : List (Str × Except (Value F U) Unit)) :
    runEvents (ls.map fun l => (.load l.1 l.2 : CommandEvent W F U)) = [] := by
  refine List.filterMap_eq_nil_iff.mpr fun e he => ?_
  obtain ⟨l, _, rfl⟩ := List.mem_map.mp he
  rfl

section Finish

variable (cmd : Command W F U)

theorem display_emits {printer : Printer} {args : List (Value F U)} (h : conversions args = []) :
    Act.Emits CommandEvent.IsPrint (display cmd printer args) () := by
  rw [display, printing_plain h]
  exact Act.Emits.emit ⟨printer, args, rfl⟩

/-- The report before the run has nothing in it that cannot be printed. -/
theorem printInfo_emits (list : List (Source F)) (ntest : Nat) :
    Act.Emits CommandEvent.IsPrint (printInfo cmd list ntest) () := by
  refine Act.Emits.bind (display_emits cmd rfl) ?_
  refine Act.Emits.reads fun date => ?_
  refine Act.Emits.bind (display_emits cmd rfl) ?_
  refine Act.Emits.bind (display_emits cmd rfl) ?_
  refine Act.Emits.bind (display_emits cmd rfl) ?_
  exact Act.Emits.each fun src _ => display_emits cmd rfl

/-- Clean numbers and no errors: the command returns. -/
theorem finish_returns {ns : Nat} {nf : Int} {errors : Errors F U}
    (hclean : (RunResult.ran ns nf errors).clean) (hfiles : errors.files = []) :
    Act.Emits CommandEvent.IsPrint (finish cmd [] (.ran ns nf errors)) () := by
  have hnone : ¬ (0 < nf ∨ 0 < errors.count ∨ 0 < ([] : List (Str × Value F U)).length) := by
    obtain ⟨hnf, hcount⟩ := hclean
    simp only [List.length_nil]
    omega
  refine Act.Emits.reads fun total => ?_
  refine Act.Emits.bind (display_emits cmd rfl) ?_
  refine Act.Emits.bind (a := ()) ?_ (Act.Emits.bind (a := ()) ?_ ?_)
  · rw [printErrors, hfiles, if_neg (by simp)]
    exact Act.Emits.pure ()
  · rw [if_neg (by simp)]
    exact Act.Emits.pure ()
  · rw [if_neg hnone]
    exact Act.Emits.pure ()

/-- Otherwise it fails. -/
theorem finish_failsAt {errfiles : List (Str × Value F U)} {res : RunResult F U} {p : Proc W}
    (h : ¬ res.clean ∨ errfiles ≠ []) : FailsAt (finish cmd errfiles res) p := by
  have hdisplay := display_onlyFails cmd
  cases res with
  | refused err => exact exit_failsAt cmd _
  | ran ns nf errors =>
      have hsome : 0 < nf ∨ 0 < errors.count ∨ 0 < errfiles.length := by
        rcases h with h | h
        · simp only [RunResult.clean] at h
          omega
        · exact Or.inr (Or.inr (List.length_pos_iff.mpr h))
      refine Act.StopsAt.behind_endsOnly (Act.EndsOnly.reads _) fun total p => ?_
      refine Act.StopsAt.behind_endsOnly (hdisplay _ _) fun _ p => ?_
      refine Act.StopsAt.behind_endsOnly (printErrors_closed onlyFails_closed hdisplay errors)
        fun _ p => ?_
      refine Act.StopsAt.behind_endsOnly ?_ fun _ p => ?_
      · split_ifs
        · exact reportLoadErrors_closed onlyFails_closed hdisplay errfiles
        · exact onlyFails_closed.pure _
      · rw [if_pos hsome]
        exact exit_failsAt cmd _

/-- The result is not run again. -/
theorem finish_noRun (errfiles : List (Str × Value F U)) (res : RunResult F U) (p : Proc W) :
    runEvents (finish cmd errfiles res p).events = [] := by
  have honly : Act.OnlyEvents (fun e => CommandEvent.ofRun e = none) Unit
      (finish cmd errfiles res) :=
    finish_onlyEvents (fun _ _ => display_onlyEvents (fun _ _ => rfl) rfl) errfiles res
  exact List.filterMap_eq_nil_iff.mpr (honly p)

/-- A run of the runner that raised is a failure. -/
theorem run_onlyFails (hpid : ∀ w, cmd.getpid w = cmd.PID) (list : List (Source F))
    (testcases : Option (List Str)) :
    OnlyFails _ (runner (run cmd.toEnv list testcases) : Task W F U _) := by
  intro p h hres
  obtain ⟨v, rfl⟩ := run_raises hpid hres
  exact fails_raise v

end Finish

section TestSources

variable (cmd : Command W F U) (opts : Options)

/-- With a file that did not load the command fails. -/
theorem testSources_failsAt (hpid : ∀ w, cmd.getpid w = cmd.PID)
    {errfiles : List (Str × Value F U)} (h : errfiles ≠ []) (p : Proc W) :
    FailsAt (testSources cmd opts errfiles) p := by
  have hdisplay := display_onlyFails cmd
  refine Act.StopsAt.behind_endsOnly (Act.EndsOnly.reads _) fun list p => ?_
  obtain ⟨es, _, hinfo⟩ := printInfo_emits cmd list.1 list.2 p
  refine Act.StopsAt.behind hinfo ?_
  split_ifs
  · refine Act.StopsAt.behind_endsOnly (hdisplay _ _) fun _ p => ?_
    refine Act.StopsAt.behind_endsOnly (reportLoadErrors_closed onlyFails_closed hdisplay errfiles)
      fun _ p => ?_
    exact exit_failsAt cmd _
  · have hunblock : (runner unblock : Task W F U Unit) p = ⟨[], .ok (), ⟨p.world, false⟩⟩ := rfl
    refine Act.StopsAt.behind hunblock ?_
    exact Act.StopsAt.behind_endsOnly (run_onlyFails cmd hpid _ _) fun res p =>
      finish_failsAt cmd (Or.inr h)

/-- The run and what is done with its result. -/
def runSources (list : List (Source F)) : Task W F U Unit := do
  let res ← runner (run cmd.toEnv list (some opts.testcase))
  finish cmd [] res

/-- If every file loaded, the sources are run behind some printing. -/
theorem testSources_run (p : Proc W) :
    ∃ infos, (∀ e ∈ infos, e.IsPrint) ∧ testSources cmd opts [] p
      = ⟨infos ++ (runSources cmd opts (sourceList cmd p.world).1 ⟨p.world, false⟩).events,
        (runSources cmd opts (sourceList cmd p.world).1 ⟨p.world, false⟩).result,
        (runSources cmd opts (sourceList cmd p.world).1 ⟨p.world, false⟩).world⟩ := by
  obtain ⟨infos, hinfos, hinfo⟩ :=
    printInfo_emits cmd (sourceList cmd p.world).1 (sourceList cmd p.world).2 p
  have hunblock : (runner unblock : Task W F U Unit) p = ⟨[], .ok (), ⟨p.world, false⟩⟩ := rfl
  refine ⟨infos, hinfos, ?_⟩
  rw [testSources, Act.reads_bind_run]
  revert hinfo
  generalize sourceList cmd p.world = sources
  intro hinfo
  obtain ⟨list, ntest⟩ := sources
  simp only
  rw [Act.bind_of_ok hinfo, if_neg (by simp), Act.bind_of_ok hunblock]
  rfl

theorem runSources_verdict (hpid : ∀ w, cmd.getpid w = cmd.PID) (list : List (Source F))
    (p : Proc W) :
    (Succeeds (runSources cmd opts list p).result ↔
      ∃ res, (run cmd.toEnv list (some opts.testcase) p).result = .ok res ∧ res.clean) ∧
    runEvents (runSources cmd opts list p).events
      = (run cmd.toEnv list (some opts.testcase) p).events := by
  rcases hrun : run cmd.toEnv list (some opts.testcase) p with ⟨es, h | res, p'⟩
  · have hrunner : (runner (run cmd.toEnv list (some opts.testcase)) : Task W F U _) p
        = ⟨es.map .run, .error h, p'⟩ := by
      rw [runner, Act.mapEvents, hrun]
    obtain ⟨v, rfl⟩ := run_raises (p := p) hpid (by rw [hrun])
    rw [runSources, Act.bind_of_error hrunner]
    refine ⟨iff_of_false (fails_raise v) ?_, runEvents_run es⟩
    rintro ⟨res, hres, _⟩
    cases hres
  · have hrunner : (runner (run cmd.toEnv list (some opts.testcase)) : Task W F U _) p
        = ⟨es.map .run, .ok res, p'⟩ := by
      rw [runner, Act.mapEvents, hrun]
    have hfin : runEvents (finish cmd [] res p').events = [] := finish_noRun cmd [] res p'
    rw [runSources, Act.bind_of_ok hrunner, runEvents_append, runEvents_run, hfin]
    refine ⟨?_, List.append_nil es⟩
    by_cases hclean : res.clean
    · refine iff_of_true ?_ ⟨res, rfl, hclean⟩
      cases res with
      | refused err => exact hclean.elim
      | ran ns nf errors =>
          have hfiles : errors.files = [] := run_no_files (by rw [hrun]) hclean.2
          obtain ⟨prints, _, hreturns⟩ := finish_returns cmd hclean hfiles p'
          rw [hreturns]
          rfl
    · have hfails : FailsAt (finish cmd [] res) p' := finish_failsAt cmd (Or.inl hclean)
      refine iff_of_false hfails.not_succeeds ?_
      rintro ⟨res', heq, hclean'⟩
      cases heq
      exact hclean hclean'

end TestSources

/-! ## The command -/

/-- The files that are collected. -/
def Command.files (cmd : Command W F U) (opts : Options) (w : W) (lists : List (List Str)) :
    List Str :=
  firsts (cmd.canonical (cmd.optsWorld opts w)) lists.flatten

/-- The sources that are registered when these files were loaded. -/
def Command.registered (cmd : Command W F U) (opts : Options) (w : W)
    (lists : List (List Str)) : List (Source F) :=
  (sourceList cmd (cmd.loadAll (cmd.files opts w lists) (cmd.optsWorld opts w)).2).1

/-- Everything went well, in a run of the command that left the events `es` behind: the options
were accepted; the pathnames have pairwise different real paths, their searches succeeded and what
was found resolves; every file that was found loaded; every name that was asked for occurs in a
registered source; every checked change of directory succeeded; and the calls are those of the
plan of the sources, all with success. -/
def Passed (cmd : Command W F U) (arg : List Str) (w : W) (es : List (CommandEvent W F U)) :
    Prop :=
  ∃ opts paths lists, Accepted cmd arg w opts ∧
    Collected cmd (cmd.optsWorld opts w) opts paths lists ∧
    (∀ l ∈ (cmd.loadAll (cmd.files opts w lists) (cmd.optsWorld opts w)).1, l.2 = .ok ()) ∧
    (∀ name ∈ opts.testcase, Occurs (cmd.registered opts w lists) name) ∧
    (∀ e ∈ runEvents es, e.refused = none) ∧
    calls (runEvents es)
      = planDone (ranList (cmd.registered opts w lists) (some opts.testcase))

theorem Collected.unique {cmd : Command W F U} {w : W} {opts : Options} {paths paths' : List Str}
    {lists lists' : List (List Str)} (h : Collected cmd w opts paths lists)
    (h' : Collected cmd w opts paths' lists') : paths' = paths ∧ lists' = lists := by
  obtain rfl : paths' = paths := by
    refine List.map_injective_iff.mpr (Option.some_injective _) ?_
    rw [← h.resolved, h'.resolved]
  refine ⟨rfl, ?_⟩
  refine List.map_injective_iff.mpr ok_some_injective ?_
  rw [← h.searched, h'.searched]

theorem filterMap_loadError_eq_nil_iff {ls : List (Str × Except (Value F U) Unit)} :
    ls.filterMap loadError = [] ↔ ∀ l ∈ ls, l.2 = .ok () := by
  rw [List.filterMap_eq_nil_iff]
  refine forall₂_congr fun l _ => ?_
  obtain ⟨filename, err | _⟩ := l
  · exact iff_of_false (by simp [loadError]) (by simp)
  · exact iff_of_true rfl rfl

/-- Behind the options and the search, the files are loaded and the sources run. -/
theorem main_verdict (cmd : Command W F U) (hpid : ∀ w, cmd.getpid w = cmd.PID)
    {arg files : List Str} {opts : Options} {p p' : Proc W}
    (hopts : checkOpts cmd arg p = ⟨[], .ok opts, p'⟩)
    (hfiles : getFiles cmd opts p' = ⟨[], .ok files, p'⟩) :
    Succeeds (main cmd arg p).result ↔
      (∀ l ∈ (cmd.loadAll files p'.world).1, l.2 = .ok ()) ∧
      (∀ name ∈ opts.testcase,
        Occurs (sourceList cmd (cmd.loadAll files p'.world).2).1 name) ∧
      (∀ e ∈ runEvents (main cmd arg p).events, e.refused = none) ∧
      calls (runEvents (main cmd arg p).events)
        = planDone (ranList (sourceList cmd (cmd.loadAll files p'.world).2).1
            (some opts.testcase)) := by
  rw [main_run hopts hfiles]
  by_cases hloaded : ∀ l ∈ (cmd.loadAll files p'.world).1, l.2 = .ok ()
  · rw [and_iff_right hloaded, filterMap_loadError_eq_nil_iff.mpr hloaded]
    obtain ⟨infos, hinfos, hrun⟩ := testSources_run cmd opts (cmd.loadedProc files p')
    obtain ⟨hsucceeds, hevents⟩ := runSources_verdict cmd opts hpid
      (sourceList cmd (cmd.loadAll files p'.world).2).1
      ⟨(cmd.loadAll files p'.world).2, false⟩
    rw [hrun]
    simp only [List.nil_append, runEvents_append, runEvents_loads, runEvents_prints hinfos,
      Command.loadedProc]
    rw [hevents, hsucceeds]
    exact run_verdict cmd.toEnv hpid _ _ _ rfl
  · refine iff_of_false ?_ fun h => hloaded h.1
    rw [← filterMap_loadError_eq_nil_iff] at hloaded
    exact (testSources_failsAt cmd opts hpid hloaded (cmd.loadedProc files p')).not_succeeds

/-- **The verdict of the command is sound and complete.**  A command line that gives a pathname
and does not ask for help ends with success exactly if everything went well. -/
theorem command_verdict (cmd : Command W F U) (hpid : ∀ w, cmd.getpid w = cmd.PID)
    (arg : List Str) (hhelp : ∀ s ∈ arg, optionName s ≠ some "--help".toList)
    (hpath : ∃ s ∈ arg, optionName s = none) (p : Proc W) :
    Succeeds (main cmd arg p).result ↔ Passed cmd arg p.world (main cmd arg p).events := by
  rcases checkOpts_cases cmd p hhelp hpath with ⟨opts, haccepted, hopts⟩ | ⟨hnone, hfails⟩
  · rcases getFiles_cases cmd opts (p.update fun _ => cmd.optsWorld opts p.world) with
      ⟨paths, lists, hcollected, hfiles⟩ | ⟨hnone, hrefuses⟩
    · rw [main_verdict cmd hpid hopts hfiles]
      constructor
      · rintro ⟨hloaded, hoccurs, hrefused, hcalls⟩
        exact ⟨opts, paths, lists, haccepted, hcollected, hloaded, hoccurs, hrefused, hcalls⟩
      · rintro ⟨opts', paths', lists', haccepted', hcollected', hrest⟩
        obtain rfl : opts' = opts :=
          Except.ok.inj (haccepted'.1.symm.trans haccepted.1)
        obtain ⟨rfl, rfl⟩ := hcollected.unique hcollected'
        exact hrest
    · refine iff_of_false ?_ ?_
      · refine FailsAt.not_succeeds ?_
        rw [main]
        exact Act.StopsAt.behind hopts (Act.StopsAt.bind hrefuses.failsAt)
      · rintro ⟨opts', paths, lists, haccepted', hcollected, _⟩
        obtain rfl : opts' = opts :=
          Except.ok.inj (haccepted'.1.symm.trans haccepted.1)
        exact hnone ⟨paths, lists, hcollected⟩
  · refine iff_of_false ?_ ?_
    · refine FailsAt.not_succeeds ?_
      rw [main]
      exact Act.StopsAt.bind hfails
    · rintro ⟨opts, paths, lists, haccepted, _⟩
      exact hnone ⟨opts, haccepted⟩

/-! ### One test in one file -/

/-- A file with a hook, and a test that succeeds or fails. -/
def oneEntry (succeeds : Bool) : Entry Bool where
  dirname := "t".toList
  basename := "x_test.lua".toList
  pathname := "t/x_test.lua".toList
  realpath := "/a/t/x_test.lua".toList
  tests := ((∅ : Table (Test Bool)).insert "before_all".toList
    ⟨"before_all".toList, true, 1⟩).insert "test_1".toList ⟨"test_1".toList, succeeds, 2⟩

/-- The command of `overlapping` with that file registered. -/
def oneTest (succeeds : Bool) : Command Unit Bool Unit :=
  { overlapping with
    registry := fun _ => (∅ : Registry Bool).insert "t/x_test.lua".toList (oneEntry succeeds) }

/-- The test succeeds, and then everything went well; it fails, and then something did not. -/
theorem oneTest_verdict :
    (Passed (oneTest true) ["t".toList] ()
      (main (oneTest true) ["t".toList] ⟨(), false⟩).events) ∧
    ¬ Passed (oneTest false) ["t".toList] ()
      (main (oneTest false) ["t".toList] ⟨(), false⟩).events := by
  have hverdict := fun succeeds => command_verdict (oneTest succeeds) (fun _ => rfl)
    ["t".toList] (by decide) ⟨"t".toList, by simp, rfl⟩ ⟨(), false⟩
  constructor
  · exact (hverdict true).mp rfl
  · intro h
    exact absurd ((hverdict false).mpr h) (by unfold Succeeds; decide)

end Testcase
