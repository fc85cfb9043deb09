import LuaTestcase.Command.Report
import LuaTestcase.Runner.Transcript

/-!
# What the command prints

Behind the options and the collection of the files everything on the console is a function of what
was loaded and called: the summary of the registered sources, what the run prints, the totals, the
failing calls under their files, and the files that failed to load.

* `printErrors_prints`, `printInfo_run` — what the parts of the main block print.
* `finish_console` — what is printed of a run that returned.
* `command_console` — **all that the command prints**, and how it ends.
-/

namespace Testcase

variable {W F U : Type}

/-! ## Lines -/

/-- What is printed by an event of the command. -/
def CommandEvent.printed : CommandEvent W F U → Option (Printed F U)
  | .print printer args => some (printer, args)
  | .run e => e.printed
  | _ => none

/-- What the command and the runner printed. -/
def console (es : List (CommandEvent W F U)) : List (Printed F U) :=
  es.filterMap CommandEvent.printed

/-- What is printed before the run. -/
def infoLines (date : Str) (list : List (Source F)) (ntest : Nat) : List (Printed F U) :=
  [(.print, [.string []]), (.print, [.string "Test on %s".toList, .string date]),
    (.print, [.string HEADLINE, .string "\n".toList]),
    (.print, [.string "Total: %d test cases in %d files.\n".toList, .integer ntest,
      .integer list.length])] ++
  list.map fun src => (.print, [.string "- ".toList, .string src.name, .string " has `".toList,
    .integer src.tests.length, .string "` test cases".toList])

/-- The totals of a run. -/
def totalLine (ns : Nat) (nf : Int) (nload : Nat) (total : U × Str) : Printed F U :=
  (.print, [.string (("### Total: %d successes, %d failures, " ++
    "%d load failures (").toList ++ total.2 ++ [')']), .integer ns, .integer nf,
    .integer nload, .object .float total.1, .string "\n".toList])

/-- The failing calls of a file. -/
def fileLines (v : FileErrors F U) : List (Printed F U) :=
  (.print, [.string "#### %d testcases in %s failed\n".toList, .integer v.errors.length,
    .string v.name]) :: v.errors.flatMap fun verr => errorLines verr.name verr.error

/-- The failing calls. -/
def failureLines (files : List (FileErrors F U)) : List (Printed F U) :=
  if 0 < files.length then files.flatMap fileLines ++ [(.print, [.string []])] else []

@[simp] theorem console_append (es es' : List (CommandEvent W F U)) :
    console (es ++ es') = console es ++ console es' := List.filterMap_append

theorem console_run (es : List (Event W F U)) :
    console (es.map fun e => (.run e : CommandEvent W F U)) = prints es := by
  rw [console, List.filterMap_map]
  rfl

theorem console_load (ls : List (Str × Except (Value F U) Unit)) :
    console (ls.map fun l => (.load l.1 l.2 : CommandEvent W F U)) = [] := by
  rw [console, List.filterMap_map]
  exact List.filterMap_eq_nil_iff.mpr fun _ _ => rfl

/-- Without events of the runner, it is what the command itself printed. -/
theorem console_displayed {es : List (CommandEvent W F U)} (h : runEvents es = []) :
    console es = displayed es := by
  refine List.filterMap_congr fun e he => ?_
  cases e with
  | run e => cases List.filterMap_eq_nil_iff.mp h _ he
  | _ => rfl

/-! ## The parts -/

section Parts

variable {cmd : Command W F U}

theorem printErrors_prints (errors : Errors F U) :
    Prints cmd (printErrors cmd errors) (failureLines errors.files) := by
  rw [printErrors, failureLines]
  split_ifs
  · refine Prints.bind (Prints.forEach (fun (v : FileErrors F U) => ?_) errors.files)
      (Prints.display _ _)
    exact Prints.bind (Prints.display _ _) (Prints.forEach
      (fun (verr : Record F U) => errorLines_prints verr.name verr.error) v.errors)
  · exact Prints.pure

/-- The event that prints a line. -/
def Printed.event (q : Printed F U) : CommandEvent W F U := .print q.1 q.2

theorem console_event (lines : List (Printed F U)) :
    console (lines.map (Printed.event (W := W))) = lines := by
  rw [console, List.filterMap_map]
  exact List.filterMap_some

theorem runEvents_event (lines : List (Printed F U)) :
    runEvents (lines.map (Printed.event (W := W))) = [] := by
  refine runEvents_prints fun e he => ?_
  obtain ⟨q, _, rfl⟩ := List.mem_map.mp he
  exact ⟨q.1, q.2, rfl⟩

/-- Nothing has to be converted for what is printed before the run. -/
theorem printInfo_run (list : List (Source F)) (ntest : Nat) (p : Proc W) :
    printInfo cmd list ntest p =
      ⟨(infoLines (cmd.date p.world) list ntest).map Printed.event, .ok (), p⟩ := by
  have hlist := @Act.forEach_writes (Proc W) (CommandEvent W F U) (Halt F U) (Source F)
    (fun _ src => display cmd .print [.string "- ".toList, .string src.name,
      .string " has `".toList, .integer src.tests.length, .string "` test cases".toList])
    _ list p fun src _ => display_plain rfl p
  rw [printInfo, Act.bind_of_ok (display_plain rfl p), Act.reads_bind_run,
    Act.bind_of_ok (display_plain rfl p), Act.bind_of_ok (display_plain rfl p),
    Act.bind_of_ok (display_plain rfl p), hlist, ← List.map_eq_flatMap]
  simp [infoLines, Printed.event]

end Parts

/-! ## Behind the run -/

section Finish

variable {cmd : Command W F U}

/-- What is printed of a run that returned. -/
def reportLines (ns : Nat) (nf : Int) (files : List (FileErrors F U))
    (errfiles : List (Str × Value F U)) (total : U × Str) : List (Printed F U) :=
  totalLine ns nf errfiles.length total :: (failureLines files ++ loadLines errfiles)

/-- How the command ends behind it. -/
def reportResult (nf : Int) (count : Nat) (errfiles : List (Str × Value F U)) :
    Except (Halt F U) Unit :=
  if 0 < nf ∨ 0 < count ∨ 0 < errfiles.length then .error (.exit (-1)) else .ok ()

/-- If nothing stops it, the report is printed and decides how the command ends. -/
theorem finish_console {ns : Nat} {nf : Int} {errors : Errors F U}
    {errfiles : List (Str × Value F U)} {p : Proc W}
    (hsmooth : AllSmooth cmd (finish cmd errfiles (.ran ns nf errors) p).events) :
    console (finish cmd errfiles (.ran ns nf errors) p).events =
        reportLines ns nf errors.files errfiles (cmd.total p.world) ∧
      (finish cmd errfiles (.ran ns nf errors) p).result =
        reportResult nf errors.count errfiles := by
  rw [console_displayed (finish_noRun cmd _ _ _)]
  have hload : Prints cmd (if 0 < errfiles.length then reportLoadErrors cmd errfiles else pure ())
      (loadLines errfiles) := by
    split_ifs with hpos
    · exact reportLoadErrors_prints errfiles
    · rw [loadLines, if_pos (List.length_eq_zero_iff.mp (Nat.eq_zero_of_not_pos hpos))]
      exact Prints.pure
  have hreport := Prints.bind (@printErrors_prints W F U cmd errors) hload
  rw [finish, Act.reads_bind_run] at hsmooth ⊢
  simp only at hsmooth ⊢
  rw [Act.bind_of_ok (display_plain rfl p), ← bind_assoc] at hsmooth ⊢
  rw [allSmooth_append] at hsmooth
  rcases hreport.1.cases p with ⟨es, u, p', hes, hrun⟩ | ⟨es, h, p', hes, hrun⟩
  · have hlines := hreport.2 p u (by rw [hrun])
    rw [hrun] at hlines
    rw [Act.bind_of_ok hrun, reportResult]
    split_ifs
    · refine ⟨?_, rfl⟩
      rw [displayed_append, displayed_append, hlines]
      exact congrArg _ (List.append_nil _)
    · refine ⟨?_, rfl⟩
      rw [displayed_append, displayed_append, hlines]
      exact congrArg _ (List.append_nil _)
  · rw [Act.bind_of_error hrun] at hsmooth
    exact absurd hsmooth.2 hes

end Finish

/-! ## The command -/

section Main

variable (cmd : Command W F U) (opts : Options)

/-- The sources that are registered when the files were loaded, and the number of their tests. -/
def Command.loadedList (files : List Str) (w : W) : List (Source F) × Nat :=
  sourceList cmd (cmd.loadAll files w).2

/-- The run of them. -/
def Command.loadedRun (files : List Str) (w : W) :
    Outcome (Proc W) (Event W F U) (Halt F U) (RunResult F U) :=
  run cmd.toEnv (cmd.loadedList files w).1 (some opts.testcase) ⟨(cmd.loadAll files w).2, false⟩

/-- The main block, if something is registered or nothing failed to load. -/
theorem testSources_split {files : List Str} {p : Proc W}
    (hlist : cmd.errfiles files p.world = [] ∨ (cmd.loadedList files p.world).1 ≠ []) :
    testSources cmd opts (cmd.errfiles files p.world) (cmd.loadedProc files p) =
      ⟨(infoLines (cmd.date (cmd.loadAll files p.world).2) (cmd.loadedList files p.world).1
          (cmd.loadedList files p.world).2).map Printed.event ++
        ((runner (run cmd.toEnv (cmd.loadedList files p.world).1 (some opts.testcase)) >>=
          finish cmd (cmd.errfiles files p.world) : Task W F U Unit)
            ⟨(cmd.loadAll files p.world).2, false⟩).events,
        ((runner (run cmd.toEnv (cmd.loadedList files p.world).1 (some opts.testcase)) >>=
          finish cmd (cmd.errfiles files p.world) : Task W F U Unit)
            ⟨(cmd.loadAll files p.world).2, false⟩).result,
        ((runner (run cmd.toEnv (cmd.loadedList files p.world).1 (some opts.testcase)) >>=
          finish cmd (cmd.errfiles files p.world) : Task W F U Unit)
            ⟨(cmd.loadAll files p.world).2, false⟩).world⟩ := by
  have hsome : ¬ (0 < (cmd.errfiles files p.world).length ∧
      (cmd.loadedList files p.world).1.length = 0) := by
    rintro ⟨hpos, hzero⟩
    rcases hlist with hnil | hne
    · rw [hnil] at hpos
      cases hpos
    · exact hne (List.length_eq_zero_iff.mp hzero)
  have hunblock : (runner unblock : Task W F U Unit) (cmd.loadedProc files p) =
      ⟨[], .ok (), ⟨(cmd.loadAll files p.world).2, false⟩⟩ := rfl
  have hinfo := @printInfo_run _ _ _ cmd (cmd.loadedList files p.world).1
    (cmd.loadedList files p.world).2 (cmd.loadedProc files p)
  have hsources : sourceList cmd (cmd.loadedProc files p).world =
      cmd.loadedList files p.world := rfl
  rw [testSources, Act.reads_bind_run]
  simp only [hsources]
  rw [Act.bind_of_ok hinfo, if_neg hsome, Act.bind_of_ok hunblock]
  rfl

variable {cmd opts} in
/-- If the names that were asked for occur and nothing stops it, the run returns its numbers. -/
theorem loadedRun_returns {files : List Str} {w : W} {k : RunResult F U → Task W F U Unit}
    (hall : AllOccur (cmd.loadedList files w).1 (some opts.testcase))
    (hsmooth : AllSmooth cmd
      ((runner (run cmd.toEnv (cmd.loadedList files w).1 (some opts.testcase)) >>= k :
        Task W F U Unit) ⟨(cmd.loadAll files w).2, false⟩).events) :
    ∃ ns nf errors, (runner (run cmd.toEnv (cmd.loadedList files w).1 (some opts.testcase)) :
      Task W F U _) ⟨(cmd.loadAll files w).2, false⟩ =
        ⟨(cmd.loadedRun opts files w).events.map .run, .ok (.ran ns nf errors),
          (cmd.loadedRun opts files w).world⟩ := by
  have hends : EndsAnswered cmd _
      (runner (run cmd.toEnv (cmd.loadedList files w).1 (some opts.testcase))) :=
    Act.EndsBy.mapEvents (fun _ _ => run_stops_iff) (run_endsBy _ _)
  rcases hends.cases ⟨(cmd.loadAll files w).2, false⟩ with ⟨es, res, p, _, hrun⟩ |
    ⟨es, h, p, hstopped, hrun⟩
  · have hres : (cmd.loadedRun opts files w).result = .ok res := congrArg Outcome.result hrun
    rcases run_cases cmd.toEnv (cmd.loadedList files w).1 (some opts.testcase)
      ⟨(cmd.loadAll files w).2, false⟩ with ⟨hblocked | hnot, _⟩ | ⟨_, prints, _, hran⟩
    · cases hblocked
    · exact absurd hall hnot
    · rw [Command.loadedRun, hran] at hres
      obtain ⟨ns, nf, errors, rfl⟩ := runList_ran cmd.toEnv _ _ res hres
      refine ⟨ns, nf, errors, ?_⟩
      have hsame : (cmd.loadedRun opts files w).result = .ok (.ran ns nf errors) :=
        congrArg Outcome.result hrun
      show Outcome.mk ((cmd.loadedRun opts files w).events.map CommandEvent.run)
        (cmd.loadedRun opts files w).result (cmd.loadedRun opts files w).world = _
      rw [hsame]
  · rw [Act.bind_of_error hrun] at hsmooth
    exact absurd hsmooth hstopped

end Main

/-- **All that the command prints**, if the names that were asked for occur, something is registered
or nothing failed to load, and nothing that the command was answered stopped it: the sources, the
transcript of the run, its totals, every failing call under its file, and every file that failed to
load.  All of it is counted from the calls and the files, and so is the end of the command. -/
theorem command_console (cmd : Command W F U) (arg : List Str) (p p' : Proc W) (opts : Options)
    (files : List Str) (es : List (CommandEvent W F U))
    (hopts : checkOpts cmd arg p = ⟨es, .ok opts, p'⟩)
    (hfiles : getFiles cmd opts p' = ⟨[], .ok files, p'⟩)
    (hlist : cmd.errfiles files p'.world = [] ∨ (cmd.loadedList files p'.world).1 ≠ [])
    (hall : AllOccur (cmd.loadedList files p'.world).1 (some opts.testcase))
    (hsmooth : AllSmooth cmd (main cmd arg p).events) :
    ∃ segs, Transcript cmd.toEnv (cmd.loadedList files p'.world).1 (some opts.testcase)
        (runEvents (main cmd arg p).events) segs ∧
      console (main cmd arg p).events =
        infoLines (cmd.date (cmd.loadAll files p'.world).2) (cmd.loadedList files p'.world).1
          (cmd.loadedList files p'.world).2 ++
        prints (runEvents (main cmd arg p).events) ++
        reportLines (successes (segs.flatten.map Call.answered))
          (countTests (ranList (cmd.loadedList files p'.world).1 (some opts.testcase)) -
            successes (segs.flatten.map Call.answered))
          (fileErrors (ranList (cmd.loadedList files p'.world).1 (some opts.testcase))
            (segs.map (List.map Call.answered)))
          (cmd.errfiles files p'.world)
          (cmd.total (cmd.loadedRun opts files p'.world).world.world) ∧
      (main cmd arg p).result =
        reportResult
          (countTests (ranList (cmd.loadedList files p'.world).1 (some opts.testcase)) -
            successes (segs.flatten.map Call.answered))
          (failures (segs.flatten.map Call.answered)).length (cmd.errfiles files p'.world) := by
  obtain rfl : es = [] := by
    have h := checkOpts_silent arg p opts (by rw [hopts])
    rwa [hopts] at h
  have hmain := main_run hopts hfiles
  have htest := testSources_split cmd opts hlist
  rw [Command.errfiles] at htest
  rw [htest, List.nil_append] at hmain
  rw [hmain, allSmooth_append, allSmooth_append] at hsmooth
  obtain ⟨ns, nf, errors, hrunner⟩ := loadedRun_returns hall hsmooth.2.2
  have hrun : (cmd.loadedRun opts files p'.world).result = .ok (.ran ns nf errors) :=
    congrArg Outcome.result hrunner
  obtain ⟨segs, ht⟩ := run_shown hrun
  obtain ⟨hns, hnf, hfileErrors, hcount⟩ := ht.counts hrun
  rw [Act.bind_of_ok hrunner] at hmain hsmooth
  rw [allSmooth_append] at hsmooth
  obtain ⟨hlines, hresult⟩ := finish_console hsmooth.2.2.2
  have hevents : runEvents (main cmd arg p).events =
      (cmd.loadedRun opts files p'.world).events := by
    rw [hmain]
    simp only [runEvents_append, runEvents_loads, runEvents_event, runEvents_run,
      finish_noRun, List.nil_append, List.append_nil]
  refine ⟨segs, ?_, ?_, ?_⟩
  · rw [hevents]
    exact ht
  · rw [hevents, hmain, ← hnf, ← hns, ← hfileErrors]
    simp only [console_append, console_load, console_event, console_run, List.nil_append,
      List.append_assoc]
    rw [hlines]
    rfl
  · rw [hmain, ← hnf, ← hcount]
    exact hresult

/-- The test of `brokenFile` succeeds, and the end of the command is that of the file that did not
load. -/
theorem brokenFile_console :
    ∃ segs, Transcript brokenFile.toEnv
        (brokenFile.loadedList ["t/x_test.lua".toList, "t/y_test.lua".toList] ()).1 (some [])
        (runEvents (main brokenFile ["t".toList] ⟨(), false⟩).events) segs ∧
      (main brokenFile ["t".toList] ⟨(), false⟩).result =
        reportResult
          (countTests (ranList
              (brokenFile.loadedList ["t/x_test.lua".toList, "t/y_test.lua".toList] ()).1
              (some [])) - successes (segs.flatten.map Call.answered))
          (failures (segs.flatten.map Call.answered)).length
          [("t/y_test.lua".toList, .string "unexpected symbol".toList)] := by
  have hopts : checkOpts brokenFile ["t".toList] ⟨(), false⟩
      = ⟨[], .ok ⟨false, false, false, [], ["t".toList]⟩, ⟨(), false⟩⟩ := rfl
  have hfiles : getFiles brokenFile ⟨false, false, false, [], ["t".toList]⟩ ⟨(), false⟩
      = ⟨[], .ok ["t/x_test.lua".toList, "t/y_test.lua".toList], ⟨(), false⟩⟩ := rfl
  obtain ⟨segs, ht, _, hresult⟩ := command_console brokenFile ["t".toList] ⟨(), false⟩
    ⟨(), false⟩ ⟨false, false, false, [], ["t".toList]⟩
    ["t/x_test.lua".toList, "t/y_test.lua".toList] [] hopts hfiles
    (Or.inr (List.cons_ne_nil _ _)) (by simp [AllOccur])
    (brokenFile_calm.main_smooth hopts hfiles)
  exact ⟨segs, ht, hresult⟩

end Testcase
