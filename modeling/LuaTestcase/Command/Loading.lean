import LuaTestcase.Command.Files
import LuaTestcase.Runner.Account

/-!
# Each collected file is loaded exactly once

* `forEach_loadfile` — what the loop over the files does.
* `NoLoad` — the actions that load nothing: all but that loop.
* `files_loaded_once` — **which files the command loads**: the first of the names with each real
  path, each once, or none and the command fails.
-/

namespace Testcase

variable {W F U : Type}

/-! ## The loop over the files -/

/-- The file that was loaded, and how that ended. -/
def CommandEvent.loaded : CommandEvent W F U → Option (Str × Except (Value F U) Unit)
  | .load filename res => some (filename, res)
  | _ => none

/-- The files that were loaded. -/
def loads (es : List (CommandEvent W F U)) : List (Str × Except (Value F U) Unit) :=
  es.filterMap CommandEvent.loaded

/-- What loading the files does, one after the other. -/
def Command.loadAll (cmd : Command W F U) :
    List Str → W → List (Str × Except (Value F U) Unit) × W
  | [], w => ([], w)
  | filename :: files, w =>
      let rest := cmd.loadAll files (cmd.eval filename w).2
      ((filename, (cmd.eval filename w).1) :: rest.1, rest.2)

/-- The entry of a file in the list of `loadfiles`. -/
def loadError : Str × Except (Value F U) Unit → Option (Str × Value F U)
  | (filename, .error err) => some (filename, err)
  | (_, .ok _) => none

theorem loadAll_files (cmd : Command W F U) (files : List Str) (w : W) :
    (cmd.loadAll files w).1.map Prod.fst = files := by
  induction files generalizing w with
  | nil => rfl
  | cons filename files ih => rw [Command.loadAll, List.map_cons, ih]

theorem forEach_loadfile (cmd : Command W F U) (files : List Str)
    (errfiles : List (Str × Value F U)) (p : Proc W) :
    Act.forEach (loadfile cmd) files errfiles p
      = ⟨(cmd.loadAll files p.world).1.map fun l => .load l.1 l.2,
          .ok (errfiles ++ (cmd.loadAll files p.world).1.filterMap loadError),
          p.update fun _ => (cmd.loadAll files p.world).2⟩ := by
  induction files generalizing errfiles p with
  | nil => simp [Act.forEach, Command.loadAll, Proc.update]
  | cons filename files ih =>
      have hload : load cmd filename p = ⟨[.load filename (cmd.eval filename p.world).1],
          .ok (cmd.eval filename p.world).1, p.update fun _ => (cmd.eval filename p.world).2⟩ :=
        rfl
      rw [Act.forEach, loadfile, bind_assoc, Act.bind_of_ok hload, Command.loadAll]
      rcases cmd.eval filename p.world with ⟨err | _, w⟩
      · simp only [pure_bind, ih, List.filterMap_cons, loadError, List.append_assoc]
        rfl
      · simp only [pure_bind, ih, List.filterMap_cons, loadError]
        rfl

/-! ## What only prints -/

section Closed

variable {P : ∀ α : Type, Task W F U α → Prop} {cmd : Command W F U}

theorem reportLoadErrors_closed (hP : Act.Closed P)
    (hdisplay : ∀ printer args, P Unit (display cmd printer args))
    (errfiles : List (Str × Value F U)) : P Unit (reportLoadErrors cmd errfiles) := by
  rw [reportLoadErrors]
  split_ifs
  · exact hP.pure _
  · refine hP.bind (hdisplay _ _) fun _ => ?_
    refine hP.bind (hP.forEach (fun _ v => ?_) _ _) fun _ => hdisplay _ _
    exact hP.bind (hdisplay _ _) fun _ => hP.bind (hdisplay _ _) fun _ => hdisplay _ _

theorem printErrors_closed (hP : Act.Closed P)
    (hdisplay : ∀ printer args, P Unit (display cmd printer args))
    (errors : Errors F U) : P Unit (printErrors cmd errors) := by
  rw [printErrors]
  split_ifs
  · refine hP.bind (hP.forEach (fun _ v => ?_) _ _) fun _ => hdisplay _ _
    refine hP.bind (hdisplay _ _) fun _ => hP.forEach (fun _ verr => ?_) _ _
    exact hP.bind (hdisplay _ _) fun _ => hP.bind (hdisplay _ _) fun _ => hdisplay _ _
  · exact hP.pure _

end Closed

section Displays

variable {P : CommandEvent W F U → Prop} {cmd : Command W F U} {α : Type}

theorem exit_onlyEvents (hdisplay : ∀ args, Act.OnlyEvents P Unit (display cmd .print args))
    (code : Int) (msg : List (Value F U)) :
    Act.OnlyEvents P α (exit cmd code msg : Task W F U α) := by
  cases msg with
  | nil => exact Act.OnlyEvents.halt _
  | cons v msg =>
      exact (Act.onlyEvents_closed P).bind (hdisplay _) fun _ => Act.OnlyEvents.halt _

theorem checkOpts_onlyEvents (hdisplay : ∀ args, Act.OnlyEvents P Unit (display cmd .print args))
    (arg : List Str) : Act.OnlyEvents P Options (checkOpts cmd arg) := by
  have hclosed := @Act.onlyEvents_closed (Proc W) _ (Halt F U) P
  have hexit := @exit_onlyEvents W F U P cmd
  rw [checkOpts]
  cases getopts arg with
  | error err => exact hexit hdisplay _ _
  | ok opts =>
      simp only
      split_ifs
      · exact hexit hdisplay _ _
      · exact hexit hdisplay _ _
      · refine hclosed.bind (Act.OnlyEvents.perform _) fun res => ?_
        cases res with
        | error loaderr => exact hexit hdisplay _ _
        | ok _ => exact hclosed.pure _
      · exact hclosed.pure _

theorem printInfo_onlyEvents (hdisplay : ∀ args, Act.OnlyEvents P Unit (display cmd .print args))
    (list : List (Source F)) (ntest : Nat) :
    Act.OnlyEvents P Unit (printInfo cmd list ntest) := by
  have hclosed := @Act.onlyEvents_closed (Proc W) _ (Halt F U) P
  refine hclosed.bind (hdisplay _) fun _ => ?_
  refine hclosed.bind (Act.OnlyEvents.reads _) fun date => ?_
  refine hclosed.bind (hdisplay _) fun _ => ?_
  refine hclosed.bind (hdisplay _) fun _ => ?_
  refine hclosed.bind (hdisplay _) fun _ => ?_
  exact hclosed.forEach (fun _ _ => hdisplay _) _ _

theorem finish_onlyEvents
    (hdisplay : ∀ printer args, Act.OnlyEvents P Unit (display cmd printer args))
    (errfiles : List (Str × Value F U)) (res : RunResult F U) :
    Act.OnlyEvents P Unit (finish cmd errfiles res) := by
  have hclosed := @Act.onlyEvents_closed (Proc W) _ (Halt F U) P
  have hexit := @exit_onlyEvents W F U P cmd
  cases res with
  | refused err => exact hexit (hdisplay _) _ _
  | ran ns nf errors =>
      refine hclosed.bind (Act.OnlyEvents.reads _) fun total => ?_
      refine hclosed.bind (hdisplay _ _) fun _ => ?_
      refine hclosed.bind (printErrors_closed hclosed hdisplay errors) fun _ => ?_
      refine hclosed.bind ?_ fun _ => ?_
      · split_ifs
        · exact reportLoadErrors_closed hclosed hdisplay errfiles
        · exact hclosed.pure _
      · split_ifs
        · exact hexit (hdisplay _) _ _
        · exact hclosed.pure _

theorem runner_onlyEvents {m : Run W F U α} (hm : Act.OnlyEvents (fun e => P (.run e)) α m) :
    Act.OnlyEvents P α (runner m) := by
  intro p e he
  obtain ⟨e', he', rfl⟩ := List.mem_map.mp he
  exact hm p e' he'

theorem testSources_onlyEvents
    (hdisplay : ∀ printer args, Act.OnlyEvents P Unit (display cmd printer args))
    (hrun : ∀ list testcases, Act.OnlyEvents (fun e => P (.run e)) _ (run cmd.toEnv list testcases))
    (opts : Options) (errfiles : List (Str × Value F U)) :
    Act.OnlyEvents P Unit (testSources cmd opts errfiles) := by
  have hclosed := @Act.onlyEvents_closed (Proc W) _ (Halt F U) P
  refine hclosed.bind (Act.OnlyEvents.reads _) fun list => ?_
  refine hclosed.bind (printInfo_onlyEvents (hdisplay _) _ _) fun _ => ?_
  split_ifs
  · refine hclosed.bind (hdisplay _ _) fun _ => ?_
    refine hclosed.bind (reportLoadErrors_closed hclosed hdisplay errfiles) fun _ => ?_
    exact exit_onlyEvents (hdisplay _) _ _
  · refine hclosed.bind (runner_onlyEvents (fun _ e he => by cases he)) fun _ =>
      hclosed.bind (runner_onlyEvents (hrun _ _)) fun res => ?_
    exact finish_onlyEvents hdisplay errfiles res

/-- What a printer leaves behind. -/
theorem display_onlyEvents {printer : Printer} {args : List (Value F U)}
    (htold : ∀ u raised, P (.tostring u raised)) (h : P (.print printer args)) :
    Act.OnlyEvents P Unit (display cmd printer args) :=
  printing_onlyEvents cmd.toEnv htold h

end Displays

/-! ## What loads nothing -/

/-- Nothing is loaded. -/
abbrev NoLoad (α : Type) (m : Task W F U α) : Prop :=
  Act.OnlyEvents (fun e => e.loaded = none) α m

theorem NoLoad.loads {α : Type} {m : Task W F U α} (h : NoLoad α m) (p : Proc W) :
    loads (m p).events = [] := List.filterMap_eq_nil_iff.mpr (h p)

theorem display_noLoad (cmd : Command W F U) (printer : Printer) (args : List (Value F U)) :
    NoLoad Unit (display cmd printer args) :=
  display_onlyEvents (fun _ _ => rfl) rfl

theorem testSources_noLoad (cmd : Command W F U) (opts : Options)
    (errfiles : List (Str × Value F U)) : NoLoad Unit (testSources cmd opts errfiles) :=
  testSources_onlyEvents (display_noLoad cmd) (fun _ _ _ _ _ => rfl) opts errfiles

/-! ## The command -/

@[simp] theorem loads_append (es es' : List (CommandEvent W F U)) :
    loads (es ++ es') = loads es ++ loads es' := List.filterMap_append

/-- The process behind the loading. -/
def Command.loadedProc (cmd : Command W F U) (files : List Str) (p : Proc W) : Proc W :=
  ⟨(cmd.loadAll files p.world).2, true⟩

/-- The files, and what comes behind them. -/
theorem main_run {cmd : Command W F U} {arg : List Str} {opts : Options} {files : List Str}
    {p p' : Proc W} {es : List (CommandEvent W F U)}
    (hopts : checkOpts cmd arg p = ⟨es, .ok opts, p'⟩)
    (hfiles : getFiles cmd opts p' = ⟨[], .ok files, p'⟩) :
    main cmd arg p = ⟨es ++ (cmd.loadAll files p'.world).1.map (fun l => .load l.1 l.2) ++
        (testSources cmd opts ((cmd.loadAll files p'.world).1.filterMap loadError)
          (cmd.loadedProc files p')).events,
      (testSources cmd opts ((cmd.loadAll files p'.world).1.filterMap loadError)
        (cmd.loadedProc files p')).result,
      (testSources cmd opts ((cmd.loadAll files p'.world).1.filterMap loadError)
        (cmd.loadedProc files p')).world⟩ := by
  have hblock : (runner block : Task W F U Unit) p' = ⟨[], .ok (), ⟨p'.world, true⟩⟩ := rfl
  have hload : loadfiles cmd files ⟨p'.world, true⟩ = _ := forEach_loadfile cmd files [] _
  rw [main, Act.bind_of_ok hopts, Act.bind_of_ok hfiles, Act.bind_of_ok hblock,
    Act.bind_of_ok hload]
  simp only [List.nil_append, List.append_assoc]
  rfl

theorem loads_load (ls : List (Str × Except (Value F U) Unit)) :
    loads (ls.map fun l => (.load l.1 l.2 : CommandEvent W F U)) = ls := by
  rw [loads, List.filterMap_map]
  exact List.filterMap_some

/-- **Each collected file is loaded exactly once.**  Behind the options, if something is wrong
with the pathnames the command fails, without having loaded a file.  Otherwise `get_files` returns
the names that were found, in order, without those whose real path occurred before; so their real
paths are pairwise different and all that were found are there; and these files are loaded, each
once. -/
theorem files_loaded_once (cmd : Command W F U) (arg : List Str) (p : Proc W) (opts : Options)
    (es : List (CommandEvent W F U)) (p' : Proc W)
    (hopts : checkOpts cmd arg p = ⟨es, .ok opts, p'⟩) :
    (Rejected cmd p'.world opts →
      ¬ Succeeds (main cmd arg p).result ∧ loads (main cmd arg p).events = []) ∧
    (¬ Rejected cmd p'.world opts → ∃ paths lists files,
      Collected cmd p'.world opts paths lists ∧
      getFiles cmd opts p' = ⟨[], .ok files, p'⟩ ∧
      (files.map (cmd.canonical p'.world)).Nodup ∧
      (∀ name ∈ lists.flatten, ∃ file ∈ files,
        cmd.canonical p'.world file = cmd.canonical p'.world name) ∧
      files = firsts (cmd.canonical p'.world) lists.flatten ∧
      (loads (main cmd arg p).events).map Prod.fst = files) := by
  have hes : loads es = [] := by
    have h := NoLoad.loads (checkOpts_onlyEvents (display_noLoad cmd .print) arg) p
    rwa [hopts] at h
  rcases getFiles_cases cmd opts p' with ⟨paths, lists, hcollected, hrun⟩ |
    ⟨hnone, es', h, hrun, hprints, hfails⟩
  · refine ⟨fun hrejected => absurd hrejected hcollected.not_rejected, fun _ => ?_⟩
    refine ⟨paths, lists, _, hcollected, hrun, firsts_keys_nodup _, ?_, rfl, ?_⟩
    · exact fun name hname => exists_mem_firsts hname
    · rw [main_run hopts hrun, loads_append, loads_append, hes, loads_load,
        (testSources_noLoad cmd _ _).loads, List.nil_append, List.append_nil, loadAll_files]
  · have hmain : main cmd arg p = ⟨es ++ es', .error h, p'⟩ := by
      rw [main, Act.bind_of_ok hopts, Act.bind_of_error hrun]
    refine ⟨fun _ => ?_, fun hnot => ?_⟩
    · rw [hmain, loads_append, hes]
      refine ⟨hfails, List.filterMap_eq_nil_iff.mpr fun e he => ?_⟩
      obtain ⟨printer, args, rfl⟩ := hprints e he
      rfl
    · rcases rejected_or_collected cmd p'.world opts with hrejected | hcollected
      · exact absurd hrejected hnot
      · exact absurd hcollected hnone

/-! ### A file in a directory that is given, too -/

/-- The directory `/a/t` with two files, and `/a` as the working directory. -/
def overlapping : Command Unit Bool Unit where
  toEnv := plainEnv
  requireLuacov w := (.ok (), w)
  realpath name _ := .ok (if name.head? = some '/' then name else "/a/".toList ++ name)
  getfiles path _ _ := .ok (some (if path = "/a/t".toList
    then ["t/x_test.lua".toList, "t/y_test.lua".toList] else ["t/x_test.lua".toList]))
  eval _ w := (.ok (), w)
  traversal := Traversal.forward
  registry _ := ∅
  date _ := []
  total _ := ((), "clock".toList)

theorem overlapping_loads :
    (loads (main overlapping ["t/x_test.lua".toList, "t".toList] ⟨(), false⟩).events).map Prod.fst
      = ["t/x_test.lua".toList, "t/y_test.lua".toList] := by
  have hcollected : Collected overlapping ()
      ⟨false, false, false, [], ["t/x_test.lua".toList, "t".toList]⟩
      ["/a/t/x_test.lua".toList, "/a/t".toList]
      [["t/x_test.lua".toList], ["t/x_test.lua".toList, "t/y_test.lua".toList]] :=
    ⟨rfl, by decide, rfl, by decide⟩
  obtain ⟨_, _, files, _, hrun, _, _, _, hloads⟩ :=
    (files_loaded_once overlapping ["t/x_test.lua".toList, "t".toList] ⟨(), false⟩
      ⟨false, false, false, [], ["t/x_test.lua".toList, "t".toList]⟩ [] ⟨(), false⟩ rfl).2
      hcollected.not_rejected
  have hfiles : getFiles overlapping
      ⟨false, false, false, [], ["t/x_test.lua".toList, "t".toList]⟩ ⟨(), false⟩
      = ⟨[], .ok ["t/x_test.lua".toList, "t/y_test.lua".toList], ⟨(), false⟩⟩ := rfl
  rw [hfiles] at hrun
  cases hrun
  exact hloads

end Testcase
