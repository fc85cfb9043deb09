import LuaTestcase.Runner.Account

/-!
# The working directory of a run

Each call saves the directory before it and goes back behind it, on the error path too, and each
source starts from `CWD` again.  So the functions of a source all start in its directory, whatever
the ones before them did.

* `Directories` — what is assumed of the system: pathnames resolve in a directory tree, `chdir`
  goes where they lead, and `getcwd` returns a pathname that names the current directory.
* `Directories.Undisturbed` — and of the code of the user that runs outside of the calls.
* `EndsRefused` — a checked change of directory that fails is the last thing done.
* `Stays` — a property that sequencing preserves: calls start where the action started, and so it
  ends there.
* `run_directories` — **the working directory over a whole run**.
-/

namespace Testcase

open Dialogue

variable {W F U : Type}

/-! ## A failing change of directory -/

/-- The error of a checked change of directory. -/
def Event.refused : Event W F U → Option SysError
  | .chdir .leave _ _ => none
  | .chdir _ _ err => err
  | _ => none

/-- If a checked change of directory failed, it was the last thing done and an error was raised. -/
def EndsRefused {α : Type} (o : Outcome (Proc W) (Event W F U) (Halt F U) α) : Prop :=
  (∀ e ∈ o.events, e.refused = none) ∨
    ∃ es e err v, o.events = es ++ [e] ∧ (∀ e ∈ es, e.refused = none) ∧
      e.refused = some err ∧ o.result = .error (.raise v)

section Refused

variable {env : Env W F U}

/-- A change of directory that is refused stops the run. -/
theorem Event.Smooth.refused {e : Event W F U} (h : e.Smooth env) : e.refused = none := by
  cases e with
  | chdir move pathname err =>
      cases err with
      | none => cases move <;> rfl
      | some err =>
          cases move with
          | leave => rfl
          | _ => exact absurd (.refused .nil (by decide)) (h _)
  | _ => rfl

theorem run_endsRefused (list : List (Source F)) (testcases : Option (List Str)) (p : Proc W) :
    EndsRefused (run env list testcases p) := by
  have hends := @run_endsBy W F U env list testcases p
  rcases hres : (run env list testcases p).result with h | res
  · obtain ⟨es, e, hes, hsmooth, hstops⟩ := hends.of_error hres
    have hbefore : ∀ e ∈ es, e.refused = none := fun e he => Event.Smooth.refused (hsmooth e he)
    rcases herr : e.refused with _ | err
    · left
      rw [hes]
      exact List.forall_mem_append.mpr ⟨hbefore, by simpa using herr⟩
    · right
      cases hstops with
      | refused v _ => exact ⟨es, _, err, v, hes, hbefore, herr, hres⟩
      | _ => cases herr
  · exact .inl fun e he => Event.Smooth.refused (hends.of_ok hres e he)

end Refused

/-! ## Where the calls start -/

/-- What is assumed of the system.  Pathnames resolve in a tree of directories in which nothing is
moved; `chdir` goes where its pathname leads from the current directory, `getcwd` returns a
pathname that leads there from anywhere, and so does `CWD` to the initial directory. -/
structure Directories (env : Env W F U) (Dir : Type) where
  cwd : W → Dir
  resolve : Dir → Str → Dir
  init : Dir
  chdir_ok : ∀ pathname w w', env.chdir pathname w = .ok w' → cwd w' = resolve (cwd w) pathname
  getcwd_names : ∀ w pathname, env.getcwd w = some pathname → ∀ d, resolve d pathname = cwd w
  CWD_names : ∀ d, resolve d env.CWD = init
  start_cwd : ∀ w, cwd (env.start w) = cwd w

/-- The code of the user that runs outside of the calls leaves the directory alone: the finalizers
that a garbage collection runs, and the conversion of a value to a string. -/
structure Directories.Undisturbed {env : Env W F U} {Dir : Type} (dirs : Directories env Dir) :
    Prop where
  collect_cwd : ∀ w, dirs.cwd (env.collect w).2 = dirs.cwd w
  tostring_cwd : ∀ u w, dirs.cwd (env.tostring u w).2 = dirs.cwd w

/-- The call of an event. -/
def Event.made : Event W F U → Option (Call W F U)
  | .call c => some c
  | _ => none

/-- The calls among the events, with the worlds around them. -/
def callsMade (es : List (Event W F U)) : List (Call W F U) := es.filterMap Event.made

/-- A call without its worlds. -/
def Call.answered (c : Call W F U) : Target F × Answer F U := ((c.slot, c.func), c.result)

theorem calls_eq (es : List (Event W F U)) : calls es = (callsMade es).map Call.answered := by
  rw [calls, callsMade, List.map_filterMap]
  congr 1
  funext e
  cases e with
  | _ => rfl

@[simp] theorem callsMade_nil : callsMade ([] : List (Event W F U)) = [] := rfl

@[simp] theorem callsMade_call (c : Call W F U) (es : List (Event W F U)) :
    callsMade (.call c :: es) = c :: callsMade es := rfl

theorem callsMade_other {e : Event W F U} (h : e.made = none) (es : List (Event W F U)) :
    callsMade (e :: es) = callsMade es := List.filterMap_cons_none h

@[simp] theorem callsMade_getcwd (cwd : Option Str) (es : List (Event W F U)) :
    callsMade (.getcwd cwd :: es) = callsMade es := rfl

@[simp] theorem callsMade_collect (raised : Option (Value F U)) (es : List (Event W F U)) :
    callsMade (.collect raised :: es) = callsMade es := rfl

@[simp] theorem callsMade_getpid (pid : Int) (es : List (Event W F U)) :
    callsMade (.getpid pid :: es) = callsMade es := rfl

@[simp] theorem callsMade_tostring (u : U) (raised : Option (Value F U))
    (es : List (Event W F U)) : callsMade (.tostring u raised :: es) = callsMade es := rfl

@[simp] theorem callsMade_chdir (move : Move) (pathname : Str) (err : Option SysError)
    (es : List (Event W F U)) : callsMade (.chdir move pathname err :: es) = callsMade es := rfl

@[simp] theorem callsMade_print (printer : Printer) (args : List (Value F U))
    (es : List (Event W F U)) : callsMade (.print printer args :: es) = callsMade es := rfl

@[simp] theorem callsMade_lines (lines : List (Printed F U)) :
    callsMade (lines.map fun line => (.print line.1 line.2 : Event W F U)) = [] :=
  List.filterMap_eq_nil_iff.mpr fun e he => by
    obtain ⟨line, _, rfl⟩ := List.mem_map.mp he
    rfl

@[simp] theorem callsMade_append (es es' : List (Event W F U)) :
    callsMade (es ++ es') = callsMade es ++ callsMade es' := List.filterMap_append

theorem OnlyPrints.callsMade {es : List (Event W F U)} (h : OnlyPrints es) : callsMade es = [] := by
  refine List.filterMap_eq_nil_iff.mpr fun e he => ?_
  obtain ⟨printer, args, rfl⟩ := h e he
  rfl

section Directory

variable {Dir : Type} {env : Env W F U} (dirs : Directories env Dir)

/-- Started in a directory, the action makes its calls there, and returns there. -/
def Stays (d : Dir) (α : Type) (m : Run W F U α) : Prop :=
  ∀ p, dirs.cwd p.world = d → (∀ c ∈ callsMade (m p).events, dirs.cwd c.before = d) ∧
    ∀ a, (m p).result = .ok a → dirs.cwd (m p).world.world = d

theorem stays_closed (d : Dir) : Act.Closed (Stays dirs d) where
  pure a p hp := ⟨by simp, fun _ _ => hp⟩
  bind {α β m k} hm hk p hp := by
    obtain ⟨hcalls, hends⟩ := hm p hp
    rcases hrun : m p with ⟨es, a | x, p'⟩
    · rw [hrun] at hcalls
      rw [Act.bind_of_error hrun]
      exact ⟨hcalls, fun b hb => by cases hb⟩
    · rw [hrun] at hcalls hends
      obtain ⟨hcalls', hends'⟩ := hk x p' (hends x rfl)
      rw [Act.bind_of_ok hrun]
      refine ⟨fun c hc => ?_, hends'⟩
      rw [callsMade_append] at hc
      exact (List.mem_append.mp hc).elim (hcalls c) (hcalls' c)

variable (quiet : dirs.Undisturbed)

section Stays

/-- What makes no calls and keeps the directory. -/
theorem Stays.of_keeps {d : Dir} {α : Type} {m : Run W F U α}
    (hcalls : ∀ p, callsMade (m p).events = [])
    (hcwd : ∀ p, dirs.cwd (m p).world.world = dirs.cwd p.world) : Stays dirs d α m := by
  intro p hp
  rw [hcalls p, hcwd p]
  exact ⟨by simp, fun _ _ => hp⟩

include quiet

theorem say_stays (d : Dir) (printer : Printer) (args : List (Value F U)) :
    Stays dirs d Unit (say env printer args) := by
  have hconvert : ∀ u, Stays dirs d Unit (convert env .tostring u) := by
    refine fun u => Stays.of_keeps dirs (fun p => ?_) fun p => ?_
    · rw [convert_run, callsMade_tostring, callsMade_nil]
    · rw [convert_run]
      exact quiet.tostring_cwd u p.world
  refine (stays_closed dirs d).bind
    ((stays_closed dirs d).forEach (fun _ => hconvert) _ _) fun _ => ?_
  exact Stays.of_keeps dirs (fun _ => rfl) fun _ => rfl

omit quiet in
theorem callsMade_events (cwd : Str) (c : Call W F U) (es : List (Event W F U)) :
    callsMade (c.events cwd ++ es) = c :: callsMade es := by
  rw [callsMade_append, Call.events]
  simp

/-- **A call starts where the process stands, and the process stands there again behind it.** -/
theorem call_stays (d : Dir) (slot : Slot) (func : F) :
    Stays dirs d _ (call env slot func) := by
  intro p hp
  have hbefore : ∀ {raised w}, env.collect p.world = (raised, w) →
      dirs.cwd (env.calledIn slot func w).before = d := by
    intro raised w hraised
    have hkeeps := quiet.collect_cwd p.world
    rw [hraised] at hkeeps
    exact (dirs.start_cwd _).trans (hkeeps.trans hp)
  have hrun := call_run env slot func p
  generalize call env slot func p = o at hrun
  cases hrun with
  | noCwd v => exact ⟨by simp, nofun⟩
  | finalizer cwd v _ => exact ⟨by simp, nofun⟩
  | forked cwd _ hraised hc =>
      refine ⟨?_, nofun⟩
      rw [callsMade_events, ← hc]
      simpa using hbefore hraised
  | refused cwd err v _ hraised hc =>
      refine ⟨?_, nofun⟩
      rw [callsMade_events, ← hc]
      simpa using hbefore hraised
  | @returned w w' c cwd hcwd hraised hc _ hw' =>
      rw [callsMade_events, ← hc]
      refine ⟨by simpa using hbefore hraised, fun _ _ => ?_⟩
      calc dirs.cwd w' = dirs.resolve _ cwd := dirs.chdir_ok _ _ _ hw'
        _ = dirs.cwd p.world := dirs.getcwd_names _ _ hcwd _
        _ = d := hp

theorem runFile_stays (d : Dir) (src : Source F) : Stays dirs d _ (runFile env src) :=
  runFile_closed (stays_closed dirs d) (say_stays dirs quiet d)
    (callHook_closed (stays_closed dirs d) (say_stays dirs quiet d)
      fun slot func _ => call_stays dirs quiet d slot func)
    (runTest_closed (stays_closed dirs d) (say_stays dirs quiet d) (call_stays dirs quiet d)) src

end Stays

/-- The calls are the beginning of the calls of the source, and all start in its directory. -/
def InDirectory (src : Source F) (cs : List (Call W F U)) : Prop :=
  (∃ d, Leads (fileDialogue src) (cs.map Call.answered) d) ∧
    ∀ c ∈ cs, dirs.cwd c.before = dirs.resolve dirs.init src.dirname

include quiet

theorem runFile_inDirectory (src : Source F) (p : Proc W)
    (hp : dirs.cwd p.world = dirs.resolve dirs.init src.dirname) :
    InDirectory dirs src (callsMade (runFile env src p).events) := by
  have hfollows : FollowsAfter env [] (runFile env src) (fileDialogue src) := runFile_follows src
  obtain ⟨d, hlead, _⟩ := hfollows p
  refine ⟨⟨d, ?_⟩, (runFile_stays dirs quiet _ src p hp).1⟩
  rw [← calls_eq]
  exact hlead

/-- **A source is entered from `CWD`**, wherever the process stood. -/
theorem runSource_inDirectory (acc : Totals F U) (src : Source F) (p : Proc W) :
    InDirectory dirs src (callsMade (runSource env acc src p).events) := by
  have hnone : InDirectory dirs src [] := ⟨⟨_, Leads.refl _⟩, by simp⟩
  rw [runSource]
  rcases assertChdir_run env .reset none p with ⟨err, v, _, hreset⟩ | ⟨w, hw, hreset⟩
  · rw [Act.bind_of_error hreset]
    exact hnone
  rw [Act.bind_of_ok hreset]
  rcases assertChdir_run env .enter (some src.dirname) (p.update fun _ => w) with
    ⟨err, v, _, henter⟩ | ⟨w', hw', henter⟩
  · rw [Act.bind_of_error henter]
    exact hnone
  rw [Act.bind_of_ok henter]
  have hcwd : dirs.cwd w' = dirs.resolve dirs.init src.dirname := by
    rw [dirs.chdir_ok _ _ _ hw', Proc.update, dirs.chdir_ok _ _ _ hw]
    exact congrArg (dirs.resolve · _) (dirs.CWD_names _)
  have hfile := runFile_inDirectory dirs quiet src ((p.update fun _ => w).update fun _ => w') hcwd
  rcases hrun : runFile env src ((p.update fun _ => w).update fun _ => w') with ⟨es, h | r, p'⟩
  · rw [hrun] at hfile
    rw [Act.bind_of_error hrun]
    exact hfile
  · rw [hrun] at hfile
    rw [Act.bind_of_ok hrun]
    simpa using hfile

/-- The calls of the first sources, each with its own. -/
def Parts (list : List (Source F)) (cs : List (Call W F U)) : Prop :=
  ∃ parts : List (Source F × List (Call W F U)), parts.map Prod.fst <+: list ∧
    cs = parts.flatMap Prod.snd ∧ ∀ part ∈ parts, InDirectory dirs part.1 part.2

theorem forEach_parts (list : List (Source F)) (acc : Totals F U) (p : Proc W) :
    Parts dirs list (callsMade (Act.forEach (runSource env) list acc p).events) := by
  induction list generalizing acc p with
  | nil => exact ⟨[], by simp [Act.forEach]⟩
  | cons src list ih =>
      have hsrc := runSource_inDirectory dirs quiet acc src p
      rcases hrun : runSource env acc src p with ⟨es, h | acc', p'⟩
      · rw [hrun] at hsrc
        rw [Act.forEach, Act.bind_of_error hrun]
        exact ⟨[(src, callsMade es)], by simp, by simp, by simpa using hsrc⟩
      · rw [hrun] at hsrc
        obtain ⟨parts, hlist, hcs, hparts⟩ := ih acc' p'
        rw [Act.forEach, Act.bind_of_ok hrun]
        refine ⟨(src, callsMade es) :: parts, ?_, ?_, ?_⟩
        · rw [List.map_cons]
          exact List.cons_prefix_cons.mpr ⟨rfl, hlist⟩
        · rw [callsMade_append, hcs, List.flatMap_cons]
        · exact List.forall_mem_cons.mpr ⟨hsrc, hparts⟩

omit quiet

/-- What `run` prints at the end. -/
def closing : List (Event W F U) :=
  [.print .print [.string []], .print .print [.string HR], .print .print [.string []]]

/-- The sources, and the way back. -/
theorem runList_run (env : Env W F U) (list : List (Source F)) (p : Proc W) :
    (∃ es h p', Act.forEach (runSource env) list ⟨0, 0, [], 0⟩ p = ⟨es, .error h, p'⟩ ∧
      runList env list p = ⟨es, .error h, p'⟩) ∨
    ∃ es acc p', Act.forEach (runSource env) list ⟨0, 0, [], 0⟩ p = ⟨es, .ok acc, p'⟩ ∧
      ((∃ err, runList env list p
          = ⟨es ++ .chdir .leave env.CWD (some err) :: closing, .ok acc.result, p'⟩) ∨
        ∃ w, env.chdir env.CWD p'.world = .ok w ∧ runList env list p
          = ⟨es ++ .chdir .leave env.CWD none :: closing, .ok acc.result,
              p'.update fun _ => w⟩) := by
  rw [runList]
  rcases hrun : Act.forEach (runSource env) list ⟨0, 0, [], 0⟩ p with ⟨es, h | acc, p'⟩
  · exact Or.inl ⟨es, h, p', rfl, Act.bind_of_error hrun⟩
  · refine Or.inr ⟨es, acc, p', rfl, ?_⟩
    rw [Act.bind_of_ok hrun]
    rcases chdir_run env .leave none p' with ⟨err, _, hleave⟩ | ⟨w, hw, hleave⟩
    · refine Or.inl ⟨err, ?_⟩
      rw [Act.bind_of_ok hleave]
      rfl
    · refine Or.inr ⟨w, hw, ?_⟩
      rw [Act.bind_of_ok hleave]
      rfl

include quiet in
theorem runList_parts (list : List (Source F)) (p : Proc W) :
    Parts dirs list (callsMade (runList env list p).events) := by
  have hparts := forEach_parts dirs quiet list ⟨0, 0, [], 0⟩ p
  rcases runList_run env list p with ⟨es, h, p', hrun, hlist⟩ |
    ⟨es, acc, p', hrun, ⟨err, hlist⟩ | ⟨w, _, hlist⟩⟩
  · rw [hrun] at hparts
    rwa [hlist]
  · rw [hrun] at hparts
    rw [hlist]
    simpa [closing] using hparts
  · rw [hrun] at hparts
    rw [hlist]
    simpa [closing] using hparts

/-- The error of a change of directory, checked or not. -/
def Event.error : Event W F U → Option SysError
  | .chdir _ _ err => err
  | _ => none

/-- Every change of directory succeeded. -/
def NoneRefused (es : List (Event W F U)) : Prop := ∀ e ∈ es, e.error = none

theorem runList_home (list : List (Source F)) (p : Proc W) {res : RunResult F U}
    (hres : (runList env list p).result = .ok res)
    (hnone : NoneRefused (runList env list p).events) :
    dirs.cwd (runList env list p).world.world = dirs.init := by
  rcases runList_run env list p with ⟨es, h, p', _, hlist⟩ |
    ⟨es, acc, p', _, ⟨err, hlist⟩ | ⟨w, hw, hlist⟩⟩
  · rw [hlist] at hres
    cases hres
  · rw [hlist] at hnone
    have herr := hnone (.chdir .leave env.CWD (some err)) (by simp)
    cases herr
  · rw [hlist]
    exact (dirs.chdir_ok _ _ _ hw).trans (dirs.CWD_names _)

end Directory

/-! ## A whole run -/

/-- **The working directory over a whole run**, for functions that change it as they like, if what
they leave behind does not: neither finalizers nor conversions.  The calls are those of the first
sources, and each of them starts in the directory of its source.  If `run` returns and no change of
directory failed, the process is in the initial directory again, unless nothing was run.  And if a
checked change of directory fails, nothing is done after it and an error is raised. -/
theorem run_directories {Dir : Type} (env : Env W F U) (dirs : Directories env Dir)
    (quiet : dirs.Undisturbed) (list : List (Source F)) (testcases : Option (List Str))
    (p : Proc W) :
    Parts dirs (ranList list testcases) (callsMade (run env list testcases p).events) ∧
    (∀ res, (run env list testcases p).result = .ok res →
      NoneRefused (run env list testcases p).events →
      dirs.cwd (run env list testcases p).world.world = dirs.init ∨
        (∃ err, res = .refused err) ∧ (run env list testcases p).world = p) ∧
    EndsRefused (run env list testcases p) := by
  refine ⟨?_, ?_, run_endsRefused list testcases p⟩
  · have hparts := runList_parts dirs quiet (ranList list testcases) p
    rcases run_cases env list testcases p with ⟨_, prints, err, hprints, hrun⟩ |
      ⟨_, prints, hprints, hrun⟩
    · rw [hrun]
      exact ⟨[], by simp, hprints.callsMade, by simp⟩
    · rw [hrun, callsMade_append, hprints.callsMade]
      exact hparts
  · intro res hres hnone
    rcases run_cases env list testcases p with ⟨_, prints, err, _, hrun⟩ |
      ⟨_, prints, _, hrun⟩
    · rw [hrun] at hres ⊢
      exact .inr ⟨⟨err, (Except.ok.inj hres).symm⟩, rfl⟩
    · rw [hrun] at hres hnone ⊢
      refine .inl (runList_home dirs _ p hres fun e he => ?_)
      exact hnone e (List.mem_append_right _ he)

/-! ### A test that leaves its directory -/

/-- An absolute pathname. -/
abbrev Absolute : Type := { s : Str // s.head? = some '/' }

/-- Where a pathname leads from a directory, without links and dots. -/
def Absolute.goto (d : Absolute) (pathname : Str) : Absolute :=
  if h : pathname.head? = some '/' then ⟨pathname, h⟩
  else ⟨'/' :: (d.val.tail ++ '/' :: pathname), rfl⟩

/-- The process is in some directory, and may have an object with a finalizer. -/
structure Wandering where
  cwd : Absolute
  finalizer : Option Absolute

/-- The finalizer goes to its directory. -/
def Wandering.finalize (w : Wandering) : Absolute := w.finalizer.getD w.cwd

/-- A function that goes where it is told and fails, and may leave an object with a finalizer. -/
structure Wander where
  goto : Str
  finalizer : Option Absolute

/-- A garbage collection goes where `finalize` says. -/
def wanderEnv (finalize : Wandering → Absolute) : Env Wandering Wander Unit where
  CWD := "/a".toList
  PID := 1
  getcwd w := some w.cwd.val
  chdir pathname w := .ok { w with cwd := w.cwd.goto pathname }
  getpid _ := 1
  collect w := (none, ⟨finalize w, none⟩)
  start w := w
  stop w := ((none, "clock".toList), w)
  xpcall f w := (⟨.error .nil, []⟩, ⟨w.cwd.goto f.goto, f.finalizer⟩)
  tostring _ w := (none, w)
  assert := Assert.builtin

def wanderDirs (finalize : Wandering → Absolute) : Directories (wanderEnv finalize) Absolute where
  cwd := Wandering.cwd
  resolve := Absolute.goto
  init := ⟨"/a".toList, rfl⟩
  chdir_ok pathname w w' h := by
    cases h
    rfl
  getcwd_names w pathname h d := by
    obtain rfl : w.cwd.val = pathname := Option.some.inj h
    rw [Absolute.goto, dif_pos w.cwd.property]
  CWD_names d := rfl
  start_cwd w := rfl

/-- Two tests in `/a/b`; the first one goes to `/tmp`, and leaves a finalizer that does. -/
def wanderer : Source Wander where
  name := "b/x_test.lua".toList
  dirname := "b".toList
  beforeAll := none
  afterAll := none
  beforeEach := none
  afterEach := none
  tests := [⟨"test_1".toList, ⟨"/tmp".toList, some ⟨"/tmp".toList, rfl⟩⟩, 1⟩,
    ⟨"test_2".toList, ⟨"c".toList, none⟩, 2⟩]

/-- The run of it, started in `/`. -/
def wandererRun (finalize : Wandering → Absolute) :
    Outcome (Proc Wandering) (Event Wandering Wander Unit) (Halt Wander Unit)
      (RunResult Wander Unit) :=
  run (wanderEnv finalize) [wanderer] none ⟨⟨⟨"/".toList, rfl⟩, none⟩, false⟩

/-- Where the tests are called. -/
def wandererCalls (finalize : Wandering → Absolute) : List (Slot × Str) :=
  (callsMade (wandererRun finalize).events).map fun c => (c.slot, c.before.cwd.val)

/-- **A finalizer can change the directory**: the second test is called in `/tmp` and not in `/a/b`,
although no change of directory failed. -/
theorem finalizer_wanders :
    NoneRefused (wandererRun Wandering.finalize).events ∧
    wandererCalls Wandering.finalize =
      [(.test "test_1".toList, "/a/b".toList), (.test "test_2".toList, "/tmp".toList)] ∧
    ((wanderDirs Wandering.finalize).resolve (wanderDirs Wandering.finalize).init
      wanderer.dirname).val = "/a/b".toList := by
  refine ⟨?_, rfl, rfl⟩
  unfold NoneRefused
  decide

theorem wanderDirs_undisturbed : (wanderDirs Wandering.cwd).Undisturbed where
  collect_cwd _ := rfl
  tostring_cwd _ _ := rfl

/-- If it does not, both are called in `/a/b`, and the run ends in `/a`. -/
theorem wanderer_home :
    (∀ c ∈ callsMade (wandererRun Wandering.cwd).events, c.before.cwd.val = "/a/b".toList) ∧
    (callsMade (wandererRun Wandering.cwd).events).map Call.slot =
      [.test "test_1".toList, .test "test_2".toList] ∧
    (wandererRun Wandering.cwd).world.world.cwd.val = "/a".toList := by
  obtain ⟨⟨parts, hlist, hcalls, hparts⟩, hhome, _⟩ :=
    run_directories (wanderEnv Wandering.cwd) (wanderDirs Wandering.cwd) wanderDirs_undisturbed
      [wanderer] none ⟨⟨⟨"/".toList, rfl⟩, none⟩, false⟩
  refine ⟨fun c hc => ?_, rfl, ?_⟩
  · rw [wandererRun, hcalls] at hc
    obtain ⟨part, hpart, hc⟩ := List.mem_flatMap.mp hc
    have hsrc : part.1 = wanderer :=
      List.mem_singleton.mp (hlist.subset (List.mem_map_of_mem hpart))
    have hcwd := (hparts part hpart).2 c hc
    rw [hsrc] at hcwd
    exact congrArg Subtype.val hcwd
  · rcases hhome _ rfl (by unfold NoneRefused; decide) with h | ⟨⟨err, herr⟩, _⟩
    · exact congrArg Subtype.val h
    · cases herr

end Testcase
