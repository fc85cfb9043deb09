import LuaTestcase.Runner.Def

/-!
# Where a run stops

A run goes on whatever the functions do.  It stops early only when it is answered in one of a few
ways by what it calls itself, and then at once.

* `run_closed` — a property of actions that sequencing preserves holds of a run if it holds of its
  parts.
* `Event.Stops` — the answers that stop a run, and how it ends then.
* `run_endsBy` — **a run stops at the first such answer**, and at nothing else.
-/

namespace Testcase

open Act

variable {W F U : Type}

/-! ## Runs, in general -/

/-- The slot is that of a test. -/
def Slot.isTest : Slot → Bool
  | .test _ => true
  | _ => false

section Closed

variable {env : Env W F U} {P : ∀ α : Type, Run W F U α → Prop}

theorem runTest_closed (hP : Closed P) (hsay : ∀ printer args, P Unit (say env printer args))
    (hcall : ∀ slot func, P _ (call env slot func)) (name : Str) (func : F) :
    P _ (runTest env name func) := by
  refine hP.bind (hsay _ _) fun _ => hP.bind (hcall _ _) fun r => hP.bind (hsay _ _) fun _ => ?_
  rcases r with ⟨err | _, _⟩
  · exact hP.bind (hsay _ _) fun _ => hP.bind (hsay _ _) fun _ => hP.pure _
  · exact hP.bind (hsay _ _) fun _ => hP.pure _

theorem callHook_closed (hP : Closed P) (hsay : ∀ printer args, P Unit (say env printer args))
    (hcall : ∀ slot func, slot.isTest = false → P _ (call env slot func)) (slot : Slot)
    (hook : Option F) (hslot : slot.isTest = false) : P _ (callHook env slot hook) := by
  cases hook with
  | none => exact hP.pure _
  | some func =>
      refine hP.bind (hP.bind (hcall _ _ hslot) fun r => ?_) fun r => ?_
      · rcases r with ⟨err | _, _⟩
        · by_cases herr : err.truthy = true
          · simp only [herr, if_true]
            exact hP.bind (hsay _ _) fun _ => hP.bind (hsay _ _) fun _ => hP.pure _
          · simp only [herr]
            exact hP.pure _
        · exact hP.pure _
      · cases r with
        | error err => exact hP.pure _
        | ok _ => exact hP.pure _

theorem eachTest_closed (hP : Closed P)
    (hhook : ∀ slot hook, slot.isTest = false → P _ (callHook env slot hook))
    (htest : ∀ name func, P _ (runTest env name func)) (src : Source F) (tests : List (Test F))
    (acc : Nat × List (Record F U)) : P _ (eachTest env src tests acc) := by
  induction tests generalizing acc with
  | nil => exact hP.pure _
  | cons test tests ih =>
      refine hP.bind (hhook _ _ rfl) fun before => ?_
      cases before with
      | some err => exact hP.pure _
      | none =>
          refine hP.bind (htest _ _) fun res => hP.bind (hhook _ _ rfl) fun after => ?_
          cases after with
          | some err => exact hP.pure _
          | none => exact ih _

/-- **What sequencing preserves, a source preserves.** -/
theorem runFile_closed (hP : Closed P) (hsay : ∀ printer args, P Unit (say env printer args))
    (hhook : ∀ slot hook, slot.isTest = false → P _ (callHook env slot hook))
    (htest : ∀ name func, P _ (runTest env name func)) (src : Source F) :
    P _ (runFile env src) := by
  refine hP.bind (hsay _ _) fun _ => hP.bind (hsay _ _) fun _ => hP.bind (hsay _ _) fun _ =>
    hP.bind (hsay _ _) fun _ => hP.bind (hhook _ _ rfl) fun before => ?_
  cases before with
  | some err => exact hP.pure _
  | none =>
      refine hP.bind (eachTest_closed hP hhook htest _ _ _) fun acc => ?_
      exact hP.bind (hhook _ _ rfl) fun after => hP.bind (hsay _ _) fun _ => hP.pure _

theorem runSource_closed (hP : Closed P) (hfile : ∀ src, P _ (runFile env src))
    (hmove : ∀ move pathname, move ≠ .leave → P Unit (assertChdir env move pathname))
    (acc : Totals F U) (src : Source F) : P _ (runSource env acc src) :=
  hP.bind (hmove .reset _ (by decide)) fun _ => hP.bind (hmove .enter _ (by decide)) fun _ =>
    hP.bind (hfile src) fun _ => hP.pure _

theorem runList_closed (hP : Closed P) (hsay : ∀ printer args, P Unit (say env printer args))
    (hfile : ∀ src, P _ (runFile env src))
    (hmove : ∀ move pathname, move ≠ .leave → P Unit (assertChdir env move pathname))
    (hleave : P _ (chdir env .leave none)) (list : List (Source F)) : P _ (runList env list) :=
  hP.bind (hP.forEach (runSource_closed hP hfile hmove) _ _) fun _ =>
    hP.bind hleave fun _ => hP.bind (hsay _ _) fun _ => hP.bind (hsay _ _) fun _ =>
      hP.bind (hsay _ _) fun _ => hP.pure _

theorem selectTestcases_closed (hP : Closed P)
    (hsay : ∀ printer args, P Unit (say env printer args)) (list : List (Source F))
    (testcases : List Str) : P _ (selectTestcases env list testcases) := by
  refine hP.forEach (fun acc src => hP.bind (hP.forEach (fun _ testcase => ?_) _ _) fun _ => ?_) _ _
  · split_ifs
    · exact hsay _ _
    · exact hP.pure _
  · split_ifs
    · exact hP.pure _
    · exact hP.pure _

/-- **What sequencing preserves, a run preserves.** -/
theorem run_closed (hP : Closed P) (hreads : P _ (reads Proc.doNotRun))
    (hsay : ∀ printer args, P Unit (say env printer args))
    (hfile : ∀ src, P _ (runFile env src))
    (hmove : ∀ move pathname, move ≠ .leave → P Unit (assertChdir env move pathname))
    (hleave : P _ (chdir env .leave none)) (list : List (Source F))
    (testcases : Option (List Str)) : P _ (run env list testcases) := by
  have hlist := runList_closed hP hsay hfile hmove hleave
  refine hP.bind hreads fun blocked => ?_
  cases blocked with
  | true => exact hP.pure _
  | false =>
      rcases testcases with _ | _ | ⟨name, names⟩
      · exact hlist list
      · exact hlist list
      · refine hP.bind (selectTestcases_closed hP hsay _ _) fun newlist =>
          hP.bind (hP.forEach (fun notfound name => ?_) _ _) fun notfound => ?_
        · split_ifs
          · exact hP.bind (hsay _ _) fun _ => hP.pure _
          · exact hP.pure _
        · split_ifs
          · exact hP.pure _
          · exact hlist _

/-- A call consists of its parts. -/
theorem call_closed (hP : Closed P) (hcwd : P _ (assertCwd env))
    (hcollect : P _ (collectgarbage env)) (slot : Slot) (func : F)
    (hhooked : P _ (callHooked env slot func)) (hforked : P _ (exitForked env))
    (hmove : ∀ pathname, P _ (assertChdir env .restore pathname)) :
    P _ (call env slot func) :=
  hP.bind hcwd fun _ => hP.bind hcollect fun _ => hP.bind hhooked fun _ =>
    hP.bind hforked fun _ => hP.bind (hmove _) fun _ => hP.pure _

end Closed

/-! ## The answers that stop a run -/

/-- The answer ends the run in this way: `getcwd` or a finalizer fails in front of a call, the
process is a fork behind it, a change of directory is refused that is checked, or a value that is
printed has a `__tostring` that raises. -/
inductive Event.Stops (env : Env W F U) : Event W F U → Halt F U → Prop where
  | noCwd (v : Value F U) : Stops env (.getcwd none) (.raise v)
  | finalizer (v : Value F U) : Stops env (.collect (some v)) (.raise v)
  | forked {w : W} : env.getpid w ≠ env.PID → Stops env (.getpid (env.getpid w)) (.exit 0)
  | refused {move : Move} {pathname : Str} {err : SysError} (v : Value F U) : move ≠ .leave →
      Stops env (.chdir move pathname (some err)) (.raise v)
  | unprintable {u : U} (v : Value F U) : Stops env (.tostring u (some v)) (.raise v)

/-- The event stops nothing. -/
def Event.Smooth (env : Env W F U) (e : Event W F U) : Prop := ∀ h, ¬ e.Stops env h

section Stops

variable {env : Env W F U}

theorem call_smooth (c : Call W F U) : (Event.call c).Smooth env := by
  rintro h ⟨⟩

theorem print_smooth (printer : Printer) (args : List (Value F U)) :
    (Event.print printer args : Event W F U).Smooth env := by
  rintro h ⟨⟩

theorem raising_run {E : Type} (raised : Option (Value F U)) (p : Proc W) :
    (raising raised : Act (Proc W) E (Halt F U) Unit) p =
      ⟨[], raised.elim (.ok ()) fun v => .error (.raise v), p⟩ := by
  cases raised with
  | none => rfl
  | some v => rfl

/-- `assert` raises for `nil` and `false`, and for nothing else. -/
theorem assert_run (env : Env W F U) (v : Value F U) (vs : List (Value F U)) (p : Proc W) :
    (v.truthy = true ∧ assert env (v :: vs) p = ⟨[], .ok (), p⟩) ∨
      v.truthy = false ∧ ∃ raised, assert env (v :: vs) p = ⟨[], .error (.raise raised), p⟩ := by
  rcases hraises : env.assert.raises (v :: vs) with _ | raised
  · refine .inl ⟨(env.assert.raises_eq_none v vs).mp hraises, ?_⟩
    rw [assert, hraises, raising_run]
    rfl
  · refine .inr ⟨?_, raised, by rw [assert, hraises, raising_run]; rfl⟩
    rw [← Bool.not_eq_true, ← env.assert.raises_eq_none v vs, hraises]
    exact nofun

/-! ## The parts -/

/-- A conversion changes the world, and stops the run if it raises. -/
theorem convert_run {E : Type} (env : Env W F U) (told : U → Option (Value F U) → E) (u : U)
    (p : Proc W) : convert env told u p =
      ⟨[told u (env.tostring u p.world).1],
        (env.tostring u p.world).1.elim (.ok ()) fun v => .error (.raise v),
        p.update fun _ => (env.tostring u p.world).2⟩ := by
  rw [convert, outside, perform_bind_run, emit_bind_run, raising_run]

/-- Whatever the events are recorded as, a printer stops at a conversion that raises. -/
theorem printing_endsBy {E : Type} {stops : E → Halt F U → Prop} (env : Env W F U)
    {told : U → Option (Value F U) → E} {written : Printer → List (Value F U) → E}
    (htold : ∀ u h, ¬ stops (told u none) h)
    (hraised : ∀ u v, stops (told u (some v)) (.raise v))
    (hwritten : ∀ printer args h, ¬ stops (written printer args) h) (printer : Printer)
    (args : List (Value F U)) :
    EndsBy stops Unit (printing env told written printer args) := by
  have hclosed := @endsBy_closed (Proc W) E (Halt F U) stops
  refine hclosed.bind (hclosed.forEach (fun _ u p => ?_) _ _) fun _ =>
    EndsBy.emit (hwritten _ _)
  rw [convert_run]
  rcases (env.tostring u p.world).1 with _ | v
  · exact .returned (by simpa using htold u)
  · exact .first (hraised u v)

theorem printing_onlyEvents {E : Type} {Q : E → Prop} (env : Env W F U)
    {told : U → Option (Value F U) → E} {written : Printer → List (Value F U) → E}
    {printer : Printer} {args : List (Value F U)} (htold : ∀ u raised, Q (told u raised))
    (hwritten : Q (written printer args)) :
    OnlyEvents Q Unit (printing env told written printer args) := by
  have hclosed := @onlyEvents_closed (Proc W) E (Halt F U) Q
  refine hclosed.bind (hclosed.forEach (fun _ u p => ?_) _ _) fun _ => OnlyEvents.emit hwritten
  rw [convert_run]
  simpa using htold u _

/-- What need not be converted is printed. -/
theorem printing_plain {E : Type} {env : Env W F U} {told : U → Option (Value F U) → E}
    {written : Printer → List (Value F U) → E} {printer : Printer} {args : List (Value F U)}
    (h : conversions args = []) :
    printing env told written printer args = Act.emit (written printer args) := by
  rw [printing, h]
  rfl

theorem say_plain {printer : Printer} {args : List (Value F U)} (h : conversions args = []) :
    say env printer args = Act.emit (.print printer args) := printing_plain h

/-- The verdict and the time of a test need not be converted. -/
theorem conversions_time (fmt verdict : Str) (time : Option U) :
    conversions [(.string fmt : Value F U), .string verdict, elapsedValue time] = [] := by
  cases time with
  | none => rfl
  | some u => rfl

theorem say_endsBy (printer : Printer) (args : List (Value F U)) :
    EndsBy (Event.Stops env) Unit (say env printer args) :=
  printing_endsBy env (by rintro u h ⟨⟩) (fun u v => .unprintable v)
    (fun printer args => print_smooth printer args) printer args

/-- What a change of directory does. -/
theorem chdir_run (env : Env W F U) (move : Move) (pathname : Option Str) (p : Proc W) :
    (∃ err, env.chdir (pathname.getD env.CWD) p.world = .error err ∧ chdir env move pathname p
        = ⟨[.chdir move (pathname.getD env.CWD) (some err)], .ok (some err), p⟩) ∨
    ∃ w, env.chdir (pathname.getD env.CWD) p.world = .ok w ∧ chdir env move pathname p
        = ⟨[.chdir move (pathname.getD env.CWD) none], .ok none, p.update fun _ => w⟩ := by
  rw [chdir, reads_bind_run]
  rcases env.chdir (pathname.getD env.CWD) p.world with err | w
  · exact .inl ⟨err, rfl, rfl⟩
  · exact .inr ⟨w, rfl, rfl⟩

/-- What a checked one does. -/
theorem assertChdir_run (env : Env W F U) (move : Move) (pathname : Option Str) (p : Proc W) :
    (∃ err v, env.chdir (pathname.getD env.CWD) p.world = .error err ∧
      assertChdir env move pathname p
        = ⟨[.chdir move (pathname.getD env.CWD) (some err)], .error (.raise v), p⟩) ∨
    ∃ w, env.chdir (pathname.getD env.CWD) p.world = .ok w ∧
      assertChdir env move pathname p
        = ⟨[.chdir move (pathname.getD env.CWD) none], .ok (), p.update fun _ => w⟩ := by
  rcases chdir_run env move pathname p with ⟨err, herr, hrun⟩ | ⟨w, hw, hrun⟩
  · left
    rcases assert_run env (.boolean false) [.error err] p with
      ⟨htrue, _⟩ | ⟨_, raised, hassert⟩
    · cases htrue
    · refine ⟨err, raised, herr, ?_⟩
      rw [assertChdir, bind_of_ok hrun]
      simp only [Option.isNone_some, Option.elim_some, hassert]
      rfl
  · right
    rcases assert_run env (.boolean true) [.nil] (p.update fun _ => w) with
      ⟨_, hassert⟩ | ⟨hfalse, _⟩
    · refine ⟨w, hw, ?_⟩
      rw [assertChdir, bind_of_ok hrun]
      simp only [Option.isNone_none, Option.elim_none, hassert]
      rfl
    · cases hfalse

theorem assertChdir_endsBy {move : Move} (hmove : move ≠ .leave) (pathname : Option Str) :
    EndsBy (Event.Stops env) Unit (assertChdir env move pathname) := by
  intro p
  rcases assertChdir_run env move pathname p with ⟨err, v, _, hrun⟩ | ⟨w, _, hrun⟩
  · rw [hrun]
    exact .first (.refused v hmove)
  · rw [hrun]
    exact .returned (by rintro e he h ⟨⟩ <;> simp at he)

theorem chdir_leave_endsBy (pathname : Option Str) :
    EndsBy (Event.Stops env) _ (chdir env .leave pathname) := by
  intro p
  have hnone : ∀ err, ∀ e ∈ [Event.chdir .leave (pathname.getD env.CWD) err], e.Smooth env := by
    rintro err e he h hstops
    obtain rfl := List.mem_singleton.mp he
    cases hstops with
    | refused v hmove => exact hmove rfl
  rcases chdir_run env .leave pathname p with ⟨err, _, hrun⟩ | ⟨w, _, hrun⟩
  · rw [hrun]
    exact .returned (hnone _)
  · rw [hrun]
    exact .returned (hnone _)

/-- `assert(getcwd())` returns the directory, or raises. -/
theorem assertCwd_run (env : Env W F U) (p : Proc W) :
    (env.getcwd p.world = none ∧
      ∃ v, assertCwd env p = ⟨[.getcwd none], .error (.raise v), p⟩) ∨
    ∃ cwd, env.getcwd p.world = some cwd ∧
      assertCwd env p = ⟨[.getcwd (some cwd)], .ok cwd, p⟩ := by
  rw [assertCwd, reads_bind_run, emit_bind_run]
  rcases hcwd : env.getcwd p.world with _ | cwd
  · left
    rcases assert_run env .nil [] p with ⟨htrue, _⟩ | ⟨_, v, hassert⟩
    · cases htrue
    · refine ⟨rfl, v, ?_⟩
      rw [Option.elim_none, bind_of_error hassert]
  · right
    rcases assert_run env (.string cwd) [] p with ⟨_, hassert⟩ | ⟨hfalse, _⟩
    · refine ⟨cwd, rfl, ?_⟩
      rw [Option.elim_some, bind_of_ok hassert]
      rfl
    · cases hfalse

theorem assertCwd_endsBy : EndsBy (Event.Stops env) _ (assertCwd env) := by
  intro p
  rcases assertCwd_run env p with ⟨_, v, hrun⟩ | ⟨cwd, _, hrun⟩
  · rw [hrun]
    exact .first (.noCwd v)
  · rw [hrun]
    exact .returned (by rintro e he h ⟨⟩ <;> simp at he)

theorem collectgarbage_run (env : Env W F U) (p : Proc W) : collectgarbage env p =
    ⟨[.collect (env.collect p.world).1],
      (env.collect p.world).1.elim (.ok ()) fun v => .error (.raise v),
      p.update fun _ => (env.collect p.world).2⟩ := by
  rw [collectgarbage, outside, perform_bind_run, emit_bind_run, raising_run]

theorem collectgarbage_endsBy : EndsBy (Event.Stops env) Unit (collectgarbage env) := by
  intro p
  rw [collectgarbage_run]
  rcases (env.collect p.world).1 with _ | v
  · exact .returned (by rintro e he h ⟨⟩ <;> simp at he)
  · exact .first (.finalizer v)

/-- The call of a function, made in the world `w`. -/
def Env.calledIn (env : Env W F U) (slot : Slot) (func : F) (w : W) : Call W F U where
  slot := slot
  func := func
  before := env.start w
  result := (env.xpcall func (env.start w)).1.result
  outputs := (env.xpcall func (env.start w)).1.outputs
  after := (env.xpcall func (env.start w)).2

/-- All that is printed of the outputs of a call. -/
def Call.hooked (c : Call W F U) : List (Printed F U) :=
  hookedOutputs c.slot c.outputs ++ unhooked c.slot c.outputs

/-- What is done between the hooks. -/
theorem callHooked_run (env : Env W F U) (slot : Slot) (func : F) (p : Proc W) {c : Call W F U}
    (hc : env.calledIn slot func p.world = c) : callHooked env slot func p =
      ⟨.call c :: c.hooked.map fun line => .print line.1 line.2,
        .ok (c.result, (env.stop c.after).1), p.update fun _ => (env.stop c.after).2⟩ := by
  subst hc
  simp only [callHooked, modify_bind_run, reads_bind_run, emit_bind_run, write_bind_run,
    Proc.update, Call.hooked, Env.calledIn, List.map_append, pure_run, List.append_nil]

theorem callHooked_endsBy (slot : Slot) (func : F) :
    EndsBy (Event.Stops env) _ (callHooked env slot func) := by
  intro p
  rw [callHooked_run env slot func p rfl]
  refine .returned (List.forall_mem_cons.mpr ⟨call_smooth _, ?_⟩)
  intro e he
  obtain ⟨line, _, rfl⟩ := List.mem_map.mp he
  exact print_smooth _ _

theorem exitForked_run (env : Env W F U) (p : Proc W) :
    (env.getpid p.world ≠ env.PID ∧
      exitForked env p = ⟨[.getpid (env.getpid p.world)], .error (.exit 0), p⟩) ∨
    env.getpid p.world = env.PID ∧
      exitForked env p = ⟨[.getpid env.PID], .ok (), p⟩ := by
  rw [exitForked, reads_bind_run, emit_bind_run]
  by_cases hpid : env.getpid p.world = env.PID
  · rw [if_neg (not_not_intro hpid), hpid]
    exact .inr ⟨rfl, rfl⟩
  · rw [if_pos hpid]
    exact .inl ⟨hpid, rfl⟩

theorem exitForked_endsBy : EndsBy (Event.Stops env) Unit (exitForked env) := by
  intro p
  rcases exitForked_run env p with ⟨hpid, hrun⟩ | ⟨_, hrun⟩
  · rw [hrun]
    exact .first (.forked hpid)
  · rw [hrun]
    refine .returned ?_
    rintro e he h hstops
    obtain rfl := List.mem_singleton.mp he
    generalize hsame : env.PID = pid at hstops
    cases hstops with
    | forked hpid => exact hpid hsame.symm

/-! ## Calls -/

/-- The events of a call that is made, up to the end of the hooks. -/
def Call.events (cwd : Str) (c : Call W F U) : List (Event W F U) :=
  .getcwd (some cwd) :: .collect none :: .call c ::
    c.hooked.map fun line => .print line.1 line.2

/-- How a call runs.  Nothing is called if the directory is not known or a finalizer raises;
otherwise the function is called where the process stands, and afterwards the process ends if it is
a fork, or goes back. -/
inductive CallRun (env : Env W F U) (slot : Slot) (func : F) (p : Proc W) :
    Outcome (Proc W) (Event W F U) (Halt F U) (Except (Value F U) Unit × Option U × Str) →
    Prop where
  | noCwd (v : Value F U) : env.getcwd p.world = none →
      CallRun env slot func p ⟨[.getcwd none], .error (.raise v), p⟩
  | finalizer {w : W} (cwd : Str) (v : Value F U) : env.getcwd p.world = some cwd →
      env.collect p.world = (some v, w) →
      CallRun env slot func p
        ⟨[.getcwd (some cwd), .collect (some v)], .error (.raise v), p.update fun _ => w⟩
  | forked {w : W} {c : Call W F U} (cwd : Str) : env.getcwd p.world = some cwd →
      env.collect p.world = (none, w) → env.calledIn slot func w = c →
      env.getpid (env.stop c.after).2 ≠ env.PID →
      CallRun env slot func p
        ⟨c.events cwd ++ [.getpid (env.getpid (env.stop c.after).2)], .error (.exit 0),
          p.update fun _ => (env.stop c.after).2⟩
  | refused {w : W} {c : Call W F U} (cwd : Str) (err : SysError) (v : Value F U) :
      env.getcwd p.world = some cwd → env.collect p.world = (none, w) →
      env.calledIn slot func w = c → env.getpid (env.stop c.after).2 = env.PID →
      env.chdir cwd (env.stop c.after).2 = .error err →
      CallRun env slot func p
        ⟨c.events cwd ++ [.getpid env.PID, .chdir .restore cwd (some err)], .error (.raise v),
          p.update fun _ => (env.stop c.after).2⟩
  | returned {w w' : W} {c : Call W F U} (cwd : Str) : env.getcwd p.world = some cwd →
      env.collect p.world = (none, w) → env.calledIn slot func w = c →
      env.getpid (env.stop c.after).2 = env.PID → env.chdir cwd (env.stop c.after).2 = .ok w' →
      CallRun env slot func p
        ⟨c.events cwd ++ [.getpid env.PID, .chdir .restore cwd none],
          .ok (c.result, (env.stop c.after).1), p.update fun _ => w'⟩

/-- **What a call does.** -/
theorem call_run (env : Env W F U) (slot : Slot) (func : F) (p : Proc W) :
    CallRun env slot func p (call env slot func p) := by
  rw [call]
  rcases assertCwd_run env p with ⟨hnone, v, hcwd⟩ | ⟨cwd, hname, hcwd⟩
  · rw [bind_of_error hcwd]
    exact .noCwd v hnone
  rw [bind_of_ok hcwd]
  rcases hraised : env.collect p.world with ⟨_ | v, w⟩
  · have hcollect : collectgarbage env p = ⟨[.collect none], .ok (), p.update fun _ => w⟩ := by
      rw [collectgarbage_run, hraised]
      rfl
    obtain ⟨c, hc⟩ : ∃ c, env.calledIn slot func w = c := ⟨_, rfl⟩
    have hhooked : callHooked env slot func (p.update fun _ => w) =
        ⟨.call c :: c.hooked.map fun line => .print line.1 line.2,
          .ok (c.result, (env.stop c.after).1), p.update fun _ => (env.stop c.after).2⟩ :=
      callHooked_run env slot func (p.update fun _ => w) hc
    rw [bind_of_ok hcollect, bind_of_ok hhooked]
    rcases exitForked_run env (p.update fun _ => (env.stop c.after).2) with
      ⟨hpid, hforked⟩ | ⟨hpid, hforked⟩
    · rw [bind_of_error hforked]
      exact .forked cwd hname hraised hc hpid
    rcases assertChdir_run env .restore (some cwd) (p.update fun _ => (env.stop c.after).2) with
      ⟨err, v, herr, hback⟩ | ⟨w', hw', hback⟩
    · rw [bind_of_ok hforked, bind_of_error hback]
      exact .refused cwd err v hname hraised hc hpid herr
    · rw [bind_of_ok hforked, bind_of_ok hback]
      exact .returned cwd hname hraised hc hpid hw'
  · have hcollect : collectgarbage env p =
        ⟨[.collect (some v)], .error (.raise v), p.update fun _ => w⟩ := by
      rw [collectgarbage_run, hraised]
      rfl
    rw [bind_of_error hcollect]
    exact .finalizer cwd v hname hraised

/-! ## The run -/

theorem call_endsBy (slot : Slot) (func : F) :
    EndsBy (Event.Stops env) _ (call env slot func) :=
  call_closed (endsBy_closed _) assertCwd_endsBy collectgarbage_endsBy slot func
    (callHooked_endsBy slot func) exitForked_endsBy (assertChdir_endsBy (by decide))

theorem runFile_endsBy (src : Source F) : EndsBy (Event.Stops env) _ (runFile env src) :=
  runFile_closed (endsBy_closed _) say_endsBy
    (callHook_closed (endsBy_closed _) say_endsBy fun slot func _ => call_endsBy slot func)
    (runTest_closed (endsBy_closed _) say_endsBy call_endsBy) src

theorem runList_endsBy (list : List (Source F)) :
    EndsBy (Event.Stops env) _ (runList env list) :=
  runList_closed (endsBy_closed _) say_endsBy runFile_endsBy
    (fun _ pathname hmove => assertChdir_endsBy hmove pathname) (chdir_leave_endsBy _) list

/-- **A run stops at the first answer of `Event.Stops`**, and at nothing else. -/
theorem run_endsBy (list : List (Source F)) (testcases : Option (List Str)) :
    EndsBy (Event.Stops env) _ (run env list testcases) :=
  run_closed (endsBy_closed _) (EndsBy.reads _) say_endsBy runFile_endsBy
    (fun _ pathname hmove => assertChdir_endsBy hmove pathname) (chdir_leave_endsBy _) list
    testcases

/-- The directory is known and can be changed, nothing is forked, and neither finalizers nor
conversions raise. -/
structure Calm (env : Env W F U) : Prop where
  getcwd : ∀ w, env.getcwd w ≠ none
  chdir : ∀ pathname w err, env.chdir pathname w ≠ .error err
  getpid : ∀ w, env.getpid w = env.PID
  collect : ∀ w, (env.collect w).1 = none
  tostring : ∀ u w, (env.tostring u w).1 = none

section Calm

/-- The action is answered nothing that stops it. -/
abbrev NotStopped (env : Env W F U) (α : Type) (m : Run W F U α) : Prop :=
  OnlyEvents (Event.Smooth env) α m

theorem Calm.printing {E : Type} {Q : E → Prop} {told : U → Option (Value F U) → E}
    {written : Printer → List (Value F U) → E} (h : Calm env) (htold : ∀ u, Q (told u none))
    (hwritten : ∀ printer args, Q (written printer args)) (printer : Printer)
    (args : List (Value F U)) : OnlyEvents Q Unit (printing env told written printer args) := by
  have hclosed := @onlyEvents_closed (Proc W) E (Halt F U) Q
  refine hclosed.bind (hclosed.forEach (fun _ u p => ?_) _ _) fun _ =>
    OnlyEvents.emit (hwritten _ _)
  rw [convert_run, h.tostring]
  simpa using htold u

theorem Calm.say (h : Calm env) (printer : Printer) (args : List (Value F U)) :
    NotStopped env Unit (say env printer args) :=
  h.printing (by rintro u x ⟨⟩) print_smooth printer args

theorem Calm.assertChdir (h : Calm env) (move : Move) (pathname : Option Str) :
    NotStopped env Unit (assertChdir env move pathname) := by
  intro p
  rcases assertChdir_run env move pathname p with ⟨err, _, herr, _⟩ | ⟨w, _, hrun⟩
  · exact absurd herr (h.chdir _ _ err)
  · rw [hrun]
    rintro e he x ⟨⟩ <;> simp at he

theorem Calm.call (h : Calm env) (slot : Slot) (func : F) :
    NotStopped env _ (call env slot func) := by
  refine call_closed (onlyEvents_closed _) ?_ ?_ slot func ?_ ?_ (h.assertChdir _)
  · intro p
    rcases assertCwd_run env p with ⟨hnone, _⟩ | ⟨cwd, _, hrun⟩
    · exact absurd hnone (h.getcwd _)
    · rw [hrun]
      rintro e he x ⟨⟩ <;> simp at he
  · intro p
    rw [collectgarbage_run, h.collect]
    rintro e he x ⟨⟩ <;> simp at he
  · intro p
    exact (callHooked_endsBy slot func p).of_ok (by rw [callHooked_run env slot func p rfl])
  · intro p
    rcases exitForked_run env p with ⟨hpid, _⟩ | ⟨_, hrun⟩
    · exact absurd (h.getpid _) hpid
    · exact (exitForked_endsBy p).of_ok (by rw [hrun])

/-- **In calm surroundings nothing stops a run.** -/
theorem Calm.run (h : Calm env) (list : List (Source F)) (testcases : Option (List Str)) :
    NotStopped env _ (run env list testcases) := by
  have hclosed := @onlyEvents_closed (Proc W) _ (Halt F U) (Event.Smooth env)
  refine run_closed hclosed (OnlyEvents.reads _) h.say ?_ (fun move pathname _ =>
    h.assertChdir move pathname) (fun p => ?_) list testcases
  · exact runFile_closed hclosed h.say
      (callHook_closed hclosed h.say fun slot func _ => h.call slot func)
      (runTest_closed hclosed h.say h.call)
  · have hends := @chdir_leave_endsBy W F U env none p
    rcases chdir_run env .leave none p with ⟨err, _, hrun⟩ | ⟨w, _, hrun⟩
    · exact hends.of_ok (by rw [hrun])
    · exact hends.of_ok (by rw [hrun])

end Calm

end Stops

end Testcase
