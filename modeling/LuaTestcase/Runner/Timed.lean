import LuaTestcase.Runner.Transcript
import LuaTestcase.Timer.Runs

/-!
# The times of a run

`run` makes one timer, and `call` starts it before a function and stops it behind.  The runner
sees only what `stop` returns; here the timer of the runner is the one of `src/timer.c`, so that the
times it prints for the tests and the total that the command prints at the end can be compared.

Nobody else has the timer: a called function leaves it alone, and so do a change of directory, a
finalizer and a conversion to a string.

* `Timed` — a runner with such a timer.
* `run_walks` — the events of a run drive the timer: every call is a start and a stop.
* `run_verdicts` — the verdict of a test is printed behind its call, with the time of its stop.
* `run_timed` — **the total is the sum of the times of the calls**, and these are printed.
-/

namespace Testcase

open Act

variable {W F U : Type}

/-! ## A runner with a timer -/

/-- What `t:stop()` returns, as the runner sees it: a number and its format, or `nil` and a
message. -/
def shownTime (number : Utime → U) (strerror : Nat → Str) : TimerResult → Option U × Str
  | .utime u => (some (number u), u.format)
  | .failed errno => (none, strerror errno)
  | _ => (none, [])

/-- The timer of the runner is one of `src/timer.c`, and no one else uses it. -/
structure Timed (env : Env W F U) where
  timerOf : W → Timer
  /-- What the start that led to a world read from the clock, and what a stop in a world reads. -/
  started : W → Clock
  stopped : W → Clock
  /-- A time as a number, and the message of an `errno`. -/
  number : Utime → U
  strerror : Nat → Str
  start_timer : ∀ w, timerOf (env.start w) = ((timerOf w).callStart (started (env.start w))).1
  stop_timer : ∀ w, timerOf (env.stop w).2 = ((timerOf w).callStop (stopped w)).1
  stop_result : ∀ w,
    (env.stop w).1 = shownTime number strerror ((timerOf w).callStop (stopped w)).2
  xpcall_timer : ∀ func w, timerOf (env.xpcall func w).2 = timerOf w
  collect_timer : ∀ w, timerOf (env.collect w).2 = timerOf w
  tostring_timer : ∀ u w, timerOf (env.tostring u w).2 = timerOf w
  chdir_timer : ∀ pathname w w', env.chdir pathname w = .ok w' → timerOf w' = timerOf w

section Timed

variable {env : Env W F U} (td : Timed env)

/-- A call is a start and a stop. -/
def Timed.calls (c : Call W F U) : List TimerCall :=
  [.start (td.started c.before), .stop (td.stopped c.after)]

/-- The time of a call in nanoseconds, as its stop returns it; `0` if the clock fails. -/
def Timed.elapsed (c : Call W F U) : Nat :=
  match ((td.timerOf c.after).callStop (td.stopped c.after)).2 with
  | .utime u => u.ns.toNat
  | _ => 0

/-- What an event does to the timer. -/
inductive Timed.Step : Timer → Event W F U → Timer → Prop where
  | call {t : Timer} {c : Call W F U} :
      td.timerOf c.after = (t.callStart (td.started c.before)).1 →
      Timed.Step t (.call c) ((td.timerOf c.after).callStop (td.stopped c.after)).1
  | other {t : Timer} {e : Event W F U} : e.made = none → Timed.Step t e t

/-- The timer of a process. -/
def Timed.ofProc (p : Proc W) : Timer := td.timerOf p.world

/-- What calls nothing leaves the timer alone. -/
theorem Timed.path_other {es : List (Event W F U)} (h : callsMade es = []) (t : Timer) :
    Path td.Step t es t := by
  induction es with
  | nil => exact .nil t
  | cons e es ih =>
      have hnone := List.filterMap_eq_nil_iff.mp h
      exact .cons (.other (hnone e List.mem_cons_self))
        (ih (List.filterMap_eq_nil_iff.mpr fun e' he' => hnone e' (List.mem_cons_of_mem _ he')))

theorem say_walks (printer : Printer) (args : List (Value F U)) :
    Walks td.ofProc td.Step Unit (say env printer args) := by
  have hclosed := @walks_closed (Proc W) (Event W F U) (Halt F U) Timer td.ofProc td.Step
  refine hclosed.bind (hclosed.forEach (fun _ u p => ?_) _ _) fun _ =>
    Walks.emit fun _ => .other rfl
  rw [convert_run]
  have hsame : td.ofProc (p.update fun _ => (env.tostring u p.world).2) = td.ofProc p :=
    td.tostring_timer u p.world
  rw [hsame]
  exact .cons (.other rfl) (.nil _)

theorem chdir_walks (move : Move) (pathname : Option Str) :
    Walks td.ofProc td.Step _ (chdir env move pathname) := by
  intro p
  rcases chdir_run env move pathname p with ⟨err, -, hrun⟩ | ⟨w, hw, hrun⟩
  · rw [hrun]
    exact .cons (.other rfl) (.nil _)
  · have hsame : td.ofProc (p.update fun _ => w) = td.ofProc p := td.chdir_timer _ _ _ hw
    rw [hrun, hsame]
    exact .cons (.other rfl) (.nil _)

theorem assertChdir_walks (move : Move) (pathname : Option Str) :
    Walks td.ofProc td.Step _ (assertChdir env move pathname) := by
  intro p
  rcases assertChdir_run env move pathname p with ⟨err, v, -, hrun⟩ | ⟨w, hw, hrun⟩
  · rw [hrun]
    exact .cons (.other rfl) (.nil _)
  · have hsame : td.ofProc (p.update fun _ => w) = td.ofProc p := td.chdir_timer _ _ _ hw
    rw [hrun, hsame]
    exact .cons (.other rfl) (.nil _)

/-- The events of a call drive the timer, whatever comes behind. -/
theorem Timed.path_events {p : Proc W} {w : W} {slot : Slot} {func : F} {c : Call W F U}
    (hw : env.collect p.world = (none, w)) (hc : env.calledIn slot func w = c) (cwd : Str)
    {es : List (Event W F U)} (hes : callsMade es = []) :
    Path td.Step (td.ofProc p) (c.events cwd ++ es) (td.timerOf (env.stop c.after).2) := by
  have hcollected : td.timerOf w = td.ofProc p := by
    have h := td.collect_timer p.world
    rwa [hw] at h
  have hcall : td.Step (td.ofProc p) (.call c) (td.timerOf (env.stop c.after).2) := by
    rw [td.stop_timer]
    refine .call ?_
    rw [← hc, ← hcollected]
    exact (td.xpcall_timer _ _).trans (td.start_timer _)
  refine .cons (.other rfl) (.cons (.other rfl) (.cons hcall (td.path_other ?_ _)))
  show callsMade (c.hooked.map (fun line => .print line.1 line.2) ++ es) = []
  rw [callsMade_append, callsMade_lines, hes]
  rfl

/-- **A call starts and stops the timer**, also if the run ends behind it. -/
theorem call_walks (slot : Slot) (func : F) :
    Walks td.ofProc td.Step _ (call env slot func) := by
  intro p
  have hrun := call_run env slot func p
  generalize call env slot func p = o at hrun
  cases hrun with
  | noCwd => exact td.path_other rfl _
  | @finalizer w cwd v _ hw =>
      have hsame : td.ofProc (p.update fun _ => w) = td.ofProc p := by
        have h := td.collect_timer p.world
        rwa [hw] at h
      show Path td.Step _ _ (td.ofProc (p.update fun _ => w))
      rw [hsame]
      exact td.path_other rfl _
  | forked cwd _ hw hc => exact td.path_events hw hc cwd rfl
  | refused cwd _ _ _ hw hc => exact td.path_events hw hc cwd rfl
  | @returned w w' c cwd _ hw hc _ hback =>
      have hsame : td.ofProc (p.update fun _ => w') = td.timerOf (env.stop c.after).2 :=
        td.chdir_timer _ _ _ hback
      show Path td.Step _ _ (td.ofProc (p.update fun _ => w'))
      rw [hsame]
      exact td.path_events hw hc cwd rfl

/-- **The events of a run drive the timer.** -/
theorem run_walks (list : List (Source F)) (testcases : Option (List Str)) :
    Walks td.ofProc td.Step _ (run env list testcases) := by
  have hclosed := @walks_closed (Proc W) (Event W F U) (Halt F U) Timer td.ofProc td.Step
  refine run_closed hclosed (Walks.reads _) (say_walks td) ?_
    (fun move pathname _ => assertChdir_walks td move pathname) (chdir_walks td _ _) list testcases
  exact runFile_closed hclosed (say_walks td)
    (callHook_closed hclosed (say_walks td) fun slot func _ => call_walks td slot func)
    (runTest_closed hclosed (say_walks td) (call_walks td))

/-! ## The verdicts -/

/-- Behind a test the next line but those of its outputs says how it ended, and the time of its
stop. -/
def VerdictBehind (env : Env W F U) (c : Call W F U) (post : List (Event W F U)) : Prop :=
  c.slot.isTest = true → ∃ mid rest, callsMade mid = [] ∧
    post = mid ++ .print (verdictLine env c).1 (verdictLine env c).2 :: rest

/-- So it is behind every call of these events, but for the last one if they end there. -/
def VerdictsSaid (env : Env W F U) (es : List (Event W F U)) (ends : Prop) : Prop :=
  ∀ pre c post, es = pre ++ .call c :: post →
    VerdictBehind env c post ∨ callsMade post = [] ∧ ends

/-- So it is in every run of the action. -/
def SaysVerdicts (env : Env W F U) (α : Type) (m : Run W F U α) : Prop :=
  ∀ p, VerdictsSaid env (m p).events (∃ h, (m p).result = .error h)

theorem VerdictBehind.append {c : Call W F U} {post : List (Event W F U)}
    (h : VerdictBehind env c post) (es : List (Event W F U)) :
    VerdictBehind env c (post ++ es) := by
  intro htest
  obtain ⟨mid, rest, hmid, rfl⟩ := h htest
  exact ⟨mid, rest ++ es, hmid, by rw [List.append_assoc, List.cons_append]⟩

theorem saysVerdicts_closed : Act.Closed (SaysVerdicts env) where
  pure a p pre c post h := by simp at h
  bind {α β m k} hm hk p pre c post h := by
    have hfirst := hm p
    rcases hrun : m p with ⟨es, x | a, p'⟩
    · rw [hrun] at hfirst
      rw [Act.bind_of_error hrun] at h ⊢
      exact (hfirst pre c post h).imp_right fun hend => ⟨hend.1, x, rfl⟩
    · rw [hrun] at hfirst
      rw [Act.bind_of_ok hrun] at h ⊢
      rcases List.append_eq_append_iff.mp h with ⟨es', hpre, hrest⟩ | ⟨es', hes, hrest⟩
      · exact hk a p' es' c post hrest
      · cases es' with
        | nil =>
            exact hk a p' [] c post hrest.symm
        | cons e es' =>
            obtain ⟨rfl, rfl⟩ := List.cons.inj hrest
            rcases hfirst pre c es' hes with hbehind | ⟨_, y, hres⟩
            · exact .inl (hbehind.append _)
            · cases hres

theorem verdictsSaid_silent {es : List (Event W F U)} (h : callsMade es = []) (ends : Prop) :
    VerdictsSaid env es ends := by
  rintro pre c post rfl
  simp at h

/-- Events with one call. -/
theorem verdictsSaid_call {front back : List (Event W F U)} {c : Call W F U} {ends : Prop}
    (hfront : callsMade front = []) (hback : callsMade back = [])
    (h : VerdictBehind env c back ∨ ends) : VerdictsSaid env (front ++ .call c :: back) ends := by
  intro pre c' post hes
  obtain ⟨rfl, rfl⟩ : c = c' ∧ back = post := by
    rcases List.append_eq_append_iff.mp hes with ⟨es, _, hrest⟩ | ⟨es, hpre, hrest⟩
    · cases es with
      | nil => simpa using hrest
      | cons e es =>
          rw [(List.cons.inj hrest).2] at hback
          simp at hback
    · cases es with
      | nil => simpa [eq_comm] using hrest
      | cons e es =>
          rw [hpre, ← (List.cons.inj hrest).1] at hfront
          simp at hfront
  exact h.imp_right fun hends => ⟨hback, hends⟩

/-- What calls nothing has nothing to say. -/
theorem SaysVerdicts.of_silent {α : Type} {m : Run W F U α}
    (h : Act.OnlyEvents (fun e => e.made = none) α m) : SaysVerdicts env α m :=
  fun p => verdictsSaid_silent (List.filterMap_eq_nil_iff.mpr (h p)) _

theorem say_silent (printer : Printer) (args : List (Value F U)) :
    Act.OnlyEvents (fun e => e.made = none) Unit (say env printer args) :=
  printing_onlyEvents env (fun _ _ => rfl) rfl

theorem chdir_silent (move : Move) (pathname : Option Str) :
    Act.OnlyEvents (fun e => e.made = none) _ (chdir env move pathname) := by
  intro p e he
  rcases chdir_run env move pathname p with ⟨err, -, hrun⟩ | ⟨w, -, hrun⟩
  · rw [hrun, List.mem_singleton] at he
    rw [he]
    rfl
  · rw [hrun, List.mem_singleton] at he
    rw [he]
    rfl

theorem assertChdir_silent (move : Move) (pathname : Option Str) :
    Act.OnlyEvents (fun e => e.made = none) _ (assertChdir env move pathname) := by
  intro p e he
  rcases assertChdir_run env move pathname p with ⟨err, v, -, hrun⟩ | ⟨w, -, hrun⟩
  · rw [hrun, List.mem_singleton] at he
    rw [he]
    rfl
  · rw [hrun, List.mem_singleton] at he
    rw [he]
    rfl

/-- A call, and what comes behind it. -/
theorem call_verdict {α : Type} (slot : Slot) (func : F)
    {k : Except (Value F U) Unit × Option U × Str → Run W F U α}
    (hk : ∀ r p, callsMade (k r p).events = [])
    (hverdict : ∀ (c : Call W F U) p, c.slot = slot → slot.isTest = true →
      ∃ rest, (k (c.result, (env.stop c.after).1) p).events =
        .print (verdictLine env c).1 (verdictLine env c).2 :: rest) :
    SaysVerdicts env α (call env slot func >>= k) := by
  intro p
  have hcases := call_run env slot func p
  have hsplit : ∀ (cwd : Str) (c : Call W F U) (es : List (Event W F U)), c.events cwd ++ es =
      [.getcwd (some cwd), .collect none] ++
        .call c :: (c.hooked.map (fun line => .print line.1 line.2) ++ es) := fun _ _ _ => rfl
  have hquiet : ∀ (c : Call W F U) (es : List (Event W F U)), callsMade es = [] →
      callsMade (c.hooked.map (fun line => .print line.1 line.2) ++ es) = [] := by
    intro c es hes
    rw [callsMade_append, callsMade_lines, hes]
    rfl
  generalize hrun : call env slot func p = o at hcases
  cases hcases with
  | noCwd v =>
      rw [Act.bind_of_error hrun]
      exact verdictsSaid_silent rfl _
  | finalizer cwd v _ =>
      rw [Act.bind_of_error hrun]
      exact verdictsSaid_silent rfl _
  | forked cwd =>
      rw [Act.bind_of_error hrun, hsplit]
      exact verdictsSaid_call rfl (hquiet _ _ rfl) (.inr ⟨_, rfl⟩)
  | refused cwd err v =>
      rw [Act.bind_of_error hrun, hsplit]
      exact verdictsSaid_call rfl (hquiet _ _ rfl) (.inr ⟨_, rfl⟩)
  | @returned w w' c cwd _ _ hc _ =>
      rw [Act.bind_of_ok hrun, List.append_assoc, hsplit]
      refine verdictsSaid_call rfl (hquiet _ _ (hk _ _)) (.inl fun htest => ?_)
      have hslot : c.slot = slot := by rw [← hc, Env.calledIn]
      obtain ⟨rest, hrest⟩ := hverdict c (p.update fun _ => w') hslot (hslot ▸ htest)
      refine ⟨c.hooked.map (fun line => .print line.1 line.2) ++
        [.getpid env.PID, .chdir .restore cwd none], rest, hquiet _ _ rfl, ?_⟩
      rw [hrest, List.append_assoc]

theorem runTest_verdict (name : Str) (func : F) :
    SaysVerdicts env _ (runTest env name func) := by
  have hclosed := @Act.onlyEvents_closed (Proc W) _ (Halt F U)
    (fun e : Event W F U => e.made = none)
  refine saysVerdicts_closed.bind (.of_silent (say_silent _ _)) fun _ =>
    call_verdict (.test name) func ?_ ?_
  · rintro ⟨res, elapsed, fmt⟩ p
    refine List.filterMap_eq_nil_iff.mpr (hclosed.bind (say_silent _ _) (fun _ => ?_) p)
    rcases res with err | _
    · exact hclosed.bind (say_silent _ _) fun _ =>
        hclosed.bind (say_silent _ _) fun _ => hclosed.pure _
    · exact hclosed.bind (say_silent _ _) fun _ => hclosed.pure _
  · intro c p _ _
    simp only
    rw [say_plain (conversions_time _ _ _), Act.emit_bind_run]
    exact ⟨_, rfl⟩

theorem callHook_verdict (slot : Slot) (hook : Option F) (hslot : slot.isTest = false) :
    SaysVerdicts env _ (callHook env slot hook) := by
  have hclosed := @Act.onlyEvents_closed (Proc W) _ (Halt F U)
    (fun e : Event W F U => e.made = none)
  cases hook with
  | none => exact saysVerdicts_closed.pure _
  | some func =>
      refine saysVerdicts_closed.bind (call_verdict slot func ?_ ?_) fun res => .of_silent ?_
      · rintro ⟨res, elapsed⟩ p
        refine List.filterMap_eq_nil_iff.mpr ?_
        rcases res with err | _
        · by_cases herr : err.truthy = true
          · simp only [herr, if_true]
            exact hclosed.bind (say_silent _ _) (fun _ =>
              hclosed.bind (say_silent _ _) fun _ => hclosed.pure _) p
          · simp only [herr]
            exact hclosed.pure _ p
        · exact hclosed.pure _ p
      · intro c p _ htest
        rw [hslot] at htest
        cases htest
      · cases res with
        | error err => exact hclosed.pure _
        | ok _ => exact hclosed.pure _

/-- **The verdict of every test is printed behind its call**, unless the run ends there. -/
theorem run_verdicts (list : List (Source F)) (testcases : Option (List Str)) :
    SaysVerdicts env _ (run env list testcases) := by
  have hsay : ∀ printer args, SaysVerdicts env Unit (say env printer args) :=
    fun printer args => .of_silent (say_silent printer args)
  refine run_closed saysVerdicts_closed (.of_silent (Act.OnlyEvents.reads _)) hsay ?_
    (fun move pathname _ => .of_silent (assertChdir_silent move pathname))
    (.of_silent (chdir_silent _ _)) list testcases
  exact runFile_closed saysVerdicts_closed hsay callHook_verdict runTest_verdict

/-! ## The sum -/

theorem Timed.elapsed_stop {c : Call W F U} {ts : Timespec} (h : td.stopped c.after = .ok ts) :
    td.elapsed c = (ts.ns - (td.timerOf c.after).start).toNat := by
  rw [Timed.elapsed, h]
  exact congrArg UInt64.toNat (nsec2utime_ns _)

/-- What a stop returns that can read the clock. -/
theorem Timed.stop_time {c : Call W F U} {ts : Timespec} (h : td.stopped c.after = .ok ts) :
    ∃ u : Utime, (env.stop c.after).1 = (some (td.number u), u.format) ∧
      u.ns.toNat = td.elapsed c := by
  refine ⟨nsec2utime (ts.ns - (td.timerOf c.after).start), ?_, ?_⟩
  · rw [td.stop_result, h]
    rfl
  · rw [td.elapsed_stop h, nsec2utime_ns]

/-- The time of a call is what its stop adds to the laps. -/
theorem Timed.laps_call {before : List TimerCall} {c : Call W F U}
    (h : td.timerOf c.after =
      ((timer.after Timer.new before).callStart (td.started c.before)).1) :
    ((td.timerOf c.after).callStop (td.stopped c.after)).1 =
        timer.after Timer.new (before ++ td.calls c) ∧
      (laps (before ++ td.calls c)).sum = (laps before).sum + td.elapsed c := by
  have hsplit : before ++ td.calls c =
      (before ++ [.start (td.started c.before)]) ++ [.stop (td.stopped c.after)] := by
    rw [List.append_assoc]
    rfl
  have hstarted : timer.after Timer.new (before ++ [.start (td.started c.before)]) =
      td.timerOf c.after := by
    rw [Machine.after_concat, h]
    rfl
  have hlaps : laps (before ++ [.start (td.started c.before)]) = laps before :=
    laps_other (by simp) (by simp)
  rw [hsplit]
  refine ⟨?_, ?_⟩
  · rw [Machine.after_concat, hstarted]
    rfl
  · rcases hstop : td.stopped c.after with errno | ts
    · rw [laps_other (by simp) (by simp), hlaps, Timed.elapsed, hstop]
      rfl
    · rw [laps_stop, hlaps, hstarted, List.sum_append, List.sum_singleton, td.elapsed_stop hstop]

/-- What a path of events makes of the timer. -/
theorem Timed.path_laps {before : List TimerCall} {es : List (Event W F U)} {t t' : Timer}
    (h : Path td.Step t es t') (ht : t = timer.after Timer.new before) :
    t' = timer.after Timer.new (before ++ (callsMade es).flatMap td.calls) ∧
      (laps (before ++ (callsMade es).flatMap td.calls)).sum =
        (laps before).sum + ((callsMade es).map td.elapsed).sum := by
  induction h generalizing before with
  | nil t =>
      rw [callsMade_nil, List.flatMap_nil, List.append_nil]
      exact ⟨ht, rfl⟩
  | cons hstep _ ih =>
      cases hstep with
      | @call c hstarted =>
          rw [ht] at hstarted
          obtain ⟨hstopped, hsum⟩ := td.laps_call hstarted
          obtain ⟨hafter, hrest⟩ := ih hstopped
          rw [callsMade_call, List.flatMap_cons, ← List.append_assoc, List.map_cons, List.sum_cons]
          refine ⟨hafter, ?_⟩
          rw [hrest, hsum, Nat.add_assoc]
      | other hnone =>
          rw [callsMade_other hnone]
          exact ih ht

/-- Every call of a run was made with the timer that its start left. -/
theorem Timed.path_started {es : List (Event W F U)} {t t' : Timer} (h : Path td.Step t es t') :
    ∀ c ∈ callsMade es, ∃ t₀ : Timer,
      td.timerOf c.after = (t₀.callStart (td.started c.before)).1 := by
  induction h with
  | nil t =>
      intro c hc
      cases hc
  | @cons t₀ _ _ _ _ hstep _ ih =>
      cases hstep with
      | @call c hstarted =>
          intro c' hc'
          rw [callsMade_call] at hc'
          rcases List.mem_cons.mp hc' with rfl | hc'
          · exact ⟨t₀, hstarted⟩
          · exact ih c' hc'
      | other hnone =>
          rw [callsMade_other hnone]
          exact ih

/-- The readings of a call, in the readings of all calls. -/
theorem Timed.clocked_call {cs : List (Call W F U)} (h : Clocked (cs.flatMap td.calls))
    {c : Call W F U} (hc : c ∈ cs) {ts ts' : Timespec} (hstart : td.started c.before = .ok ts)
    (hstop : td.stopped c.after = .ok ts') :
    ts.Fits ∧ ts'.Fits ∧ ts.nanos ≤ ts'.nanos := by
  obtain ⟨pre, post, rfl⟩ := List.append_of_mem hc
  have hreadings : readings ((pre ++ c :: post).flatMap td.calls) =
      readings (pre.flatMap td.calls) ++ ts :: ts' :: readings (post.flatMap td.calls) := by
    have hcall : readings (td.calls c) = [ts, ts'] := by
      simp [readings, Timed.calls, hstart, hstop, TimerCall.reading, TimerCall.clock]
    rw [List.flatMap_append, List.flatMap_cons, readings, List.filterMap_append,
      List.filterMap_append, ← readings, ← readings, ← readings, hcall]
    rfl
  obtain ⟨hfit, hle⟩ := h
  rw [hreadings] at hfit hle
  rw [List.pairwise_append] at hle
  refine ⟨hfit ts (by simp), hfit ts' (by simp), ?_⟩
  exact (List.pairwise_cons.mp hle.2.1).1 ts' (by simp)

/-! ## The times -/

/-- What is printed of the end of a test: the time of its stop, in the format of this time. -/
def Timed.timeLine (c : Call W F U) (u : Utime) : Printed F U :=
  (.printf, [.string ("%s (".toList ++ u.format ++ [')']), .string (okOrFail c.result),
    .object .float (td.number u)])

/-- What the times of a run are: of the calls among its events, and of the timer at the end. -/
structure TimesOf (es : List (Event W F U)) (ends : Prop) (t : Timer) : Prop where
  /-- The timer was started and stopped for each call, and not used otherwise. -/
  driven : t = timer.after Timer.new ((callsMade es).flatMap td.calls)
  /-- What `t:total()` returns is the sum of the times of the calls. -/
  total : ∃ u : Utime, timer t .total = (t, [.utime u]) ∧
    u.ns.toNat = ((callsMade es).map td.elapsed).sum
  /-- Behind the call of a test, in front of the next call, its own time is printed, if the clock
  could be read and the run does not end there. -/
  printed : ∀ pre c post, es = pre ++ .call c :: post → c.slot.isTest = true →
    ∀ ts, td.stopped c.after = .ok ts →
    (∃ mid rest u, post = mid ++ .print (td.timeLine c u).1 (td.timeLine c u).2 :: rest ∧
      callsMade mid = [] ∧ u.ns.toNat = td.elapsed c) ∨ callsMade post = [] ∧ ends
  /-- The time of a call is that between its two readings. -/
  between : ∀ c ∈ callsMade es, ∀ ts ts', td.started c.before = .ok ts →
    td.stopped c.after = .ok ts' → (td.elapsed c : Int) = ts'.nanos - ts.nanos

/-- **The total is the sum of the times of the calls**, and these are printed.  In every run with a
new timer, whatever the functions do and however the run ends, if the clock does not go back and its
readings fit. -/
theorem run_timed (list : List (Source F)) (testcases : Option (List Str)) (p : Proc W)
    (hnew : td.timerOf p.world = Timer.new)
    (hclock : Clocked ((callsMade (run env list testcases p).events).flatMap td.calls)) :
    TimesOf td (run env list testcases p).events
      (∃ h, (run env list testcases p).result = .error h)
      (td.timerOf (run env list testcases p).world.world) := by
  have hpath := run_walks td list testcases p
  obtain ⟨htimer, hsum⟩ := @Timed.path_laps _ _ _ _ td [] _ _ _ hpath hnew
  rw [List.nil_append] at htimer hsum
  refine ⟨htimer, ?_, ?_, ?_⟩
  · refine ⟨nsec2utime (td.timerOf (run env list testcases p).world.world).total, rfl, ?_⟩
    have htotal := total_eq_laps hclock
    rw [nsec2utime_ns]
    calc (td.timerOf (run env list testcases p).world.world).total.toNat
        = (laps ((callsMade (run env list testcases p).events).flatMap td.calls)).sum := by
          rw [← htotal, ← htimer]
          rfl
      _ = ((callsMade (run env list testcases p).events).map td.elapsed).sum := by
          rw [hsum]
          exact Nat.zero_add _
  · intro pre c post hes htest ts hts
    refine (run_verdicts list testcases p pre c post hes).imp_left fun hbehind => ?_
    obtain ⟨mid, rest, hmid, hpost⟩ := hbehind htest
    obtain ⟨u, hstop, hns⟩ := td.stop_time hts
    have hline : verdictLine env c = td.timeLine c u := by
      rw [verdictLine, hstop]
      rfl
    rw [hline] at hpost
    exact ⟨mid, rest, u, hpost, hmid, hns⟩
  · intro c hc ts ts' hstart hstop
    obtain ⟨hfit, hfit', hle⟩ := td.clocked_call hclock hc hstart hstop
    obtain ⟨t₀, hstarted⟩ := td.path_started hpath c hc
    have hns := toNat_ns hfit
    have hns' := toNat_ns hfit'
    have hsub : ts.ns ≤ ts'.ns := UInt64.le_iff_toNat_le.mpr (by omega)
    have helapsed : td.elapsed c = (ts'.ns - ts.ns).toNat := by
      rw [td.elapsed_stop hstop, hstarted, hstart]
      rfl
    rw [helapsed, UInt64.toNat_sub_of_le _ _ hsub]
    have := UInt64.le_iff_toNat_le.mp hsub
    omega

end Timed

/-! ### A function takes three nanoseconds -/

structure Stopwatch where
  timer : Timer
  now : Nat

/-- What the clock says. -/
def Stopwatch.clock (w : Stopwatch) : Clock := .ok ⟨0, Int64.ofNat w.now⟩

def stopwatchEnv : Env Stopwatch Unit Utime where
  CWD := "/a".toList
  PID := 1
  getcwd _ := some "/a".toList
  chdir _ w := .ok w
  getpid _ := 1
  start w := { w with timer := (w.timer.callStart w.clock).1 }
  stop w :=
    (shownTime id (fun _ => []) (w.timer.callStop w.clock).2,
      { w with timer := (w.timer.callStop w.clock).1 })
  collect w := (none, w)
  xpcall _ w := (⟨.ok (), [some [.string "out".toList]]⟩, { w with now := w.now + 3 })
  tostring _ w := (none, w)
  assert := Assert.builtin

def stopwatch : Timed stopwatchEnv where
  timerOf := Stopwatch.timer
  started := Stopwatch.clock
  stopped := Stopwatch.clock
  number := id
  strerror _ := []
  start_timer _ := rfl
  stop_timer _ := rfl
  stop_result _ := rfl
  xpcall_timer _ _ := rfl
  collect_timer _ := rfl
  tostring_timer _ _ := rfl
  chdir_timer _ _ _ h := congrArg Stopwatch.timer (Except.ok.inj h).symm

def twoTests : Source Unit where
  name := "x_test.lua".toList
  dirname := ".".toList
  beforeAll := none
  afterAll := none
  beforeEach := none
  afterEach := none
  tests := [⟨"test_1".toList, (), 1⟩, ⟨"test_2".toList, (), 2⟩]

/-- Two tests of three nanoseconds each. -/
theorem twoTests_timed :
    TimesOf stopwatch
      (run stopwatchEnv [twoTests] none ⟨⟨Timer.new, 7⟩, false⟩).events
      (∃ h, (run stopwatchEnv [twoTests] none ⟨⟨Timer.new, 7⟩, false⟩).result = .error h)
      (stopwatch.timerOf (run stopwatchEnv [twoTests] none ⟨⟨Timer.new, 7⟩, false⟩).world.world) ∧
    (callsMade (run stopwatchEnv [twoTests] none ⟨⟨Timer.new, 7⟩, false⟩).events).map
      stopwatch.elapsed = [3, 3] :=
  ⟨run_timed stopwatch [twoTests] none ⟨⟨Timer.new, 7⟩, false⟩ rfl (by decide), by decide⟩

end Testcase
