import LuaTestcase.Runner.Plan

/-!
# Which functions a run calls, and in which order

The grammar of the calls, in words: a source is its `before_all`, its tests, each between its
`before_each` and its `after_each`, and its `after_all`.  A hook that fails cuts something off:
`before_all` the whole source, `before_each` this test and all later ones, `after_each` all later
ones.  A failing test cuts off nothing.

* `TestsTrace`, `FileTrace`, `RunTrace` — the grammar, as inductive definitions.
* `fileDialogue_plays` — the complete courses of a source are the traces of the grammar, with the
  successes and failures among the calls as the result.
* `behind_doNotRun` — whether `block()` is in effect, after anything done with the runner.
* `run_calls` — **the calls of a run** are a trace of the grammar if the run returns, and a trace
  cut short for a reason of `Cut` if it does not.
-/

namespace Testcase

open Dialogue

variable {W F U : Type}

/-! ## The grammar -/

/-- The hook is not defined, or it was called and succeeded. -/
def HookPassed (slot : Slot) (hook : Option F) (log : Log F U) : Prop :=
  (hook = none ∧ log = []) ∨ ∃ func, hook = some func ∧ log = [((slot, func), .ok ())]

/-- The hook is defined, was called and failed. -/
def HookFailed (slot : Slot) (hook : Option F) (log : Log F U) : Prop :=
  ∃ func err, hook = some func ∧ log = [((slot, func), .error err)]

/-- The calls for a list of tests of a source. -/
inductive TestsTrace (src : Source F) : List (Test F) → Log F U → Prop where
  | done : TestsTrace src [] []
  | beforeEachFailed {test : Test F} {tests : List (Test F)} {before : Log F U} :
      HookFailed .beforeEach src.beforeEach before → TestsTrace src (test :: tests) before
  | afterEachFailed {test : Test F} {tests : List (Test F)} {before after : Log F U}
      (res : Answer F U) :
      HookPassed .beforeEach src.beforeEach before → HookFailed .afterEach src.afterEach after →
      TestsTrace src (test :: tests)
        (before ++ ((.test test.name, test.func), res) :: after)
  | next {test : Test F} {tests : List (Test F)} {before after rest : Log F U}
      (res : Answer F U) :
      HookPassed .beforeEach src.beforeEach before → HookPassed .afterEach src.afterEach after →
      TestsTrace src tests rest →
      TestsTrace src (test :: tests)
        (before ++ ((.test test.name, test.func), res) :: (after ++ rest))

/-- The calls for a source. -/
inductive FileTrace (src : Source F) : Log F U → Prop where
  | beforeAllFailed {before : Log F U} :
      HookFailed .beforeAll src.beforeAll before → FileTrace src before
  | ran {before tests after : Log F U} :
      HookPassed .beforeAll src.beforeAll before → TestsTrace src src.tests tests →
      (HookPassed .afterAll src.afterAll after ∨ HookFailed .afterAll src.afterAll after) →
      FileTrace src (before ++ tests ++ after)

/-- The calls for a list of sources: those of each, in the order of the list. -/
def RunTrace (list : List (Source F)) (log : Log F U) : Prop :=
  ∃ segs, List.Forall₂ FileTrace list segs ∧ log = segs.flatten

/-! ## Counting -/

/-- The error that is recorded for a failing call. -/
def Slot.recorded : Slot → Value F U → Value F U
  | .test _, err => err
  | _, err => hookError err

/-- The record of a call, if it failed. -/
def record : Target F × Answer F U → Option (Record F U)
  | (_, .ok _) => none
  | ((slot, _), .error err) => some ⟨slot.name, slot.recorded err⟩

/-- The records of the failing calls, in order. -/
def failures (log : Log F U) : List (Record F U) := log.filterMap record

/-- The call is one of a test, and it succeeded. -/
def succeeded : Target F × Answer F U → Bool
  | ((.test _, _), .ok _) => true
  | _ => false

/-- The number of tests that succeeded. -/
def successes (log : Log F U) : Nat := log.countP succeeded

@[simp] theorem failures_append (l m : Log F U) : failures (l ++ m) = failures l ++ failures m :=
  List.filterMap_append

@[simp] theorem successes_append (l m : Log F U) :
    successes (l ++ m) = successes l + successes m := List.countP_append

@[simp] theorem failures_nil : failures ([] : Log F U) = [] := rfl

@[simp] theorem successes_nil : successes ([] : Log F U) = 0 := rfl

@[simp] theorem failures_cons_ok (q : Target F) (u : Unit) (log : Log F U) :
    failures ((q, .ok u) :: log) = failures log := rfl

@[simp] theorem failures_cons_error (q : Target F) (err : Value F U) (log : Log F U) :
    failures ((q, .error err) :: log) = ⟨q.1.name, q.1.recorded err⟩ :: failures log := rfl

@[simp] theorem successes_cons_ok (name : Str) (func : F) (u : Unit) (log : Log F U) :
    successes (((.test name, func), .ok u) :: log) = successes log + 1 :=
  List.countP_cons_of_pos rfl

@[simp] theorem successes_cons_error (q : Target F) (err : Value F U) (log : Log F U) :
    successes ((q, .error err) :: log) = successes log := by
  obtain ⟨slot, func⟩ := q
  refine List.countP_cons_of_neg ?_
  cases slot <;> simp [succeeded]

theorem HookPassed.counts {slot : Slot} {hook : Option F} {log : Log F U}
    (hslot : ∀ name, slot ≠ .test name) (h : HookPassed slot hook log) :
    failures log = [] ∧ successes log = 0 := by
  rcases h with ⟨_, rfl⟩ | ⟨func, _, rfl⟩
  · exact ⟨rfl, rfl⟩
  · cases slot with
    | test name => exact absurd rfl (hslot name)
    | _ => exact ⟨rfl, rfl⟩

/-! ## The complete courses -/

/-- A hook, and what follows it. -/
theorem plays_askHook {R : Type} {slot : Slot} {hook : Option F} {log : Log F U} {r : R}
    {k : Option (Record F U) → Dialogue (Target F) (Answer F U) R} :
    Plays (askHook slot hook >>= k) log r ↔
      (∃ before rest, HookPassed slot hook before ∧ log = before ++ rest ∧
        Plays (k none) rest r) ∨
      ∃ func err rest, hook = some func ∧ log = ((slot, func), .error err) :: rest ∧
        Plays (k (some ⟨slot.name, hookError err⟩)) rest r := by
  cases hook with
  | none =>
      constructor
      · intro h
        exact Or.inl ⟨[], log, Or.inl ⟨rfl, rfl⟩, rfl, h⟩
      · rintro (⟨before, rest, ⟨_, rfl⟩ | ⟨func, hsome, _⟩, rfl, h⟩ | ⟨func, err, rest, hsome, _⟩)
        · exact h
        · cases hsome
        · cases hsome
  | some func =>
      constructor
      · intro h
        obtain ⟨res, rest, rfl, hres⟩ := plays_ask.mp h
        cases res with
        | ok _ => exact Or.inl ⟨[_], rest, Or.inr ⟨func, rfl, rfl⟩, rfl, hres⟩
        | error err => exact Or.inr ⟨func, err, rest, rfl, rfl, hres⟩
      · rintro (⟨before, rest, ⟨hnone, _⟩ | ⟨func', hsome, rfl⟩, rfl, h⟩ |
          ⟨func', err, rest, hsome, rfl, h⟩)
        · cases hnone
        · cases hsome
          exact Leads.ask _ h
        · cases hsome
          exact Leads.ask _ h

/-- What a test adds to the counts. -/
theorem countTest_eq (test : Test F) (acc : Nat × List (Record F U)) (res : Answer F U)
    (log : Log F U) :
    ((countTest test.name acc res).1 + successes log,
      (countTest test.name acc res).2 ++ failures log)
      = (acc.1 + successes (((.test test.name, test.func), res) :: log),
        acc.2 ++ failures (((.test test.name, test.func), res) :: log)) := by
  cases res with
  | ok _ =>
      rw [successes_cons_ok, failures_cons_ok]
      simp only [countTest, Nat.add_assoc, Nat.add_comm 1]
  | error err =>
      rw [successes_cons_error, failures_cons_error, List.append_cons]
      rfl

/-- **The tests of a source**: the complete courses are the traces of the grammar, and the result
counts what is in them. -/
theorem testsDialogue_plays {src : Source F} {tests : List (Test F)}
    {acc : Nat × List (Record F U)} {log : Log F U} {r : Nat × List (Record F U)} :
    Plays (testsDialogue src tests acc) log r ↔
      TestsTrace src tests log ∧ r = (acc.1 + successes log, acc.2 ++ failures log) := by
  constructor
  · intro h
    induction tests generalizing acc log with
    | nil =>
        obtain ⟨rfl, rfl⟩ := plays_done.mp h
        exact ⟨.done, by simp⟩
    | cons test tests ih =>
        rcases plays_askHook.mp h with ⟨before, rest, hb, rfl, h₁⟩ |
          ⟨func, err, rest, hfunc, rfl, h₁⟩
        · obtain ⟨res, rest, rfl, h₂⟩ := plays_ask.mp h₁
          obtain ⟨hfb, hsb⟩ := hb.counts (by simp)
          rcases plays_askHook.mp h₂ with ⟨after, rest, ha, rfl, h₃⟩ |
            ⟨func, err, rest, hfunc, rfl, h₃⟩
          · obtain ⟨htrace, rfl⟩ := ih h₃
            obtain ⟨hfa, hsa⟩ := ha.counts (by simp)
            refine ⟨.next res hb ha htrace, ?_⟩
            have hcount := countTest_eq test acc res (after ++ rest)
            simpa [hfb, hsb, hfa, hsa] using hcount
          · obtain ⟨rfl, rfl⟩ := plays_done.mp h₃
            refine ⟨.afterEachFailed res hb ⟨func, err, hfunc, rfl⟩, ?_⟩
            have hcount := countTest_eq test acc res [((.afterEach, func), .error err)]
            simpa [hfb, hsb, Slot.recorded] using hcount
        · obtain ⟨rfl, rfl⟩ := plays_done.mp h₁
          exact ⟨.beforeEachFailed ⟨func, err, hfunc, rfl⟩, by simp [Slot.recorded]⟩
  · rintro ⟨htrace, rfl⟩
    induction htrace generalizing acc with
    | done => simp [testsDialogue]
    | @beforeEachFailed test tests before hb =>
        obtain ⟨func, err, hfunc, rfl⟩ := hb
        refine plays_askHook.mpr (Or.inr ⟨func, err, [], hfunc, rfl, ?_⟩)
        exact plays_done.mpr ⟨rfl, by simp [Slot.recorded]⟩
    | @afterEachFailed test tests before after res hb ha =>
        obtain ⟨hfb, hsb⟩ := hb.counts (by simp)
        obtain ⟨func, err, hfunc, rfl⟩ := ha
        refine plays_askHook.mpr (Or.inl ⟨before, _, hb, rfl, plays_ask.mpr ⟨res, _, rfl, ?_⟩⟩)
        refine plays_askHook.mpr (Or.inr ⟨func, err, [], hfunc, rfl, plays_done.mpr ⟨rfl, ?_⟩⟩)
        have hcount := countTest_eq test acc res [((.afterEach, func), .error err)]
        simpa [hfb, hsb, Slot.recorded] using hcount.symm
    | @next test tests before after rest res hb ha _ ih =>
        obtain ⟨hfb, hsb⟩ := hb.counts (by simp)
        obtain ⟨hfa, hsa⟩ := ha.counts (by simp)
        refine plays_askHook.mpr (Or.inl ⟨before, _, hb, rfl, plays_ask.mpr ⟨res, _, rfl, ?_⟩⟩)
        refine plays_askHook.mpr (Or.inl ⟨after, rest, ha, rfl, ?_⟩)
        have hcount : (acc.1 + successes
              (before ++ ((.test test.name, test.func), res) :: (after ++ rest)),
            acc.2 ++ failures (before ++ ((.test test.name, test.func), res) :: (after ++ rest)))
            = ((countTest test.name acc res).1 + successes rest,
              (countTest test.name acc res).2 ++ failures rest) := by
          have hcount := countTest_eq test acc res (after ++ rest)
          simpa [hfb, hsb, hfa, hsa] using hcount.symm
        rw [hcount]
        exact ih

/-- **A source**: the complete courses are the traces of the grammar. -/
theorem fileDialogue_plays {src : Source F} {log : Log F U} {r : Nat × List (Record F U)} :
    Plays (fileDialogue src) log r ↔
      FileTrace src log ∧ r = (successes log, failures log) := by
  constructor
  · intro h
    rcases plays_askHook.mp h with ⟨before, rest, hb, rfl, h₁⟩ | ⟨func, err, rest, hfunc, rfl, h₁⟩
    · obtain ⟨tests, acc, rest, rfl, ht, h₂⟩ := plays_bind.mp h₁
      obtain ⟨htrace, rfl⟩ := testsDialogue_plays.mp ht
      obtain ⟨hfb, hsb⟩ := hb.counts (by simp)
      rcases plays_askHook.mp h₂ with ⟨after, rest, ha, rfl, h₃⟩ |
        ⟨func, err, rest, hfunc, rfl, h₃⟩
      · obtain ⟨rfl, rfl⟩ := plays_done.mp h₃
        obtain ⟨hfa, hsa⟩ := ha.counts (by simp)
        rw [List.append_nil, ← List.append_assoc]
        exact ⟨.ran hb htrace (Or.inl ha), by simp [hfb, hsb, hfa, hsa]⟩
      · obtain ⟨rfl, rfl⟩ := plays_done.mp h₃
        rw [← List.append_assoc]
        exact ⟨.ran hb htrace (Or.inr ⟨func, err, hfunc, rfl⟩),
          by simp [hfb, hsb, Slot.recorded]⟩
    · obtain ⟨rfl, rfl⟩ := plays_done.mp h₁
      exact ⟨.beforeAllFailed ⟨func, err, hfunc, rfl⟩, by simp [Slot.recorded]⟩
  · rintro ⟨htrace, rfl⟩
    cases htrace with
    | beforeAllFailed hb =>
        obtain ⟨func, err, hfunc, rfl⟩ := hb
        refine plays_askHook.mpr (Or.inr ⟨func, err, [], hfunc, rfl, ?_⟩)
        exact plays_done.mpr ⟨rfl, by simp [Slot.recorded]⟩
    | @ran before tests after hb ht ha =>
        obtain ⟨hfb, hsb⟩ := hb.counts (by simp)
        rw [List.append_assoc]
        refine plays_askHook.mpr (Or.inl ⟨before, _, hb, rfl, ?_⟩)
        refine plays_bind.mpr ⟨tests, _, after, rfl, testsDialogue_plays.mpr ⟨ht, rfl⟩, ?_⟩
        rcases ha with ha | ⟨func, err, hfunc, rfl⟩
        · obtain ⟨hfa, hsa⟩ := ha.counts (by simp)
          refine plays_askHook.mpr (Or.inl ⟨after, [], ha, (List.append_nil _).symm, ?_⟩)
          exact plays_done.mpr ⟨rfl, by simp [hfb, hsb, hfa, hsa]⟩
        · refine plays_askHook.mpr (Or.inr ⟨func, err, [], hfunc, rfl, ?_⟩)
          exact plays_done.mpr ⟨rfl, by simp [hfb, hsb, Slot.recorded]⟩

/-- The totals after the sources, from their calls. -/
def Totals.addAll (acc : Totals F U) : List (Source F) → List (Log F U) → Totals F U
  | src :: list, seg :: segs =>
      (acc.add src (successes seg) (failures seg)).addAll list segs
  | _, _ => acc

theorem foldlM_sourceDialogue_plays {list : List (Source F)} {acc r : Totals F U}
    {log : Log F U} :
    Plays (list.foldlM sourceDialogue acc) log r ↔
      ∃ segs, List.Forall₂ FileTrace list segs ∧ log = segs.flatten ∧ r = acc.addAll list segs := by
  induction list generalizing acc log with
  | nil =>
      rw [List.foldlM_nil, pure_eq, plays_done]
      constructor
      · rintro ⟨rfl, rfl⟩
        exact ⟨[], .nil, rfl, rfl⟩
      · rintro ⟨segs, ⟨⟩, rfl, rfl⟩
        exact ⟨rfl, rfl⟩
  | cons src list ih =>
      rw [List.foldlM_cons, sourceDialogue, bind_assoc, plays_bind]
      constructor
      · rintro ⟨seg, res, log, rfl, hseg, h⟩
        obtain ⟨hfile, rfl⟩ := fileDialogue_plays.mp hseg
        obtain ⟨segs, hsegs, rfl, rfl⟩ := ih.mp h
        exact ⟨seg :: segs, .cons hfile hsegs, rfl, rfl⟩
      · rintro ⟨segs, hsegs, rfl, rfl⟩
        cases hsegs with
        | cons hfile hsegs =>
            exact ⟨_, _, _, rfl, fileDialogue_plays.mpr ⟨hfile, rfl⟩,
              ih.mpr ⟨_, hsegs, rfl, rfl⟩⟩

/-- **A list of sources**: the complete courses are the traces of its sources, in order. -/
theorem listDialogue_plays {list : List (Source F)} {log : Log F U} {r : RunResult F U} :
    Plays (listDialogue list) log r ↔
      ∃ segs, List.Forall₂ FileTrace list segs ∧ log = segs.flatten ∧
        r = (Totals.addAll ⟨0, 0, [], 0⟩ list segs).result := by
  rw [listDialogue, plays_bind]
  constructor
  · rintro ⟨log, acc, rest, rfl, hacc, h⟩
    obtain ⟨rfl, rfl⟩ := plays_done.mp h
    obtain ⟨segs, hsegs, rfl, rfl⟩ := foldlM_sourceDialogue_plays.mp hacc
    exact ⟨segs, hsegs, List.append_nil _, rfl⟩
  · rintro ⟨segs, hsegs, rfl, rfl⟩
    exact ⟨_, _, [], (List.append_nil _).symm,
      foldlM_sourceDialogue_plays.mpr ⟨segs, hsegs, rfl, rfl⟩, Leads.refl _⟩

theorem runTrace_iff {list : List (Source F)} {log : Log F U} :
    RunTrace list log ↔ ∃ r, Plays (listDialogue list) log r := by
  constructor
  · rintro ⟨segs, hsegs, rfl⟩
    exact ⟨_, listDialogue_plays.mpr ⟨segs, hsegs, rfl, rfl⟩⟩
  · rintro ⟨r, h⟩
    obtain ⟨segs, hsegs, rfl, _⟩ := listDialogue_plays.mp h
    exact ⟨segs, hsegs, rfl⟩

/-! ## The calls of a run -/

theorem run_blocked {env : Env W F U} {list : List (Source F)} {testcases : Option (List Str)}
    {p : Proc W} (hp : p.doNotRun = true) :
    run env list testcases p
      = ⟨[], .ok (.refused "cannot run test cases while blocking".toList), p⟩ := by
  unfold run
  rw [Act.reads_bind_run, hp]
  rfl

theorem run_all {env : Env W F U} {list : List (Source F)} {p : Proc W}
    (hp : p.doNotRun = false) : run env list none p = runList env list p := by
  unfold run
  rw [Act.reads_bind_run, hp]
  rfl

theorem runList_followed (env : Env W F U) (list : List (Source F)) :
    FollowsAfter env [] (runList env list) (listDialogue list) := runList_follows list

/-- A run of a list that returns made a complete course of calls. -/
theorem runList_plays {env : Env W F U} {list : List (Source F)} {p : Proc W} {res : RunResult F U}
    (hres : (runList env list p).result = .ok res) :
    Plays (listDialogue list) (calls (runList env list p).events) res :=
  (runList_followed env list).of_ok hres

/-- One that stops early made the beginning of one. -/
theorem runList_cut {env : Env W F U} {list : List (Source F)} {p : Proc W} {h : Halt F U}
    (hres : (runList env list p).result = .error h) :
    ∃ d, Leads (listDialogue list) (calls (runList env list p).events) d ∧
      Cut env (runList env list p).events d.Pending h :=
  (runList_followed env list).of_error hres

/-! ## Blocking -/

/-- What a program does with the runner. -/
inductive RunnerOp (F : Type) where
  | block
  | unblock
  | run (list : List (Source F)) (testcases : Option (List Str))

/-- The process behind it, also if a run raised. -/
def RunnerOp.behind (env : Env W F U) (p : Proc W) : RunnerOp F → Proc W
  | block => ((Testcase.block : Run W F U Unit) p).world
  | unblock => ((Testcase.unblock : Run W F U Unit) p).world
  | run list testcases => (Testcase.run env list testcases p).world

/-- The process behind all that was done since the module was loaded in the world `w`. -/
def Env.behind (env : Env W F U) (ops : List (RunnerOp F)) (w : W) : Proc W :=
  ops.foldl (RunnerOp.behind env) ⟨w, false⟩

/-- `block()` was called, and `unblock()` was not since. -/
def BlockInEffect (ops : List (RunnerOp F)) : Prop :=
  ∃ before after, ops = before ++ .block :: after ∧ .unblock ∉ after

section Blocking

variable {env : Env W F U}

/-- The action leaves the flag alone. -/
def KeepsFlag (α : Type) (m : Run W F U α) : Prop := ∀ p, (m p).world.doNotRun = p.doNotRun

theorem keepsFlag_closed : Act.Closed (KeepsFlag (W := W) (F := F) (U := U)) where
  pure a p := rfl
  bind {α β m k} hm hk p := by
    have h := hm p
    rcases hrun : m p with ⟨es, x | a, p'⟩
    · rw [hrun] at h
      rw [Act.bind_of_error hrun]
      exact h
    · rw [hrun] at h
      rw [Act.bind_of_ok hrun]
      exact (hk a p').trans h

theorem say_keepsFlag (printer : Printer) (args : List (Value F U)) :
    KeepsFlag Unit (say env printer args) :=
  keepsFlag_closed.bind
    (keepsFlag_closed.forEach (fun _ u p => by rw [convert_run, Proc.update]) _ _)
    fun _ _ => rfl

theorem assertChdir_keepsFlag (move : Move) (pathname : Option Str) :
    KeepsFlag Unit (assertChdir env move pathname) := by
  intro p
  rcases assertChdir_run env move pathname p with ⟨err, v, _, hrun⟩ | ⟨w, _, hrun⟩
  · rw [hrun]
  · rw [hrun, Proc.update]

theorem call_keepsFlag (slot : Slot) (func : F) : KeepsFlag _ (call env slot func) := by
  refine call_closed keepsFlag_closed (fun p => ?_) (fun p => ?_) slot func (fun p => rfl)
    (fun p => ?_) (assertChdir_keepsFlag _)
  · rcases assertCwd_run env p with ⟨_, v, hrun⟩ | ⟨cwd, _, hrun⟩
    · rw [hrun]
    · rw [hrun]
  · rw [collectgarbage_run, Proc.update]
  · rcases exitForked_run env p with ⟨_, hrun⟩ | ⟨_, hrun⟩
    · rw [hrun]
    · rw [hrun]

/-- A run does not block or unblock. -/
theorem run_keepsFlag (list : List (Source F)) (testcases : Option (List Str)) :
    KeepsFlag _ (run env list testcases) := by
  have hclosed := keepsFlag_closed (W := W) (F := F) (U := U)
  have hleave : KeepsFlag _ (chdir env .leave none) := by
    intro p
    rcases chdir_run env .leave none p with ⟨err, _, hrun⟩ | ⟨w, _, hrun⟩
    · rw [hrun]
    · rw [hrun, Proc.update]
  refine run_closed hclosed (fun _ => rfl) say_keepsFlag ?_
    (fun _ pathname _ => assertChdir_keepsFlag _ pathname) hleave list testcases
  exact runFile_closed hclosed say_keepsFlag
    (callHook_closed hclosed say_keepsFlag fun slot func _ => call_keepsFlag slot func)
    (runTest_closed hclosed say_keepsFlag call_keepsFlag)

/-- The flag says whether `block()` is in effect. -/
theorem behind_doNotRun (ops : List (RunnerOp F)) (w : W) :
    (env.behind ops w).doNotRun = true ↔ BlockInEffect ops := by
  induction ops using List.reverseRecOn with
  | nil => simp [Env.behind, BlockInEffect]
  | append_singleton ops op ih =>
      have hop : (env.behind (ops ++ [op]) w) = op.behind env (env.behind ops w) := by
        rw [Env.behind, List.foldl_append]
        rfl
      have hlast : BlockInEffect (ops ++ [op]) ↔ op = .block ∨ (op ≠ .unblock ∧
          BlockInEffect ops) := by
        constructor
        · rintro ⟨before, after, heq, hnot⟩
          rcases List.eq_nil_or_concat after with rfl | ⟨after, op', rfl⟩
          · exact .inl (List.singleton_inj.mp (List.append_inj_right' heq rfl))
          · rw [List.concat_eq_append] at heq hnot
            rw [← List.cons_append, ← List.append_assoc] at heq
            obtain ⟨rfl, hsame⟩ := List.append_inj' heq rfl
            obtain rfl := List.singleton_inj.mp hsame
            refine .inr ⟨fun h => hnot (by simp [h]), before, after, rfl, fun h => hnot ?_⟩
            exact List.mem_append_left _ h
        · rintro (rfl | ⟨hne, before, after, rfl, hnot⟩)
          · exact ⟨ops, [], rfl, by simp⟩
          · refine ⟨before, after ++ [op], by simp, ?_⟩
            simp only [List.mem_append, List.mem_singleton, not_or]
            exact ⟨hnot, fun h => hne h.symm⟩
      rw [hop, hlast]
      cases op with
      | block => exact iff_of_true rfl (.inl rfl)
      | unblock => exact iff_of_false (by simp [RunnerOp.behind, unblock]) (by simp)
      | run list testcases =>
          rw [RunnerOp.behind, run_keepsFlag list testcases, ih]
          simp

end Blocking

/-- **The calls of a run follow the grammar.**  Nothing is called while `block()` is in effect.
Otherwise the calls are the beginning of a trace, and a whole one if the run returns; if it does
not, it stops for a reason of `Cut`, at the last of its events and not before.  After the same
outcomes a trace goes on with the same function, so the outcomes determine the calls. -/
theorem run_calls (env : Env W F U) (list : List (Source F)) (ops : List (RunnerOp F)) (w : W) :
    (BlockInEffect ops → ∀ testcases,
      calls (run env list testcases (env.behind ops w)).events = []) ∧
    (¬ BlockInEffect ops →
      (∀ res, (run env list none (env.behind ops w)).result = .ok res →
        RunTrace list (calls (run env list none (env.behind ops w)).events)) ∧
      ∀ h, (run env list none (env.behind ops w)).result = .error h →
        (∃ rest, RunTrace list (calls (run env list none (env.behind ops w)).events ++ rest) ∧
          Cut env (run env list none (env.behind ops w)).events (rest ≠ []) h) ∧
        ∃ es e, (run env list none (env.behind ops w)).events = es ++ [e] ∧
          (∀ e ∈ es, e.Smooth env) ∧ e.Stops env h) ∧
    ∀ (log x y : Log F U) (q q' : Target F) (a a' : Answer F U),
      RunTrace list (log ++ (q, a) :: x) → RunTrace list (log ++ (q', a') :: y) → q = q' := by
  have hflag := @behind_doNotRun W F U env ops w
  generalize env.behind ops w = p at hflag
  refine ⟨fun hp testcases => ?_, fun hp => ⟨fun res hres => ?_, fun h hres => ⟨?_, ?_⟩⟩, ?_⟩
  · rw [run_blocked (hflag.mpr hp)]
    rfl
  · rw [← hflag, Bool.not_eq_true] at hp
    rw [run_all hp] at hres ⊢
    exact runTrace_iff.mpr ⟨res, runList_plays hres⟩
  · rw [← hflag, Bool.not_eq_true] at hp
    rw [run_all hp] at hres ⊢
    obtain ⟨d, hlead, hcut⟩ := runList_cut hres
    have : Nonempty (Answer F U) := ⟨.ok ()⟩
    obtain ⟨rest, r, hplay, hpending⟩ := exists_plays d
    refine ⟨rest, runTrace_iff.mpr ⟨r, hlead.trans hplay⟩, ?_⟩
    exact (cut env).mono (List.Sublist.refl _) hpending hcut
  · exact (run_endsBy list none p).of_error hres
  · intro log x y q q' a a' hx hy
    obtain ⟨r, hr⟩ := runTrace_iff.mp hx
    obtain ⟨r', hr'⟩ := runTrace_iff.mp hy
    exact hr.ask_unique hr'

end Testcase
