import LuaTestcase.Runner.Select

/-!
# What a run reports

`nsuccess` is counted, `nfailures` is what is left of a total accumulated elsewhere, and the
records of the errors come from five places.  They always add up, because each is a function of
the calls that were made:

* `Totals.addAll_spec` — the totals after the sources, from their calls.
* `TestsTrace.explained` — the tests that were called are the first ones, and if some were not, a
  hook failed.
* `run_accounting` — **the values returned by `run`**, for every outcome of every call.
-/

namespace Testcase

open Dialogue

variable {W F U : Type}

/-! ## The totals -/

/-- The entries of the table of errors: the sources with a failing call, with its records. -/
def fileErrors : List (Source F) → List (Log F U) → List (FileErrors F U)
  | src :: list, seg :: segs =>
      if 0 < (failures seg).length then ⟨src.name, failures seg⟩ :: fileErrors list segs
      else fileErrors list segs
  | _, _ => []

/-- The number of tests of a list of sources. -/
def countTests (list : List (Source F)) : Nat := (list.map fun src => src.tests.length).sum

theorem countTests_cons (src : Source F) (list : List (Source F)) :
    countTests (src :: list) = src.tests.length + countTests list := by
  rw [countTests, List.map_cons, List.sum_cons, countTests]

theorem Totals.addAll_spec {list : List (Source F)} {segs : List (Log F U)}
    (h : List.Forall₂ FileTrace list segs) (acc : Totals F U) :
    acc.addAll list segs =
      ⟨acc.ntest + countTests list, acc.nsuccess + successes segs.flatten,
        acc.errors ++ fileErrors list segs,
        acc.nerrors + (failures segs.flatten).length⟩ := by
  induction h generalizing acc with
  | nil => simp [Totals.addAll, countTests, fileErrors]
  | @cons src seg list segs _ _ ih =>
      rw [Totals.addAll, ih, List.flatten_cons, successes_append, failures_append, fileErrors,
        countTests_cons, Totals.add, List.length_append]
      split_ifs with hfail
      · simp [Nat.add_assoc]
      · have hnil : failures seg = [] := by
          rw [← List.length_eq_zero_iff]
          omega
        simp [hnil, Nat.add_assoc]

/-! ## The tests that were not called -/

/-- The tests among the calls, in order. -/
def testsCalled (log : Log F U) : List (Target F) :=
  (log.map Prod.fst).filter fun target => target.1.isTest

/-- A hook is among the calls and failed. -/
def HookFailedIn (log : Log F U) : Prop :=
  ∃ slot func err, slot.isTest = false ∧ ((slot, func), .error err) ∈ log

/-- A test is called as itself. -/
def Test.target (test : Test F) : Target F := (.test test.name, test.func)

/-- The tests that were called are the first ones of the source, and if they are not all, a hook
of this source failed. -/
def Explained (tests : List (Test F)) (log : Log F U) : Prop :=
  ∃ k, testsCalled log = (tests.take k).map Test.target ∧
    (k < tests.length → HookFailedIn log)

@[simp] theorem testsCalled_append (l m : Log F U) :
    testsCalled (l ++ m) = testsCalled l ++ testsCalled m := by
  rw [testsCalled, List.map_append, List.filter_append]
  rfl

@[simp] theorem testsCalled_test (test : Test F) (res : Answer F U) (log : Log F U) :
    testsCalled (((.test test.name, test.func), res) :: log) = test.target :: testsCalled log :=
  rfl

theorem HookFailedIn.mono {l m : Log F U} (h : HookFailedIn l) (hlm : l ⊆ m) :
    HookFailedIn m := by
  obtain ⟨slot, func, err, hslot, hmem⟩ := h
  exact ⟨slot, func, err, hslot, hlm hmem⟩

theorem HookPassed.testsCalled {slot : Slot} {hook : Option F} {log : Log F U}
    (hslot : slot.isTest = false) (h : HookPassed slot hook log) : testsCalled log = [] := by
  rcases h with ⟨_, rfl⟩ | ⟨func, _, rfl⟩
  · rfl
  · simp [Testcase.testsCalled, hslot]

theorem HookFailed.testsCalled {slot : Slot} {hook : Option F} {log : Log F U}
    (hslot : slot.isTest = false) (h : HookFailed slot hook log) :
    testsCalled log = [] ∧ HookFailedIn log := by
  obtain ⟨func, err, _, rfl⟩ := h
  exact ⟨by simp [Testcase.testsCalled, hslot], ⟨slot, func, err, hslot, by simp⟩⟩

theorem TestsTrace.explained {src : Source F} {tests : List (Test F)} {log : Log F U}
    (h : TestsTrace src tests log) : Explained tests log := by
  induction h with
  | done => exact ⟨0, rfl, fun h => absurd h (by simp)⟩
  | beforeEachFailed hb =>
      obtain ⟨hcalled, hfailed⟩ := hb.testsCalled rfl
      exact ⟨0, hcalled, fun _ => hfailed⟩
  | @afterEachFailed test tests before after res hb ha =>
      obtain ⟨hcalled, hfailed⟩ := ha.testsCalled rfl
      refine ⟨1, ?_, fun _ => hfailed.mono fun qa hqa => by simp [hqa]⟩
      rw [testsCalled_append, hb.testsCalled rfl, testsCalled_test, hcalled]
      rfl
  | @next test tests before after rest res hb ha _ ih =>
      obtain ⟨k, hcalled, hfailed⟩ := ih
      refine ⟨k + 1, ?_, fun hk => ?_⟩
      · rw [testsCalled_append, hb.testsCalled rfl, testsCalled_test, testsCalled_append,
          ha.testsCalled rfl, hcalled]
        rfl
      · rw [List.length_cons, Nat.add_lt_add_iff_right] at hk
        exact (hfailed hk).mono fun qa hqa => by simp [hqa]

theorem FileTrace.explained {src : Source F} {log : Log F U} (h : FileTrace src log) :
    Explained src.tests log := by
  cases h with
  | beforeAllFailed hb =>
      obtain ⟨hcalled, hfailed⟩ := hb.testsCalled rfl
      exact ⟨0, hcalled, fun _ => hfailed⟩
  | @ran before tests after hb ht ha =>
      obtain ⟨k, hcalled, hfailed⟩ := ht.explained
      have hafter : testsCalled after = [] := by
        rcases ha with ha | ha
        · exact ha.testsCalled rfl
        · exact (ha.testsCalled rfl).1
      refine ⟨k, ?_, fun hk => (hfailed hk).mono fun qa hqa => by simp [hqa]⟩
      rw [testsCalled_append, testsCalled_append, hb.testsCalled rfl, hafter, hcalled]
      simp

/-! ## Nothing failed -/

/-- Without a failing call every test that was called succeeded. -/
theorem successes_of_no_failures {log : Log F U} (h : failures log = []) :
    successes log = (testsCalled log).length := by
  induction log with
  | nil => rfl
  | cons qa log ih =>
      obtain ⟨⟨slot, func⟩, res⟩ := qa
      cases res with
      | error err => cases h
      | ok u =>
          have hlog := ih h
          cases slot with
          | test name =>
              rw [successes_cons_ok, hlog]
              rfl
          | _ => exact hlog

/-- Without a failing call every test of the source succeeded. -/
theorem FileTrace.successes_eq {src : Source F} {log : Log F U} (h : FileTrace src log)
    (hfail : failures log = []) : successes log = src.tests.length := by
  obtain ⟨k, hcalled, hhook⟩ := h.explained
  rw [successes_of_no_failures hfail, hcalled, List.length_map, List.length_take]
  by_cases hk : k < src.tests.length
  · -- the failing hook would be recorded
    obtain ⟨slot, func, err, _, hmem⟩ := hhook hk
    exact absurd hfail (List.ne_nil_of_mem (List.mem_filterMap.mpr ⟨_, hmem, rfl⟩))
  · omega

theorem successes_flatten_eq {list : List (Source F)} {segs : List (Log F U)}
    (h : List.Forall₂ FileTrace list segs) (hfail : failures segs.flatten = []) :
    successes segs.flatten = countTests list := by
  induction h with
  | nil => rfl
  | @cons src seg list segs hfile _ ih =>
      rw [List.flatten_cons, failures_append, List.append_eq_nil_iff] at hfail
      rw [List.flatten_cons, successes_append, hfile.successes_eq hfail.1, ih hfail.2]
      rfl

/-! ## What `run` returns -/

/-- The list that is run. -/
def ranList (list : List (Source F)) : Option (List Str) → List (Source F)
  | none => list
  | some [] => list
  | some names => chooseAll list names

/-- The names that were asked for occur. -/
def AllOccur (list : List (Source F)) (testcases : Option (List Str)) : Prop :=
  ∀ name ∈ testcases.getD [], Occurs list name

/-- A run is refused and changes nothing, because running is blocked or a name does not occur;
or it runs its list, behind some printing. -/
theorem run_cases (env : Env W F U) (list : List (Source F)) (testcases : Option (List Str))
    (p : Proc W) :
    ((p.doNotRun = true ∨ ¬ AllOccur list testcases) ∧ ∃ prints err, OnlyPrints prints ∧
      run env list testcases p = ⟨prints, .ok (.refused err), p⟩) ∨
    AllOccur list testcases ∧ ∃ prints, OnlyPrints prints ∧ run env list testcases p
      = ⟨prints ++ (runList env (ranList list testcases) p).events,
        (runList env (ranList list testcases) p).result,
        (runList env (ranList list testcases) p).world⟩ := by
  have hnil : OnlyPrints ([] : List (Event W F U)) := by simp [OnlyPrints]
  rcases hp : p.doNotRun with _ | _
  · match testcases with
    | none => exact Or.inr ⟨by simp [AllOccur], [], hnil, run_all hp⟩
    | some [] =>
        refine Or.inr ⟨by simp [AllOccur], [], hnil, ?_⟩
        unfold run
        rw [Act.reads_bind_run, hp]
        rfl
    | some (name :: names) =>
        by_cases hall : AllOccur list (some (name :: names))
        · exact Or.inr ⟨hall, run_selected env (by simp) hp hall⟩
        · have hmiss : ∃ n ∈ name :: names, ¬ Occurs list n := by
            unfold AllOccur at hall
            push Not at hall
            exact hall
          obtain ⟨prints, hprints, hrun⟩ := run_missing env (by simp) hp hmiss
          exact Or.inl ⟨Or.inr hall, prints, _, hprints, hrun⟩
  · exact Or.inl ⟨Or.inl rfl, [], _, hnil, run_blocked hp⟩

/-- A list that was run is not refused. -/
theorem runList_ran (env : Env W F U) (list : List (Source F)) :
    Act.Ensures (fun res => ∃ ns nf errors, res = .ran ns nf errors) (runList env list) :=
  Act.Ensures.behind fun _ => Act.Ensures.behind fun _ => Act.Ensures.behind fun _ =>
    Act.Ensures.behind fun _ => Act.Ensures.behind fun _ => Act.Ensures.pure ⟨_, _, _, rfl⟩

/-- A run that returned numbers made a complete course of calls for its list. -/
theorem run_plays {env : Env W F U} {list : List (Source F)} {testcases : Option (List Str)}
    {p : Proc W} {ns : Nat} {nf : Int} {errors : Errors F U}
    (h : (run env list testcases p).result = .ok (.ran ns nf errors)) :
    Plays (listDialogue (ranList list testcases)) (calls (run env list testcases p).events)
      (.ran ns nf errors) := by
  rcases run_cases env list testcases p with ⟨_, prints, err, _, hrun⟩ |
    ⟨_, prints, hprints, hrun⟩
  · rw [hrun] at h
    cases h
  · rw [hrun] at h
    rw [hrun, hprints.calls_append]
    exact runList_plays h

/-- What is returned at the end of a complete course, from the calls of each source. -/
theorem listDialogue_counts {list : List (Source F)} {log : Log F U} {res : RunResult F U}
    (h : Plays (listDialogue list) log res) :
    ∃ segs, List.Forall₂ FileTrace list segs ∧ log = segs.flatten ∧
      res = .ran (successes segs.flatten)
        ((countTests list : Int) - (successes segs.flatten : Int))
        ⟨fileErrors list segs, (failures segs.flatten).length⟩ := by
  obtain ⟨segs, hsegs, hlog, rfl⟩ := listDialogue_plays.mp h
  refine ⟨segs, hsegs, hlog, ?_⟩
  rw [Totals.addAll_spec hsegs]
  simp only [Totals.result, Nat.zero_add, List.nil_append]

/-- **The accounting of a run**, for every outcome of every call. -/
theorem run_accounting (env : Env W F U) (list : List (Source F))
    (testcases : Option (List Str)) (p : Proc W) (ns : Nat) (nf : Int) (errors : Errors F U)
    (h : (run env list testcases p).result = .ok (.ran ns nf errors)) :
    ∃ segs, List.Forall₂ FileTrace (ranList list testcases) segs ∧
      calls (run env list testcases p).events = segs.flatten ∧
      ns = successes segs.flatten ∧
      ns + nf = countTests (ranList list testcases) ∧
      errors.files = fileErrors (ranList list testcases) segs ∧
      errors.count = (failures segs.flatten).length ∧
      (0 < nf → 0 < errors.count) ∧
      ∀ src seg, (src, seg) ∈ (ranList list testcases).zip segs → Explained src.tests seg := by
  obtain ⟨segs, hsegs, hcalls, hres⟩ := listDialogue_counts (run_plays h)
  rw [RunResult.ran.injEq] at hres
  obtain ⟨rfl, rfl, rfl⟩ := hres
  refine ⟨segs, hsegs, hcalls, rfl, by omega, rfl, rfl, fun hnf => ?_, fun src seg hmem => ?_⟩
  · by_contra hcount
    have hfail : failures segs.flatten = [] := by
      rw [← List.length_eq_zero_iff]
      exact Nat.eq_zero_of_not_pos hcount
    rw [successes_flatten_eq hsegs hfail] at hnf
    omega
  · exact (List.forall₂_iff_zip.mp hsegs).2 hmem |>.explained

/-! ### One failing test -/

/-- Nothing goes wrong but the functions: `true` succeeds and `false` fails with `nil`. -/
def plainEnv : Env Unit Bool Unit where
  CWD := "/a".toList
  PID := 1
  getcwd _ := some "/a".toList
  chdir _ w := .ok w
  getpid _ := 1
  start w := w
  stop w := ((none, "clock".toList), w)
  collect w := (none, w)
  xpcall f w := (⟨if f then .ok () else .error .nil, []⟩, w)
  tostring _ w := (none, w)
  assert := Assert.builtin

/-- Two tests behind a `before_each`; the second one fails. -/
def oneFailure : Source Bool where
  name := "x_test.lua".toList
  dirname := ".".toList
  beforeAll := none
  afterAll := some true
  beforeEach := some true
  afterEach := none
  tests := [⟨"test_1".toList, true, 1⟩, ⟨"test_2".toList, false, 2⟩]

theorem oneFailure_accounting :
    ∃ segs : List (Log Bool Unit), List.Forall₂ FileTrace [oneFailure] segs ∧
      1 = successes segs.flatten ∧
      [⟨"x_test.lua".toList, [⟨"test_2".toList, .nil⟩]⟩] = fileErrors [oneFailure] segs ∧
      1 = (failures segs.flatten).length := by
  obtain ⟨segs, hsegs, _, hns, _, hfiles, hcount, _⟩ :=
    run_accounting plainEnv [oneFailure] none ⟨(), false⟩ 1 1
      ⟨[⟨"x_test.lua".toList, [⟨"test_2".toList, .nil⟩]⟩], 1⟩ rfl
  exact ⟨segs, hsegs, hns, hfiles, hcount⟩

end Testcase
