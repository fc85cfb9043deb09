import LuaTestcase.Runner.Directory

/-!
# When nothing goes wrong

The plan of a list of sources is what is called if every call succeeds.  A run has called its
whole plan, with success, exactly if it returns and reports no failure — so no failing call, no
skipped one and no early end escapes the numbers it returns.

* `plan` — the functions of the sources, in order.
* `listDialogue_walk` — the course of the dialogue in which every answer is a success.
* `run_verdict` — **the numbers that `run` returns are right about the plan**.
-/

namespace Testcase

open Dialogue

variable {W F U : Type}

/-! ## The plan -/

/-- A hook, if it is defined. -/
def hookPlan (slot : Slot) (hook : Option F) : List (Target F) :=
  hook.toList.map fun func => (slot, func)

/-- A test between its hooks. -/
def testPlan (src : Source F) (test : Test F) : List (Target F) :=
  hookPlan .beforeEach src.beforeEach ++ test.target :: hookPlan .afterEach src.afterEach

/-- A source. -/
def sourcePlan (src : Source F) : List (Target F) :=
  hookPlan .beforeAll src.beforeAll ++ src.tests.flatMap (testPlan src) ++
    hookPlan .afterAll src.afterAll

/-- The functions of the sources, in the order in which they are called if none fails. -/
def plan (list : List (Source F)) : List (Target F) := list.flatMap sourcePlan

/-- The strategy that always succeeds. -/
def succeed : Target F → Answer F U := fun _ => .ok ()

theorem askHook_walk (slot : Slot) (hook : Option F) :
    (askHook (U := U) slot hook).walk succeed = (hookPlan slot hook, none) := by
  cases hook with
  | none => rfl
  | some func => rfl

theorem testsDialogue_walk (src : Source F) (tests : List (Test F))
    (acc : Nat × List (Record F U)) :
    ((testsDialogue src tests acc).walk succeed).1 = tests.flatMap (testPlan src) := by
  induction tests generalizing acc with
  | nil => rfl
  | cons test tests ih =>
      rw [testsDialogue, walk_bind, askHook_walk]
      simp only [query_bind, walk, walk_bind, askHook_walk, ih, List.flatMap_cons, testPlan,
        Test.target, List.append_assoc, List.cons_append]

theorem fileDialogue_walk (src : Source F) :
    ((fileDialogue (U := U) src).walk succeed).1 = sourcePlan src := by
  rw [fileDialogue, walk_bind, askHook_walk]
  simp only [walk_bind, askHook_walk, testsDialogue_walk, pure_eq, walk_done, sourcePlan,
    List.append_assoc, List.append_nil]

theorem foldlM_sourceDialogue_walk (list : List (Source F)) (acc : Totals F U) :
    ((list.foldlM sourceDialogue acc).walk succeed).1 = plan list := by
  induction list generalizing acc with
  | nil => rfl
  | cons src list ih =>
      rw [List.foldlM_cons, walk_bind, ih, sourceDialogue, walk_bind, fileDialogue_walk, plan,
        plan, List.flatMap_cons]
      simp only [pure_eq, walk_done, List.append_nil]

/-- **If every call succeeds, the plan is called.** -/
theorem listDialogue_walk (list : List (Source F)) :
    ((listDialogue (U := U) list).walk succeed).1 = plan list := by
  rw [listDialogue, walk_bind, foldlM_sourceDialogue_walk]
  exact List.append_nil _

/-! ## A run without failures -/

/-- The plan was called, with success. -/
def planDone (list : List (Source F)) : Log F U := (plan list).map fun target => (target, .ok ())

theorem planDone_fst (list : List (Source F)) :
    (planDone (U := U) list).map Prod.fst = plan list := by
  simp [planDone, Function.comp_def]

theorem failures_eq_nil_iff {log : Log F U} :
    failures log = [] ↔ ∀ qa ∈ log, qa.2 = succeed qa.1 := by
  rw [failures, List.filterMap_eq_nil_iff]
  constructor
  · intro h qa hqa
    obtain ⟨⟨slot, func⟩, err | _⟩ := qa
    · cases h _ hqa
    · rfl
  · intro h qa hqa
    obtain ⟨⟨slot, func⟩, res⟩ := qa
    obtain rfl : res = .ok () := h _ hqa
    rfl

theorem planDone_failures (list : List (Source F)) :
    failures (planDone (U := U) list) = [] := by
  refine failures_eq_nil_iff.mpr fun qa hqa => ?_
  obtain ⟨target, _, rfl⟩ := List.mem_map.mp hqa
  rfl

/-- Without a failing call a complete course is the plan. -/
theorem eq_planDone {list : List (Source F)} {log : Log F U} {res : RunResult F U}
    (h : Plays (listDialogue list) log res) (hfail : failures log = []) : log = planDone list := by
  have hans := failures_eq_nil_iff.mp hfail
  have hwalk := congrArg Prod.fst (h.walk hans)
  rw [listDialogue_walk, walk_done, List.append_nil] at hwalk
  rw [planDone, hwalk, List.map_map]
  conv_lhs => rw [← List.map_id log]
  refine List.map_congr_left fun qa hqa => ?_
  exact Prod.ext rfl (hans qa hqa)

/-- When the plan was called, nothing is left to ask. -/
theorem done_of_planDone {list : List (Source F)}
    {d : Dialogue (Target F) (Answer F U) (RunResult F U)}
    (h : Leads (listDialogue list) (planDone list) d) : ¬ d.Pending := by
  have hwalk := congrArg Prod.fst
    (h.walk (failures_eq_nil_iff.mp (planDone_failures list)))
  rw [listDialogue_walk, planDone_fst] at hwalk
  have hnil : (d.walk succeed).1 = [] := List.append_right_eq_self.mp hwalk.symm
  cases d with
  | done res => exact fun hp => hp
  | ask q next => cases hnil

/-- The numbers say that nothing failed. -/
def RunResult.clean : RunResult F U → Prop
  | .refused _ => False
  | .ran _ nfailures errors => nfailures ≤ 0 ∧ errors.count = 0

/-- Complete courses with clean numbers are those without a failing call. -/
theorem clean_iff {list : List (Source F)} {log : Log F U} {res : RunResult F U}
    (h : Plays (listDialogue list) log res) : res.clean ↔ failures log = [] := by
  obtain ⟨segs, hsegs, rfl, rfl⟩ := listDialogue_counts h
  simp only [RunResult.clean, List.length_eq_zero_iff]
  constructor
  · exact fun hclean => hclean.2
  · intro hfail
    rw [successes_flatten_eq hsegs hfail]
    exact ⟨by omega, hfail⟩

section Verdict

variable {env : Env W F U}

/-- A process that did not fork and called its plan did not stop early. -/
theorem not_cut {es : List (Event W F U)} {pending : Prop} {h : Halt F U} {list : List (Source F)}
    (hpid : ∀ w, env.getpid w = env.PID) (hpending : ¬ pending)
    (hrefused : ∀ e ∈ es, e.refused = none) (hcalls : calls es = planDone list) :
    ¬ Cut env es pending h := by
  intro hcut
  cases hcut with
  | noCwd v hp _ => exact hpending hp
  | finalizer v hp _ => exact hpending hp
  | refused move pathname err v hmem hmove =>
      have hnone := hrefused _ hmem
      cases move with
      | leave => exact hmove rfl
      | _ => cases hnone
  | fork w _ hfork => exact hfork (hpid w)
  | unprintable c err v u hmem hres _ _ =>
      have hin : ((c.slot, c.func), c.result) ∈ planDone list := by
        rw [← hcalls]
        exact List.mem_filterMap.mpr ⟨_, hmem, rfl⟩
      have hok := failures_eq_nil_iff.mp (planDone_failures list) _ hin
      rw [hres] at hok
      cases hok

theorem runList_verdict (hpid : ∀ w, env.getpid w = env.PID) (list : List (Source F))
    (p : Proc W) :
    (∃ res, (runList env list p).result = .ok res ∧ res.clean) ↔
      (∀ e ∈ (runList env list p).events, e.refused = none) ∧
        calls (runList env list p).events = planDone list := by
  constructor
  · rintro ⟨res, hres, hclean⟩
    have hplay := runList_plays hres
    refine ⟨?_, eq_planDone hplay ((clean_iff hplay).mp hclean)⟩
    exact fun e he => Event.Smooth.refused ((runList_endsBy list p).of_ok hres e he)
  · rintro ⟨hrefused, hcalls⟩
    rcases hres : (runList env list p).result with h | res
    · obtain ⟨d, hlead, hcut⟩ := runList_cut hres
      rw [hcalls] at hlead
      exact absurd hcut (not_cut hpid (done_of_planDone hlead) hrefused hcalls)
    · refine ⟨res, rfl, (clean_iff (runList_plays hres)).mpr ?_⟩
      rw [hcalls, planDone_failures]

end Verdict

/-- **The numbers `run` returns are right about the plan.**  In a process that never forks, `run`
returns without a failure exactly if the names that were asked for occur, every checked change of
directory succeeded, and the calls it made are those of the plan, all with success. -/
theorem run_verdict (env : Env W F U) (hpid : ∀ w, env.getpid w = env.PID)
    (list : List (Source F)) (testcases : Option (List Str)) (p : Proc W)
    (hp : p.doNotRun = false) :
    (∃ res, (run env list testcases p).result = .ok res ∧ res.clean) ↔
      AllOccur list testcases ∧ (∀ e ∈ (run env list testcases p).events, e.refused = none) ∧
        calls (run env list testcases p).events = planDone (ranList list testcases) := by
  rcases run_cases env list testcases p with ⟨hwhy, prints, err, hprints, hrun⟩ |
    ⟨hall, prints, hprints, hrun⟩
  · have hnot : ¬ AllOccur list testcases := by
      rcases hwhy with hblocked | hnot
      · rw [hp] at hblocked
        cases hblocked
      · exact hnot
    rw [hrun]
    constructor
    · rintro ⟨res, ⟨⟩, hclean⟩
      exact hclean.elim
    · exact fun h => absurd h.1 hnot
  · have hrefused : (∀ e ∈ prints ++ (runList env (ranList list testcases) p).events,
        e.refused = none) ↔
        ∀ e ∈ (runList env (ranList list testcases) p).events, e.refused = none := by
      rw [List.forall_mem_append]
      refine and_iff_right fun e he => ?_
      obtain ⟨printer, args, rfl⟩ := hprints e he
      rfl
    rw [hrun, hprints.calls_append, hrefused, and_iff_right hall]
    exact runList_verdict hpid _ p

/-- A process that never forks stops early only because something was raised. -/
theorem run_raises {env : Env W F U} (hpid : ∀ w, env.getpid w = env.PID)
    {list : List (Source F)} {testcases : Option (List Str)} {p : Proc W} {h : Halt F U}
    (hres : (run env list testcases p).result = .error h) : ∃ v, h = .raise v := by
  rcases run_cases env list testcases p with ⟨_, prints, err, _, hrun⟩ | ⟨_, prints, _, hrun⟩
  · rw [hrun] at hres
    cases hres
  · rw [hrun] at hres
    obtain ⟨d, _, hcut⟩ := runList_cut hres
    cases hcut with
    | fork w _ hfork => exact absurd (hpid w) hfork
    | _ => exact ⟨_, rfl⟩

theorem fileErrors_eq_nil {list : List (Source F)} {segs : List (Log F U)}
    (h : failures segs.flatten = []) : fileErrors list segs = [] := by
  induction segs generalizing list with
  | nil =>
      cases list with
      | nil => rfl
      | cons src list => rfl
  | cons seg segs ih =>
      rw [List.flatten_cons, failures_append, List.append_eq_nil_iff] at h
      cases list with
      | nil => rfl
      | cons src list =>
          rw [fileErrors, h.1, if_neg (by simp), ih h.2]

/-- Without an error that is counted there is no entry in the table of errors. -/
theorem run_no_files {env : Env W F U} {list : List (Source F)} {testcases : Option (List Str)}
    {p : Proc W} {ns : Nat} {nf : Int} {errors : Errors F U}
    (hres : (run env list testcases p).result = .ok (.ran ns nf errors))
    (hcount : errors.count = 0) : errors.files = [] := by
  obtain ⟨segs, _, _, heq⟩ := listDialogue_counts (run_plays hres)
  rw [RunResult.ran.injEq] at heq
  obtain ⟨_, _, rfl⟩ := heq
  exact fileErrors_eq_nil (List.length_eq_zero_iff.mp hcount)

end Testcase
