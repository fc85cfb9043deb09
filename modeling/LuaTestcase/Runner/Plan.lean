import LuaTestcase.Core.Dialogue
import LuaTestcase.Runner.Stops

/-!
# What a run asks

A run without its printing, its timing and its changes of directory: only which functions are
called, depending on how the earlier calls ended, and what is counted.  That is a dialogue in
which a question is a function with the slot it is called in, and the answer is its outcome.

* `fileDialogue`, `listDialogue` — the dialogue of a source and of a list of sources.
* `runList_follows` — **the runner follows it**: its calls are a course of the dialogue, what it
  returns is the result at the end of a complete one, and it stops early only for a reason of
  `Cut`, none of which is a failing test or hook.
-/

namespace Testcase

open Dialogue

variable {W F U : Type}

/-! ## The dialogue -/

/-- A function with the slot it is called in. -/
abbrev Target (F : Type) : Type := Slot × F

/-- How a call ended. -/
abbrev Answer (F U : Type) : Type := Except (Value F U) Unit

/-- The calls of a run. -/
abbrev Log (F U : Type) : Type := List (Target F × Answer F U)

/-- What `run_setup_teadown` makes of an error. -/
def hookError (err : Value F U) : Value F U := if err.truthy then err else .nil

/-- The record of a hook that failed. -/
def hookRecord (slot : Slot) : Answer F U → Option (Record F U)
  | .ok () => none
  | .error err => some ⟨slot.name, err⟩

/-- A hook, if it is defined. -/
def askHook (slot : Slot) (hook : Option F) :
    Dialogue (Target F) (Answer F U) (Option (Record F U)) :=
  match hook with
  | none => pure none
  | some func => do
      match ← query (slot, func) with
      | .ok () => pure none
      | .error err => pure (some ⟨slot.name, hookError err⟩)

/-- The tests of a source, each between its hooks. -/
def testsDialogue (src : Source F) : List (Test F) → Nat × List (Record F U) →
    Dialogue (Target F) (Answer F U) (Nat × List (Record F U))
  | [], acc => pure acc
  | test :: tests, acc => do
      match ← askHook .beforeEach src.beforeEach with
      | some err => pure (acc.1, acc.2 ++ [err])
      | none => do
          let res ← query (.test test.name, test.func)
          let acc := countTest test.name acc res
          match ← askHook .afterEach src.afterEach with
          | some err => pure (acc.1, acc.2 ++ [err])
          | none => testsDialogue src tests acc

/-- A source. -/
def fileDialogue (src : Source F) :
    Dialogue (Target F) (Answer F U) (Nat × List (Record F U)) := do
  match ← askHook .beforeAll src.beforeAll with
  | some err => pure (0, [err])
  | none => do
      let (nsuccess, errs) ← testsDialogue src src.tests (0, [])
      let err ← askHook .afterAll src.afterAll
      pure (nsuccess, errs ++ err.toList)

/-- A source of a list. -/
def sourceDialogue (acc : Totals F U) (src : Source F) :
    Dialogue (Target F) (Answer F U) (Totals F U) := do
  let (n, errs) ← fileDialogue src
  pure (acc.add src n errs)

/-- What `run` returns for the totals. -/
def Totals.result (acc : Totals F U) : RunResult F U :=
  .ran acc.nsuccess (acc.ntest - acc.nsuccess) ⟨acc.errors, acc.nerrors⟩

/-- A list of sources. -/
def listDialogue (list : List (Source F)) :
    Dialogue (Target F) (Answer F U) (RunResult F U) := do
  let acc ← list.foldlM sourceDialogue ⟨0, 0, [], 0⟩
  pure acc.result

/-! ## Following it -/

/-- The question an event answers: calls do, nothing else does. -/
def Event.answered : Event W F U → Option (Target F × Answer F U)
  | .call c => some ((c.slot, c.func), c.result)
  | _ => none

/-- The calls among the events. -/
def calls (es : List (Event W F U)) : Log F U := es.filterMap Event.answered

/-- The reasons for which a run stops early, by the answers among its events: the working directory
is not known, or a finalizer raised, when a function is still to be called; a change of directory
failed; the process is a fork; or the error of a failing call cannot be printed. -/
inductive Cut (env : Env W F U) (es : List (Event W F U)) (pending : Prop) : Halt F U → Prop where
  | noCwd (v : Value F U) : pending → .getcwd none ∈ es → Cut env es pending (.raise v)
  | finalizer (v : Value F U) : pending → .collect (some v) ∈ es → Cut env es pending (.raise v)
  | refused (move : Move) (pathname : Str) (err : SysError) (v : Value F U) :
      .chdir move pathname (some err) ∈ es → move ≠ .leave → Cut env es pending (.raise v)
  | fork (w : W) : .getpid (env.getpid w) ∈ es → env.getpid w ≠ env.PID →
      Cut env es pending (.exit 0)
  | unprintable (c : Call W F U) (err v : Value F U) (u : U) : .call c ∈ es →
      c.result = .error err → err.convertible = some u → .tostring u (some v) ∈ es →
      Cut env es pending (.raise v)

/-- These reasons, for `Act.Follows`. -/
def cut (env : Env W F U) : Act.Reasons (Event W F U) (Halt F U) where
  allows := Cut env
  mono hes hp hcut := by
    cases hcut with
    | noCwd v hpending hmem => exact .noCwd v (hp hpending) (hes.subset hmem)
    | finalizer v hpending hmem => exact .finalizer v (hp hpending) (hes.subset hmem)
    | refused move pathname err v hmem hmove =>
        exact .refused move pathname err v (hes.subset hmem) hmove
    | fork w hmem hpid => exact .fork w (hes.subset hmem) hpid
    | unprintable c err v u hmem hres hu htold =>
        exact .unprintable c err v u (hes.subset hmem) hres hu (hes.subset htold)

/-- The action, run after the events `past`, makes the calls of the dialogue. -/
def FollowsAfter {α : Type} (env : Env W F U) (past : List (Event W F U)) (m : Run W F U α)
    (d : Dialogue (Target F) (Answer F U) α) : Prop :=
  Act.Follows Event.answered ((cut env).after past) m d

section Follow

variable {α : Type} {env : Env W F U} {past : List (Event W F U)}

theorem FollowsAfter.later {m : Run W F U α} {d : Dialogue (Target F) (Answer F U) α}
    (hm : FollowsAfter env past m d) (e : Event W F U) : FollowsAfter env (past ++ [e]) m d := by
  rw [FollowsAfter, ← Act.Reasons.after_after]
  exact Act.Follows.weaken hm [e]

/-- Printing what need not be converted asks nothing. -/
theorem say_follows {printer : Printer} {args : List (Value F U)} {k : Unit → Run W F U α}
    {d : Dialogue (Target F) (Answer F U) α} (h : conversions args = [])
    (hk : FollowsAfter env past (k ()) d) :
    FollowsAfter env past (say env printer args >>= k) d := by
  rw [say_plain h]
  exact Act.Follows.emit rfl (hk.weaken _)

/-- Printing the error of a failing call asks nothing. -/
theorem say_error_follows {printer : Printer} {c : Call W F U} {err : Value F U}
    {k : Unit → Run W F U α} {d : Dialogue (Target F) (Answer F U) α}
    (hc : .call c ∈ past) (herr : c.result = .error err) (hk : FollowsAfter env past (k ()) d) :
    FollowsAfter env past (say env printer [err] >>= k) d := by
  rcases hu : err.convertible with _ | u
  · exact say_follows (by simp [conversions, hu]) hk
  · have hsay : say env printer [err] >>= k = (outside (env.tostring u) >>= fun raised =>
        Act.emit (.tostring u raised) >>= fun _ => raising raised >>= fun _ =>
          Act.emit (.print printer [err]) >>= k) := by
      simp only [say, printing, conversions, List.filterMap_cons, hu, List.filterMap_nil,
        Act.forEach, convert, bind_assoc, pure_bind]
    rw [hsay]
    refine Act.Follows.perform fun raised => ?_
    refine Act.Follows.emit rfl ?_
    rw [Act.Reasons.after_after]
    rcases raised with _ | v
    · exact Act.Follows.emit rfl ((hk.later _).weaken _)
    · refine Act.Follows.halt (.unprintable c err v u ?_ herr hu ?_)
      · simp [hc]
      · simp

/-- A change of directory asks nothing, and what follows starts with its event. -/
theorem chdir_bind_follows {move : Move} {pathname : Option Str}
    {k : Option SysError → Run W F U α} {d : Dialogue (Target F) (Answer F U) α}
    (hok : FollowsAfter env past (k none) d)
    (herr : ∀ err, FollowsAfter env
      (past ++ [.chdir move (pathname.getD env.CWD) (some err)]) (k (some err)) d) :
    FollowsAfter env past (chdir env move pathname >>= k) d := by
  rw [chdir, bind_assoc]
  refine Act.Follows.reads fun w => ?_
  rcases env.chdir (pathname.getD env.CWD) w with err | w'
  · simp only [bind_assoc, pure_bind]
    refine Act.Follows.emit rfl ?_
    rw [Act.Reasons.after_after]
    exact herr err
  · simp only [bind_assoc, pure_bind]
    exact Act.Follows.modify (Act.Follows.emit rfl (hok.weaken _))

/-- `assert` raises, for a reason, or asks nothing. -/
theorem assert_follows {v : Value F U} {vs : List (Value F U)} {k : Unit → Run W F U α}
    {d : Dialogue (Target F) (Answer F U) α}
    (hok : v.truthy = true → FollowsAfter env past (k ()) d)
    (herr : v.truthy = false → ∀ raised, Cut env past d.Pending (.raise raised)) :
    FollowsAfter env past (assert env (v :: vs) >>= k) d := by
  rw [assert]
  rcases hraises : env.assert.raises (v :: vs) with _ | raised
  · exact hok ((env.assert.raises_eq_none v vs).mp hraises)
  · refine Act.Follows.halt ?_
    have hfalse : v.truthy = false := by
      rw [← Bool.not_eq_true, ← env.assert.raises_eq_none v vs, hraises]
      intro hnone
      cases hnone
    show Cut env (past ++ []) _ _
    rw [List.append_nil]
    exact herr hfalse raised

/-- A checked change of directory that failed is a reason to stop. -/
theorem assertChdir_follows {move : Move} (hmove : move ≠ .leave) {pathname : Option Str}
    {k : Unit → Run W F U α} {d : Dialogue (Target F) (Answer F U) α}
    (hk : FollowsAfter env past (k ()) d) :
    FollowsAfter env past (assertChdir env move pathname >>= k) d := by
  rw [assertChdir, bind_assoc]
  refine chdir_bind_follows (assert_follows (fun _ => hk) ?_) fun err => ?_
  · intro hfalse
    cases hfalse
  · refine assert_follows ?_ fun _ v => .refused move (pathname.getD env.CWD) err v (by simp) hmove
    intro htrue
    cases htrue

/-- **A call asks its function**, and what follows may rely on the call having been made. -/
theorem call_bind_follows {slot : Slot} {func : F}
    {k : Except (Value F U) Unit × Option U × Str → Run W F U α}
    {e : Answer F U → Dialogue (Target F) (Answer F U) α}
    (hk : ∀ past' c stopped, Event.call (W := W) (U := U) c ∈ past' →
      FollowsAfter env past' (k (c.result, stopped)) (e c.result)) :
    FollowsAfter env past (call env slot func >>= k) (query (slot, func) >>= e) := by
  simp only [call, assertCwd, collectgarbage, callHooked, exitForked, outside, bind_assoc,
    pure_bind]
  refine Act.Follows.reads fun cwd => ?_
  refine Act.Follows.emit rfl ?_
  rw [Act.Reasons.after_after]
  refine assert_follows (fun _ => ?_) fun hfalse v => ?_
  · refine Act.Follows.perform fun raised => ?_
    refine Act.Follows.emit rfl ?_
    rw [Act.Reasons.after_after]
    rcases raised with _ | v
    · simp only [raising, Option.elim_none, pure_bind]
      refine Act.Follows.modify (Act.Follows.reads fun before => ?_)
      refine Act.Follows.answer rfl ?_
      refine Act.Follows.write (by simp [Event.answered]) (Act.Follows.modify ?_)
      refine Act.Follows.write (by simp [Event.answered]) (Act.Follows.reads fun w => ?_)
      refine Act.Follows.emit rfl ?_
      simp only [Act.Reasons.after_after]
      split_ifs with hpid
      · exact Act.Follows.halt (.fork w (by simp) hpid)
      · refine assertChdir_follows (by decide) (hk _ ⟨slot, func, before,
          (env.xpcall func before).1.result, (env.xpcall func before).1.outputs,
          (env.xpcall func before).2⟩ _ (by simp))
    · exact Act.Follows.halt (.finalizer v trivial (by simp))
  · rcases cwd with _ | cwd
    · exact .noCwd v trivial (by simp)
    · cases hfalse

theorem runTest_follows (name : Str) (func : F) :
    FollowsAfter env past (runTest env name func) (query (.test name, func)) := by
  refine say_follows rfl ?_
  refine call_bind_follows (e := pure) fun past' c stopped hc => ?_
  refine say_follows (conversions_time _ _ _) ?_
  rcases hres : c.result with err | _
  · refine say_follows rfl ?_
    exact say_error_follows hc hres (Act.Follows.pure _)
  · exact say_follows rfl (Act.Follows.pure _)

theorem runSetupTeadown_follows (slot : Slot) (func : F) :
    FollowsAfter env past (runSetupTeadown env slot func)
      (query (slot, func) >>= fun res => pure (res.mapError hookError)) := by
  refine call_bind_follows fun past' c stopped hc => ?_
  rcases hres : c.result with err | _
  · by_cases herr : err.truthy = true
    · have hmap : (.error err : Answer F U).mapError hookError = .error err := by
        rw [Except.mapError, hookError, if_pos herr]
      simp only [herr, if_true, hmap]
      refine say_follows rfl ?_
      exact say_error_follows hc hres (Act.Follows.pure _)
    · have hmap : (.error err : Answer F U).mapError hookError = .error .nil := by
        rw [Except.mapError, hookError, if_neg herr]
      simp only [herr, hmap]
      exact Act.Follows.pure _
  · exact Act.Follows.pure _

theorem callHook_follows (slot : Slot) (hook : Option F) :
    FollowsAfter env past (callHook env slot hook) (askHook slot hook) := by
  cases hook with
  | none => exact Act.Follows.pure none
  | some func =>
      have hsplit : askHook (U := U) slot (some func)
          = (query (slot, func) >>= fun res => pure (res.mapError hookError)) >>= fun res =>
            pure (hookRecord slot res) := by
        show ask _ _ = ask _ _
        congr 1
        funext res
        cases res with
        | error err => rfl
        | ok _ => rfl
      rw [hsplit]
      refine Act.Follows.bind (runSetupTeadown_follows slot func) fun res => ?_
      cases res with
      | error err => exact Act.Follows.pure _
      | ok _ => exact Act.Follows.pure _

theorem eachTest_follows (src : Source F) (tests : List (Test F))
    (acc : Nat × List (Record F U)) :
    FollowsAfter env past (eachTest env src tests acc) (testsDialogue src tests acc) := by
  induction tests generalizing acc with
  | nil => exact Act.Follows.pure acc
  | cons test tests ih =>
      rw [eachTest, testsDialogue]
      refine Act.Follows.bind (callHook_follows _ _) fun before => ?_
      cases before with
      | some err => exact Act.Follows.pure _
      | none =>
          refine Act.Follows.bind (runTest_follows _ _) fun res => ?_
          refine Act.Follows.bind (callHook_follows _ _) fun after => ?_
          cases after with
          | some err => exact Act.Follows.pure _
          | none => exact ih _

/-- **A source is run as its dialogue says.** -/
theorem runFile_follows (src : Source F) :
    FollowsAfter env past (runFile env src) (fileDialogue src) := by
  refine say_follows rfl (say_follows rfl (say_follows rfl ?_))
  refine say_follows rfl (Act.Follows.bind (callHook_follows _ _) fun before => ?_)
  cases before with
  | some err => exact Act.Follows.pure _
  | none =>
      refine Act.Follows.bind (eachTest_follows _ _ _) fun acc => ?_
      refine Act.Follows.bind (callHook_follows _ _) fun after => ?_
      exact say_follows rfl (Act.Follows.pure _)

theorem runSource_follows (acc : Totals F U) (src : Source F) :
    FollowsAfter env past (runSource env acc src) (sourceDialogue acc src) := by
  refine assertChdir_follows (by decide) (assertChdir_follows (by decide) ?_)
  exact Act.Follows.bind (runFile_follows src) fun acc => Act.Follows.pure _

/-- **A list of sources is run as its dialogue says.** -/
theorem runList_follows (list : List (Source F)) :
    FollowsAfter env past (runList env list) (listDialogue list) := by
  refine Act.Follows.bind (Act.Follows.forEach runSource_follows list _) fun acc => ?_
  have hsay : FollowsAfter env past (do
      say env .print [.string []]
      say env .print [.string HR]
      say env .print [.string []]
      pure acc.result) (pure acc.result) :=
    say_follows rfl (say_follows rfl (say_follows rfl (Act.Follows.pure _)))
  exact chdir_bind_follows hsay fun err => hsay.later _

end Follow

end Testcase
