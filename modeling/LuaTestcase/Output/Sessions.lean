import Mathlib.Data.List.Induction
import LuaTestcase.Output.Iohook

/-!
# Sessions of the output hooks

Between a `hook` and the `unhook` that follows it the callbacks of that `hook` are called, and at
no other time.  What is called is determined by the outputs that are made while the module is not
blocked.

* `Idle`, `Hooked` — the states outside and inside a session; a call leads from one to the other
  only if it is a `hook` or an `unhook` (`Idle.step`, `Hooked.step`).
* `Hooked.run` — what is called within a session.
* `iohook_bracketed` — **the sessions of every sequence of calls are well bracketed**.
-/

namespace Testcase

variable {F U : Type}

/-! ## Calls and outputs -/

/-- A value that `hook` accepts: a function, `nil` or `false`. -/
def Value.isCallback (v : Value F U) : Bool := v.type == .function || !v.truthy

/-- A `hook` with arguments that are accepted. -/
def HookOp.opens : HookOp F U → Bool
  | hook hookfn startfn endfn => hookfn.isCallback && startfn.isCallback && endfn.isCallback
  | _ => false

/-- The arguments of an output. -/
def HookOp.output : HookOp F U → Option (List (Value F U))
  | print args => some args
  | stdout args => some args
  | stderr args => some args
  | savedPrint args => some args
  | savedWriter args => some args
  | _ => none

/-- Whether the module is blocked after a call. -/
def HookOp.blocks (blocked : Bool) : HookOp F U → Bool
  | block => true
  | unblock => false
  | _ => blocked

/-- Whether the module is blocked after a sequence of calls. -/
def blockedAfter (blocked : Bool) (ops : List (HookOp F U)) : Bool :=
  ops.foldl HookOp.blocks blocked

/-- The outputs that are made while the module is not blocked, in order. -/
def unblockedOutputs (blocked : Bool) : List (HookOp F U) → List (List (Value F U))
  | [] => []
  | op :: ops =>
      (if blocked then [] else op.output.toList) ++ unblockedOutputs (op.blocks blocked) ops

/-- The event is a call of a callback. -/
def HookEvent.isCall : HookEvent F U → Bool
  | start _ => true
  | hook _ _ => true
  | finish _ => true
  | _ => false

/-- The calls of callbacks among some events. -/
def callbackCalls (es : List (HookEvent F U)) : List (HookEvent F U) := es.filter HookEvent.isCall

/-- The call of a callback that was given as `fn`. -/
def calledAs (event : F → HookEvent F U) : Value F U → List (HookEvent F U)
  | .function f => [event f]
  | _ => []

/-- The calls of the start and the hook callback for some outputs. -/
def outputCalls (started : Bool) (hookfn startfn : Value F U) (outs : List (List (Value F U))) :
    List (HookEvent F U) :=
  if outs = [] then []
  else (if started then [] else calledAs .start startfn) ++
    outs.flatMap fun args => calledAs (.hook · args) hookfn

@[simp] theorem callbackCalls_nil : callbackCalls ([] : List (HookEvent F U)) = [] := rfl

theorem callbackCalls_append (es es' : List (HookEvent F U)) :
    callbackCalls (es ++ es') = callbackCalls es ++ callbackCalls es' := by
  simp [callbackCalls]

/-- A callback is called as the value it was given as. -/
theorem callbackCalls_called {fn : Value F U} {c : Callback F} (h : callbackOf fn = .ok c)
    {event : F → HookEvent F U} (hevent : ∀ f, (event f).isCall = true) :
    callbackCalls (c.called event) = calledAs event fn := by
  cases fn with
  | nil =>
      simp only [callbackOf, Except.ok.injEq] at h
      subst h
      rfl
  | boolean b =>
      cases b with
      | false =>
          simp only [callbackOf, Except.ok.injEq] at h
          subst h
          rfl
      | true => simp [callbackOf] at h
  | function f =>
      simp only [callbackOf, Except.ok.injEq] at h
      subst h
      simp [callbackCalls, Callback.called, calledAs, hevent]
  | _ => simp [callbackOf] at h

/-- `hook` accepts what is a function, `nil` or `false`. -/
theorem isCallback_iff (fn : Value F U) :
    fn.isCallback = true ↔ ∃ c, callbackOf fn = .ok c := by
  cases fn with
  | boolean b => cases b <;> simp [Value.isCallback, Value.type, Value.truthy, callbackOf]
  | object k u => cases k <;> simp [Value.isCallback, Value.type, Value.truthy, callbackOf]
  | _ => simp [Value.isCallback, Value.type, Value.truthy, callbackOf]

theorem outputCalls_append {started : Bool} (hookfn startfn : Value F U)
    (outs outs' : List (List (Value F U))) :
    outputCalls started hookfn startfn (outs ++ outs')
      = outputCalls started hookfn startfn outs
        ++ outputCalls (started || !outs.isEmpty) hookfn startfn outs' := by
  by_cases houts : outs = []
  · simp [houts, outputCalls]
  · by_cases houts' : outs' = []
    · simp [houts', outputCalls]
    · simp [houts, houts', outputCalls]

/-! ## The states -/

/-- No callback is set, and the globals are those captured when the module was loaded. -/
structure Idle (st : IoHook F) : Prop where
  onStartfn : st.onStartfn = .default
  onHookfn : st.onHookfn = .default
  onEndfn : st.onEndfn = .default
  print : st.print = .print
  stdout : st.stdout = .stdout
  stderr : st.stderr = .stderr

/-- The callbacks are those of a `hook`, and the globals are replaced. -/
structure Hooked (st : IoHook F) (hookfn startfn endfn : Value F U) : Prop where
  onStartfn : callbackOf startfn = .ok st.onStartfn
  onHookfn : callbackOf hookfn = .ok st.onHookfn
  onEndfn : callbackOf endfn = .ok st.onEndfn
  print : st.print = .printout
  stdout : st.stdout = .stdwriter
  stderr : st.stderr = .stdwriter

theorem idle_loaded : Idle (.loaded : IoHook F) := ⟨rfl, rfl, rfl, rfl, rfl, rfl⟩

/-- Whatever went before, `unhook` puts everything back. -/
theorem idle_unhook (st : IoHook F) : Idle (unhook (U := U) st).1 := ⟨rfl, rfl, rfl, rfl, rfl, rfl⟩

/-- A `hook` that is not accepted raises an error and changes nothing. -/
theorem hook_rejected (st : IoHook F) {hookfn startfn endfn : Value F U}
    (h : (HookOp.hook hookfn startfn endfn).opens = false) :
    ∃ msg, hook st hookfn startfn endfn = (st, [.raised msg]) := by
  rcases hh : callbackOf hookfn with ty | c
  · exact ⟨_, by rw [hook, hh]⟩
  · rcases hs : callbackOf startfn with ty | c'
    · exact ⟨_, by rw [hook, hh, hs]⟩
    · rcases he : callbackOf endfn with ty | c''
      · exact ⟨_, by rw [hook, hh, hs, he]⟩
      · have h1 := (isCallback_iff hookfn).mpr ⟨c, hh⟩
        have h2 := (isCallback_iff startfn).mpr ⟨c', hs⟩
        have h3 := (isCallback_iff endfn).mpr ⟨c'', he⟩
        simp [HookOp.opens, h1, h2, h3] at h

/-- A `hook` that is accepted opens a session; no callback is called. -/
theorem hook_accepted (st : IoHook F) {hookfn startfn endfn : Value F U}
    (h : (HookOp.hook hookfn startfn endfn).opens = true) :
    Hooked (hook st hookfn startfn endfn).1 hookfn startfn endfn ∧
      (hook st hookfn startfn endfn).1.isHooked = false ∧
      (hook st hookfn startfn endfn).1.isBlocked = st.isBlocked ∧
      (hook st hookfn startfn endfn).2 = [] := by
  simp only [HookOp.opens, Bool.and_eq_true, isCallback_iff] at h
  obtain ⟨⟨⟨c, hh⟩, ⟨c', hs⟩⟩, ⟨c'', he⟩⟩ := h
  rw [hook, hh, hs, he]
  exact ⟨⟨hs, hh, he, rfl, rfl, rfl⟩, rfl, rfl, rfl⟩

/-- An output is nobody's business outside of a session: the default callbacks do nothing. -/
theorem Idle.printout {st : IoHook F} (h : Idle st) (args : List (Value F U)) :
    Idle (printout st args).1 ∧ (printout st args).2 = [] := by
  simp only [Testcase.printout, h.onStartfn, h.onHookfn]
  by_cases hblocked : st.isBlocked = true
  · simp [hblocked, h]
  · by_cases hhooked : st.isHooked = true
    · simp [hblocked, hhooked, h, Callback.called]
    · simp only [hblocked, hhooked]
      exact ⟨⟨rfl, rfl, h.onEndfn, h.print, h.stdout, h.stderr⟩, rfl⟩

/-- **Only a `hook` leads out of the idle states**, and no callback is called in them. -/
theorem Idle.step {st : IoHook F} (h : Idle st) {op : HookOp F U} (hop : op.opens = false) :
    Idle (iohook st op).1 ∧ callbackCalls (iohook st op).2 = [] := by
  cases op with
  | hook hookfn startfn endfn =>
      obtain ⟨msg, hrun⟩ := hook_rejected st hop
      rw [iohook, hrun]
      exact ⟨h, rfl⟩
  | unhook =>
      refine ⟨idle_unhook st, ?_⟩
      simp [iohook, unhook, h.onEndfn, Callback.called]
  | block => exact ⟨⟨h.onStartfn, h.onHookfn, h.onEndfn, h.print, h.stdout, h.stderr⟩, rfl⟩
  | unblock => exact ⟨⟨h.onStartfn, h.onHookfn, h.onEndfn, h.print, h.stdout, h.stderr⟩, rfl⟩
  | print args =>
      rw [iohook, h.print]
      exact ⟨h, rfl⟩
  | stdout args =>
      rw [iohook, h.stdout]
      exact ⟨h, rfl⟩
  | stderr args =>
      rw [iohook, h.stderr]
      exact ⟨h, rfl⟩
  | savedPrint args =>
      obtain ⟨hidle, hcalls⟩ := h.printout args
      exact ⟨hidle, by rw [iohook, Writer.write, hcalls, callbackCalls_nil]⟩
  | savedWriter args =>
      obtain ⟨hidle, hcalls⟩ := h.printout args
      exact ⟨hidle, by rw [iohook, Writer.write, hcalls, callbackCalls_nil]⟩

section Hooked

variable {st : IoHook F} {hookfn startfn endfn : Value F U}

/-- Every output within a session goes to the module. -/
theorem Hooked.output (h : Hooked st hookfn startfn endfn) {op : HookOp F U}
    {args : List (Value F U)} (hop : op.output = some args) : iohook st op = printout st args := by
  cases op with
  | print args' =>
      obtain rfl : args' = args := Option.some.inj hop
      rw [iohook, h.print]
      rfl
  | stdout args' =>
      obtain rfl : args' = args := Option.some.inj hop
      rw [iohook, h.stdout]
      rfl
  | stderr args' =>
      obtain rfl : args' = args := Option.some.inj hop
      rw [iohook, h.stderr]
      rfl
  | savedPrint args' =>
      obtain rfl : args' = args := Option.some.inj hop
      rfl
  | savedWriter args' =>
      obtain rfl : args' = args := Option.some.inj hop
      rfl
  | _ => cases hop

/-- An output within a session. -/
theorem Hooked.printout (h : Hooked st hookfn startfn endfn) (args : List (Value F U)) :
    Hooked (printout st args).1 hookfn startfn endfn ∧
      (printout st args).1.isBlocked = st.isBlocked ∧
      (printout st args).1.isHooked = (st.isHooked || !st.isBlocked) ∧
      callbackCalls (printout st args).2
        = outputCalls st.isHooked hookfn startfn (if st.isBlocked then [] else [args]) := by
  have hhook : callbackCalls (st.onHookfn.called (HookEvent.hook · args))
      = calledAs (.hook · args) hookfn := callbackCalls_called h.onHookfn fun _ => rfl
  have hstart : callbackCalls (st.onStartfn.called (HookEvent.start (U := U)))
      = calledAs .start startfn := callbackCalls_called h.onStartfn fun _ => rfl
  by_cases hblocked : st.isBlocked = true
  · simp [Testcase.printout, hblocked, h, outputCalls]
  · by_cases hhooked : st.isHooked = true
    · simp [Testcase.printout, hblocked, hhooked, h, outputCalls, hhook]
    · simp only [Testcase.printout, hblocked, hhooked]
      refine ⟨⟨h.onStartfn, h.onHookfn, h.onEndfn, h.print, h.stdout, h.stderr⟩, by simp, ?_, ?_⟩
      · simp
      · simp [callbackCalls_append, hstart, hhook, outputCalls]

/-- **Only an `unhook` or another `hook` ends a session**, and the calls of the callbacks are
those for the outputs. -/
theorem Hooked.step (h : Hooked st hookfn startfn endfn) {op : HookOp F U}
    (hop : op.opens = false) (hne : op ≠ .unhook) :
    Hooked (iohook st op).1 hookfn startfn endfn ∧
      (iohook st op).1.isBlocked = op.blocks st.isBlocked ∧
      (iohook st op).1.isHooked
        = (st.isHooked || !(unblockedOutputs st.isBlocked [op]).isEmpty) ∧
      callbackCalls (iohook st op).2
        = outputCalls st.isHooked hookfn startfn (unblockedOutputs st.isBlocked [op]) := by
  rcases hout : op.output with _ | args
  · have hnone : unblockedOutputs st.isBlocked [op] = [] := by
      simp [unblockedOutputs, hout]
    rw [hnone]
    cases op with
    | hook hookfn' startfn' endfn' =>
        obtain ⟨msg, hrun⟩ := hook_rejected st hop
        rw [iohook, hrun]
        exact ⟨h, rfl, by simp, rfl⟩
    | unhook => exact absurd rfl hne
    | block =>
        exact ⟨⟨h.onStartfn, h.onHookfn, h.onEndfn, h.print, h.stdout, h.stderr⟩, rfl,
          by simp [iohook], rfl⟩
    | unblock =>
        exact ⟨⟨h.onStartfn, h.onHookfn, h.onEndfn, h.print, h.stdout, h.stderr⟩, rfl,
          by simp [iohook], rfl⟩
    | _ => cases hout
  · have hblocks : op.blocks st.isBlocked = st.isBlocked := by
      cases op with
      | block => cases hout
      | unblock => cases hout
      | _ => rfl
    have hone : unblockedOutputs st.isBlocked [op] = if st.isBlocked then [] else [args] := by
      simp [unblockedOutputs, hout]
    obtain ⟨hhooked, hblocked, hstarted, hcalls⟩ := h.printout args
    rw [h.output hout, hblocks, hone]
    refine ⟨hhooked, hblocked, ?_, hcalls⟩
    rw [hstarted]
    cases st.isBlocked <;> simp

theorem unblockedOutputs_cons (blocked : Bool) (op : HookOp F U) (ops : List (HookOp F U)) :
    unblockedOutputs blocked (op :: ops)
      = unblockedOutputs blocked [op] ++ unblockedOutputs (op.blocks blocked) ops := by
  simp [unblockedOutputs]

/-- **What is called within a session.** -/
theorem Hooked.run (h : Hooked st hookfn startfn endfn) {body : List (HookOp F U)}
    (hbody : ∀ op ∈ body, op.opens = false ∧ op ≠ .unhook) :
    Hooked (iohook.after st body) hookfn startfn endfn ∧
      (iohook.after st body).isHooked
        = (st.isHooked || !(unblockedOutputs st.isBlocked body).isEmpty) ∧
      callbackCalls (iohook.events st body)
        = outputCalls st.isHooked hookfn startfn (unblockedOutputs st.isBlocked body) := by
  induction body generalizing st with
  | nil => exact ⟨h, by simp [unblockedOutputs], by simp [unblockedOutputs, outputCalls]⟩
  | cons op body ih =>
      obtain ⟨hop, hne⟩ := hbody op (by simp)
      obtain ⟨hhooked, hblocked, hstarted, hcalls⟩ := h.step hop hne
      obtain ⟨hrest, hrestStarted, hrestCalls⟩ := ih hhooked fun o ho => hbody o (by simp [ho])
      rw [hblocked] at hrestStarted hrestCalls
      rw [Machine.after_cons, Machine.events_cons, unblockedOutputs_cons]
      refine ⟨hrest, ?_, ?_⟩
      · have hempty : ∀ outs outs' : List (List (Value F U)),
            (outs ++ outs').isEmpty = (outs.isEmpty && outs'.isEmpty) := by
          intro outs outs'
          cases outs <;> simp
        rw [hrestStarted, hstarted, hempty, Bool.not_and, Bool.or_assoc]
      · rw [callbackCalls_append, hcalls, hrestCalls, hstarted, outputCalls_append]

/-- What is called at the end of a session. -/
theorem Hooked.unhook_calls (h : Hooked st hookfn startfn endfn) :
    callbackCalls (unhook (U := U) st).2 = if st.isHooked then calledAs .finish endfn else [] := by
  by_cases hhooked : st.isHooked = true
  · simp only [unhook, hhooked, if_true]
    exact callbackCalls_called h.onEndfn fun _ => rfl
  · simp [unhook, hhooked]

end Hooked

/-! ## Sequences of calls -/

/-- Every `hook` is followed by an `unhook` before the next `hook`. -/
def Bracketed (ops : List (HookOp F U)) : Prop :=
  ∀ before op between op' after, ops = before ++ op :: between ++ op' :: after →
    op.opens = true → op'.opens = true → HookOp.unhook ∈ between

theorem bracketed_nil : Bracketed ([] : List (HookOp F U)) := by
  intro before op between op' after heq
  simp at heq

/-- Calls that open no session may come before. -/
theorem Bracketed.append {ops quiet : List (HookOp F U)} (h : Bracketed ops)
    (hquiet : ∀ op ∈ quiet, op.opens = false) : Bracketed (quiet ++ ops) := by
  induction quiet with
  | nil => exact h
  | cons op quiet ih =>
      intro before o between o' after heq ho ho'
      cases before with
      | nil =>
          simp only [List.nil_append, List.cons_append, List.cons.injEq] at heq
          rw [← heq.1, hquiet op (by simp)] at ho
          cases ho
      | cons b before =>
          simp only [List.cons_append, List.cons.injEq] at heq
          exact ih (fun o ho => hquiet o (by simp [ho])) before o between o' after
            (by simpa using heq.2) ho ho'

/-- So may a session that is closed again. -/
theorem Bracketed.session {ops body : List (HookOp F U)} (h : Bracketed ops) (op : HookOp F U)
    (hbody : ∀ o ∈ body, o.opens = false) : Bracketed (op :: body ++ .unhook :: ops) := by
  have hunhook : Bracketed ([HookOp.unhook] ++ ops) := h.append (by simp [HookOp.opens])
  have hrest : Bracketed (body ++ .unhook :: ops) := hunhook.append hbody
  intro before o between o' after heq ho ho'
  cases before with
  | nil =>
      simp only [List.nil_append, List.cons_append, List.cons.injEq] at heq
      rcases List.append_eq_append_iff.mp heq.2 with ⟨gap, hbetween, hgap⟩ | ⟨gap, hgap, hafter⟩
      · cases gap with
        | nil =>
            simp only [List.nil_append, List.cons.injEq] at hgap
            rw [← hgap.1] at ho'
            cases ho'
        | cons g gap =>
            simp only [List.cons_append, List.cons.injEq] at hgap
            rw [hbetween, ← hgap.1]
            simp
      · cases gap with
        | nil =>
            simp only [List.nil_append, List.cons.injEq] at hafter
            rw [hafter.1] at ho'
            cases ho'
        | cons g gap =>
            simp only [List.cons_append, List.cons.injEq] at hafter
            have hmem : o' ∈ body := by simp [hgap, hafter.1]
            rw [hbody o' hmem] at ho'
            cases ho'
  | cons b before =>
      simp only [List.cons_append, List.cons.injEq] at heq
      exact hrest before o between o' after (by simpa using heq.2) ho ho'

/-- The runner hooks the output around every call of a function: whatever the functions do but
hook it again, the calls are bracketed. -/
theorem bracketed_calls (cs : List (HookOp F U × List (HookOp F U)))
    (hcs : ∀ c ∈ cs, ∀ o ∈ c.2, o.opens = false) :
    Bracketed (cs.flatMap fun c => c.1 :: c.2 ++ [.unhook]) := by
  induction cs with
  | nil => exact bracketed_nil
  | cons c cs ih =>
      have hrest := ih fun c' hc' => hcs c' (by simp [hc'])
      have hcalls := hrest.session c.1 (hcs c (by simp))
      simpa using hcalls

/-- A session is open after these calls. -/
def SessionOpen (ops : List (HookOp F U)) : Prop :=
  ∃ before op body, ops = before ++ op :: body ∧ op.opens = true ∧ HookOp.unhook ∉ body

/-- Without an open session the state is idle. -/
theorem idle_after (ops : List (HookOp F U)) (h : ¬ SessionOpen ops) :
    Idle (iohook.after .loaded ops) := by
  induction ops using List.reverseRecOn with
  | nil => exact idle_loaded
  | append_singleton ops op ih =>
      rw [Machine.after_concat]
      by_cases hunhook : op = .unhook
      · subst hunhook
        exact idle_unhook _
      · have hop : op.opens = false := by
          by_contra hop
          exact h ⟨ops, op, [], by simp, by simpa using hop, by simp⟩
        refine (Idle.step (ih ?_) hop).1
        rintro ⟨before, op', body, rfl, hopens, hbody⟩
        refine h ⟨before, op', body ++ [op], by simp, hopens, ?_⟩
        simp only [List.mem_append, List.mem_singleton, not_or]
        exact ⟨hbody, fun heq => hunhook heq.symm⟩

theorem isBlocked_step (st : IoHook F) (op : HookOp F U) :
    (iohook st op).1.isBlocked = op.blocks st.isBlocked := by
  have hprintout : ∀ args : List (Value F U), (printout st args).1.isBlocked = st.isBlocked := by
    intro args
    rw [printout]
    split_ifs <;> rfl
  have hwrite : ∀ (w : Writer) (args : List (Value F U)),
      (w.write st args).1.isBlocked = st.isBlocked := by
    intro w args
    cases w with
    | printout => exact hprintout args
    | stdwriter => exact hprintout args
    | _ => rfl
  cases op with
  | hook hookfn startfn endfn =>
      by_cases hop : (HookOp.hook hookfn startfn endfn).opens = true
      · exact (hook_accepted st hop).2.2.1
      · obtain ⟨msg, hrun⟩ := hook_rejected st (by simpa using hop)
        rw [iohook, hrun]
        rfl
  | unhook => rfl
  | block => rfl
  | unblock => rfl
  | print args => exact hwrite st.print args
  | stdout args => exact hwrite st.stdout args
  | stderr args => exact hwrite st.stderr args
  | savedPrint args => exact hwrite .printout args
  | savedWriter args => exact hwrite .stdwriter args

/-- Nothing but `block` and `unblock` decides whether the module is blocked. -/
theorem isBlocked_after (st : IoHook F) (ops : List (HookOp F U)) :
    (iohook.after st ops).isBlocked = blockedAfter st.isBlocked ops := by
  induction ops generalizing st with
  | nil => rfl
  | cons op ops ih =>
      rw [Machine.after_cons, ih, isBlocked_step]
      rfl

/-- The sessions of a sequence of calls, made from the state in which the module was loaded. -/
structure WellBracketed (ops : List (HookOp F U)) : Prop where
  /-- No callback is called when a session begins. -/
  begins : ∀ before op rest, ops = before ++ op :: rest → op.opens = true →
    callbackCalls (iohook (iohook.after .loaded before) op).2 = []
  /-- At every moment of a session exactly the unblocked outputs made so far have been reported,
  in order, behind one call of the start callback. -/
  reports : ∀ before hookfn startfn endfn body rest,
    ops = before ++ .hook hookfn startfn endfn :: body ++ rest →
    (HookOp.hook hookfn startfn endfn).opens = true → HookOp.unhook ∉ body →
    callbackCalls (iohook.events
        (iohook (iohook.after .loaded before) (.hook hookfn startfn endfn)).1 body)
      = outputCalls false hookfn startfn (unblockedOutputs (blockedAfter false before) body)
  /-- The end callback is called at the `unhook`, if an output was reported. -/
  ends : ∀ before hookfn startfn endfn body rest,
    ops = before ++ .hook hookfn startfn endfn :: body ++ .unhook :: rest →
    (HookOp.hook hookfn startfn endfn).opens = true → HookOp.unhook ∉ body →
    callbackCalls (iohook
        (iohook.after .loaded (before ++ .hook hookfn startfn endfn :: body)) .unhook).2
      = if unblockedOutputs (blockedAfter false before) body = [] then []
        else calledAs .finish endfn
  /-- No callback is called outside of a session. -/
  outside : ∀ before op rest, ops = before ++ op :: rest → ¬ SessionOpen before →
    callbackCalls (iohook (iohook.after .loaded before) op).2 = []
  /-- After every `unhook` the globals are the captured ones. -/
  restores : ∀ before rest, ops = before ++ .unhook :: rest →
    (iohook.after .loaded (before ++ [.unhook])).print = .print ∧
      (iohook.after .loaded (before ++ [.unhook])).stdout = .stdout ∧
      (iohook.after .loaded (before ++ [.unhook])).stderr = .stderr
  /-- A `hook` that is not accepted raises an error and changes nothing. -/
  rejects : ∀ before hookfn startfn endfn rest,
    ops = before ++ .hook hookfn startfn endfn :: rest →
    (HookOp.hook hookfn startfn endfn).opens = false →
    ∃ msg, iohook (iohook.after .loaded before) (.hook hookfn startfn endfn)
      = (iohook.after .loaded before, [.raised msg])

/-- Within a session nothing opens another one. -/
theorem Bracketed.body {ops before body rest : List (HookOp F U)} {op : HookOp F U}
    (h : Bracketed ops) (heq : ops = before ++ op :: body ++ rest) (hop : op.opens = true)
    (hbody : HookOp.unhook ∉ body) : ∀ o ∈ body, o.opens = false ∧ o ≠ .unhook := by
  intro o ho
  refine ⟨?_, fun heq => hbody (heq ▸ ho)⟩
  by_contra hopens
  obtain ⟨body', body'', rfl⟩ := List.append_of_mem ho
  have hmem := h before op body' o (body'' ++ rest) (by simp [heq]) hop (by simpa using hopens)
  exact hbody (by simp [hmem])

/-- **The sessions of the output hooks are well bracketed.** -/
theorem iohook_bracketed (ops : List (HookOp F U)) (h : Bracketed ops) : WellBracketed ops where
  begins before op rest _ hop := by
    cases op with
    | hook hookfn startfn endfn =>
        rw [iohook, (hook_accepted _ hop).2.2.2]
        rfl
    | _ => cases hop
  reports before hookfn startfn endfn body rest heq hop hbody := by
    obtain ⟨hhooked, hstarted, hblocked, _⟩ := hook_accepted (iohook.after .loaded before) hop
    obtain ⟨_, _, hcalls⟩ := hhooked.run (h.body heq hop hbody)
    rw [hstarted, hblocked, isBlocked_after] at hcalls
    exact hcalls
  ends before hookfn startfn endfn body rest heq hop hbody := by
    obtain ⟨hhooked, hstarted, hblocked, _⟩ := hook_accepted (iohook.after .loaded before) hop
    obtain ⟨hend, hended, _⟩ := hhooked.run (h.body heq hop hbody)
    rw [hstarted, hblocked, isBlocked_after] at hended
    rw [Machine.after_append, Machine.after_cons]
    show callbackCalls (unhook (iohook.after (hook _ hookfn startfn endfn).1 body)).2 = _
    rw [hend.unhook_calls, hended]
    show (if (false || !(unblockedOutputs (blockedAfter false before) body).isEmpty) = true
      then _ else _) = _
    cases unblockedOutputs (blockedAfter false before) body <;> simp
  outside before op rest _ hclosed := by
    have hidle := idle_after before hclosed
    by_cases hop : op.opens = true
    · cases op with
      | hook hookfn startfn endfn =>
          rw [iohook, (hook_accepted _ hop).2.2.2]
          rfl
      | _ => cases hop
    · exact (hidle.step (by simpa using hop)).2
  restores before rest _ := by
    rw [Machine.after_concat]
    exact ⟨rfl, rfl, rfl⟩
  rejects before hookfn startfn endfn rest _ hop := hook_rejected _ hop

/-- Two sessions.  Between them the function of the first one outputs something through the
`print` it saved, and the module is blocked; the second one unblocks it. -/
def twoSessions : List (HookOp Nat Unit) :=
  .hook (.function 1) (.function 2) .nil :: [.print [.integer 1], .stdout [.integer 2]] ++
    .unhook :: ([.savedPrint [.integer 3], .block] ++
      (.hook (.function 4) (.function 5) (.function 6) ::
        [.stderr [.integer 7], .unblock, .savedWriter [.integer 8]] ++ .unhook :: []))

/-- What is output between the sessions or while the module is blocked reaches no callback, and
neither keeps the second session from starting. -/
theorem twoSessions_bracketed :
    callbackCalls (iohook.events .loaded twoSessions)
      = [.start 2, .hook 1 [.integer 1], .hook 1 [.integer 2], .start 5, .hook 4 [.integer 8],
        .finish 6] ∧
      WellBracketed twoSessions := by
  refine ⟨rfl, iohook_bracketed twoSessions ?_⟩
  refine Bracketed.session ?_ _ (by simp [HookOp.opens])
  refine Bracketed.append ?_ (by simp [HookOp.opens])
  exact Bracketed.session bracketed_nil _ (by simp [HookOp.opens])

end Testcase
