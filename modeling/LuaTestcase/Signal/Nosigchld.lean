import Mathlib.Data.List.Induction
import LuaTestcase.Core.Kernel
import LuaTestcase.Core.Machine
import LuaTestcase.Lua.Arguments

/-!
# `testcase.nosigchld`

The function of `src/nosigchld.c`, where `SIGCHLD` is defined.  Its state keeps the disposition that
was in force when the module's own handler was installed.  Other code may change the disposition
between the calls, and `sigaction` may fail in any of them.

* `call_cases` — **what a call does**, in four cases.
* `saved_of_enabled` — **in the enabled state**, the saved disposition is the one before the call
  that led there.
* `saves_and_restores` — what a call does after any history.
-/

namespace Testcase

/-- A signal handler: the default, ignoring the signal, the one of the module, or another one. -/
inductive SigHandler (H : Type) where
  | SIG_DFL
  | SIG_IGN
  | noop_handler
  | other (h : H)

/-- `struct sigaction`: a disposition. -/
structure Sigaction (H : Type) where
  sa_handler : SigHandler H
  sa_mask : Nat → Bool
  sa_flags : UInt32

/-- `nosigchld_t`. -/
structure Nosigchld (H : Type) where
  noop : Sigaction H
  saved : Sigaction H
  enabled : Bool

/-- `sigaction(SIGCHLD, act, oldact)`; the last argument may be `NULL`. -/
structure SigactionCall (H : Type) where
  act : Sigaction H
  oldact : Bool

/-- An `errno`, or the disposition before, which is stored. -/
abbrev SigactionReply (H : Type) : Type := Except Nat (Sigaction H)

section Module

variable {F U H : Type}

/-- `s->noop`. -/
def noopAction : Sigaction H := ⟨.noop_handler, fun _ => false, 0⟩

/-- `luaopen_testcase_nosigchld`. -/
def luaopenNosigchld : Nosigchld H where
  noop := noopAction
  saved := ⟨.SIG_DFL, fun _ => false, 0⟩
  enabled := false

/-- Change the handler, if the requested state is not the current one; with the `errno`. -/
def changeHandler (s : Nosigchld H) (enabled : Bool) :
    Dialogue (SigactionCall H) (SigactionReply H) (Nosigchld H × Nat) :=
  if s.enabled ≠ enabled then
    if enabled then do
      match ← .query ⟨s.noop, true⟩ with
      | .ok old => pure ({ s with saved := old, enabled := true }, 0)
      | .error errno => pure ({ s with enabled := false }, errno)
    else do
      match ← .query ⟨s.saved, false⟩ with
      | .ok _ => pure ({ s with enabled := false }, 0)
      | .error errno => pure (s, errno)
  else pure (s, 0)

/-- `nosigchld_lua`. -/
def nosigchldLua (lib : CLib F U) (s : Nosigchld H) (args : List (Value F U)) :
    Dialogue (SigactionCall H) (SigactionReply H) (Nosigchld H × CResult F U) := do
  let enabled := toboolean args 1
  let (s, errno) ← changeHandler s enabled
  if s.enabled = enabled then pure (s, .returned [.boolean true])
  else pure (s, .returned [.boolean false, .string (lib.strerror errno)])

/-! ## Histories -/

/-- `sigaction`, which fails with an `errno` or sets the disposition. -/
def sigaction (fails : Option Nat) (current : Sigaction H) (q : SigactionCall H) :
    Sigaction H × SigactionReply H :=
  match fails with
  | some errno => (current, .error errno)
  | none => (q.act, .ok current)

/-- The state of the module, and the disposition of the process. -/
structure Sigchld (H : Type) where
  module : Nosigchld H
  current : Sigaction H

/-- A call, in which `sigaction` may fail, or a change by other code. -/
inductive SigchldTurn (F U H : Type) where
  | call (args : List (Value F U)) (fails : Option Nat)
  | other (act : Sigaction H)

variable (lib : CLib F U)

/-- A call, served by the system. -/
def Sigchld.call (s : Sigchld H) (args : List (Value F U)) (fails : Option Nat) :
    Dialogue.Served (Sigaction H) (SigactionCall H) (SigactionReply H)
      (Nosigchld H × CResult F U) :=
  (nosigchldLua lib s.module args).serve (sigaction fails) s.current

/-- The module and the disposition as a machine; what is observed are the results. -/
def sigchldMachine : Machine (Sigchld H) (SigchldTurn F U H) (CResult F U) := fun s t =>
  match t with
  | .call args fails =>
      let out := s.call lib args fails
      (⟨out.result.1, out.state⟩, [out.result.2])
  | .other act => ({ s with current := act }, [])

/-- The state after a history that begins when the module is opened. -/
def sigchldAfter (current : Sigaction H) (ts : List (SigchldTurn F U H)) : Sigchld H :=
  (sigchldMachine lib).after ⟨luaopenNosigchld, current⟩ ts

/-! ## One call -/

variable {lib}

/-- **What a call does**: nothing, as the state is the requested one, or as `sigaction` fails; or it
enters the enabled state, or leaves it. -/
theorem call_cases (lib : CLib F U) (s : Sigchld H) (args : List (Value F U)) (fails : Option Nat) :
    (s.module.enabled = toboolean args 1 ∧
      s.call lib args fails = ⟨s.current, [], s.module, .returned [.boolean true]⟩) ∨
    (s.module.enabled ≠ toboolean args 1 ∧ ∃ errno q, fails = some errno ∧
      s.call lib args fails = ⟨s.current, [(q, .error errno)], s.module,
        .returned [.boolean false, .string (lib.strerror errno)]⟩) ∨
    (s.module.enabled = false ∧ toboolean args 1 = true ∧ fails = none ∧
      s.call lib args fails = ⟨s.module.noop, [(⟨s.module.noop, true⟩, .ok s.current)],
        { s.module with saved := s.current, enabled := true }, .returned [.boolean true]⟩) ∨
    (s.module.enabled = true ∧ toboolean args 1 = false ∧ fails = none ∧
      s.call lib args fails = ⟨s.module.saved, [(⟨s.module.saved, false⟩, .ok s.current)],
        { s.module with enabled := false }, .returned [.boolean true]⟩) := by
  obtain ⟨⟨noop, saved, enabled⟩, current⟩ := s
  rw [Sigchld.call, nosigchldLua]
  generalize toboolean args 1 = requested
  cases enabled with
  | false =>
      cases requested with
      | false => exact .inl ⟨rfl, rfl⟩
      | true =>
          cases fails with
          | none => exact .inr (.inr (.inl ⟨rfl, rfl, rfl, rfl⟩))
          | some errno => exact .inr (.inl ⟨by simp, errno, _, rfl, rfl⟩)
  | true =>
      cases requested with
      | true => exact .inl ⟨rfl, rfl⟩
      | false =>
          cases fails with
          | none => exact .inr (.inr (.inr ⟨rfl, rfl, rfl, rfl⟩))
          | some errno => exact .inr (.inl ⟨by simp, errno, _, rfl, rfl⟩)

/-! ## The enabled state -/

/-- The last turn that led from the disabled state to the enabled one, with the history before it.
-/
structure Entered (lib : CLib F U) (current : Sigaction H) (ts before : List (SigchldTurn F U H)) :
    Prop where
  disabled : (sigchldAfter lib current before).module.enabled = false
  enters : ∃ args fails since, ts = before ++ .call args fails :: since ∧
    toboolean args 1 = true ∧
    ∀ part, part <+: since →
      (sigchldAfter lib current (before ++ .call args fails :: part)).module.enabled = true

variable {current : Sigaction H} {ts before : List (SigchldTurn F U H)}

theorem sigchldAfter_concat (lib : CLib F U) (current : Sigaction H)
    (ts : List (SigchldTurn F U H)) (t : SigchldTurn F U H) :
    sigchldAfter lib current (ts ++ [t]) = (sigchldMachine lib (sigchldAfter lib current ts) t).1 :=
  Machine.after_concat _ _ _ _

/-- A turn that keeps the enabled state. -/
theorem Entered.concat (h : Entered lib current ts before) {t : SigchldTurn F U H}
    (hkeeps : (sigchldAfter lib current (ts ++ [t])).module.enabled = true) :
    Entered lib current (ts ++ [t]) before := by
  obtain ⟨args, fails, since, rfl, hargs, hsince⟩ := h.enters
  refine ⟨h.disabled, args, fails, since ++ [t], by simp, hargs, ?_⟩
  intro part hpart
  rcases List.prefix_concat_iff.mp hpart with rfl | hpart
  · simpa using hkeeps
  · exact hsince part hpart

/-- The module keeps its own disposition. -/
theorem after_noop (ts : List (SigchldTurn F U H)) :
    (sigchldAfter lib current ts).module.noop = noopAction := by
  induction ts using List.reverseRecOn with
  | nil => rfl
  | append_singleton ts t ih =>
      rw [sigchldAfter_concat]
      cases t with
      | other act => exact ih
      | call args fails =>
          rw [sigchldMachine]
          rcases call_cases lib (sigchldAfter lib current ts) args fails with
            ⟨-, h⟩ | ⟨-, _, _, -, h⟩ | ⟨-, -, -, h⟩ | ⟨-, -, -, h⟩ <;> rw [h] <;> exact ih

/-- **In the enabled state** the saved disposition is the one that was in force before the call that
led there. -/
theorem saved_of_enabled (henabled : (sigchldAfter lib current ts).module.enabled = true) :
    ∃ before, Entered lib current ts before ∧
      (sigchldAfter lib current ts).module.saved = (sigchldAfter lib current before).current := by
  induction ts using List.reverseRecOn with
  | nil => cases henabled
  | append_singleton ts t ih =>
      have hstep := sigchldAfter_concat lib current ts t
      cases t with
      | other act =>
          rw [sigchldMachine] at hstep
          have hmodule : (sigchldAfter lib current (ts ++ [.other act])).module =
            (sigchldAfter lib current ts).module := by rw [hstep]
          obtain ⟨before, hbefore, hsaved⟩ := ih (by rwa [← hmodule])
          exact ⟨before, hbefore.concat henabled, by rw [hmodule, hsaved]⟩
      | call args fails =>
          rw [sigchldMachine] at hstep
          -- a call that changes nothing keeps what is saved
          have hkeeps (hsame : sigchldAfter lib current (ts ++ [.call args fails]) =
              sigchldAfter lib current ts) :
              ∃ before, Entered lib current (ts ++ [.call args fails]) before ∧
                (sigchldAfter lib current (ts ++ [.call args fails])).module.saved =
                  (sigchldAfter lib current before).current := by
            obtain ⟨before, hbefore, hsaved⟩ := ih (by rwa [← hsame])
            exact ⟨before, hbefore.concat henabled, by rw [hsame, hsaved]⟩
          rcases call_cases lib (sigchldAfter lib current ts) args fails with
            ⟨-, h⟩ | ⟨-, _, _, -, h⟩ | ⟨hdisabled, hargs, -, h⟩ | ⟨-, -, -, h⟩
          · exact hkeeps (by rw [hstep, h])
          · exact hkeeps (by rw [hstep, h])
          · refine ⟨ts, ⟨hdisabled, args, fails, [], rfl, hargs, ?_⟩, by rw [hstep, h]⟩
            intro part hpart
            rw [List.prefix_nil.mp hpart]
            exact henabled
          · rw [hstep, h] at henabled
            cases henabled

/-! ## Calls after any history -/

/-- What holds of a call in a state. -/
structure SavesAndRestores (lib : CLib F U) (current : Sigaction H) (ts : List (SigchldTurn F U H))
    (args : List (Value F U)) (fails : Option Nat) : Prop where
  /-- It returns `true` if and only if the state is the requested one. -/
  returns : ((sigchldAfter lib current ts).call lib args fails).result.2 =
      .returned [.boolean true] ↔
    ((sigchldAfter lib current ts).call lib args fails).result.1.enabled = toboolean args 1
  /-- It does so if `sigaction` does not fail. -/
  succeeds : fails = none →
    ((sigchldAfter lib current ts).call lib args fails).result.2 = .returned [.boolean true]
  /-- A call that fails changes nothing. -/
  failing : ((sigchldAfter lib current ts).call lib args fails).result.2 ≠
      .returned [.boolean true] →
    sigchldAfter lib current (ts ++ [.call args fails]) = sigchldAfter lib current ts
  /-- Neither does a redundant one, and it makes no system call. -/
  redundant : (sigchldAfter lib current ts).module.enabled = toboolean args 1 →
    sigchldAfter lib current (ts ++ [.call args fails]) = sigchldAfter lib current ts ∧
      ((sigchldAfter lib current ts).call lib args fails).log = []
  /-- One that enters the enabled state installs the disposition of the module. -/
  installs : (sigchldAfter lib current ts).module.enabled = false →
    (sigchldAfter lib current (ts ++ [.call args fails])).module.enabled = true →
    (sigchldAfter lib current (ts ++ [.call args fails])).current = noopAction
  /-- One that leaves it restores what was in force before it was entered. -/
  restores : (sigchldAfter lib current ts).module.enabled = true →
    (sigchldAfter lib current (ts ++ [.call args fails])).module.enabled = false →
    ∃ before, Entered lib current ts before ∧
      (sigchldAfter lib current (ts ++ [.call args fails])).current =
        (sigchldAfter lib current before).current

/-- A call that changes nothing. -/
theorem SavesAndRestores.of_same {args : List (Value F U)} {fails : Option Nat}
    (hsame : sigchldAfter lib current (ts ++ [.call args fails]) = sigchldAfter lib current ts)
    (hreturns : ((sigchldAfter lib current ts).call lib args fails).result.2 =
        .returned [.boolean true] ↔
      ((sigchldAfter lib current ts).call lib args fails).result.1.enabled = toboolean args 1)
    (hsucceeds : fails = none →
      ((sigchldAfter lib current ts).call lib args fails).result.2 = .returned [.boolean true])
    (hlog : (sigchldAfter lib current ts).module.enabled = toboolean args 1 →
      ((sigchldAfter lib current ts).call lib args fails).log = []) :
    SavesAndRestores lib current ts args fails := by
  refine ⟨hreturns, hsucceeds, fun _ => hsame, fun heq => ⟨hsame, hlog heq⟩, ?_, ?_⟩
  · rw [hsame]
    exact fun hoff hon => Bool.noConfusion (hoff.symm.trans hon)
  · rw [hsame]
    exact fun hon hoff => Bool.noConfusion (hoff.symm.trans hon)

/-- **What is saved is restored**, over all histories. -/
theorem saves_and_restores (lib : CLib F U) (current : Sigaction H)
    (ts : List (SigchldTurn F U H)) (args : List (Value F U)) (fails : Option Nat) :
    SavesAndRestores lib current ts args fails := by
  have hstep : sigchldAfter lib current (ts ++ [.call args fails]) =
      ⟨((sigchldAfter lib current ts).call lib args fails).result.1,
        ((sigchldAfter lib current ts).call lib args fails).state⟩ :=
    sigchldAfter_concat lib current ts _
  rcases call_cases lib (sigchldAfter lib current ts) args fails with
    ⟨heq, h⟩ | ⟨hne, _, _, hfails, h⟩ | ⟨hdisabled, hargs, -, h⟩ | ⟨henabled, hargs, -, h⟩
  · refine .of_same (by rw [hstep, h]) ?_ (fun _ => by rw [h]) fun _ => by rw [h]
    rw [h]
    exact ⟨fun _ => heq, fun _ => rfl⟩
  · refine .of_same (by rw [hstep, h]) ?_ (fun hnone => ?_) fun heq => absurd heq hne
    · rw [h]
      exact ⟨fun heq => by simp at heq, fun heq => absurd heq hne⟩
    · rw [hfails] at hnone
      cases hnone
  · refine ⟨?_, fun _ => by rw [h], ?_, ?_, ?_, ?_⟩
    · rw [h]
      exact ⟨fun _ => hargs.symm, fun _ => rfl⟩
    · rw [h]
      exact fun hne => absurd rfl hne
    · exact fun heq => Bool.noConfusion ((hdisabled.symm.trans heq).trans hargs)
    · rw [hstep, h]
      exact fun _ _ => after_noop ts
    · exact fun hon => Bool.noConfusion (hdisabled.symm.trans hon)
  · refine ⟨?_, fun _ => by rw [h], ?_, ?_, ?_, ?_⟩
    · rw [h]
      exact ⟨fun _ => hargs.symm, fun _ => rfl⟩
    · rw [h]
      exact fun hne => absurd rfl hne
    · exact fun heq => Bool.noConfusion ((henabled.symm.trans heq).trans hargs)
    · exact fun hoff => Bool.noConfusion (hoff.symm.trans henabled)
    · rw [hstep, h]
      exact fun _ _ => saved_of_enabled henabled

end Module

end Testcase
