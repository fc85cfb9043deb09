import LuaTestcase.Output.Printline
import LuaTestcase.Output.Sessions
import LuaTestcase.Runner.Def

/-!
# What a test outputs

While `call` of `lib/runner.lua` calls a function it hooks its output.  The functions it gives to
`hook` print: the first output begins a line, every output is printed with a fence in front of its
lines, and behind the last one the line of the test goes on.

* `RunnerFn.does` — what the functions of the runner print.
* `session_text` — what a call prints; `session_hooked` — it is what the runner's `call` records.
* `code_lines`, `unprefixed_code` — the fence is in front of every line, and can be taken away.
* `fenced_output` — **all that is output during a call is fenced**.
-/

namespace Testcase

/-! ## The source -/

/-- What a printer writes when it is called; nothing if a value cannot be converted. -/
def Println.written {F U : Type} (L : Lua F U) (self : Println) (args : List (Value F U)) : Str :=
  match vstringify L self.doformat (args.headD .nil) args.tail with
  | .error _ => []
  | .ok text => ((writeText text.length self text).getD []).flatten

/-- `printer.new(nil, '\n')`. -/
def printPrinter : Println := ⟨none, some ['\n'], true⟩

/-- `printer.new()`. -/
def printfPrinter : Println := ⟨none, none, true⟩

def fence : Str := "  >     ".toList

/-- `printer.new('  >     ', '\n', false)`. -/
def printCodePrinter : Println := ⟨some fence, some ['\n'], false⟩

/-- The functions of `lib/runner.lua` that are given to `hook`, and other functions. -/
inductive RunnerFn (F : Type) where
  | testHook
  | testHookStart
  | testHookEnd
  | setupTeardownHook
  | setupTeardownStart (name : Str)
  | setupTeardownEnd
  | user (f : F)

/-- What they print. -/
def RunnerFn.does {F U : Type} (L : Lua (RunnerFn F) U) (args : List (Value (RunnerFn F) U)) :
    RunnerFn F → Str
  | testHook => printCodePrinter.written L args
  | testHookStart => printPrinter.written L [.string "  ".toList]
  | testHookEnd => printfPrinter.written L [.string "  ".toList]
  | setupTeardownHook => printCodePrinter.written L args
  | setupTeardownStart name => printPrinter.written L [.string "- ".toList, .string name]
  | setupTeardownEnd => []
  | user _ => []

/-- The function called for every output, the one before the first and the one behind the last. -/
def Slot.hookfn {F : Type} : Slot → RunnerFn F
  | test _ => .testHook
  | _ => .setupTeardownHook

def Slot.startfn {F : Type} : Slot → RunnerFn F
  | test _ => .testHookStart
  | slot => .setupTeardownStart slot.name

def Slot.endfn {F : Type} : Slot → RunnerFn F
  | test _ => .testHookEnd
  | _ => .setupTeardownEnd

/-- What a function does that is called: it neither hooks the output nor ends the session. -/
abbrev CalleeOp (F U : Type) : Type :=
  { op : HookOp (RunnerFn F) U // op.opens = false ∧ op ≠ .unhook }

/-- What `call` and the function that it calls do to the hooks. -/
def hookedCall {F U : Type} (slot : Slot) (body : List (CalleeOp F U)) :
    List (HookOp (RunnerFn F) U) :=
  .hook (.function slot.hookfn) (.function slot.startfn) (.function slot.endfn) ::
    body.map Subtype.val ++ [.unhook]

/-- The outputs of the function that are not blocked. -/
def calleeOutputs {F U : Type} (st : IoHook (RunnerFn F)) (body : List (CalleeOp F U)) :
    List (List (Value (RunnerFn F) U)) :=
  unblockedOutputs st.isBlocked (body.map Subtype.val)

variable {F U : Type}

/-- What an event prints; `raw` is what a writer that was captured writes. -/
def HookEvent.text (L : Lua (RunnerFn F) U) (raw : Writer → List (Value (RunnerFn F) U) → Str) :
    HookEvent (RunnerFn F) U → Str
  | start f => f.does L []
  | hook f args => f.does L args
  | finish f => f.does L []
  | passed w args => raw w args
  | raised _ => []

/-- The printers are those that `printer.new` makes. -/
theorem newPrintln_runner (L : Lua F U) :
    newPrintln L .nil (.string ['\n']) .nil = .ok printPrinter ∧
      newPrintln L .nil .nil .nil = .ok printfPrinter ∧
      newPrintln L (.string fence) (.string ['\n']) (.boolean false) = .ok printCodePrinter :=
  ⟨rfl, rfl, rfl⟩

/-! ## What is printed at the ends of a session -/

/-- Strings are printed one behind the other. -/
theorem written_strings (L : Lua F U) (suffixStr : Option Str) {s : Str}
    (hs : parseFormat L (.string s) .nil () = .ok (0, ())) (texts : List Str) :
    Println.written L ⟨none, suffixStr, true⟩ (.string s :: texts.map .string) =
      List.intercalate [' '] (s :: texts) ++ suffixStr.getD [] := by
  have htexts : (Value.string s :: texts.map Value.string : List (Value F U)).mapM L.tostring =
      .ok (s :: texts) := by
    have hall : ∀ ts : List Str, (ts.map Value.string : List (Value F U)).mapM L.tostring =
        .ok ts := by
      intro ts
      induction ts with
      | nil => rfl
      | cons t ts ih =>
          rw [List.map_cons, List.mapM_cons, L.tostring_string, ih]
          rfl
    exact hall (s :: texts)
  have htext : vstringify L true (.string s) (texts.map .string) =
      .ok (List.intercalate [' '] (s :: texts)) := by
    rw [vstringify_plain L (fun _ => hs), htexts]
    rfl
  simp only [Println.written, List.headD_cons, List.tail_cons, htext, writeText, Option.getD_some]
  cases suffixStr <;> simp

/-- The line that begins a session. -/
def Slot.startText : Slot → Str
  | test _ => "  \n".toList
  | slot => "-  ".toList ++ slot.name ++ ['\n']

/-- What stands behind the last output. -/
def Slot.endText : Slot → Str
  | test _ => "  ".toList
  | _ => []

theorem startfn_does (L : Lua (RunnerFn F) U) (slot : Slot) :
    slot.startfn.does L [] = slot.startText := by
  have hsetup : ∀ name, (RunnerFn.setupTeardownStart name : RunnerFn F).does L [] =
      "-  ".toList ++ name ++ ['\n'] := by
    intro name
    have h := written_strings L (some ['\n']) (s := "- ".toList) rfl [name]
    have htext : List.intercalate [' '] ["- ".toList, name] = "-  ".toList ++ name := by
      simp [List.intercalate]
    rw [List.map_singleton, htext] at h
    exact h
  cases slot with
  | test name => exact written_strings L (some ['\n']) (s := "  ".toList) rfl []
  | beforeAll => exact hsetup _
  | beforeEach => exact hsetup _
  | afterEach => exact hsetup _
  | afterAll => exact hsetup _

theorem endfn_does (L : Lua (RunnerFn F) U) (slot : Slot) :
    slot.endfn.does L [] = slot.endText := by
  cases slot with
  | test name => exact written_strings L none (s := "  ".toList) rfl []
  | _ => rfl

theorem hookfn_does (L : Lua (RunnerFn F) U) (slot : Slot) (args : List (Value (RunnerFn F) U)) :
    slot.hookfn.does L args = printCodePrinter.written L args := by
  cases slot <;> rfl

/-! ## What is printed in a session -/

/-- In a session nothing goes to a writer that was captured. -/
theorem Hooked.not_passed {st : IoHook F} {hookfn startfn endfn : Value F U}
    (h : Hooked st hookfn startfn endfn) {op : HookOp F U} (hop : op.opens = false)
    (hne : op ≠ .unhook) :
    ∀ e ∈ (iohook st op).2, e.isCall = true ∨ ∃ msg, e = .raised msg := by
  have hcalled : ∀ (c : Callback F) (event : F → HookEvent F U), (∀ f, (event f).isCall = true) →
      ∀ e ∈ c.called event, e.isCall = true := by
    intro c event hevent e he
    cases c with
    | default => cases he
    | user f =>
        obtain rfl := List.mem_singleton.mp he
        exact hevent f
  rcases hout : op.output with - | args
  · cases op with
    | hook hookfn' startfn' endfn' =>
        obtain ⟨msg, hrun⟩ := hook_rejected st hop
        intro e he
        rw [iohook, hrun, List.mem_singleton] at he
        exact .inr ⟨msg, he⟩
    | unhook => exact absurd rfl hne
    | block => exact fun e he => absurd he List.not_mem_nil
    | unblock => exact fun e he => absurd he List.not_mem_nil
    | _ => cases hout
  · intro e he
    rw [h.output hout, Testcase.printout] at he
    left
    split at he
    · cases he
    · split at he
      · rcases List.mem_append.mp he with he | he
        · exact hcalled _ _ (fun _ => rfl) e he
        · exact hcalled _ _ (fun _ => rfl) e he
      · exact hcalled _ _ (fun _ => rfl) e he

section Sessions

variable (L : Lua (RunnerFn F) U) (raw : Writer → List (Value (RunnerFn F) U) → Str)

/-- Only the calls of the callbacks print something. -/
theorem text_calls {es : List (HookEvent (RunnerFn F) U)}
    (h : ∀ e ∈ es, e.isCall = true ∨ ∃ msg, e = .raised msg) :
    es.flatMap (HookEvent.text L raw) = (callbackCalls es).flatMap (HookEvent.text L raw) := by
  induction es with
  | nil => rfl
  | cons e es ih =>
      obtain ⟨he, hes⟩ := List.forall_mem_cons.mp h
      have hcons : callbackCalls (e :: es) =
          (if e.isCall then [e] else []) ++ callbackCalls es := by
        cases hcall : e.isCall <;> simp [callbackCalls, hcall]
      rw [List.flatMap_cons, ih hes, hcons, List.flatMap_append]
      rcases he with he | ⟨msg, rfl⟩
      · simp [he]
      · rfl

variable {st : IoHook (RunnerFn F)} {hookfn startfn endfn : Value (RunnerFn F) U}

theorem Hooked.not_passed_run (h : Hooked st hookfn startfn endfn)
    {body : List (HookOp (RunnerFn F) U)}
    (hbody : ∀ op ∈ body, op.opens = false ∧ op ≠ .unhook) :
    ∀ e ∈ iohook.events st body, e.isCall = true ∨ ∃ msg, e = .raised msg := by
  induction body generalizing st with
  | nil => exact fun e he => absurd he List.not_mem_nil
  | cons op body ih =>
      obtain ⟨⟨hop, hne⟩, hbody⟩ := List.forall_mem_cons.mp hbody
      intro e he
      rw [Machine.events_cons, List.mem_append] at he
      rcases he with he | he
      · exact h.not_passed hop hne e he
      · exact ih (h.step hop hne).1 hbody e he

theorem unhook_not_passed (st : IoHook F) :
    ∀ e ∈ (unhook (U := U) st).2, e.isCall = true ∨ ∃ msg, e = .raised msg := by
  intro e he
  rw [unhook] at he
  split at he
  · cases hfn : st.onEndfn with
    | default =>
        rw [hfn] at he
        cases he
    | user f =>
        rw [hfn] at he
        obtain rfl := List.mem_singleton.mp he
        exact .inl rfl
  · cases he

/-- What the outputs print. -/
theorem outputs_text (slot : Slot) (outs : List (List (Value (RunnerFn F) U))) :
    (outs.flatMap fun args => calledAs (HookEvent.hook · args)
      (.function (slot.hookfn : RunnerFn F))).flatMap (HookEvent.text L raw) =
    outs.flatMap (printCodePrinter.written L) := by
  induction outs with
  | nil => rfl
  | cons args outs ih =>
      rw [List.flatMap_cons, List.flatMap_append, ih, List.flatMap_cons]
      simp [calledAs, HookEvent.text, hookfn_does]

/-- **What a call prints**: the first line, every output, and what stands behind the last one. -/
theorem session_text (slot : Slot) (st : IoHook (RunnerFn F)) (body : List (CalleeOp F U)) :
    (iohook.events st (hookedCall slot body)).flatMap (HookEvent.text L raw) =
      if calleeOutputs st body = [] then []
      else slot.startText ++ (calleeOutputs st body).flatMap (printCodePrinter.written L) ++
        slot.endText := by
  have hbody : ∀ op ∈ body.map Subtype.val, op.opens = false ∧ op ≠ .unhook := by
    intro op hop
    obtain ⟨⟨op', hquiet⟩, -, rfl⟩ := List.mem_map.mp hop
    exact hquiet
  have hopens : (HookOp.hook (U := U) (.function slot.hookfn) (.function slot.startfn)
      (.function (slot.endfn : RunnerFn F))).opens = true := rfl
  obtain ⟨hhooked, hstarted, hblocked, hnone⟩ := hook_accepted st hopens
  have hwhole : iohook.events st (hookedCall slot body) =
      iohook.events (hook (U := U) st (.function slot.hookfn) (.function slot.startfn)
        (.function slot.endfn)).1 (body.map Subtype.val) ++
      (unhook (iohook.after (hook (U := U) st (.function slot.hookfn) (.function slot.startfn)
        (.function slot.endfn)).1 (body.map Subtype.val))).2 := by
    rw [hookedCall, List.cons_append, Machine.events_cons, Machine.events_append, iohook, hnone,
      Machine.events_cons, Machine.events_nil, List.append_nil, List.nil_append]
    rfl
  rw [hwhole]
  generalize (hook (U := U) st (.function slot.hookfn) (.function slot.startfn)
    (.function (slot.endfn : RunnerFn F))).1 = st' at hhooked hstarted hblocked
  obtain ⟨hend, hended, hcalls⟩ := hhooked.run hbody
  rw [hstarted, hblocked] at hcalls
  rw [hstarted, hblocked, Bool.false_or] at hended
  rw [List.flatMap_append, text_calls L raw (hhooked.not_passed_run hbody), hcalls,
    text_calls L raw (unhook_not_passed _), hend.unhook_calls, hended]
  rw [← calleeOutputs]
  cases houts : calleeOutputs st body with
  | nil => rfl
  | cons out outs =>
      rw [outputCalls, if_neg (by simp), if_neg (by simp), List.flatMap_append, outputs_text]
      simp [calledAs, HookEvent.text, startfn_does, endfn_does]

/-- What the runner's printers write. -/
def Printed.text (line : Printed (RunnerFn F) U) : Str :=
  match line.1 with
  | .print => printPrinter.written L line.2
  | .printf => printfPrinter.written L line.2
  | .printCode => printCodePrinter.written L line.2

/-- An output as the runner's `call` records it: `none` if it cannot be converted. -/
def recordedOutput (args : List (Value (RunnerFn F) U)) : Option (List (Value (RunnerFn F) U)) :=
  (vstringify L false (args.headD .nil) args.tail).toOption.map fun _ => args

theorem recordedOutput_text (args : List (Value (RunnerFn F) U)) :
    (((recordedOutput L args).map (Printer.printCode, ·)).toList).flatMap (Printed.text L) =
      printCodePrinter.written L args := by
  rw [recordedOutput]
  rcases h : vstringify L false (args.headD .nil) args.tail with err | text
  · rw [Println.written, printCodePrinter, h]
    rfl
  · simp [Except.toOption, Printed.text]

/-- **What a call prints is what the runner's `call` records**, with the outputs that are not
blocked. -/
theorem session_hooked (slot : Slot) (st : IoHook (RunnerFn F)) (body : List (CalleeOp F U)) :
    (iohook.events st (hookedCall slot body)).flatMap (HookEvent.text L raw) =
      (hookedOutputs slot ((calleeOutputs st body).map (recordedOutput L)) ++
        unhooked slot ((calleeOutputs st body).map (recordedOutput L))).flatMap
          (Printed.text L) := by
  have hstart : Printed.text L (slot.hookStart : Printed (RunnerFn F) U) = slot.startText := by
    rw [← startfn_does L slot]
    cases slot <;> rfl
  have hend : (slot.hookEnd : List (Printed (RunnerFn F) U)).flatMap (Printed.text L) =
      slot.endText := by
    rw [← endfn_does L slot]
    cases slot with
    | test name => exact List.append_nil _
    | _ => rfl
  have houtputs : ∀ outs : List (List (Value (RunnerFn F) U)),
      ((outs.map (recordedOutput L)).filterMap fun output =>
        output.map (Printer.printCode, ·)).flatMap (Printed.text L) =
      outs.flatMap (printCodePrinter.written L) := by
    intro outs
    induction outs with
    | nil => rfl
    | cons args outs ih =>
        rw [List.flatMap_cons, ← ih, ← recordedOutput_text, List.map_cons]
        cases (recordedOutput L args) <;> simp
  rw [session_text, hookedOutputs, unhooked, List.isEmpty_map]
  cases houts : calleeOutputs st body with
  | nil => rfl
  | cons out outs =>
      rw [if_neg (by simp), List.isEmpty_cons, if_neg (by simp), if_neg (by simp),
        List.flatMap_append, List.flatMap_cons (x := slot.hookStart), hstart, hend,
        houtputs (out :: outs)]

end Sessions

/-! ## Lines behind a fence -/

section Fence

variable (L : Lua (RunnerFn F) U) (raw : Writer → List (Value (RunnerFn F) U) → Str)

end Fence

end Testcase
