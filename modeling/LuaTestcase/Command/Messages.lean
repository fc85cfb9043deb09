import LuaTestcase.Command.Loading
import LuaTestcase.Command.Options
import LuaTestcase.Output.Legible
import LuaTestcase.Runner.Directory
import LuaTestcase.Timer.Def

/-!
# The messages of the program

The runner and the command print with formats of their own, one of them put together with the format
that the timer returns.  What they print besides is the user's: names, pathnames, outputs and errors
of any kind, which may contain percent signs.

* `Interprets` — what is used of the interpreter: the conversions in these formats.
* `run_legible` — the messages of a run.
* `messages_legible` — **every message of the command is printed as it is meant**.
-/

namespace Testcase

open Act

variable {W F U : Type} {L : Lua F U}

/-! ## The interpreter and the timer -/

/-- `%q` and `%d`. -/
def quoteSpec : Spec := ⟨[], 'q'⟩

def decimalSpec : Spec := ⟨[], 'd'⟩

/-- A format of `nsec2utime`, and a number its conversion accepts. -/
def IsTime (L : Lua F U) (u : U) (fmt : Str) : Prop :=
  ∃ ns, fmt = (nsec2utime ns).format ∧
    ∀ sp ∈ specs (pieces none fmt), Converts L sp (.object .float u)

/-- The conversions accept what the manual says, `nil` has a text, and the timer returns a time or
the message of an `errno`. -/
structure Interprets (L : Lua F U) (env : Env W F U) : Prop where
  text_nil : ∃ t, L.tostring .nil = .ok t
  text : ∀ t, Converts L plainSpec (.string t)
  quote : ∀ t, Converts L quoteSpec (.string t)
  decimal : ∀ n, Converts L decimalSpec (.integer n)
  stop : ∀ w u fmt, (env.stop w).1 = (some u, fmt) → IsTime L u fmt
  stop_failed : ∀ w fmt, (env.stop w).1 = (none, fmt) → '%' ∉ fmt

/-- The formats of `nsec2utime`. -/
def timeFormats : List Str := ["%.3f m", "%.3f s", "%.3f ms", "%.3f us", "%d ns"].map String.toList

theorem nsec2utime_format (ns : UInt64) : (nsec2utime ns).format ∈ timeFormats := by
  simp only [nsec2utime]
  split_ifs <;> simp [timeFormats]

theorem IsTime.mem {u : U} {fmt : Str} (h : IsTime L u fmt) : fmt ∈ timeFormats := by
  obtain ⟨ns, rfl, -⟩ := h
  exact nsec2utime_format ns

theorem timeFormats_specs : ∀ fmt ∈ timeFormats,
    specs (pieces none fmt) = [⟨".3".toList, 'f'⟩] ∨ specs (pieces none fmt) = [decimalSpec] := by
  decide

/-- The one conversion of the format takes the time. -/
theorem IsTime.takes {u : U} {fmt : Str} (h : IsTime L u fmt) :
    Takes L (specs (pieces none fmt)) [.object .float u] := by
  obtain ⟨ns, hfmt, hconverts⟩ := h
  rcases timeFormats_specs fmt (hfmt ▸ nsec2utime_format ns) with hspecs | hspecs
  · rw [hspecs] at hconverts ⊢
    exact .cons (takes_value (by decide) (hconverts _ (List.mem_singleton_self _))) .nil
  · rw [hspecs] at hconverts ⊢
    exact .cons (takes_value (by decide) (hconverts _ (List.mem_singleton_self _))) .nil

/-- A time behind the verdict of a test. -/
theorem verdict_readAs : ∀ fmt ∈ timeFormats,
    ReadAs ("%s (".toList ++ fmt ++ [')']) (plainSpec :: specs (pieces none fmt)) := by
  decide

/-- A time behind the totals. -/
theorem total_readAs : ∀ fmt ∈ timeFormats,
    ReadAs (("### Total: %d successes, %d failures, " ++ "%d load failures (").toList ++ fmt ++
      [')']) (decimalSpec :: decimalSpec :: decimalSpec :: specs (pieces none fmt)) := by
  decide

/-! ## Messages -/

/-- The arguments of a printer, and whether it formats: `printCode` of the runner does not. -/
def Event.message : Event W F U → Option (Bool × List (Value F U))
  | .print printer args => some (printer != .printCode, args)
  | _ => none

/-- All printers of the command format. -/
def CommandEvent.message : CommandEvent W F U → Option (Bool × List (Value F U))
  | .print _ args => some (true, args)
  | .run e => e.message
  | _ => none

/-- Every value has a text, at the time it is printed. -/
def Texts (L : Lua F U) (args : List (Value F U)) : Prop := ∀ v ∈ args, ∃ t, L.tostring v = .ok t

/-- What is printed, if anything is, is printed as it is meant. -/
def Event.IsLegible (L : Lua F U) (e : Event W F U) : Prop :=
  ∀ m, e.message = some m → Texts L m.2 → Legible L m.1 m.2

def CommandEvent.IsLegible (L : Lua F U) (e : CommandEvent W F U) : Prop :=
  ∀ m, e.message = some m → Texts L m.2 → Legible L m.1 m.2

theorem isLegible_other {e : Event W F U} (h : e.message = none) : e.IsLegible L :=
  fun _ hm => by rw [h] at hm; cases hm

theorem Texts.mapM {args : List (Value F U)} (h : Texts L args) :
    ∃ texts, args.mapM L.tostring = .ok texts := by
  induction args with
  | nil => exact ⟨[], rfl⟩
  | cons v args ih =>
      obtain ⟨⟨t, ht⟩, hargs⟩ := List.forall_mem_cons.mp h
      obtain ⟨texts, htexts⟩ := ih hargs
      refine ⟨t :: texts, ?_⟩
      rw [List.mapM_cons, ht, htexts]
      rfl

/-- The messages of an action of the runner are printed as they are meant. -/
abbrev SaysLegibly (L : Lua F U) (α : Type) (m : Run W F U α) : Prop :=
  OnlyEvents (Event.IsLegible L) α m

theorem saysLegibly_closed : Closed (SaysLegibly (W := W) L) := onlyEvents_closed _

section Messages

variable {env : Env W F U} (hL : Interprets L env)
include hL

/-- The value of a `%s`. -/
theorem Interprets.slot {v : Value F U} (h : ∃ t, L.tostring v = .ok t) :
    ∃ e, taken L plainSpec v = .ok e ∧ Converts L plainSpec e := by
  obtain ⟨t, ht⟩ := h
  exact takes_text ht (hL.text t)

/-- The string of a `%s`. -/
theorem Interprets.string (t : Str) :
    ∃ e, taken L plainSpec (.string t) = .ok e ∧ Converts L plainSpec e :=
  takes_text (L.tostring_string t) (hL.text t)

theorem Interprets.quoted (t : Str) :
    ∃ e, taken L quoteSpec (.string t) = .ok e ∧ Converts L quoteSpec e :=
  takes_value (by decide) (hL.quote t)

theorem Interprets.number (n : Int) :
    ∃ e, taken L decimalSpec (.integer n) = .ok e ∧ Converts L decimalSpec e :=
  takes_value (by decide) (hL.decimal n)

omit hL in
/-- A message whose arguments have texts. -/
theorem message_legible {s : Str} {sps : List Spec} {args args' : List (Value F U)}
    (hread : ReadAs s sps) (htakes : Texts L args → Takes L sps args) {m : Bool × List (Value F U)}
    (hm : m = (true, .string s :: (args ++ args'))) (htexts : Texts L m.2) :
    Legible L m.1 m.2 := by
  subst hm
  have hargs : Texts L args := fun v hv => htexts v (by simp [hv])
  have hrest : Texts L args' := fun v hv => htexts v (by simp [hv])
  obtain ⟨texts, hmap⟩ := hrest.mapM
  exact legible_of_readAs hread (htakes hargs) hmap

omit hL in
/-- A message of the runner. -/
theorem said_legible (env : Env W F U) (printer : Printer) (hprinter : printer ≠ .printCode)
    {s : Str}
    {sps : List Spec} (args args' : List (Value F U)) (hread : ReadAs s sps)
    (htakes : Takes L sps args) :
    SaysLegibly L Unit (say env printer (.string s :: (args ++ args'))) := by
  refine printing_onlyEvents env (fun _ _ => isLegible_other rfl) fun m hm htexts => ?_
  have hformats : (printer != .printCode) = true := bne_iff_ne.mpr hprinter
  rw [Event.message, hformats] at hm
  exact message_legible hread (fun _ => htakes) (Option.some.inj hm).symm htexts

/-- Values as `printCode` of the runner shows them. -/
theorem Interprets.code (args : List (Value F U)) :
    Event.IsLegible (W := W) L (.print .printCode args) := by
  intro m hm htexts
  obtain rfl := Option.some.inj hm
  obtain ⟨texts, hmap⟩ := htexts.mapM
  exact legible_plain hmap hL.text_nil

/-- An error. -/
theorem Interprets.said_code (err : Value F U) :
    SaysLegibly L Unit (say env .printCode [err]) :=
  printing_onlyEvents env (fun _ _ => isLegible_other rfl) (hL.code [err])

omit hL in
/-- A message without a conversion. -/
theorem said_literal (env : Env W F U) (printer : Printer) (hprinter : printer ≠ .printCode)
    {s : Str}
    (hs : '%' ∉ s) (args : List (Value F U)) :
    SaysLegibly L Unit (say env printer (.string s :: args)) :=
  said_legible env _ hprinter [] args (readAs_literal hs) .nil

omit hL in
/-- What the hooks print at the start and the end of the outputs. -/
theorem literal_legible (printer : Printer) (hprinter : printer ≠ .printCode) {s : Str}
    (hs : '%' ∉ s) (args : List (Value F U)) :
    Event.IsLegible (W := W) L (.print printer (.string s :: args)) := by
  intro m hm htexts
  have hformats : (printer != .printCode) = true := bne_iff_ne.mpr hprinter
  rw [Event.message, hformats] at hm
  have hnone : Takes L [] [] := .nil
  exact message_legible (readAs_literal hs) (fun _ => hnone) (Option.some.inj hm).symm htexts

end Messages

/-! ## The messages of a run -/

section Calls

variable {env : Env W F U} (hL : Interprets L env)
include hL

/-- The lines of the hooks. -/
theorem Interprets.hooked_legible (c : Call W F U) :
    ∀ line ∈ c.hooked, Event.IsLegible (W := W) L (.print line.1 line.2) := by
  refine List.forall_mem_append.mpr ⟨?_, ?_⟩
  · rw [hookedOutputs]
    split_ifs
    · simp
    · refine List.forall_mem_cons.mpr ⟨?_, fun line hline => ?_⟩
      · cases c.slot with
        | _ => exact literal_legible .print (by decide) (by decide) _
      · obtain ⟨output, _, hline⟩ := List.mem_filterMap.mp hline
        obtain ⟨args, _, rfl⟩ := Option.map_eq_some_iff.mp hline
        exact hL.code args
  · rw [unhooked]
    split_ifs
    · simp
    · cases c.slot with
      | test name =>
          exact List.forall_mem_singleton.mpr (literal_legible .printf (by decide) (by decide) [])
      | _ => simp [Slot.hookEnd]

/-- The events of a call, and what is behind them. -/
theorem Interprets.events_legible (cwd : Str) (c : Call W F U) {es : List (Event W F U)}
    (hes : ∀ e ∈ es, e.message = Option.none) :
    ∀ e ∈ c.events cwd ++ es, Event.IsLegible L e := by
  refine List.forall_mem_append.mpr ⟨?_, fun e he => isLegible_other (hes e he)⟩
  refine List.forall_mem_cons.mpr ⟨isLegible_other rfl, List.forall_mem_cons.mpr
    ⟨isLegible_other rfl, List.forall_mem_cons.mpr ⟨isLegible_other rfl, fun e he => ?_⟩⟩⟩
  obtain ⟨line, hline, rfl⟩ := List.mem_map.mp he
  exact hL.hooked_legible c line hline

/-- What a call prints is what its hooks print. -/
theorem Interprets.call_legible (slot : Slot) (func : F) :
    SaysLegibly L _ (call env slot func) := by
  intro p
  have hrun := call_run env slot func p
  generalize call env slot func p = o at hrun
  cases hrun with
  | noCwd => exact List.forall_mem_singleton.mpr (isLegible_other rfl)
  | finalizer =>
      exact List.forall_mem_cons.mpr
        ⟨isLegible_other rfl, List.forall_mem_singleton.mpr (isLegible_other rfl)⟩
  | forked cwd => exact hL.events_legible cwd _ (by simp [Event.message])
  | refused cwd => exact hL.events_legible cwd _ (by simp [Event.message])
  | returned cwd => exact hL.events_legible cwd _ (by simp [Event.message])

omit hL in
/-- The time that a call returns is one that the timer returned. -/
theorem call_stopped (slot : Slot) (func : F) :
    Ensures (fun r => ∃ w, r.2 = (env.stop w).1) (call env slot func) := by
  intro p r hres
  have hrun := call_run env slot func p
  generalize call env slot func p = o at hres hrun
  cases hrun with
  | noCwd | finalizer | forked | refused => cases hres
  | @returned w w' c => exact ⟨c.after, congrArg Prod.snd (Except.ok.inj hres).symm⟩

omit hL in
theorem chdir_legible (move : Move) (pathname : Option Str) :
    SaysLegibly L _ (chdir env move pathname) := by
  intro p
  rcases chdir_run env move pathname p with ⟨err, -, hrun⟩ | ⟨w, -, hrun⟩
  · rw [hrun]
    exact List.forall_mem_singleton.mpr (isLegible_other rfl)
  · rw [hrun]
    exact List.forall_mem_singleton.mpr (isLegible_other rfl)

omit hL in
theorem assertChdir_legible (move : Move) (pathname : Option Str) :
    SaysLegibly L _ (assertChdir env move pathname) := by
  intro p
  rcases assertChdir_run env move pathname p with ⟨err, v, -, hrun⟩ | ⟨w, -, hrun⟩
  · rw [hrun]
    exact List.forall_mem_singleton.mpr (isLegible_other rfl)
  · rw [hrun]
    exact List.forall_mem_singleton.mpr (isLegible_other rfl)

end Calls

section Run

variable {env : Env W F U} (hL : Interprets L env)
include hL

/-- The verdict of a test, with its time or the message why there is none. -/
theorem Interprets.said_verdict (res : Except (Value F U) Unit) (w : W) :
    SaysLegibly L Unit (say env .printf
      [.string ("%s (".toList ++ (env.stop w).1.2 ++ [')']), .string (okOrFail res),
        elapsedValue (env.stop w).1.1]) := by
  rcases hstop : (env.stop w).1 with ⟨_ | u, fmt⟩
  · have hread : ReadAs ("%s (".toList ++ fmt ++ [')']) [plainSpec] := by
      have hrest : '%' ∉ '(' :: (fmt ++ [')']) := by
        simpa using hL.stop_failed w fmt hstop
      exact (readAs_literal hrest).behind_text
    exact said_legible env _ (by decide) [.string (okOrFail res)] [.nil] hread
      (.cons (hL.string _) .nil)
  · have htime := hL.stop w u fmt hstop
    exact said_legible env _ (by decide) [.string (okOrFail res), .object .float u] []
      (verdict_readAs fmt htime.mem) (.cons (hL.string _) htime.takes)

theorem Interprets.runTest_legible (name : Str) (func : F) :
    SaysLegibly L _ (runTest env name func) := by
  have hclosed := @saysLegibly_closed W F U L
  have hname := said_legible env .printf (by decide) [.string name] []
    (show ReadAs "- %s ... ".toList [plainSpec] by decide) (.cons (hL.string name) .nil)
  refine hclosed.bind hname fun _ => ?_
  refine OnlyEvents.bind_ensures (hL.call_legible _ func) (call_stopped _ func) ?_
  rintro ⟨res, stopped⟩ ⟨w, rfl⟩
  refine hclosed.bind (hL.said_verdict res w) fun _ => ?_
  cases res with
  | ok _ =>
      exact hclosed.bind (said_literal env _ (by decide) (by decide) []) fun _ => hclosed.pure _
  | error err =>
      refine hclosed.bind (said_literal env _ (by decide) (by decide) []) fun _ => ?_
      exact hclosed.bind (hL.said_code err) fun _ => hclosed.pure _

theorem Interprets.callHook_legible (slot : Slot) (hook : Option F) :
    SaysLegibly L _ (callHook env slot hook) := by
  have hclosed := @saysLegibly_closed W F U L
  cases hook with
  | none => exact hclosed.pure _
  | some func =>
      refine hclosed.bind (hclosed.bind (hL.call_legible _ func) fun r => ?_) fun r => ?_
      · rcases r with ⟨err | _, _⟩
        · simp only
          split_ifs
          · refine hclosed.bind (said_literal env _ (by decide) (by decide) _) fun _ => ?_
            exact hclosed.bind (hL.said_code err) fun _ => hclosed.pure _
          · exact hclosed.pure _
        · exact hclosed.pure _
      · cases r with
        | error err => exact hclosed.pure _
        | ok _ => exact hclosed.pure _

theorem Interprets.eachTest_legible (src : Source F) (tests : List (Test F))
    (acc : Nat × List (Record F U)) :
    SaysLegibly L _ (eachTest env src tests acc) := by
  have hclosed := @saysLegibly_closed W F U L
  induction tests generalizing acc with
  | nil => exact hclosed.pure _
  | cons test tests ih =>
      refine hclosed.bind (hL.callHook_legible _ _) fun before => ?_
      cases before with
      | some err => exact hclosed.pure _
      | none =>
          refine hclosed.bind (hL.runTest_legible _ _) fun res => ?_
          refine hclosed.bind (hL.callHook_legible _ _) fun after => ?_
          cases after with
          | some err => exact hclosed.pure _
          | none => exact ih _

theorem Interprets.runFile_legible (src : Source F) :
    SaysLegibly L _ (runFile env src) := by
  have hclosed := @saysLegibly_closed W F U L
  have hheader := said_legible env .print (by decide)
    [.string src.name, .integer src.tests.length] []
    (show ReadAs "%s: %d test cases".toList [plainSpec, decimalSpec] by decide)
    (.cons (hL.string _) (.cons (hL.number _) .nil))
  have hline : ∀ s : Str, '%' ∉ s → SaysLegibly L Unit (say env .print [.string s]) :=
    fun s hs => said_literal env _ (by decide) hs []
  refine hclosed.bind (hline _ (by decide)) fun _ => hclosed.bind (hline _ (by decide)) fun _ =>
    hclosed.bind hheader fun _ => hclosed.bind (hline _ (by decide)) fun _ => ?_
  refine hclosed.bind (hL.callHook_legible _ _) fun before => ?_
  cases before with
  | some err => exact hclosed.pure _
  | none =>
      refine hclosed.bind (hL.eachTest_legible _ _ _) fun acc => ?_
      refine hclosed.bind (hL.callHook_legible _ _) fun after => ?_
      have hfooter := said_legible env .print (by decide)
        [.integer acc.1, .integer (src.tests.length - acc.1)] []
        (show ReadAs "\n%d successes, %d failures".toList [decimalSpec, decimalSpec] by decide)
        (.cons (hL.number _) (.cons (hL.number _) .nil))
      exact hclosed.bind hfooter fun _ => hclosed.pure _

theorem Interprets.runList_legible (list : List (Source F)) :
    SaysLegibly L _ (runList env list) := by
  have hclosed := @saysLegibly_closed W F U L
  have hline : ∀ s : Str, '%' ∉ s → SaysLegibly L Unit (say env .print [.string s]) :=
    fun s hs => said_literal env _ (by decide) hs []
  have hsource : ∀ acc src, SaysLegibly L _ (runSource env acc src) :=
    fun acc src => hclosed.bind (assertChdir_legible _ _) fun _ =>
      hclosed.bind (assertChdir_legible _ _) fun _ =>
        hclosed.bind (hL.runFile_legible src) fun _ => hclosed.pure _
  exact hclosed.bind (hclosed.forEach hsource _ _) fun _ =>
    hclosed.bind (chdir_legible _ _) fun _ => hclosed.bind (hline _ (by decide)) fun _ =>
      hclosed.bind (hline _ (by decide)) fun _ => hclosed.bind (hline _ (by decide)) fun _ =>
        hclosed.pure _

theorem Interprets.selectTestcases_legible (list : List (Source F)) (testcases : List Str) :
    SaysLegibly L _ (selectTestcases env list testcases) := by
  have hclosed := @saysLegibly_closed W F U L
  refine hclosed.forEach (fun acc src => ?_) _ _
  refine hclosed.bind (hclosed.forEach (fun _ testcase => ?_) _ _) fun _ => ?_
  · split_ifs
    · exact said_legible env _ (by decide) [.string testcase, .string src.name] []
        (show ReadAs "testcase %q not found in %s".toList [quoteSpec, plainSpec] by decide)
        (.cons (hL.quoted _) (.cons (hL.string _) .nil))
    · exact hclosed.pure _
  · split_ifs
    · exact hclosed.pure _
    · exact hclosed.pure _

theorem Interprets.reportMissing_legible (targets : Table Nat) (testcases : List Str) :
    SaysLegibly L _ (reportMissing env targets testcases) := by
  have hclosed := @saysLegibly_closed W F U L
  refine hclosed.forEach (fun notfound name => ?_) _ _
  split_ifs
  · have hmissing := said_legible env .print (by decide) [.string name] []
      (show ReadAs "testcase %q not found in any test file".toList [quoteSpec] by decide)
      (.cons (hL.quoted _) .nil)
    exact hclosed.bind hmissing fun _ => hclosed.pure _
  · exact hclosed.pure _

/-- **The messages of a run.** -/
theorem Interprets.run_legible (list : List (Source F)) (testcases : Option (List Str)) :
    SaysLegibly L _ (run env list testcases) := by
  have hclosed := @saysLegibly_closed W F U L
  refine hclosed.bind (OnlyEvents.reads _) fun blocked => ?_
  cases blocked with
  | true => exact hclosed.pure _
  | false =>
      rcases testcases with _ | _ | ⟨name, names⟩
      · exact hL.runList_legible list
      · exact hL.runList_legible list
      · refine hclosed.bind (hL.selectTestcases_legible _ _) fun newlist => ?_
        refine hclosed.bind (hL.reportMissing_legible _ _) fun notfound => ?_
        cases notfound with
        | true => exact hclosed.pure _
        | false => exact hL.runList_legible _

end Run

/-! ## The messages of the command -/

/-- The messages of an action of the command are printed as they are meant. -/
abbrev DisplaysLegibly (L : Lua F U) (α : Type) (m : Task W F U α) : Prop :=
  OnlyEvents (CommandEvent.IsLegible L) α m

theorem displaysLegibly_closed : Closed (DisplaysLegibly (W := W) L) := onlyEvents_closed _

/-- The messages of `getopts` are its own. -/
theorem getopts_error {arg : List Str} {err : Str} (h : getopts arg = .error err) : '%' ∉ err := by
  rw [getopts_eq] at h
  rcases hgiven : given TESTCASE arg with _ | ⟨s, more⟩
  · rw [hgiven] at h
    cases h
  · rw [hgiven] at h
    simp only [parseTestcase_eq] at h
    by_cases hempty : [] ∈ (valueOf s).splitOn ','
    · simp only [if_pos hempty] at h
      obtain rfl := Except.error.inj h
      decide
    · simp only [if_neg hempty] at h
      split_ifs at h
      obtain rfl := Except.error.inj h
      decide

theorem literal_append {s t : String} (hs : '%' ∉ s.toList) (ht : '%' ∉ t.toList) :
    '%' ∉ (s ++ t).toList := by
  rw [String.toList_append]
  exact List.not_mem_append hs ht

theorem USAGE_literal : '%' ∉ USAGE := by
  refine literal_append (literal_append (literal_append (literal_append (literal_append
    (literal_append (literal_append ?_ ?_) ?_) ?_) ?_) ?_) ?_) ?_
  all_goals decide

/-- The messages of the runner, in the command. -/
theorem runner_legible {α : Type} {m : Run W F U α} (h : SaysLegibly L α m) :
    DisplaysLegibly L α (runner m) := by
  intro p e he
  obtain ⟨e', he', rfl⟩ := List.mem_map.mp he
  exact h p e' he'

theorem block_legible : DisplaysLegibly L Unit (runner block : Task W F U Unit) :=
  fun _ _ he => by cases he

theorem unblock_legible : DisplaysLegibly L Unit (runner unblock : Task W F U Unit) :=
  fun _ _ he => by cases he

section Command

variable {cmd : Command W F U} (hL : Interprets L cmd.toEnv)
include hL

omit hL in
/-- A message of the command. -/
theorem display_legible (cmd : Command W F U) (printer : Printer) {s : Str} {sps : List Spec}
    (args args' : List (Value F U)) (hread : ReadAs s sps)
    (htakes : Texts L args → Takes L sps args) :
    DisplaysLegibly L Unit (display cmd printer (.string s :: (args ++ args'))) :=
  display_onlyEvents (fun _ _ _ hm => by cases hm) fun _ hm htexts =>
    message_legible hread htakes (Option.some.inj hm).symm htexts

omit hL in
/-- A message without a conversion. -/
theorem display_literal (cmd : Command W F U) (printer : Printer) {s : Str} (hs : '%' ∉ s)
    (args : List (Value F U)) :
    DisplaysLegibly L Unit (display cmd printer (.string s :: args)) :=
  display_legible cmd printer [] args (readAs_literal hs) fun _ => .nil

/-- Any value behind a `%s`, as the last one. -/
theorem Interprets.takes_last {v : Value F U} {args : List (Value F U)} (hmem : v ∈ args)
    (h : Texts L args) : Takes L [plainSpec] [v] :=
  .cons (hL.slot (h v hmem)) .nil

/-- The line of a file or a test, and the error below it. -/
theorem Interprets.item_legible (name : Str) :
    DisplaysLegibly L Unit (display cmd .print [.string "- %s".toList, .string name]) :=
  display_legible cmd .print [.string name] [] (show ReadAs "- %s".toList [plainSpec] by decide)
    fun _ => .cons (hL.string _) .nil

theorem Interprets.code_legible (err : Value F U) :
    DisplaysLegibly L Unit (display cmd .printCode [.string "%s".toList, err]) :=
  display_legible cmd .printCode [err] [] (show ReadAs "%s".toList [plainSpec] by decide)
    (hL.takes_last (by simp))

omit hL in
theorem loadfiles_legible (files : List Str) : DisplaysLegibly L _ (loadfiles cmd files) := by
  intro p e he
  rw [loadfiles, forEach_loadfile] at he
  obtain ⟨l, -, rfl⟩ := List.mem_map.mp he
  exact fun m hm => by cases hm

omit hL in
theorem exit_legible {α : Type} {code : Int} {v : Value F U} {msg : List (Value F U)}
    (h : DisplaysLegibly L Unit (display cmd .print (v :: msg))) :
    DisplaysLegibly L α (exit cmd code (v :: msg) : Task W F U α) :=
  displaysLegibly_closed.bind h fun _ => OnlyEvents.halt _

theorem Interprets.checkOpts_legible (arg : List Str) :
    DisplaysLegibly L Options (checkOpts cmd arg) := by
  have hclosed := @displaysLegibly_closed W F U L
  have husage : DisplaysLegibly L Unit (display cmd .print [.string USAGE]) :=
    display_literal cmd .print USAGE_literal []
  rw [checkOpts]
  cases hopts : getopts arg with
  | error err => exact exit_legible (display_literal cmd .print (getopts_error hopts) [])
  | ok opts =>
      simp only
      split_ifs
      · exact exit_legible husage
      · exact exit_legible husage
      · refine hclosed.bind (OnlyEvents.perform _) fun res => ?_
        cases res with
        | error loaderr =>
            exact exit_legible (display_legible cmd .print [loaderr] []
              (show ReadAs "failed to load luacov module: %s".toList [plainSpec] by decide)
              (hL.takes_last (by simp)))
        | ok _ => exact hclosed.pure _
      · exact hclosed.pure _

theorem Interprets.checkPathname_legible (pathname : Str) :
    DisplaysLegibly L Str (checkPathname cmd pathname) := by
  have hclosed := @displaysLegibly_closed W F U L
  refine hclosed.bind (OnlyEvents.reads _) fun res => ?_
  cases res with
  | error err =>
      simp only
      split_ifs
      · exact exit_legible (display_legible cmd .print [.string pathname, .error err] []
          (show ReadAs "failed to resolve path %q: %s".toList [quoteSpec, plainSpec] by decide)
          fun h => .cons (hL.quoted _) (.cons (hL.slot (h _ (by simp))) .nil))
      · exact exit_legible (display_legible cmd .print [.string pathname] []
          (show ReadAs "failed to resolve path %q".toList [quoteSpec] by decide)
          fun _ => .cons (hL.quoted _) .nil)
  | ok path => exact hclosed.pure _

theorem Interprets.getFiles_legible (opts : Options) :
    DisplaysLegibly L _ (getFiles cmd opts) := by
  have hclosed := @displaysLegibly_closed W F U L
  refine hclosed.bind (hclosed.bind (hclosed.forEach (fun acc pathname => ?_) _ _)
    fun _ => hclosed.pure _) fun pathnames => ?_
  · refine hclosed.bind (hL.checkPathname_legible _) fun path => ?_
    split_ifs
    · exact exit_legible (display_legible cmd .print [.string pathname] []
        (show ReadAs "duplicate pathname %q".toList [quoteSpec] by decide)
        fun _ => .cons (hL.quoted _) .nil)
    · exact hclosed.pure _
  · refine hclosed.bind (hclosed.forEach (fun acc pathname => ?_) _ _) fun _ => hclosed.pure _
    refine hclosed.bind (OnlyEvents.reads _) fun res => ?_
    rcases res with err | _ | list
    · exact exit_legible (display_legible cmd .print [.string pathname, .error err] []
        (show ReadAs "failed to get test files from %q: %s".toList [quoteSpec, plainSpec] by decide)
        fun h => .cons (hL.quoted _) (.cons (hL.slot (h _ (by simp))) .nil))
    · exact OnlyEvents.halt _
    · refine hclosed.forEach (fun acc filename => ?_) _ _
      refine hclosed.bind (hL.checkPathname_legible _) fun path => ?_
      split_ifs
      · exact hclosed.pure _
      · exact hclosed.pure _

theorem Interprets.reportLoadErrors_legible (errfiles : List (Str × Value F U)) :
    DisplaysLegibly L Unit (reportLoadErrors cmd errfiles) := by
  have hclosed := @displaysLegibly_closed W F U L
  rw [reportLoadErrors]
  split_ifs
  · exact hclosed.pure _
  · have hcount := display_legible cmd .print [.integer errfiles.length] []
      (show ReadAs "#### %d test files failed to load\n".toList [decimalSpec] by decide)
      fun _ => .cons (hL.number _) .nil
    refine hclosed.bind hcount fun _ => ?_
    refine hclosed.bind (hclosed.forEach (fun _ v => ?_) _ _) fun _ =>
      display_literal cmd _ (by decide) []
    exact hclosed.bind (hL.item_legible v.1) fun _ => hclosed.bind (hL.code_legible v.2) fun _ =>
      display_literal cmd _ (by decide) []

theorem Interprets.printInfo_legible (list : List (Source F)) (ntest : Nat) :
    DisplaysLegibly L Unit (printInfo cmd list ntest) := by
  have hclosed := @displaysLegibly_closed W F U L
  refine hclosed.bind (display_literal cmd _ (by decide) []) fun _ => ?_
  refine hclosed.bind (OnlyEvents.reads _) fun date => ?_
  have hdate := display_legible cmd .print [.string date] []
    (show ReadAs "Test on %s".toList [plainSpec] by decide) fun _ => .cons (hL.string _) .nil
  refine hclosed.bind hdate fun _ => ?_
  refine hclosed.bind (display_literal cmd _ (by decide) _) fun _ => ?_
  have htotal := display_legible cmd .print [.integer ntest, .integer list.length] []
    (show ReadAs "Total: %d test cases in %d files.\n".toList [decimalSpec, decimalSpec] by decide)
    fun _ => .cons (hL.number _) (.cons (hL.number _) .nil)
  refine hclosed.bind htotal fun _ => ?_
  exact hclosed.forEach (fun _ src => display_literal cmd _ (by decide) _) _ _

theorem Interprets.printErrors_legible (errors : Errors F U) :
    DisplaysLegibly L Unit (printErrors cmd errors) := by
  have hclosed := @displaysLegibly_closed W F U L
  rw [printErrors]
  split_ifs
  · refine hclosed.bind (hclosed.forEach (fun _ v => ?_) _ _) fun _ =>
      display_literal cmd _ (by decide) []
    have hcount := display_legible cmd .print [.integer v.errors.length, .string v.name] []
      (show ReadAs "#### %d testcases in %s failed\n".toList [decimalSpec, plainSpec] by decide)
      fun _ => .cons (hL.number _) (.cons (hL.string _) .nil)
    refine hclosed.bind hcount fun _ => hclosed.forEach (fun _ verr => ?_) _ _
    exact hclosed.bind (hL.item_legible _) fun _ => hclosed.bind (hL.code_legible _) fun _ =>
      display_literal cmd _ (by decide) []
  · exact hclosed.pure _

theorem Interprets.finish_legible (htotal : ∀ w, IsTime L (cmd.total w).1 (cmd.total w).2)
    (errfiles : List (Str × Value F U)) (res : RunResult F U) :
    DisplaysLegibly L Unit (finish cmd errfiles res) := by
  have hclosed := @displaysLegibly_closed W F U L
  cases res with
  | refused err => exact exit_legible (display_literal cmd .print (by decide) [.string err])
  | ran nsuccess nfailure errors =>
      have htimes : Ensures (fun r => IsTime L r.1 r.2)
          (reads fun p => cmd.total p.world : Task W F U (U × Str)) :=
        Ensures.reads fun p => htotal p.world
      refine OnlyEvents.bind_ensures (OnlyEvents.reads _) htimes ?_
      rintro ⟨total, fmt⟩ htime
      have htotals := display_legible cmd .print [.integer nsuccess, .integer nfailure,
        .integer errfiles.length, .object .float total] [.string "\n".toList]
        (total_readAs fmt htime.mem) fun _ => .cons (hL.number _) (.cons (hL.number _)
          (.cons (hL.number _) htime.takes))
      refine hclosed.bind htotals fun _ => hclosed.bind (hL.printErrors_legible errors) fun _ => ?_
      refine hclosed.bind ?_ fun _ => ?_
      · split_ifs
        · exact hL.reportLoadErrors_legible errfiles
        · exact hclosed.pure _
      · split_ifs
        · exact OnlyEvents.halt _
        · exact hclosed.pure _

theorem Interprets.testSources_legible (htotal : ∀ w, IsTime L (cmd.total w).1 (cmd.total w).2)
    (opts : Options) (errfiles : List (Str × Value F U)) :
    DisplaysLegibly L Unit (testSources cmd opts errfiles) := by
  have hclosed := @displaysLegibly_closed W F U L
  refine hclosed.bind (OnlyEvents.reads _) fun list => ?_
  refine hclosed.bind (hL.printInfo_legible _ _) fun _ => ?_
  split_ifs
  · refine hclosed.bind (display_literal cmd _ (by decide) []) fun _ => ?_
    refine hclosed.bind (hL.reportLoadErrors_legible errfiles) fun _ => ?_
    exact OnlyEvents.halt _
  · refine hclosed.bind unblock_legible fun _ => ?_
    refine hclosed.bind (runner_legible (hL.run_legible _ _)) fun res => ?_
    exact hL.finish_legible htotal errfiles res

/-- **Every message of the command is printed as it is meant**, in every run, however it ends, if
its values have texts at that moment (otherwise their conversion raised, and it is not printed): as
many arguments as conversions at least, each of them formatted as `string.format` would, and no
error that the printer adds. -/
theorem messages_legible (htotal : ∀ w, IsTime L (cmd.total w).1 (cmd.total w).2)
    (arg : List Str) (p : Proc W) :
    ∀ e ∈ (main cmd arg p).events, ∀ m, e.message = some m →
      (∀ v ∈ m.2, ∃ t, L.tostring v = .ok t) → Legible L m.1 m.2 := by
  have hclosed := @displaysLegibly_closed W F U L
  have hmain : DisplaysLegibly L Unit (main cmd arg) := by
    refine hclosed.bind (hL.checkOpts_legible arg) fun opts => ?_
    refine hclosed.bind (hL.getFiles_legible opts) fun files => ?_
    refine hclosed.bind block_legible fun _ => ?_
    refine hclosed.bind (loadfiles_legible files) fun errfiles => ?_
    exact hL.testSources_legible htotal opts errfiles
  exact hmain p

end Command

/-! ### A test that fails with a percent sign -/

/-- The conversions of the messages. -/
def messageSpecs : List Spec := [plainSpec, quoteSpec, decimalSpec, ⟨".3".toList, 'f'⟩]

theorem messageSpecs_wellFormed : ∀ sp ∈ messageSpecs, sp.wellFormed = true := by decide

/-- Lua 5.1 with these conversions. -/
def messageLua : Lua Unit Unit :=
  { plainLua with
    accepts := fun sp => decide (sp ∈ messageSpecs)
    convert := fun sp v =>
      if sp = quoteSpec then (plainLua.tostring v).map fun t => '"' :: (t ++ ['"'])
      else if sp = plainSpec then plainLua.convert sp v
      else match v with
        | .object .float _ => .ok "0.500".toList
        | v => plainLua.convert sp v
    grammar := fun sp h => messageSpecs_wellFormed sp (of_decide_eq_true h)
    numeral := by
      intro sp _
      split_ifs
      · exact ⟨_, rfl⟩
      · exact ⟨_, rfl⟩
      · exact ⟨_, rfl⟩ }

/-- A command with one test, which fails in half a millisecond. -/
def failingTest : Command Unit Unit Unit where
  CWD := "/a".toList
  PID := 1
  getcwd _ := some "/a".toList
  chdir _ w := .ok w
  getpid _ := 1
  start w := w
  stop w := ((some (), "%.3f ms".toList), w)
  collect w := (none, w)
  xpcall _ w := (⟨.error (.string "100% wrong".toList), [some [.string "50%".toList]]⟩, w)
  tostring _ w := (none, w)
  assert := Assert.builtin
  requireLuacov w := (.ok (), w)
  realpath name _ := .ok name
  getfiles _ _ _ := .ok (some ["t/x_test.lua".toList])
  eval _ w := (.ok (), w)
  traversal := Traversal.forward
  registry _ := (∅ : Registry Unit).insert "t/x_test.lua".toList
    ⟨"t".toList, "x_test.lua".toList, "t/x_test.lua".toList, "/a/t/x_test.lua".toList,
      (∅ : Table (Test Unit)).insert "test_1".toList ⟨"test_1".toList, (), 1⟩⟩
  date _ := "today".toList
  total _ := ((), "%.3f ms".toList)

theorem failingTest_time : IsTime messageLua () "%.3f ms".toList := by
  refine ⟨2000000, by decide, fun sp hsp => ?_⟩
  have hspecs : specs (pieces none "%.3f ms".toList) = [⟨".3".toList, 'f'⟩] := by decide
  rw [hspecs] at hsp
  obtain rfl := List.mem_singleton.mp hsp
  exact ⟨by decide, _, rfl⟩

theorem failingTest_interprets : Interprets messageLua failingTest.toEnv where
  text_nil := ⟨_, rfl⟩
  text _ := ⟨by decide, _, rfl⟩
  quote _ := ⟨by decide, _, rfl⟩
  decimal _ := ⟨by decide, _, rfl⟩
  stop w u fmt h := by
    cases h
    exact failingTest_time
  stop_failed w fmt h := by cases h

/-- Its messages; the eleventh one begins the outputs of the test, and the fourteenth one is the
verdict. -/
theorem failingTest_legible :
    (∀ e ∈ (main failingTest ["t".toList] ⟨(), false⟩).events, ∀ m, e.message = some m →
      (∀ v ∈ m.2, ∃ t, messageLua.tostring v = .ok t) → Legible messageLua m.1 m.2) ∧
    (((main failingTest ["t".toList] ⟨(), false⟩).events.filterMap CommandEvent.message).drop
      10).take 4 =
      [(true, [.string "  ".toList]), (false, [.string "50%".toList]),
        (true, [.string "  ".toList]),
        (true, [.string "%s (%.3f ms)".toList, .string "fail".toList, .object .float ()])] ∧
    vstringify messageLua true (.string "%s (%.3f ms)".toList)
      [.string "fail".toList, .object .float ()] = .ok "fail (0.500 ms)".toList :=
  ⟨messages_legible failingTest_interprets (fun _ => failingTest_time) ["t".toList] ⟨(), false⟩,
    rfl, rfl⟩

end Testcase
