import LuaTestcase.Runner.Directory

/-!
# What a run prints

The printing of a run is spread over its functions and the hooks of its calls.  Put together it is
a function of the calls that were made: every call is shown in its own way, with its outputs,
between the lines of its source.

* `shown` — what is printed of a call; `fileTranscript` — of the calls of a source.
* `Shows` — events in which what was printed is what the calls show.
* `testLines` — the lines of the tests, read off what was printed.
* `run_transcript` — **what a run prints**, if it returns.
-/

namespace Testcase

variable {W F U : Type}

/-! ## What is printed of the calls -/

def Event.printed : Event W F U → Option (Printed F U)
  | .print printer args => some (printer, args)
  | _ => none

/-- What was printed. -/
def prints (es : List (Event W F U)) : List (Printed F U) := es.filterMap Event.printed

/-- The verdict and the time of a test. -/
def verdictLine (env : Env W F U) (c : Call W F U) : Printed F U :=
  (.printf, [.string ("%s (".toList ++ (env.stop c.after).1.2 ++ [')']),
    .string (okOrFail c.result), elapsedValue (env.stop c.after).1.1])

/-- The end of the line, and the error of a test. -/
def testEnd : Except (Value F U) Unit → List (Printed F U)
  | .ok () => [(.printf, [.string "\n".toList])]
  | .error err => [(.printf, [.string "  \n".toList]), (.printCode, [err])]

/-- Printed of a test: its name before the call, its outputs, its verdict and its time, and its
error. -/
def shownTest (env : Env W F U) (name : Str) (c : Call W F U) : List (Printed F U) :=
  (.printf, [.string "- %s ... ".toList, .string name]) ::
    (c.hooked ++ verdictLine env c :: testEnd c.result)

/-- Printed of a hook: its outputs, and its error if it is not `nil` or `false`. -/
def shownHook (c : Call W F U) : List (Printed F U) :=
  c.hooked ++
  match c.result with
  | .ok () => []
  | .error err =>
      if err.truthy then
        [(.print, [.string "  failed to call ".toList, .string c.slot.name]), (.printCode, [err])]
      else []

/-- What is printed of a call. -/
def shown (env : Env W F U) (c : Call W F U) : List (Printed F U) :=
  match c.slot with
  | .test name => shownTest env name c
  | _ => shownHook c

/-- The lines above the tests of a source. -/
def fileHeader (src : Source F) : List (Printed F U) :=
  [(.print, [.string []]), (.print, [.string HR]),
    (.print, [.string "%s: %d test cases".toList, .string src.name,
      .integer src.tests.length]),
    (.print, [.string HR])]

/-- The lines below, with the number of tests that succeeded. -/
def fileFooter (src : Source F) (nsuccess : Nat) : List (Printed F U) :=
  [(.print, [.string "\n%d successes, %d failures".toList, .integer nsuccess,
    .integer (src.tests.length - nsuccess)])]

/-- The call is one of `before_all`, and it failed. -/
def Call.skips (c : Call W F U) : Bool :=
  match c.slot, c.result with
  | .beforeAll, .error _ => true
  | _, _ => false

/-- What is printed of a source, from its calls. -/
def fileTranscript (env : Env W F U) (src : Source F) (seg : List (Call W F U)) :
    List (Printed F U) :=
  fileHeader src ++ seg.flatMap (shown env) ++
    if seg.any Call.skips then [] else fileFooter src (successes (seg.map Call.answered))

/-- The lines below the last source. -/
def runFooter : List (Printed F U) :=
  [(.print, [.string []]), (.print, [.string HR]), (.print, [.string []])]

/-- The names that have no test in a source are reported. -/
def reportedNames (names : List Str) (src : Source F) : List (Printed F U) :=
  (names.filter fun name => ¬ ∃ t ∈ src.tests, t.name = name).map fun name =>
    (.print, [.string "testcase %q not found in %s".toList, .string name, .string src.name])

/-- What is printed of the selection. -/
def selectionReport (list : List (Source F)) (testcases : Option (List Str)) :
    List (Printed F U) :=
  list.flatMap (reportedNames (testcases.getD []))

/-! ## Events -/

@[simp] theorem prints_append (es es' : List (Event W F U)) :
    prints (es ++ es') = prints es ++ prints es' := List.filterMap_append

@[simp] theorem prints_nil : prints ([] : List (Event W F U)) = [] := rfl

@[simp] theorem prints_print (printer : Printer) (args : List (Value F U))
    (es : List (Event W F U)) : prints (.print printer args :: es) = (printer, args) :: prints es :=
  rfl

@[simp] theorem prints_call (c : Call W F U) (es : List (Event W F U)) :
    prints (.call c :: es) = prints es := rfl

theorem prints_lines (lines : List (Printed F U)) :
    prints (lines.map fun line => (.print line.1 line.2 : Event W F U)) = lines := by
  rw [prints, List.filterMap_map]
  exact List.filterMap_some

/-- The events of a call print its outputs. -/
theorem prints_events (cwd : Str) (c : Call W F U) (es : List (Event W F U)) :
    prints (c.events cwd ++ es) = c.hooked ++ prints es := by
  rw [prints_append]
  congr 1
  exact prints_lines c.hooked

theorem callsMade_flatten (ess : List (List (Event W F U))) :
    callsMade ess.flatten = (ess.map callsMade).flatten := List.filterMap_flatten

/-- Neither prints nor calls. -/
def Silent (es : List (Event W F U)) : Prop := prints es = [] ∧ callsMade es = []

/-- What was printed is what the calls show, and the calls have the property. -/
def Shows (env : Env W F U) (P : Call W F U → Prop) (es : List (Event W F U)) : Prop :=
  prints es = (callsMade es).flatMap (shown env) ∧ ∀ c ∈ callsMade es, P c

theorem Shows.append {env : Env W F U} {P : Call W F U → Prop} {es es' : List (Event W F U)}
    (h : Shows env P es) (h' : Shows env P es') : Shows env P (es ++ es') := by
  rw [Shows, prints_append, callsMade_append, h.1, h'.1, List.flatMap_append]
  exact ⟨rfl, List.forall_mem_append.mpr ⟨h.2, h'.2⟩⟩

theorem Shows.mono {env : Env W F U} {P P' : Call W F U → Prop} {es : List (Event W F U)}
    (h : Shows env P es) (hP : ∀ c, P c → P' c) : Shows env P' es :=
  ⟨h.1, fun c hc => hP c (h.2 c hc)⟩

/-! ## The calls -/

section Leaves

variable {env : Env W F U}

/-- A printer prints its line, whatever it converts. -/
theorem say_leaves (printer : Printer) (args : List (Value F U)) :
    Act.Leaves (fun es _ => prints es = [(printer, args)] ∧ callsMade es = [])
      (say env printer args) := by
  have hconverted : Act.OnlyEvents (fun e => e.printed = none ∧ e.made = none) Unit
      (Act.forEach (fun _ => convert env .tostring) (conversions args) () : Run W F U Unit) := by
    refine (Act.onlyEvents_closed _).forEach (fun _ u p e he => ?_) _ _
    rw [convert_run, List.mem_singleton] at he
    rw [he]
    exact ⟨rfl, rfl⟩
  have hloop : Act.Leaves (fun es _ => Silent es)
      (Act.forEach (fun _ => convert env .tostring) (conversions args) () : Run W F U Unit) :=
    fun p _ _ => ⟨List.filterMap_eq_nil_iff.mpr fun e he => (hconverted p e he).1,
      List.filterMap_eq_nil_iff.mpr fun e he => (hconverted p e he).2⟩
  refine hloop.bind fun es _ hes p a _ => ?_
  simp [hes.1, hes.2]

theorem chdir_leaves (move : Move) (pathname : Option Str) :
    Act.Leaves (fun es _ => Silent es) (chdir env move pathname) := by
  intro p err _
  rcases chdir_run env move pathname p with ⟨err, _, hrun⟩ | ⟨w, _, hrun⟩
  · rw [hrun]
    exact ⟨rfl, rfl⟩
  · rw [hrun]
    exact ⟨rfl, rfl⟩

theorem assertChdir_leaves (move : Move) (pathname : Option Str) :
    Act.Leaves (fun es _ => Silent es) (assertChdir env move pathname) := by
  intro p _ _
  rcases assertChdir_run env move pathname p with ⟨err, v, _, hrun⟩ | ⟨w, _, hrun⟩
  · rw [hrun]
    exact ⟨rfl, rfl⟩
  · rw [hrun]
    exact ⟨rfl, rfl⟩

/-- One call is made, and its outputs are printed. -/
theorem call_leaves (slot : Slot) (func : F) :
    Act.Leaves (fun es r => ∃ c : Call W F U, c.slot = slot ∧ callsMade es = [c] ∧
      prints es = c.hooked ∧ r = (c.result, (env.stop c.after).1)) (call env slot func) := by
  intro p r hres
  have hrun := call_run env slot func p
  generalize call env slot func p = o at hres hrun
  cases hrun with
  | noCwd | finalizer | forked | refused => cases hres
  | @returned w w' c cwd _ _ hc _ =>
      obtain rfl := Except.ok.inj hres
      refine ⟨c, by rw [← hc, Env.calledIn], ?_, ?_, rfl⟩
      · rw [callsMade_events]
        rfl
      · rw [prints_events]
        exact List.append_nil _

/-- A test is called and shown. -/
theorem runTest_leaves (name : Str) (func : F) :
    Act.Leaves (fun es _ => Shows env (fun c => c.slot = .test name) es)
      (runTest env name func) := by
  refine Act.Leaves.bind (say_leaves _ _) fun es₁ _ hname => ?_
  refine Act.Leaves.bind (call_leaves _ _) ?_
  rintro es _ ⟨c, hslot, hcall, hprint, rfl⟩
  refine Act.Leaves.bind (say_leaves _ _) fun es₂ _ htime => ?_
  have hshown : shown env c = shownTest env name c := by rw [shown, hslot]
  rcases hres : c.result with err | _
  · refine Act.Leaves.bind (say_leaves _ _) fun es₃ _ hline => ?_
    refine Act.Leaves.bind (say_leaves _ _) fun es₄ _ herror => Act.Leaves.pure ⟨?_, ?_⟩
    · simp [hname, hprint, htime, hline, herror, hcall, hshown, shownTest, verdictLine, testEnd,
        hres]
    · simpa [hname, hcall, htime, hline, herror] using hslot
  · refine Act.Leaves.bind (say_leaves _ _) fun es₃ _ hline => Act.Leaves.pure ⟨?_, ?_⟩
    · simp [hname, hprint, htime, hline, hcall, hshown, shownTest, verdictLine, testEnd, hres]
    · simpa [hname, hcall, htime, hline] using hslot

/-- A hook is called and shown, and its error is returned, or `nil`. -/
theorem runSetupTeadown_leaves {slot : Slot} (hslot : slot.isTest = false) (func : F) :
    Act.Leaves (fun es res => Shows env (fun c => c.slot = slot) es ∧
        ∃ c, callsMade es = [c] ∧ (c.result = .ok () ↔ res = .ok ()))
      (runSetupTeadown env slot func) := by
  refine Act.Leaves.bind (call_leaves _ _) ?_
  rintro es _ ⟨c, rfl, hcall, hprint, rfl⟩
  have hshown : shown env c = shownHook c := by
    rw [shown]
    split
    · rename_i name hc
      rw [hc] at hslot
      cases hslot
    · rfl
  rcases hres : c.result with err | _
  · by_cases herr : err.truthy = true
    · simp only [herr, if_true]
      refine Act.Leaves.bind (say_leaves _ _) fun es₁ _ hline => ?_
      refine Act.Leaves.bind (say_leaves _ _) fun es₂ _ herror => ?_
      refine Act.Leaves.pure ⟨⟨?_, ?_⟩, c, ?_, ?_⟩
      · simp [hprint, hcall, hline, herror, hshown, shownHook, hres, herr]
      · simp [hcall, hline, herror]
      · simp [hcall, hline, herror]
      · simp [hres]
    · simp only [herr]
      refine Act.Leaves.pure ⟨⟨?_, ?_⟩, c, ?_, ?_⟩
      · simp [hprint, hcall, hshown, shownHook, hres, herr]
      · simp [hcall]
      · simp [hcall]
      · simp [hres]
  · refine Act.Leaves.pure ⟨⟨?_, ?_⟩, c, ?_, ?_⟩
    · simp [hprint, hcall, hshown, shownHook, hres]
    · simp [hcall]
    · simp [hcall]
    · simp [hres]

/-! ## The sources -/

/-- A hook is called and shown, if it is defined, and its failure is returned. -/
theorem callHook_leaves {slot : Slot} (hslot : slot.isTest = false) (hook : Option F) :
    Act.Leaves (fun es res => Shows env (fun c => c.slot = slot) es ∧
        ((∃ c ∈ callsMade es, ∃ err, c.result = .error err) ↔ res ≠ none))
      (callHook env slot hook) := by
  cases hook with
  | none => exact Act.Leaves.pure ⟨⟨rfl, by simp⟩, by simp⟩
  | some func =>
      refine Act.Leaves.bind (runSetupTeadown_leaves hslot func) ?_
      rintro es res ⟨hshows, c, hcall, hres⟩
      have hfailed : (∃ err, c.result = .error err) ↔ res ≠ .ok () := by
        rw [ne_eq, ← hres]
        rcases c.result with err | _
        · simp
        · simp
      rcases res with err | _
      · refine Act.Leaves.pure ⟨by simpa using hshows, ?_⟩
        simpa [hcall] using hfailed
      · refine Act.Leaves.pure ⟨by simpa using hshows, ?_⟩
        simpa [hcall] using hfailed

/-- The tests are shown with their hooks. -/
theorem eachTest_leaves (src : Source F) (tests : List (Test F)) (acc : Nat × List (Record F U)) :
    Act.Leaves (fun es _ => Shows env (fun c => c.slot ≠ .beforeAll) es)
      (eachTest env src tests acc) := by
  induction tests generalizing acc with
  | nil => exact Act.Leaves.pure ⟨rfl, by simp⟩
  | cons test tests ih =>
      refine Act.Leaves.bind (callHook_leaves rfl _) ?_
      rintro es before ⟨hbefore, -⟩
      have hbefore : Shows env (fun c => c.slot ≠ .beforeAll) es :=
        hbefore.mono fun c hc => by simp [hc]
      cases before with
      | some err => exact Act.Leaves.pure (by simpa using hbefore)
      | none =>
          refine Act.Leaves.bind (runTest_leaves _ _) fun es' res htest => ?_
          have htest : Shows env (fun c => c.slot ≠ .beforeAll) es' :=
            htest.mono fun c hc => by simp [hc]
          refine Act.Leaves.bind (callHook_leaves rfl _) ?_
          rintro es'' after ⟨hafter, -⟩
          have hafter : Shows env (fun c => c.slot ≠ .beforeAll) es'' :=
            hafter.mono fun c hc => by simp [hc]
          cases after with
          | some err =>
              exact Act.Leaves.pure (by simpa using hbefore.append (htest.append hafter))
          | none => exact (ih _).mono fun _ _ h => hbefore.append (htest.append (hafter.append h))

/-- **What is printed of a source**, but for the number in its last line. -/
theorem runFile_prints (src : Source F) :
    Act.Leaves (fun es r => prints es = fileHeader src ++ (callsMade es).flatMap (shown env) ++
        if (callsMade es).any Call.skips then [] else fileFooter src r.1)
      (runFile env src) := by
  refine Act.Leaves.bind (say_leaves _ _) fun es₁ _ h₁ => ?_
  refine Act.Leaves.bind (say_leaves _ _) fun es₂ _ h₂ => ?_
  refine Act.Leaves.bind (say_leaves _ _) fun es₃ _ h₃ => ?_
  refine Act.Leaves.bind (say_leaves _ _) fun es₄ _ h₄ => ?_
  refine Act.Leaves.bind (callHook_leaves rfl _) ?_
  rintro es before ⟨⟨hbefore, hslot⟩, hfailed⟩
  have hskips : (callsMade es).any Call.skips = decide (before ≠ none) := by
    rw [Bool.eq_iff_iff, List.any_eq_true, decide_eq_true_iff, ← hfailed]
    refine exists_congr fun c => and_congr_right fun hc => ?_
    rw [Call.skips, hslot c hc]
    rcases c.result with err | _ <;> simp
  cases before with
  | some err =>
      refine Act.Leaves.pure ?_
      simp [h₁, h₂, h₃, h₄, hbefore, hskips, fileHeader]
  | none =>
      refine Act.Leaves.bind (eachTest_leaves _ _ _) ?_
      rintro es' acc ⟨htests, hnot⟩
      refine Act.Leaves.bind (callHook_leaves rfl _) ?_
      rintro es'' after ⟨⟨hafter, hslot'⟩, -⟩
      refine Act.Leaves.bind (say_leaves _ _) fun es₅ _ h₅ => ?_
      have hpassed : ∀ c : Call W F U, c.slot ≠ .beforeAll → c.skips = false := by
        rintro ⟨slot, func, w, res, outputs, w'⟩ hne
        cases slot <;> first | rfl | exact absurd rfl hne
      have hskips' : (callsMade es').any Call.skips = false :=
        List.any_eq_false.mpr fun c hc => by simp [hpassed c (hnot c hc)]
      have hskips'' : (callsMade es'').any Call.skips = false :=
        List.any_eq_false.mpr fun c hc => by simp [hpassed c (by simp [hslot' c hc])]
      refine Act.Leaves.pure ?_
      simp [h₁, h₂, h₃, h₄, h₅, hbefore, htests, hafter, hskips, hskips', hskips'', fileHeader,
        fileFooter]

/-- The calls of a source are a trace of the grammar, and it is printed as they say. -/
def FileShown (env : Env W F U) (src : Source F) (es : List (Event W F U)) : Prop :=
  FileTrace src ((callsMade es).map Call.answered) ∧
    prints es = fileTranscript env src (callsMade es)

theorem runFile_leaves (src : Source F) :
    Act.Leaves (fun es _ => FileShown env src es) (runFile env src) := by
  have htrace : Act.Leaves (fun es r => FileTrace src ((callsMade es).map Call.answered) ∧
      r.1 = successes ((callsMade es).map Call.answered)) (runFile env src) := by
    intro p r hres
    have hplays := (@runFile_follows _ _ _ env [] src).of_ok hres
    obtain ⟨hfile, rfl⟩ := fileDialogue_plays.mp hplays
    rw [← calls_eq]
    exact ⟨hfile, rfl⟩
  refine (htrace.and (runFile_prints src)).mono ?_
  rintro es r ⟨⟨hfile, hcount⟩, hprints⟩
  rw [hcount] at hprints
  exact ⟨hfile, hprints⟩

theorem FileShown.silent {src : Source F} {es before after : List (Event W F U)}
    (h : FileShown env src es) (hbefore : Silent before) (hafter : Silent after) :
    FileShown env src (before ++ es ++ after) := by
  have hcalls : callsMade (before ++ es ++ after) = callsMade es := by
    simp [hbefore.2, hafter.2]
  refine ⟨by rw [hcalls]; exact h.1, ?_⟩
  rw [hcalls, prints_append, prints_append, hbefore.1, hafter.1, List.nil_append,
    List.append_nil]
  exact h.2

theorem runSource_leaves (acc : Totals F U) (src : Source F) :
    Act.Leaves (fun es _ => FileShown env src es) (runSource env acc src) := by
  refine Act.Leaves.bind (assertChdir_leaves _ _) fun es₁ _ h₁ => ?_
  refine Act.Leaves.bind (assertChdir_leaves _ _) fun es₂ _ h₂ => ?_
  refine Act.Leaves.bind (runFile_leaves src) fun es _ hes => Act.Leaves.pure ?_
  have hsilent : Silent (es₁ ++ es₂) := by
    simp [Silent, h₁.1, h₁.2, h₂.1, h₂.2]
  simpa using hes.silent hsilent (⟨rfl, rfl⟩ : Silent [])

theorem prints_sources {list : List (Source F)} {ess : List (List (Event W F U))}
    (h : List.Forall₂ (FileShown env) list ess) :
    prints ess.flatten =
      (List.zipWith (fileTranscript env) list (ess.map callsMade)).flatten := by
  induction h with
  | nil => rfl
  | cons hsrc _ ih =>
      rw [List.flatten_cons, prints_append, ih, hsrc.2, List.map_cons, List.zipWith_cons_cons,
        List.flatten_cons]

/-- **What is printed of a list of sources.** -/
theorem runList_leaves (list : List (Source F)) :
    Act.Leaves (fun es _ => ∃ segs : List (List (Call W F U)),
        List.Forall₂ FileTrace list (segs.map (List.map Call.answered)) ∧
        callsMade es = segs.flatten ∧
        prints es = (List.zipWith (fileTranscript env) list segs).flatten ++ runFooter)
      (runList env list) := by
  have hloop : ∀ acc : Totals F U, Act.Leaves
      (fun es _ => ∃ ess, List.Forall₂ (FileShown env) list ess ∧ es = ess.flatten)
      (Act.forEach (runSource env) list acc) := fun acc =>
    Act.Leaves.forEach (I := fun _ => True)
      (fun acc src _ => (runSource_leaves acc src).mono fun _ _ h => ⟨h, trivial⟩) list trivial
  refine Act.Leaves.bind (hloop _) ?_
  rintro _ acc ⟨ess, hess, rfl⟩
  refine Act.Leaves.bind (chdir_leaves _ _) fun es _ hes => ?_
  refine Act.Leaves.bind (say_leaves _ _) fun es₁ _ h₁ => ?_
  refine Act.Leaves.bind (say_leaves _ _) fun es₂ _ h₂ => ?_
  refine Act.Leaves.bind (say_leaves _ _) fun es₃ _ h₃ => ?_
  refine Act.Leaves.pure ⟨ess.map callsMade, ?_, ?_, ?_⟩
  · rw [List.map_map, List.forall₂_map_right_iff]
    exact hess.imp fun src es h => h.1
  · simp [callsMade_flatten, hes.2, h₁, h₂, h₃]
  · simp [prints_sources hess, hes.1, h₁, h₂, h₃, runFooter]

end Leaves

/-! ## The selection -/

/-- The names that were found in a source. -/
theorem foldl_selectTest_found (tests : List (Test F)) (kept : List (Test F))
    (targets : Table Nat) (found : Table Bool) (name : Str) :
    (tests.foldl selectTest (kept, targets, found)).2.2.lookup name = none ↔
      found.lookup name = none ∧
        ¬ ((targets.lookup name).isSome ∧ ∃ t ∈ tests, t.name = name) := by
  induction tests generalizing kept targets found with
  | nil => simp
  | cons test tests ih =>
      rw [List.foldl_cons]
      rcases h : targets.lookup test.name with _ | n
      · have hstep : selectTest (kept, targets, found) test = (kept, targets, found) := by
          rw [selectTest, h]
        rw [hstep, ih]
        refine and_congr_right fun _ => not_congr (and_congr_right fun hsome => ?_)
        have hne : test.name ≠ name := by
          rintro rfl
          rw [h] at hsome
          cases hsome
        simp [hne]
      · have hstep : selectTest (kept, targets, found) test
            = (kept ++ [test], targets.insert test.name (n + 1),
              found.insert test.name true) := by
          rw [selectTest, h]
        rw [hstep, ih, lookup_insert_if, lookup_insert_if]
        by_cases hname : name = test.name
        · subst hname
          simp [h]
        · have hne : test.name ≠ name := fun h => hname h.symm
          simp [hname, hne]

section Selection

variable {env : Env W F U}

theorem reportNotFound_run (testcases : List Str) (found : Table Bool) (name : Str) (p : Proc W) :
    ∃ es, reportNotFound env testcases found name p = ⟨es, .ok (), p⟩ ∧ callsMade es = [] ∧
      prints es = (testcases.filter fun testcase => found.lookup testcase = none).map
        fun testcase => (.print, [.string "testcase %q not found in %s".toList,
          .string testcase, .string name]) := by
  refine ⟨testcases.flatMap fun testcase => if found.lookup testcase = none then
    [.print .print [.string "testcase %q not found in %s".toList, .string testcase,
      .string name]] else [], ?_, ?_, ?_⟩
  · refine Act.forEach_writes fun testcase _ => ?_
    split_ifs
    · rfl
    · rfl
  · induction testcases with
    | nil => rfl
    | cons testcase testcases ih =>
        rw [List.flatMap_cons, callsMade_append, ih]
        split_ifs <;> rfl
  · induction testcases with
    | nil => rfl
    | cons testcase testcases ih =>
        rw [List.flatMap_cons, prints_append, ih]
        split_ifs with h
        · rw [List.filter_cons_of_pos (by simpa using h)]
          rfl
        · rw [List.filter_cons_of_neg (by simpa using h)]
          rfl

/-- The report of a source, when exactly the names are looked for. -/
theorem selectSource_leaves {names : List Str} (acc : List (Source F) × Table Nat)
    (src : Source F) (hacc : ∀ name, (acc.2.lookup name).isSome = decide (name ∈ names)) :
    Act.Leaves (fun es acc' => (prints es = reportedNames names src ∧ callsMade es = []) ∧
        ∀ name, (acc'.2.lookup name).isSome = decide (name ∈ names))
      (selectSource env names acc src) := by
  intro p acc' hres
  obtain ⟨_, htargets⟩ := foldl_selectTest src.tests [] acc.2 ∅
  have hfound := foldl_selectTest_found src.tests [] acc.2 ∅
  obtain ⟨es, hrun, hcalls, hprints⟩ := @reportNotFound_run _ _ _ env names
    (src.tests.foldl selectTest ([], acc.2, ∅)).2.2 src.name p
  have hvalue := ((selectSource_reports env names acc src).leaves p acc' hres).1
  have hevents : (selectSource env names acc src p).events = es := by
    rw [selectSource]
    simp only
    rw [Act.bind_of_ok hrun]
    split_ifs
    · exact List.append_nil es
    · exact List.append_nil es
  rw [hevents]
  refine ⟨⟨?_, hcalls⟩, fun name => ?_⟩
  · rw [hprints, reportedNames]
    congr 1
    refine List.filter_congr fun name hname => ?_
    rw [Bool.eq_iff_iff, decide_eq_true_iff, decide_eq_true_iff, hfound]
    simp [hacc, hname]
  · rw [hvalue, chooseStep]
    simp only
    rw [htargets, Option.isSome_map, hacc]

theorem selectTestcases_leaves (list : List (Source F)) (names : List Str) :
    Act.Leaves (fun es _ => prints es = list.flatMap (reportedNames names) ∧ callsMade es = [])
      (selectTestcases env list names) := by
  have htargets : ∀ name, ((names.foldl (fun targets name => targets.insert name 0)
      (∅ : Table Nat)).lookup name).isSome = decide (name ∈ names) := by
    intro name
    rw [lookup_targets, AList.lookup_empty]
    split_ifs with h
    · simp [h]
    · simp [h]
  refine (Act.Leaves.forEach selectSource_leaves list htargets).mono ?_
  rintro _ _ ⟨ess, hess, rfl⟩
  induction hess with
  | nil => exact ⟨rfl, rfl⟩
  | cons hsrc _ ih =>
      rw [List.flatten_cons, prints_append, callsMade_append, List.flatMap_cons, ih.1, ih.2,
        hsrc.1, hsrc.2]
      exact ⟨rfl, rfl⟩

/-- No name is missing, and nothing is printed. -/
theorem reportMissing_none {targets : Table Nat} {names : List Str}
    (h : ∀ name ∈ names, targets.lookup name ≠ some 0) :
    reportMissing env targets names = pure false := by
  rw [reportMissing]
  induction names with
  | nil => rfl
  | cons name names ih =>
      obtain ⟨hname, hnames⟩ := List.forall_mem_cons.mp h
      rw [Act.forEach, if_neg hname, pure_bind]
      exact ih hnames

end Selection

/-! ## The run -/

/-- The report of the selection, and the run of the list behind it. -/
theorem run_split {env : Env W F U} {list : List (Source F)} {testcases : Option (List Str)}
    {p : Proc W} {ns : Nat} {nf : Int} {errors : Errors F U}
    (h : (run env list testcases p).result = .ok (.ran ns nf errors)) :
    ∃ es, prints es = selectionReport list testcases ∧ callsMade es = [] ∧
      (run env list testcases p).events =
        es ++ (runList env (ranList list testcases) p).events ∧
      (run env list testcases p).result = (runList env (ranList list testcases) p).result := by
  have hempty : list.flatMap (reportedNames (U := U) []) = [] :=
    List.flatMap_eq_nil_iff.mpr fun _ _ => rfl
  rcases hp : p.doNotRun with _ | _
  · match testcases with
    | none =>
        rw [run_all hp]
        exact ⟨[], hempty.symm, rfl, rfl, rfl⟩
    | some [] =>
        refine ⟨[], hempty.symm, rfl, ?_⟩
        unfold run
        rw [Act.reads_bind_run, hp]
        exact ⟨rfl, rfl⟩
    | some (name :: names) =>
        by_cases hall : ∀ n ∈ name :: names, Occurs list n
        · obtain ⟨targets, hselect, htargets⟩ := selectTestcases_reports env list (name :: names)
          obtain ⟨es, _, hrun⟩ := hselect p
          have hmissing : reportMissing env targets (name :: names) = pure false :=
            reportMissing_none fun n hn hzero => (htargets n hn).mp hzero (hall n hn)
          have hleaves := selectTestcases_leaves list (name :: names) p _ (by rw [hrun])
          rw [hrun] at hleaves
          rw [run_names env (by simp) hp, Act.bind_of_ok hrun]
          simp only [hmissing]
          exact ⟨es, hleaves.1, hleaves.2, rfl, rfl⟩
        · have hmiss : ∃ n ∈ name :: names, ¬ Occurs list n := by
            push Not at hall
            exact hall
          obtain ⟨prints, _, hrun⟩ := run_missing env (by simp) hp hmiss
          rw [hrun] at h
          cases h
  · rw [run_blocked hp] at h
    cases h

/-- The events of a run of the list, with the calls of each source: they are a trace of the grammar,
and what is printed is the report of the selection, each source with what its calls show, and the
lines at the end. -/
structure Transcript (env : Env W F U) (list : List (Source F)) (testcases : Option (List Str))
    (es : List (Event W F U)) (segs : List (List (Call W F U))) : Prop where
  traces : List.Forall₂ FileTrace (ranList list testcases) (segs.map (List.map Call.answered))
  made : callsMade es = segs.flatten
  printed : prints es = selectionReport list testcases ++
    (List.zipWith (fileTranscript env) (ranList list testcases) segs).flatten ++ runFooter

section Transcript

variable {env : Env W F U} {list : List (Source F)} {testcases : Option (List Str)} {p : Proc W}
  {ns : Nat} {nf : Int} {errors : Errors F U}

/-- A run that returns leaves a transcript behind. -/
theorem run_shown (h : (run env list testcases p).result = .ok (.ran ns nf errors)) :
    ∃ segs, Transcript env list testcases (run env list testcases p).events segs := by
  obtain ⟨es, hprints, hcalls, hevents, hres⟩ := run_split h
  obtain ⟨segs, htrace, hmade, hshown⟩ := runList_leaves (ranList list testcases) p _ (hres ▸ h)
  refine ⟨segs, htrace, ?_, ?_⟩
  · rw [hevents, callsMade_append, hcalls, hmade]
    rfl
  · rw [hevents, prints_append, hprints, hshown, List.append_assoc]

/-- What it returns is counted from the calls of the transcript. -/
theorem Transcript.counts {segs : List (List (Call W F U))}
    (ht : Transcript env list testcases (run env list testcases p).events segs)
    (h : (run env list testcases p).result = .ok (.ran ns nf errors)) :
    ns = successes (segs.flatten.map Call.answered) ∧
      nf = countTests (ranList list testcases) - successes (segs.flatten.map Call.answered) ∧
      errors.files = fileErrors (ranList list testcases) (segs.map (List.map Call.answered)) ∧
      errors.count = (failures (segs.flatten.map Call.answered)).length := by
  have hplays := run_plays h
  rw [calls_eq, ht.made, List.map_flatten] at hplays
  have hcounts := listDialogue_plays.mpr ⟨_, ht.traces, rfl, rfl⟩
  have hsame := hplays.unique hcounts
  rw [Dialogue.done.injEq, Totals.addAll_spec ht.traces] at hsame
  simp only [Totals.result, Nat.zero_add, List.nil_append, RunResult.ran.injEq] at hsame
  obtain ⟨rfl, rfl, rfl⟩ := hsame
  rw [List.map_flatten]
  exact ⟨rfl, rfl, rfl, rfl⟩

end Transcript

/-! ## Reading it back -/

/-- The name of a test that was called, and whether it succeeded. -/
def Call.verdict (c : Call W F U) : Option (Str × Bool) :=
  match c.slot, c.result with
  | .test name, .ok _ => some (name, true)
  | .test name, .error _ => some (name, false)
  | _, _ => none

section Reading

variable {env : Env W F U}

end Reading

end Testcase
