import Mathlib.Algebra.GroupWithZero.Nat
import LuaTestcase.Runner.Trace

/-!
# Selecting tests by name

`select_testcases` interleaves counting, reporting and copying; what it comes to is one pass over
the list.

* `chooseAll` — the selection as a function: each source with its matching tests, in order, and
  without the sources that have none.
* `selectTestcases_reports` — `select_testcases` prints, changes nothing, and returns this list
  with the number of tests of each name.
* `run_selected`, `run_missing` — hence `run(list, names)` is `run(list')` behind some printing,
  and with a name that occurs nowhere it is that printing only.
-/

namespace Testcase

variable {W F U : Type}

/-! ## The selection as a function -/

/-- A source with its matching tests, if it has one. -/
def choose (names : List Str) (src : Source F) : Option (Source F) :=
  if 0 < (src.tests.filter fun t => t.name ∈ names).length then
    some { src with tests := src.tests.filter fun t => t.name ∈ names }
  else none

/-- The list of sources that is run. -/
def chooseAll (list : List (Source F)) (names : List Str) : List (Source F) :=
  list.filterMap (choose names)

/-- Some source has a test of the name. -/
def Occurs (list : List (Source F)) (name : Str) : Prop :=
  ∃ src ∈ list, ∃ t ∈ src.tests, t.name = name

/-- The number of tests of the name. -/
def hits (tests : List (Test F)) (name : Str) : Nat := tests.countP fun t => t.name = name

/-! ## Actions that only print -/

/-- The event is printing. -/
def Event.IsPrint (e : Event W F U) : Prop := ∃ printer args, e = .print printer args

/-- Nothing but printing. -/
def OnlyPrints (es : List (Event W F U)) : Prop := ∀ e ∈ es, e.IsPrint

/-- Printing calls nothing. -/
theorem OnlyPrints.calls {es : List (Event W F U)} (h : OnlyPrints es) : calls es = [] := by
  refine List.filterMap_eq_nil_iff.mpr fun e he => ?_
  obtain ⟨printer, args, rfl⟩ := h e he
  rfl

theorem OnlyPrints.calls_append {prints : List (Event W F U)} (h : OnlyPrints prints)
    (es : List (Event W F U)) : Testcase.calls (prints ++ es) = Testcase.calls es := by
  rw [Testcase.calls, List.filterMap_append, ← Testcase.calls, ← Testcase.calls, h.calls,
    List.nil_append]

/-- The action prints, returns the value and changes nothing. -/
abbrev Reports {α : Type} (m : Run W F U α) (a : α) : Prop := Act.Emits Event.IsPrint m a

theorem say_reports {env : Env W F U} {printer : Printer} {args : List (Value F U)}
    (h : conversions args = []) : Reports (say env printer args) () := by
  rw [say_plain h]
  exact Act.Emits.emit ⟨printer, args, rfl⟩

/-! ## `select_testcases` -/

/-- The loop over the tests of a source: the tests of the names looked for, in order, and the
hits of each name. -/
theorem foldl_selectTest (tests kept : List (Test F)) (targets : Table Nat)
    (found : Table Bool) :
    (tests.foldl selectTest (kept, targets, found)).1
      = kept ++ tests.filter (fun t => (targets.lookup t.name).isSome) ∧
    ∀ name, (tests.foldl selectTest (kept, targets, found)).2.1.lookup name
      = (targets.lookup name).map (· + hits tests name) := by
  induction tests generalizing kept targets found with
  | nil => simp [hits]
  | cons test tests ih =>
      rcases h : targets.lookup test.name with _ | n
      · have hstep : selectTest (kept, targets, found) test = (kept, targets, found) := by
          rw [selectTest, h]
        obtain ⟨hkept, htargets⟩ := ih kept targets found
        rw [List.foldl_cons, hstep]
        refine ⟨by rw [hkept, List.filter_cons_of_neg (by simp [h])], fun name => ?_⟩
        rw [htargets]
        by_cases hname : test.name = name
        · rw [← hname, h]
          rfl
        · rw [hits, hits, List.countP_cons_of_neg (by simpa using hname)]
      · have hstep : selectTest (kept, targets, found) test
            = (kept ++ [test], targets.insert test.name (n + 1),
              found.insert test.name true) := by
          rw [selectTest, h]
        obtain ⟨hkept, htargets⟩ := ih (kept ++ [test]) (targets.insert test.name (n + 1))
          (found.insert test.name true)
        rw [List.foldl_cons, hstep]
        refine ⟨?_, fun name => ?_⟩
        · rw [hkept, List.filter_cons_of_pos (by simp [h]), List.append_assoc,
            List.singleton_append]
          -- the names looked for are the same behind the insertion
          have hsame : ∀ t : Test F, ((targets.insert test.name (n + 1)).lookup t.name).isSome
              = (targets.lookup t.name).isSome := by
            intro t
            rw [lookup_insert_if]
            split_ifs with ht
            · rw [ht, h]
              rfl
            · rfl
          simp only [hsame]
        · rw [htargets, lookup_insert_if]
          by_cases hname : test.name = name
          · rw [if_pos hname.symm, ← hname, h, hits, hits,
              List.countP_cons_of_pos (by simp)]
            simp only [Option.map_some, Option.some.injEq]
            omega
          · rw [if_neg (fun h => hname h.symm), hits, hits,
              List.countP_cons_of_neg (by simpa using hname)]

/-- The table of names looked for. -/
theorem lookup_targets (names : List Str) (targets : Table Nat) (name : Str) :
    (names.foldl (fun targets name => targets.insert name 0) targets).lookup name
      = if name ∈ names then some 0 else targets.lookup name := by
  induction names generalizing targets with
  | nil => simp
  | cons n names ih =>
      rw [List.foldl_cons, ih, lookup_insert_if]
      by_cases h : name ∈ names
      · simp [h]
      · by_cases hn : name = n
        · simp [hn]
        · simp [h, hn]

section Select

variable (env : Env W F U)

theorem reportNotFound_reports (testcases : List Str) (found : Table Bool) (name : Str) :
    Reports (reportNotFound env testcases found name) () := by
  have hbody : ∀ (u : Unit) (testcase : Str), Reports
      (if found.lookup testcase = none then
        say env .print [.string "testcase %q not found in %s".toList, .string testcase,
          .string name]
      else pure ()) () := by
    intro u testcase
    split_ifs
    · exact say_reports rfl
    · exact Act.Emits.pure ()
  exact Act.Emits.forEach hbody testcases ()

/-- One step of the loop over the sources, as a function. -/
def chooseStep (acc : List (Source F) × Table Nat) (src : Source F) :
    List (Source F) × Table Nat :=
  let res := src.tests.foldl selectTest ([], acc.2, ∅)
  (if 0 < res.1.length then acc.1 ++ [{ src with tests := res.1 }] else acc.1, res.2.1)

theorem selectSource_reports (testcases : List Str) (acc : List (Source F) × Table Nat)
    (src : Source F) : Reports (selectSource env testcases acc src) (chooseStep acc src) := by
  refine Act.Emits.bind (reportNotFound_reports env _ _ _) ?_
  rw [chooseStep]
  split_ifs
  · exact Act.Emits.pure _
  · exact Act.Emits.pure _

/-- The loop over the sources: with every name of `names` looked for and no other. -/
theorem foldl_chooseStep {names : List Str} (list : List (Source F))
    (acc : List (Source F) × Table Nat)
    (hacc : ∀ name, (acc.2.lookup name).isSome = decide (name ∈ names)) :
    (list.foldl chooseStep acc).1 = acc.1 ++ chooseAll list names ∧
    ∀ name, (list.foldl chooseStep acc).2.lookup name
      = (acc.2.lookup name).map (· + (list.map fun src => hits src.tests name).sum) := by
  induction list generalizing acc with
  | nil => simp [chooseAll]
  | cons src list ih =>
      obtain ⟨hkept, htargets⟩ := foldl_selectTest src.tests [] acc.2 ∅
      have hkept : (src.tests.foldl selectTest ([], acc.2, ∅)).1
          = src.tests.filter fun t => t.name ∈ names := by
        rw [hkept, List.nil_append]
        exact List.filter_congr fun t _ => hacc t.name
      have hstep : (chooseStep acc src).1 = acc.1 ++ (choose names src).toList := by
        rw [chooseStep, choose, hkept]
        split_ifs
        · rfl
        · exact (List.append_nil _).symm
      have hacc' : ∀ name, ((chooseStep acc src).2.lookup name).isSome
          = decide (name ∈ names) := by
        intro name
        rw [chooseStep, htargets, Option.isSome_map, hacc]
      obtain ⟨ih₁, ih₂⟩ := ih (chooseStep acc src) hacc'
      rw [List.foldl_cons]
      refine ⟨?_, fun name => ?_⟩
      · rw [ih₁, hstep, chooseAll, chooseAll, List.append_assoc]
        rcases hchoose : choose names src with _ | chosen
        · rw [List.filterMap_cons_none hchoose]
          rfl
        · rw [List.filterMap_cons_some hchoose]
          rfl
      · rw [ih₂, chooseStep, htargets, Option.map_map, List.map_cons, List.sum_cons]
        congr 1
        funext n
        exact Nat.add_assoc n _ _

/-- The hits of a name that is looked for. -/
theorem hits_eq_zero_iff {list : List (Source F)} {name : Str} :
    (list.map fun src => hits src.tests name).sum = 0 ↔ ¬ Occurs list name := by
  induction list with
  | nil => simp [Occurs]
  | cons src list ih =>
      rw [List.map_cons, List.sum_cons, Nat.add_eq_zero_iff, ih, hits, List.countP_eq_zero]
      simp only [Occurs, List.mem_cons, exists_eq_or_imp, not_or, not_exists, not_and,
        decide_eq_true_eq]

/-- The loops of `select_testcases`, as functions. -/
theorem foldl_chooseStep_targets (list : List (Source F)) (names : List Str) :
    (list.foldl chooseStep ([], names.foldl (fun targets name => targets.insert name 0) ∅)).1
      = chooseAll list names ∧
    ∀ name ∈ names, (list.foldl chooseStep
        ([], names.foldl (fun targets name => targets.insert name 0) ∅)).2.lookup name = some 0 ↔
      ¬ Occurs list name := by
  have hlookup : ∀ name, (names.foldl (fun targets name => targets.insert name 0)
      (∅ : Table Nat)).lookup name = if name ∈ names then some 0 else none := by
    intro name
    rw [lookup_targets, AList.lookup_empty]
  have hsome : ∀ name, ((names.foldl (fun targets name => targets.insert name 0)
      (∅ : Table Nat)).lookup name).isSome = decide (name ∈ names) := by
    intro name
    rw [hlookup]
    split_ifs with h
    · simp [h]
    · simp [h]
  obtain ⟨hlist, hhits⟩ := foldl_chooseStep list ([], _) hsome
  refine ⟨hlist, fun name hname => ?_⟩
  rw [hhits, hlookup, if_pos hname, ← hits_eq_zero_iff]
  simp

/-- **`select_testcases`** prints, and returns the chosen sources with the hits of the names. -/
theorem selectTestcases_reports (list : List (Source F)) (names : List Str) :
    ∃ targets, Reports (selectTestcases env list names) (chooseAll list names, targets) ∧
      ∀ name ∈ names, targets.lookup name = some 0 ↔ ¬ Occurs list name := by
  obtain ⟨hlist, htargets⟩ := foldl_chooseStep_targets list names
  refine ⟨_, ?_, htargets⟩
  rw [← hlist]
  exact Act.Emits.forEach (selectSource_reports env names) list _

theorem reportMissing_reports (targets : Table Nat) (names : List Str) :
    Reports (reportMissing env targets names)
      (decide (∃ name ∈ names, targets.lookup name = some 0)) := by
  have hbody : ∀ (notfound : Bool) (name : Str), Reports
      (if targets.lookup name = some 0 then do
        say env .print [.string "testcase %q not found in any test file".toList, .string name]
        pure true
      else pure notfound)
      (notfound || decide (targets.lookup name = some 0)) := by
    intro notfound name
    split_ifs with h
    · rw [decide_eq_true h, Bool.or_true]
      exact Act.Emits.bind (say_reports rfl) (Act.Emits.pure true)
    · rw [decide_eq_false h, Bool.or_false]
      exact Act.Emits.pure notfound
  have hfold : ∀ (names : List Str) (b : Bool),
      names.foldl (fun b name => b || decide (targets.lookup name = some 0)) b
        = (b || decide (∃ name ∈ names, targets.lookup name = some 0)) := by
    intro names
    induction names with
    | nil => intro b; simp
    | cons name names ih =>
        intro b
        rw [List.foldl_cons, ih, Bool.or_assoc]
        congr 1
        simp [Bool.decide_or]
  have hloop := Act.Emits.forEach hbody names false
  rw [hfold, Bool.false_or] at hloop
  exact hloop

end Select

/-! ## `run` with names -/

section Run

variable (env : Env W F U) {list : List (Source F)} {names : List Str} {p : Proc W}

theorem run_names (hne : names ≠ []) (hp : p.doNotRun = false) :
    run env list (some names) p = (do
      let x ← selectTestcases env list names
      let notfound ← reportMissing env x.2 names
      if notfound then pure (RunResult.refused "specified testcases not found".toList)
      else runList env x.1) p := by
  cases names with
  | nil => exact absurd rfl hne
  | cons name names =>
      unfold run
      rw [Act.reads_bind_run, hp]
      rfl

/-- **With names that all occur, the chosen list is run**, behind some printing. -/
theorem run_selected (hne : names ≠ []) (hp : p.doNotRun = false)
    (hall : ∀ name ∈ names, Occurs list name) :
    ∃ prints, OnlyPrints prints ∧ run env list (some names) p
      = ⟨prints ++ (runList env (chooseAll list names) p).events,
        (runList env (chooseAll list names) p).result,
        (runList env (chooseAll list names) p).world⟩ := by
  obtain ⟨targets, hselect, htargets⟩ := selectTestcases_reports env list names
  have hnone : decide (∃ name ∈ names, targets.lookup name = some 0) = false := by
    refine decide_eq_false ?_
    rintro ⟨name, hname, hzero⟩
    exact (htargets name hname).mp hzero (hall name hname)
  have hmissing := reportMissing_reports env targets names
  rw [hnone] at hmissing
  obtain ⟨prints, hprints, hrun⟩ := hselect p
  obtain ⟨prints', hprints', hrun'⟩ := hmissing p
  refine ⟨prints ++ prints', fun e he => (List.mem_append.mp he).elim (hprints e) (hprints' e), ?_⟩
  rw [run_names env hne hp, Act.bind_of_ok hrun, Act.bind_of_ok hrun', List.append_assoc]
  rfl

/-- **With a name that does not occur, nothing is run.** -/
theorem run_missing (hne : names ≠ []) (hp : p.doNotRun = false)
    (hmiss : ∃ name ∈ names, ¬ Occurs list name) :
    ∃ prints, OnlyPrints prints ∧ run env list (some names) p
      = ⟨prints, .ok (.refused "specified testcases not found".toList), p⟩ := by
  obtain ⟨targets, hselect, htargets⟩ := selectTestcases_reports env list names
  have hsome : decide (∃ name ∈ names, targets.lookup name = some 0) = true := by
    obtain ⟨name, hname, hnot⟩ := hmiss
    exact decide_eq_true ⟨name, hname, (htargets name hname).mpr hnot⟩
  have hmissing := reportMissing_reports env targets names
  rw [hsome] at hmissing
  obtain ⟨prints, hprints, hrun⟩ := hselect p
  obtain ⟨prints', hprints', hrun'⟩ := hmissing p
  refine ⟨prints ++ prints', fun e he => (List.mem_append.mp he).elim (hprints e) (hprints' e), ?_⟩
  rw [run_names env hne hp, Act.bind_of_ok hrun, Act.bind_of_ok hrun']
  simp

end Run

end Testcase
