import LuaTestcase.Core.Lists
import LuaTestcase.Registry.Register
import LuaTestcase.Runner.Verdict

/-!
# The list that is run, from the assignments

`getlist` makes a list of what is registered, and the runner calls what is on the list.

* `DefinedBy`, `Defines` — a source and a list of sources that have what was registered.
* `getlist_defines` — **the list for the runner is such a list**.
* `Defines.called_perm` — the tests that are called if nothing fails are those that were registered
  and are asked for, each once.
-/

namespace Testcase

variable {W F U : Type}

/-! ## Sources -/

/-- A registration, as the runner calls it. -/
def Registration.target (r : Registration F) : Target F := r.test.target

/-- The source has the tests and hooks that were registered under its name. -/
structure DefinedBy (log : List (Registration F)) (src : Source F) : Prop where
  tests : src.tests.Perm ((testsOf log src.name).map Registration.test)
  sorted : src.tests.Pairwise fun a b => a.lineno ≤ b.lineno
  beforeAll : src.beforeAll = hookOf log src.name Slot.beforeAll.name
  afterAll : src.afterAll = hookOf log src.name Slot.afterAll.name
  beforeEach : src.beforeEach = hookOf log src.name Slot.beforeEach.name
  afterEach : src.afterEach = hookOf log src.name Slot.afterEach.name

/-- The list has a source for every file with a registration, once. -/
structure Defines (log : List (Registration F)) (list : List (Source F)) : Prop where
  defined : ∀ src ∈ list, DefinedBy log src
  keys : ∀ name, (∃ src ∈ list, src.name = name) ↔ ∃ r ∈ log, r.key = name
  increasing : list.Pairwise fun a b => a.name < b.name

theorem ItemOf.hook_eq {reg : Registry F} {log : List (Registration F)}
    (hrep : Represents reg log) {key : Str} {item : Item F} (hitem : ItemOf reg key item)
    {name : Str} (hname : name ∈ setupAndTeardown) : item.hook name = hookOf log key name := by
  rw [Item.hook, hitem.hooks name hname, hrep.hookOf]
  rcases registered reg key name with _ | t
  · rfl
  · rfl

theorem ItemOf.source_name {reg : Registry F} {key : Str} {item : Item F}
    (hitem : ItemOf reg key item) : item.source.name = key := by
  obtain ⟨_, _, hname, _⟩ := hitem.fixed
  rw [Item.source, Item.string, hname]

theorem ItemOf.source_defined {reg : Registry F} {log : List (Registration F)}
    (hrep : Represents reg log) {key : Str} {item : Item F} (hitem : ItemOf reg key item) :
    DefinedBy log item.source := by
  have hname := hitem.source_name
  constructor
  · rw [hname]
    exact hitem.tests_perm hrep
  · exact hitem.sorted
  all_goals
    rw [hname]
    exact hitem.hook_eq hrep (by decide)

/-- **The list for the runner**, from what is registered. -/
theorem getlist_defines {reg : Registry F} {log : List (Registration F)}
    (hrep : Represents reg log) (o : Traversal) :
    Defines log ((getlist o reg).1.map Item.source) := by
  have hlisting := getlist_listing hrep o
  have hname : ∀ item ∈ (getlist o reg).1, item.source.name = item.name :=
    fun item hitem => (hlisting.item item hitem).source_name
  refine ⟨?_, fun name => ?_, ?_⟩
  · intro src hsrc
    obtain ⟨item, hitem, rfl⟩ := List.mem_map.mp hsrc
    exact (hlisting.item item hitem).source_defined hrep
  · rw [← hrep.key_iff, ← hlisting.keys]
    constructor
    · rintro ⟨src, hsrc, rfl⟩
      obtain ⟨item, hitem, rfl⟩ := List.mem_map.mp hsrc
      exact ⟨item, hitem, (hname item hitem).symm⟩
    · rintro ⟨item, hitem, rfl⟩
      exact ⟨item.source, List.mem_map_of_mem hitem, hname item hitem⟩
  · refine List.pairwise_map.mpr (hlisting.increasing.imp_of_mem ?_)
    intro a b ha hb hlt
    rw [hname a ha, hname b hb]
    exact hlt

/-- All tests of the list. -/
def allTests (list : List (Source F)) : List (Test F) := list.flatMap Source.tests

/-- **The tests of the list are those that were registered**, but for the hooks. -/
theorem Defines.tests_perm {log : List (Registration F)} {list : List (Source F)}
    (hdef : Defines log list) :
    (allTests list).Perm
      ((log.filter fun r => r.name ∉ setupAndTeardown).map Registration.test) := by
  have hkeys : (list.map Source.name).Nodup := by
    rw [List.nodup_iff_pairwise_ne, List.pairwise_map]
    exact hdef.increasing.imp fun hlt => hlt.ne
  have hgroups : (list.flatMap fun src => testsOf log src.name).Perm
      (log.filter fun r => r.name ∉ setupAndTeardown) := by
    have hgroup : ∀ key, testsOf log key =
        (log.filter fun r => r.name ∉ setupAndTeardown).filter fun r => r.key = key := by
      intro key
      rw [testsOf, List.filter_filter]
      exact List.filter_congr fun r _ => by simp
    have hmap : (list.map Source.name).flatMap (testsOf log) =
        list.flatMap fun src => testsOf log src.name := List.flatMap_map _ _ _
    rw [← hmap, List.flatMap_congr fun key _ => hgroup key]
    refine groups_perm hkeys fun r hr => ?_
    obtain ⟨src, hsrc, hname⟩ := (hdef.keys r.key).mpr ⟨r, (List.mem_filter.mp hr).1, rfl⟩
    exact List.mem_map.mpr ⟨src, hsrc, hname⟩
  refine List.Perm.trans ?_ (hgroups.map _)
  rw [List.map_flatMap]
  exact List.Perm.flatMap_left list fun src hsrc => (hdef.defined src hsrc).tests

/-- The name of the test is asked for, if any name is. -/
def Asked (names : List Str) (name : Str) : Prop := names = [] ∨ name ∈ names

instance (names : List Str) (name : Str) : Decidable (Asked names name) :=
  inferInstanceAs (Decidable (_ ∨ _))

/-- The tests that are run are those of the list that are asked for. -/
theorem allTests_ranList (list : List (Source F)) (names : List Str) :
    allTests (ranList list (some names)) = (allTests list).filter fun t => Asked names t.name := by
  cases names with
  | nil => simp [ranList, Asked]
  | cons n names =>
      have hasked : ∀ t : Test F, decide (Asked (n :: names) t.name) =
          decide (t.name ∈ n :: names) := fun t => by simp [Asked]
      show allTests (chooseAll list (n :: names)) = _
      rw [chooseAll]
      simp only [hasked]
      induction list with
      | nil => rfl
      | cons src list ih =>
          have hcons : allTests (src :: list) = src.tests ++ allTests list := rfl
          rw [hcons, List.filter_append, ← ih, List.filterMap_cons, choose]
          split_ifs with hpos
          · rfl
          · have hnone : src.tests.filter (fun t => t.name ∈ n :: names) = [] :=
              List.length_eq_zero_iff.mp (Nat.eq_zero_of_not_pos hpos)
            rw [hnone]
            rfl

/-! ## The calls -/

/-- The tests that the plan of a list calls. -/
theorem planDone_tests (list : List (Source F)) :
    testsCalled (planDone (U := U) list) = (allTests list).map Test.target := by
  have hhook : ∀ (slot : Slot) (hook : Option F), slot.isTest = false →
      (hookPlan slot hook).filter (fun target => target.1.isTest) = [] := by
    intro slot hook hslot
    cases hook with
    | none => rfl
    | some func => simp [hookPlan, hslot]
  have htest : ∀ (src : Source F) (test : Test F),
      (testPlan src test).filter (fun target => target.1.isTest) = [test.target] := by
    intro src test
    rw [testPlan, List.filter_append, List.filter_cons_of_pos (by rfl), hhook _ _ rfl,
      hhook _ _ rfl]
    rfl
  rw [testsCalled, planDone_fst, plan, allTests, List.filter_flatMap, List.map_flatMap]
  refine List.flatMap_congr fun src _ => ?_
  rw [sourcePlan, List.filter_append, List.filter_append, hhook _ _ rfl, hhook _ _ rfl,
    List.filter_flatMap, List.nil_append, List.append_nil, List.map_eq_flatMap]
  exact List.flatMap_congr fun test _ => htest src test

/-- The names that are kept: not that of a hook, and asked for. -/
def Registration.isRun (names : List Str) (r : Registration F) : Bool :=
  decide (r.name ∉ setupAndTeardown) && decide (Asked names r.name)

/-- The plan of a list that is defined by registrations calls each that is run once. -/
theorem Defines.called_perm {log : List (Registration F)} {list : List (Source F)}
    (hdef : Defines log list) (names : List Str) :
    (testsCalled (planDone (U := U) (ranList list (some names)))).Perm
      ((log.filter (Registration.isRun names)).map Registration.target) := by
  have hfilter : log.filter (Registration.isRun names) =
      (log.filter fun r => r.name ∉ setupAndTeardown).filter fun r => Asked names r.name := by
    rw [List.filter_filter]
    refine List.filter_congr fun r _ => ?_
    rw [Registration.isRun, Bool.and_comm]
  have hmap : (log.filter (Registration.isRun names)).map Registration.target =
      ((((log.filter fun r => r.name ∉ setupAndTeardown).map Registration.test).filter
        fun t => Asked names t.name).map Test.target) := by
    rw [hfilter, List.filter_map, List.map_map]
    rfl
  rw [planDone_tests, allTests_ranList, hmap]
  exact (hdef.tests_perm.filter _).map _

end Testcase
