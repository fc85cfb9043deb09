import LuaTestcase.Core.Kernel
import LuaTestcase.Registry.List

/-!
# `testcase`

`lib/testcase.lua`: an assignment to a field of the module registers a function, or raises the
error that `add` returns.  The chunk of a test file makes such assignments; which ones depends on
what it catches, so it is a dialogue, and its result is how loading it ends.

* `register` — an assignment; `FileChunk` — what a file does.
* `accepted` — the registrations of the assignments that raised nothing.
* `serve_represents` — what is registered behind a chunk.
* `hookOf`, `testsOf` — what was registered for a file.
-/

namespace Testcase

open Dialogue

variable {F U : Type}

/-! ## Assignments -/

/-- An assignment `testcase[name] = func`: the outside it is made in, and the position that
`error` puts in front of a message. -/
structure Assignment (F U : Type) where
  host : Host F
  name : Value F U
  func : Value F U
  position : Str

/-- `register(_, name, func)`. -/
def register (reg : Registry F) (a : Assignment F U) : Registry F × Except (Value F U) Unit :=
  match add a.host reg a.name a.func with
  | (reg', none) => (reg', .ok ())
  | (reg', some err) => (reg', .error (.string (a.position ++ err)))

/-- The chunk of a file: its assignments, and how it ends. -/
abbrev FileChunk (F U : Type) : Type :=
  Dialogue (Assignment F U) (Except (Value F U) Unit) (Except (Value F U) Unit)

/-- Assignments, and what they raised. -/
abbrev Assignments (F U : Type) : Type := List (Assignment F U × Except (Value F U) Unit)

/-- The registration that an assignment asks for. -/
def Assignment.registration (a : Assignment F U) : Option (Registration F) :=
  registrationOf a.host a.name a.func

/-- The registration of an assignment that raised nothing. -/
def acceptedOf : Assignment F U × Except (Value F U) Unit → Option (Registration F)
  | (a, .ok _) => a.registration
  | (_, .error _) => none

/-- The registrations of the assignments that raised nothing. -/
def accepted (log : Assignments F U) : List (Registration F) := log.filterMap acceptedOf

@[simp] theorem accepted_append (log log' : Assignments F U) :
    accepted (log ++ log') = accepted log ++ accepted log' := List.filterMap_append

/-- What raised nothing was registered; the registry is as it was behind what raised an error. -/
theorem register_cases (reg : Registry F) (a : Assignment F U) :
    (∃ r, a.registration = some r ∧ (add a.host reg a.name a.func).2 = none ∧
      register reg a = ((add a.host reg a.name a.func).1, .ok ())) ∨
    ∃ err, (add a.host reg a.name a.func).2 = some err ∧
      register reg a = (reg, .error (.string (a.position ++ err))) := by
  rw [register]
  rcases hadd : add a.host reg a.name a.func with ⟨reg', _ | err⟩
  · obtain ⟨r, hr, _⟩ := add_accepted (by rw [hadd])
    exact .inl ⟨r, hr, rfl, rfl⟩
  · have hsame : (add a.host reg a.name a.func).1 = reg := add_error (by rw [hadd])
    rw [hadd] at hsame
    obtain rfl : reg' = reg := hsame
    exact .inr ⟨err, rfl, rfl⟩

theorem register_represents {reg : Registry F} {log : List (Registration F)}
    (hrep : Represents reg log) (a : Assignment F U) :
    Represents (register reg a).1 (log ++ accepted [(a, (register reg a).2)]) := by
  have hstep := History.step_represents (h := ⟨reg, log⟩) hrep (.add a.host a.name a.func)
  rcases register_cases reg a with ⟨r, hr, hadd, hregister⟩ | ⟨err, hadd, hregister⟩
  · have hlog : log ++ accepted [(a, (register reg a).2)] = log ++ [r] := by
      rw [hregister]
      simp [accepted, acceptedOf, hr]
    have hr' : registrationOf a.host a.name a.func = some r := hr
    simp only [History.step, hadd, hr'] at hstep
    rw [hlog, hregister]
    exact hstep
  · have hlog : log ++ accepted [(a, (register reg a).2)] = log := by
      rw [hregister]
      exact List.append_nil log
    rw [hlog, hregister]
    exact hrep

/-- **What a chunk assigns is registered**: the accepted assignments, behind those before it. -/
theorem serve_represents {reg : Registry F} {log : List (Registration F)}
    (hrep : Represents reg log) (chunk : FileChunk F U) :
    Represents (chunk.serve register reg).state
      (log ++ accepted (chunk.serve register reg).log) := by
  induction chunk generalizing reg log with
  | done res => simpa [accepted] using hrep
  | ask a next ih =>
      have hnext := ih (register reg a).2 (register_represents hrep a)
      rw [List.append_assoc, ← accepted_append] at hnext
      exact hnext

/-! ## The list -/

/-- The function that was registered for a file under the name of a hook. -/
def hookOf (log : List (Registration F)) (key name : Str) : Option F :=
  (log.find? fun r => decide (r.key = key) && decide (r.name = name)).map Registration.func

/-- The registrations for a file, but for its hooks. -/
def testsOf (log : List (Registration F)) (key : Str) : List (Registration F) :=
  log.filter fun r => r.key = key ∧ r.name ∉ setupAndTeardown

theorem Represents.hookOf {reg : Registry F} {log : List (Registration F)}
    (hrep : Represents reg log) (key name : Str) :
    hookOf log key name = (registered reg key name).map Test.func := by
  rw [Testcase.hookOf]
  rcases hfind : log.find? (fun r => decide (r.key = key) && decide (r.name = name)) with _ | r
  · rw [hfind]
    rcases hreg : registered reg key name with _ | t
    · rfl
    · obtain ⟨r, hr, hk, hn, _⟩ := (hrep.registered_iff key name t).mp hreg
      have hnone := List.find?_eq_none.mp hfind r hr
      simp [hk, hn] at hnone
  · have hkn := List.find?_some hfind
    simp only [Bool.and_eq_true, decide_eq_true_eq] at hkn
    rw [hfind, (hrep.registered_iff key name r.test).mpr
      ⟨r, List.mem_of_find?_eq_some hfind, hkn.1, hkn.2, rfl⟩]
    rfl

/-- The registrations have different tests under a key. -/
theorem Represents.testsOf_nodup {reg : Registry F} {log : List (Registration F)}
    (hrep : Represents reg log) (key : Str) : ((testsOf log key).map Registration.test).Nodup := by
  rw [List.nodup_iff_pairwise_ne, List.pairwise_map]
  refine (hrep.distinct.sublist List.filter_sublist).imp_of_mem ?_
  intro r r' hr hr' hdistinct htest
  have hkey := (List.mem_filter.mp hr).2
  have hkey' := (List.mem_filter.mp hr').2
  simp only [decide_eq_true_eq] at hkey hkey'
  exact hdistinct ⟨hkey.1.trans hkey'.1.symm, congrArg Test.name htest⟩

/-- The item of a file has the tests that were registered for it. -/
theorem ItemOf.tests_perm {reg : Registry F} {log : List (Registration F)}
    (hrep : Represents reg log) {key : Str} {item : Item F} (hitem : ItemOf reg key item) :
    item.tests.Perm ((testsOf log key).map Registration.test) := by
  rw [List.perm_ext_iff_of_nodup hitem.once.of_map (hrep.testsOf_nodup key)]
  intro t
  rw [hitem.tests, hrep.registered_iff, List.mem_map]
  constructor
  · rintro ⟨hhook, r, hr, hk, hn, rfl⟩
    exact ⟨r, List.mem_filter.mpr ⟨hr, by simpa using ⟨hk, hhook⟩⟩, rfl⟩
  · rintro ⟨r, hr, rfl⟩
    obtain ⟨hr, hkey⟩ := List.mem_filter.mp hr
    simp only [decide_eq_true_eq] at hkey
    exact ⟨hkey.2, r, hr, hkey.1, rfl, rfl⟩

end Testcase
