import Mathlib.Data.List.Basic

/-!
# Machines with output

A component that keeps private state and is driven by calls from outside is a step function: from
a state and a call, the state afterwards and what became observable.  `after` and `events` run it
over a sequence of calls.

* `after_append`, `events_append` — a run is the run of its parts, one behind the other.
* `after_concat`, `events_concat` — a run with one more call.
* `mem_events` — every event of a run is one of a call.
-/

namespace Testcase

/-- A machine over states `S` that takes calls `I` and lets events `E` be observed. -/
abbrev Machine (S I E : Type) : Type := S → I → S × List E

namespace Machine

variable {S I E : Type} (m : Machine S I E)

/-- The state after a sequence of calls. -/
def after (s : S) : List I → S
  | [] => s
  | i :: is => after (m s i).1 is

/-- What is observed during a sequence of calls. -/
def events (s : S) : List I → List E
  | [] => []
  | i :: is => (m s i).2 ++ events (m s i).1 is

@[simp] theorem after_nil (s : S) : m.after s [] = s := rfl

@[simp] theorem after_cons (s : S) (i : I) (is : List I) :
    m.after s (i :: is) = m.after (m s i).1 is := rfl

@[simp] theorem events_nil (s : S) : m.events s [] = [] := rfl

@[simp] theorem events_cons (s : S) (i : I) (is : List I) :
    m.events s (i :: is) = (m s i).2 ++ m.events (m s i).1 is := rfl

theorem after_append (s : S) (is js : List I) :
    m.after s (is ++ js) = m.after (m.after s is) js := by
  induction is generalizing s with
  | nil => rfl
  | cons i is ih => exact ih (m s i).1

theorem events_append (s : S) (is js : List I) :
    m.events s (is ++ js) = m.events s is ++ m.events (m.after s is) js := by
  induction is generalizing s with
  | nil => rfl
  | cons i is ih =>
      rw [List.cons_append, events_cons, events_cons, ih, List.append_assoc]
      rfl

/-- One more call. -/
theorem after_concat (s : S) (is : List I) (i : I) :
    m.after s (is ++ [i]) = (m (m.after s is) i).1 := by
  rw [after_append]
  rfl

theorem events_concat (s : S) (is : List I) (i : I) :
    m.events s (is ++ [i]) = m.events s is ++ (m (m.after s is) i).2 := by
  rw [events_append, events_cons, events_nil, List.append_nil]

/-- An event of a run is one of a call, in the state that the calls before it led to. -/
theorem mem_events {s : S} {is : List I} {e : E} :
    e ∈ m.events s is ↔ ∃ pre i post, is = pre ++ i :: post ∧ e ∈ (m (m.after s pre) i).2 := by
  constructor
  · intro h
    induction is generalizing s with
    | nil => cases h
    | cons i is ih =>
        rcases List.mem_append.mp h with h | h
        · exact ⟨[], i, is, rfl, h⟩
        · obtain ⟨pre, j, post, rfl, hj⟩ := ih h
          exact ⟨i :: pre, j, post, rfl, hj⟩
  · rintro ⟨pre, i, post, rfl, h⟩
    rw [events_append, events_cons]
    exact List.mem_append_right _ (List.mem_append_left _ h)

end Machine

end Testcase
