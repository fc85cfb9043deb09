import Mathlib.Data.List.Basic
import Mathlib.Data.List.Forall2

/-!
# Actions with an event log, an abstract world and an early end

A procedure that calls into code it cannot see does three things worth recording: it changes a
world it knows nothing about, it may end early (an error raised, the process exited), and it
leaves a sequence of observable events behind.  `Act W E H α` is such a procedure: from a world
of type `W` it yields the events of type `E` it emitted, either a value of type `α` or the reason
of type `H` it stopped early, and the world it ends in.  Unlike in an exception monad over a
writer, **the log of an action that stops early is kept** — what had been done before an error is
exactly what the theorems about error paths are about.

* `Act.bind` sequences: the second action runs only if the first returned, and its events are
  appended.
* `Act.forEach` is the loop over a list with an accumulator.
* `Act.Closed` — the properties of actions that sequencing preserves, and loops with it; among
  them are those of all events and those of all early ends.
* `Act.EndsBy` — the actions that stop exactly at an event of certain kinds.
* `Act.Emits` — the actions that leave events of one kind behind, return a known value and change
  nothing; `Act.StopsAt` — those that stop early.
* `Act.Ensures` — what is known of the value if the action returns; `Act.Leaves` — of the value and
  the events left behind.
* `Act.Walks` — the events are a path between what is seen of the world before and afterwards.
-/

namespace Testcase

/-- What running an action leaves behind: the events it emitted in order, the value it returned
or the reason it stopped early, and the world it ends in. -/
structure Outcome (W E H α : Type) where
  events : List E
  result : Except H α
  world : W

/-- An action over worlds `W` that emits events `E`, may stop early with an `H`, and otherwise
returns an `α`. -/
def Act (W E H α : Type) : Type := W → Outcome W E H α

namespace Act

variable {W E H α β γ : Type}

/-- Return a value, do nothing. -/
protected def pure (a : α) : Act W E H α := fun w => ⟨[], .ok a, w⟩

/-- Run `m`; if it returned, run `f` on its value and append the events. -/
protected def bind (m : Act W E H α) (f : α → Act W E H β) : Act W E H β := fun w =>
  match m w with
  | ⟨es, .ok a, w'⟩ => ⟨es ++ (f a w').events, (f a w').result, (f a w').world⟩
  | ⟨es, .error h, w'⟩ => ⟨es, .error h, w'⟩

instance : Monad (Act W E H) where
  pure := Act.pure
  bind := Act.bind

/-- Stop early. -/
def halt (h : H) : Act W E H α := fun w => ⟨[], .error h, w⟩

/-- Emit one event. -/
def emit (e : E) : Act W E H Unit := fun w => ⟨[e], .ok (), w⟩

/-- Emit several events. -/
def write (es : List E) : Act W E H Unit := fun w => ⟨es, .ok (), w⟩

/-- Read something off the world. -/
def reads (f : W → α) : Act W E H α := fun w => ⟨[], .ok (f w), w⟩

/-- Replace the world. -/
def modify (f : W → W) : Act W E H Unit := fun w => ⟨[], .ok (), f w⟩

/-- Change the world, and return something read off it. -/
def perform (f : W → α × W) : Act W E H α := fun w => ⟨[], .ok (f w).1, (f w).2⟩

/-- The same action, its events renamed. -/
def mapEvents {E' : Type} (f : E → E') (m : Act W E H α) : Act W E' H α := fun w =>
  ⟨(m w).events.map f, (m w).result, (m w).world⟩

/-- The loop over a list with an accumulator, from the front. -/
def forEach (body : β → α → Act W E H β) : List α → β → Act W E H β
  | [], b => pure b
  | a :: as, b => body b a >>= fun b' => forEach body as b'

/-! ## Running the primitives -/

@[simp] theorem pure_run (a : α) (w : W) : (pure a : Act W E H α) w = ⟨[], .ok a, w⟩ := rfl

@[simp] theorem halt_run (h : H) (w : W) : (halt h : Act W E H α) w = ⟨[], .error h, w⟩ := rfl

@[simp] theorem emit_run (e : E) (w : W) : (emit e : Act W E H Unit) w = ⟨[e], .ok (), w⟩ := rfl

@[simp] theorem write_run (es : List E) (w : W) :
    (write es : Act W E H Unit) w = ⟨es, .ok (), w⟩ := rfl

@[simp] theorem reads_run (f : W → α) (w : W) :
    (reads f : Act W E H α) w = ⟨[], .ok (f w), w⟩ := rfl

@[simp] theorem modify_run (f : W → W) (w : W) :
    (modify f : Act W E H Unit) w = ⟨[], .ok (), f w⟩ := rfl

@[simp] theorem perform_run (f : W → α × W) (w : W) :
    (perform f : Act W E H α) w = ⟨[], .ok (f w).1, (f w).2⟩ := rfl

/-- Sequencing after an action that returned. -/
theorem bind_of_ok {m : Act W E H α} {f : α → Act W E H β} {w w' : W} {es : List E} {a : α}
    (h : m w = ⟨es, .ok a, w'⟩) :
    (m >>= f) w = ⟨es ++ (f a w').events, (f a w').result, (f a w').world⟩ := by
  show Act.bind m f w = _
  simp only [Act.bind, h]

/-- Sequencing after an action that stopped early: the rest is not run. -/
theorem bind_of_error {m : Act W E H α} {f : α → Act W E H β} {w w' : W} {es : List E} {e : H}
    (h : m w = ⟨es, .error e, w'⟩) : (m >>= f) w = ⟨es, .error e, w'⟩ := by
  show Act.bind m f w = _
  simp only [Act.bind, h]

@[simp] theorem pure_bind_run (a : α) (f : α → Act W E H β) (w : W) :
    ((pure a : Act W E H α) >>= f) w = f a w := by
  rw [bind_of_ok (pure_run a w)]
  simp

@[simp] theorem reads_bind_run (g : W → α) (f : α → Act W E H β) (w : W) :
    ((reads g : Act W E H α) >>= f) w = f (g w) w := by
  rw [bind_of_ok (reads_run g w)]
  simp

@[simp] theorem modify_bind_run (g : W → W) (f : Unit → Act W E H β) (w : W) :
    ((modify g : Act W E H Unit) >>= f) w = f () (g w) := by
  rw [bind_of_ok (modify_run g w)]
  simp

@[simp] theorem perform_bind_run (g : W → α × W) (f : α → Act W E H β) (w : W) :
    ((perform g : Act W E H α) >>= f) w = f (g w).1 (g w).2 := by
  rw [bind_of_ok (perform_run g w)]
  simp

@[simp] theorem halt_bind_run (h : H) (f : α → Act W E H β) (w : W) :
    ((halt h : Act W E H α) >>= f) w = ⟨[], .error h, w⟩ :=
  bind_of_error (halt_run h w)

@[simp] theorem emit_bind_run (e : E) (f : Unit → Act W E H β) (w : W) :
    ((emit e : Act W E H Unit) >>= f) w
      = ⟨e :: (f () w).events, (f () w).result, (f () w).world⟩ := by
  rw [bind_of_ok (emit_run e w)]
  simp

@[simp] theorem write_bind_run (es : List E) (f : Unit → Act W E H β) (w : W) :
    ((write es : Act W E H Unit) >>= f) w
      = ⟨es ++ (f () w).events, (f () w).result, (f () w).world⟩ :=
  bind_of_ok (write_run es w)

instance : LawfulMonad (Act W E H) := LawfulMonad.mk' _
  (fun x => by
    funext w
    show Act.bind x (fun a => Act.pure a) w = x w
    rcases h : x w with ⟨es, _ | a, w'⟩ <;> simp [Act.bind, h, Act.pure])
  (fun a f => by funext w; simp)
  (fun x f g => by
    funext w
    show Act.bind (Act.bind x f) g w = Act.bind x (fun a => Act.bind (f a) g) w
    rcases h : x w with ⟨es, _ | a, w'⟩
    · simp [Act.bind, h]
    · rcases h' : f a w' with ⟨es', _ | b, w''⟩ <;> simp [Act.bind, h, h'])

/-! ## Properties that sequencing preserves -/

/-- A property every `pure` action has, and a sequence has if its parts do. -/
structure Closed (P : ∀ α : Type, Act W E H α → Prop) : Prop where
  pure : ∀ {α : Type} (a : α), P α (Pure.pure a)
  bind : ∀ {α β : Type} {m : Act W E H α} {k : α → Act W E H β},
    P α m → (∀ a, P β (k a)) → P β (m >>= k)

theorem Closed.forEach {P : ∀ α : Type, Act W E H α → Prop} (hP : Closed P)
    {body : β → α → Act W E H β} (hbody : ∀ b a, P β (body b a)) (as : List α) (b : β) :
    P β (Act.forEach body as b) := by
  induction as generalizing b with
  | nil => exact hP.pure b
  | cons a as ih => exact hP.bind (hbody b a) ih

/-- Every event the action leaves behind has the property. -/
def OnlyEvents (P : E → Prop) (α : Type) (m : Act W E H α) : Prop := ∀ w, ∀ e ∈ (m w).events, P e

theorem onlyEvents_closed (P : E → Prop) : Closed (OnlyEvents (W := W) (H := H) P) where
  pure a w := by simp
  bind {α β m k} hm hk w := by
    intro e he
    rcases h : m w with ⟨es, x | a, w'⟩
    · rw [bind_of_error h] at he
      exact hm w e (by rwa [h])
    · rw [bind_of_ok h] at he
      rcases List.mem_append.mp he with he | he
      · exact hm w e (by rwa [h])
      · exact hk a w' e he

theorem OnlyEvents.halt {P : E → Prop} (h : H) : OnlyEvents P α (halt h : Act W E H α) :=
  fun _ _ he => by cases he

theorem OnlyEvents.reads {P : E → Prop} (f : W → α) :
    OnlyEvents P α (reads f : Act W E H α) :=
  fun _ _ he => by cases he

theorem OnlyEvents.perform {P : E → Prop} (f : W → α × W) :
    OnlyEvents P α (perform f : Act W E H α) :=
  fun _ _ he => by cases he

theorem OnlyEvents.emit {P : E → Prop} {e : E} (he : P e) :
    OnlyEvents P Unit (emit e : Act W E H Unit) :=
  fun _ e' he' => by rwa [List.mem_singleton.mp he']

/-- If the action stops early, the reason has the property. -/
def EndsOnly (Q : H → Prop) (α : Type) (m : Act W E H α) : Prop :=
  ∀ w h, (m w).result = .error h → Q h

theorem endsOnly_closed (Q : H → Prop) : Closed (EndsOnly (W := W) (E := E) Q) where
  pure a w h hres := by cases hres
  bind {α β m k} hm hk w h hres := by
    rcases hrun : m w with ⟨es, x | a, w'⟩
    · rw [bind_of_error hrun] at hres
      obtain rfl : x = h := Except.error.inj hres
      exact hm w x (by rw [hrun])
    · rw [bind_of_ok hrun] at hres
      exact hk a w' h hres

theorem EndsOnly.reads {Q : H → Prop} (f : W → α) : EndsOnly Q α (reads f : Act W E H α) :=
  fun _ _ hres => by cases hres

/-- From this world the action stops early, and the reason has the property. -/
def StopsAt (Q : H → Prop) (m : Act W E H α) (w : W) : Prop :=
  ∃ h, (m w).result = .error h ∧ Q h

section StopsAt

variable {Q : H → Prop} {m : Act W E H α} {k : α → Act W E H β} {w w' : W} {es : List E} {a : α}

theorem StopsAt.halt {h : H} (hq : Q h) : StopsAt Q (halt h : Act W E H α) w := ⟨h, rfl, hq⟩

theorem StopsAt.bind (hm : StopsAt Q m w) : StopsAt Q (m >>= k) w := by
  obtain ⟨h, hres, hq⟩ := hm
  rcases hrun : m w with ⟨es, x | a, w'⟩
  · rw [hrun] at hres
    obtain rfl : x = h := Except.error.inj hres
    exact ⟨x, by rw [bind_of_error hrun], hq⟩
  · rw [hrun] at hres
    cases hres

theorem StopsAt.behind (hm : m w = ⟨es, .ok a, w'⟩) (hk : StopsAt Q (k a) w') :
    StopsAt Q (m >>= k) w := by
  obtain ⟨h, hres, hq⟩ := hk
  exact ⟨h, by rw [bind_of_ok hm, hres], hq⟩

/-- What stops in any case may come behind something that stops only for such a reason. -/
theorem StopsAt.behind_endsOnly (hm : EndsOnly Q α m) (hk : ∀ a w', StopsAt Q (k a) w') :
    StopsAt Q (m >>= k) w := by
  rcases hrun : m w with ⟨es, x | a, w'⟩
  · exact StopsAt.bind ⟨x, by rw [hrun], hm w x (by rw [hrun])⟩
  · exact StopsAt.behind hrun (hk a w')

end StopsAt

/-! ## Where an action stops -/

/-- Some events stop an action, each for its own reason.  Either none of them is such an event and
the action returned, or the last one is, no other, and the action stopped for its reason. -/
inductive EndedBy (stops : E → H → Prop) : List E → Except H α → Prop where
  | returned {es : List E} {a : α} : (∀ e ∈ es, ∀ h, ¬ stops e h) → EndedBy stops es (.ok a)
  | stopped {es : List E} {e : E} {h : H} : (∀ e ∈ es, ∀ h, ¬ stops e h) → stops e h →
      EndedBy stops (es ++ [e]) (.error h)

/-- So it is from every world. -/
def EndsBy (stops : E → H → Prop) (α : Type) (m : Act W E H α) : Prop :=
  ∀ w, EndedBy stops (m w).events (m w).result

section EndsBy

variable {stops : E → H → Prop}

/-- It stopped at the first event. -/
theorem EndedBy.first {e : E} {h : H} (he : stops e h) :
    EndedBy stops [e] (.error h : Except H α) := by
  have hnil : ∀ e ∈ ([] : List E), ∀ h, ¬ stops e h := fun _ he => absurd he List.not_mem_nil
  exact .stopped hnil he

theorem EndedBy.of_ok {es : List E} {r : Except H α} {a : α} (h : EndedBy stops es r)
    (hr : r = .ok a) : ∀ e ∈ es, ∀ h, ¬ stops e h := by
  cases h with
  | returned hes => exact hes
  | stopped _ _ => cases hr

theorem EndedBy.of_error {es : List E} {r : Except H α} {x : H} (h : EndedBy stops es r)
    (hr : r = .error x) :
    ∃ es' e, es = es' ++ [e] ∧ (∀ e ∈ es', ∀ h, ¬ stops e h) ∧ stops e x := by
  cases h with
  | returned _ => cases hr
  | @stopped es e h hes he =>
      obtain rfl : h = x := Except.error.inj hr
      exact ⟨es, e, rfl, hes, he⟩

/-- Without an event that stops it the action returned. -/
theorem EndedBy.returns {es : List E} {r : Except H α} (h : EndedBy stops es r)
    (hes : ∀ e ∈ es, ∀ h, ¬ stops e h) : ∃ a, r = .ok a := by
  cases h with
  | returned _ => exact ⟨_, rfl⟩
  | stopped _ he => exact absurd he (hes _ (by simp) _)

theorem EndedBy.behind {es es' : List E} {r : Except H α} (h : EndedBy stops es' r)
    (hes : ∀ e ∈ es, ∀ h, ¬ stops e h) : EndedBy stops (es ++ es') r := by
  cases h with
  | returned hes' => exact .returned (List.forall_mem_append.mpr ⟨hes, hes'⟩)
  | stopped hes' he =>
      rw [← List.append_assoc]
      exact .stopped (List.forall_mem_append.mpr ⟨hes, hes'⟩) he

theorem endsBy_closed (stops : E → H → Prop) : Closed (EndsBy (W := W) stops) where
  pure a w := .returned (by simp)
  bind {α β m k} hm hk w := by
    have h := hm w
    rcases hrun : m w with ⟨es, x | a, w'⟩
    · rw [hrun] at h
      obtain ⟨es', e, hes, hnone, he⟩ := h.of_error rfl
      rw [bind_of_error hrun, hes]
      exact .stopped hnone he
    · rw [hrun] at h
      rw [bind_of_ok hrun]
      exact (hk a w').behind (h.of_ok rfl)

theorem EndsBy.reads (f : W → α) : EndsBy stops α (reads f : Act W E H α) :=
  fun _ => .returned (by simp)

theorem EndsBy.write {es : List E} (hes : ∀ e ∈ es, ∀ h, ¬ stops e h) :
    EndsBy stops Unit (write es : Act W E H Unit) := fun _ => .returned hes

theorem EndsBy.emit {e : E} (he : ∀ h, ¬ stops e h) :
    EndsBy stops Unit (emit e : Act W E H Unit) := EndsBy.write (by simpa using he)

/-- Renamed events stop as they did. -/
theorem EndsBy.mapEvents {E' : Type} {stops' : E' → H → Prop} {f : E → E'}
    (hf : ∀ e h, stops' (f e) h ↔ stops e h) {m : Act W E H α} (hm : EndsBy stops α m) :
    EndsBy stops' α (Act.mapEvents f m) := by
  intro w
  have hmap : ∀ {es : List E}, (∀ e ∈ es, ∀ h, ¬ stops e h) →
      ∀ e ∈ es.map f, ∀ h, ¬ stops' e h := by
    intro es hes e' he' h
    obtain ⟨e, he, rfl⟩ := List.mem_map.mp he'
    rw [hf]
    exact hes e he h
  have h := hm w
  rw [Act.mapEvents]
  generalize m w = o at h
  rcases o with ⟨es, x | a, w'⟩
  · obtain ⟨es', e, rfl, hes, he⟩ := h.of_error rfl
    simp only [List.map_append, List.map_cons, List.map_nil]
    exact .stopped (hmap hes) ((hf _ _).mpr he)
  · exact .returned (hmap (h.of_ok rfl))

/-- It returns without such an event, or stops at one. -/
theorem EndsBy.cases {m : Act W E H α} (hm : EndsBy stops α m) (w : W) :
    (∃ es a w', (∀ e ∈ es, ∀ h, ¬ stops e h) ∧ m w = ⟨es, .ok a, w'⟩) ∨
    ∃ es h w', (¬ ∀ e ∈ es, ∀ h, ¬ stops e h) ∧ m w = ⟨es, .error h, w'⟩ := by
  have h := hm w
  rcases hrun : m w with ⟨es, x | a, w'⟩
  · rw [hrun] at h
    obtain ⟨es', e, rfl, _, he⟩ := h.of_error rfl
    exact .inr ⟨_, x, w', fun hnone => hnone e (by simp) x he, rfl⟩
  · rw [hrun] at h
    exact .inl ⟨es, a, w', h.of_ok rfl, rfl⟩

end EndsBy

/-! ## Actions that change nothing -/

/-- The action leaves events with the property behind, returns the value and changes nothing. -/
def Emits (P : E → Prop) (m : Act W E H α) (a : α) : Prop :=
  ∀ w, ∃ es, (∀ e ∈ es, P e) ∧ m w = ⟨es, .ok a, w⟩

theorem Emits.pure {P : E → Prop} (a : α) : Emits P (pure a : Act W E H α) a :=
  fun w => ⟨[], by simp, pure_run a w⟩

theorem Emits.emit {P : E → Prop} {e : E} (he : P e) : Emits P (emit e : Act W E H Unit) () :=
  fun w => ⟨[e], by simpa using he, emit_run e w⟩

theorem Emits.bind {P : E → Prop} {m : Act W E H α} {k : α → Act W E H β} {a : α} {b : β}
    (hm : Emits P m a) (hk : Emits P (k a) b) : Emits P (m >>= k) b := by
  intro w
  obtain ⟨es, hes, hrun⟩ := hm w
  obtain ⟨es', hes', hrun'⟩ := hk w
  refine ⟨es ++ es', List.forall_mem_append.mpr ⟨hes, hes'⟩, ?_⟩
  rw [bind_of_ok hrun, hrun']

theorem Emits.reads {P : E → Prop} {f : W → α} {k : α → Act W E H β} {b : β}
    (hk : ∀ a, Emits P (k a) b) : Emits P (Act.reads f >>= k) b := by
  intro w
  rw [reads_bind_run]
  exact hk (f w) w

theorem Emits.forEach {P : E → Prop} {body : β → α → Act W E H β} {step : β → α → β}
    (hbody : ∀ b a, Emits P (body b a) (step b a)) (as : List α) (b : β) :
    Emits P (Act.forEach body as b) (as.foldl step b) := by
  induction as generalizing b with
  | nil => exact Emits.pure b
  | cons a as ih => exact Emits.bind (hbody b a) (ih (step b a))

/-- The loop that only emits. -/
theorem Emits.each {P : E → Prop} {body : Unit → α → Act W E H Unit}
    {as : List α} (hbody : ∀ a ∈ as, Emits P (body () a) ()) :
    Emits P (Act.forEach body as ()) () := by
  induction as with
  | nil => exact Emits.pure ()
  | cons a as ih => exact Emits.bind (hbody a (by simp)) (ih fun x hx => hbody x (by simp [hx]))

/-! ## The events of a part -/

/-- The loop whose body leaves known events behind. -/
theorem forEach_writes {body : Unit → α → Act W E H Unit} {f : α → List E} {as : List α} {w : W}
    (hbody : ∀ a ∈ as, body () a w = ⟨f a, .ok (), w⟩) :
    Act.forEach body as () w = ⟨as.flatMap f, .ok (), w⟩ := by
  induction as with
  | nil => rfl
  | cons a as ih =>
      rw [Act.forEach, bind_of_ok (hbody a (by simp)), ih fun x hx => hbody x (by simp [hx])]
      rfl

/-! ## The value returned -/

/-- If the action returns, the value has the property. -/
def Ensures (Q : α → Prop) (m : Act W E H α) : Prop := ∀ w a, (m w).result = .ok a → Q a

section Ensures

variable {Q : α → Prop} {R : β → Prop} {m : Act W E H α} {k : α → Act W E H β}

theorem Ensures.pure {a : α} (h : Q a) : Ensures Q (pure a : Act W E H α) := by
  intro w b hres
  obtain rfl : a = b := Except.ok.inj hres
  exact h

theorem Ensures.reads {f : W → α} (h : ∀ w, Q (f w)) : Ensures Q (reads f : Act W E H α) := by
  intro w a hres
  obtain rfl : f w = a := Except.ok.inj hres
  exact h w

theorem Ensures.bind (hm : Ensures Q m) (hk : ∀ a, Q a → Ensures R (k a)) :
    Ensures R (m >>= k) := by
  intro w b hres
  rcases hrun : m w with ⟨es, x | a, w'⟩
  · rw [bind_of_error hrun] at hres
    cases hres
  · rw [bind_of_ok hrun] at hres
    exact hk a (hm w a (by rw [hrun])) w' b hres

/-- What the first part returns need not matter. -/
theorem Ensures.behind (hk : ∀ a, Ensures R (k a)) : Ensures R (m >>= k) :=
  Ensures.bind (fun _ _ _ => trivial) fun a (_ : True) => hk a

/-- What the first part returns may be known to the second. -/
theorem OnlyEvents.bind_ensures {P : E → Prop} (hm : OnlyEvents P α m) (hq : Ensures Q m)
    (hk : ∀ a, Q a → OnlyEvents P β (k a)) : OnlyEvents P β (m >>= k) := by
  intro w e he
  rcases hrun : m w with ⟨es, x | a, w'⟩
  · rw [bind_of_error hrun] at he
    exact hm w e (by rwa [hrun])
  · rw [bind_of_ok hrun] at he
    rcases List.mem_append.mp he with he | he
    · exact hm w e (by rwa [hrun])
    · exact hk a (hq w a (by rw [hrun])) w' e he

end Ensures

/-! ## The value returned and the events behind it -/

/-- If the action returns, the events left behind and the value are related. -/
def Leaves (R : List E → α → Prop) (m : Act W E H α) : Prop :=
  ∀ w a, (m w).result = .ok a → R (m w).events a

section Leaves

variable {R R' : List E → α → Prop} {T : List E → β → Prop} {m : Act W E H α}
  {k : α → Act W E H β}

theorem Leaves.mono (hm : Leaves R m) (hR : ∀ es a, R es a → R' es a) : Leaves R' m :=
  fun w a hres => hR _ a (hm w a hres)

theorem Leaves.and (hm : Leaves R m) (hm' : Leaves R' m) :
    Leaves (fun es a => R es a ∧ R' es a) m :=
  fun w a hres => ⟨hm w a hres, hm' w a hres⟩

theorem Leaves.pure {a : α} (h : R [] a) : Leaves R (pure a : Act W E H α) := by
  intro w b hres
  obtain rfl : a = b := Except.ok.inj hres
  exact h

theorem Leaves.halt {h : H} : Leaves R (halt h : Act W E H α) := by
  intro w a hres
  cases hres

/-- What the first part left behind stands in front. -/
theorem Leaves.bind (hm : Leaves R m)
    (hk : ∀ es a, R es a → Leaves (fun es' b => T (es ++ es') b) (k a)) : Leaves T (m >>= k) := by
  intro w b hres
  rcases hrun : m w with ⟨es, x | a, w'⟩
  · rw [bind_of_error hrun] at hres
    cases hres
  · rw [bind_of_ok hrun] at hres ⊢
    have hR := hm w a (by rw [hrun])
    rw [hrun] at hR
    exact hk es a hR w' b hres

/-- What only emits and returns a known value. -/
theorem Emits.leaves {P : E → Prop} {a : α} (hm : Emits P m a) :
    Leaves (fun es b => b = a ∧ ∀ e ∈ es, P e) m := by
  intro w b hres
  obtain ⟨es, hes, hrun⟩ := hm w
  rw [hrun] at hres ⊢
  exact ⟨(Except.ok.inj hres).symm, hes⟩

/-- The loop with an invariant leaves behind what its steps do. -/
theorem Leaves.forEach {body : β → α → Act W E H β} {I : β → Prop} {S : α → List E → Prop}
    (hbody : ∀ b a, I b → Leaves (fun es b' => S a es ∧ I b') (body b a)) (as : List α) {b : β}
    (hb : I b) :
    Leaves (fun es _ => ∃ ess, List.Forall₂ S as ess ∧ es = ess.flatten)
      (Act.forEach body as b) := by
  induction as generalizing b with
  | nil => exact Leaves.pure ⟨[], .nil, rfl⟩
  | cons a as ih =>
      refine Leaves.bind (hbody b a hb) ?_
      rintro es b' ⟨hes, hb'⟩
      refine (ih hb').mono ?_
      rintro es' _ ⟨ess, hess, rfl⟩
      exact ⟨es :: ess, .cons hes hess, rfl⟩

end Leaves

/-! ## The events as a path -/

/-- The events lead from a state to another one, each by a step. -/
inductive Path {S : Type} (R : S → E → S → Prop) : S → List E → S → Prop where
  | nil (s : S) : Path R s [] s
  | cons {s s' s'' : S} {e : E} {es : List E} :
      R s e s' → Path R s' es s'' → Path R s (e :: es) s''

section Walks

variable {S : Type} {R : S → E → S → Prop} {see : W → S}

theorem Path.append {s s' s'' : S} {es es' : List E} (h : Path R s es s')
    (h' : Path R s' es' s'') : Path R s (es ++ es') s'' := by
  induction h with
  | nil s => exact h'
  | cons hstep _ ih => exact .cons hstep (ih h')

/-- However the action ends, its events lead from what is seen of the world before it to what is
seen afterwards. -/
def Walks (see : W → S) (R : S → E → S → Prop) (α : Type) (m : Act W E H α) : Prop :=
  ∀ w, Path R (see w) (m w).events (see (m w).world)

theorem walks_closed (see : W → S) (R : S → E → S → Prop) :
    Closed (Walks (E := E) (H := H) see R) where
  pure a w := .nil (see w)
  bind {α β m k} hm hk w := by
    have hpath := hm w
    rcases hrun : m w with ⟨es, x | a, w'⟩
    · rw [hrun] at hpath
      rw [bind_of_error hrun]
      exact hpath
    · rw [hrun] at hpath
      rw [bind_of_ok hrun]
      exact hpath.append (hk a w')

theorem Walks.reads (f : W → α) : Walks see R α (reads f : Act W E H α) := fun w => .nil (see w)

/-- An event that is a step where it is. -/
theorem Walks.emit {e : E} (he : ∀ s, R s e s) : Walks see R Unit (emit e : Act W E H Unit) :=
  fun w => .cons (he (see w)) (.nil (see w))

end Walks

end Act

end Testcase
