import LuaTestcase.Core.Effect

/-!
# Dialogues: what a procedure asks, whatever the answers

A procedure that calls functions it knows nothing about asks questions: each call is one, its
outcome is the answer, and the next call depends on the answers so far.  `Dialogue Q A R` is the
tree of all its courses.  `Leads d log d'` says that the answered questions `log` lead from `d` to
`d'`, `Plays d log r` that they lead to its end with the result `r`.

* `plays_bind` — the plays of a sequence are the plays of its parts, one behind the other.
* `Leads.unique` — the answers determine the questions: there is one dialogue left after a log.
* `Dialogue.walk` — the one play in which a given strategy answers.
* `Act.Follows` — an action follows a dialogue if, from every world, the questions its events
  answer are a course of the dialogue; if the action returns, the course is complete and the
  value is its result; if it stops early, that is for one of the reasons allowed.
-/

namespace Testcase

/-- What is asked, in every course of the answers, and the result at the end of each. -/
inductive Dialogue (Q A R : Type) : Type where
  | done (r : R)
  | ask (q : Q) (next : A → Dialogue Q A R)

namespace Dialogue

variable {Q A R S : Type}

/-- Continue every course at its end. -/
protected def bind : Dialogue Q A R → (R → Dialogue Q A S) → Dialogue Q A S
  | done r, f => f r
  | ask q next, f => ask q fun a => (next a).bind f

instance : Monad (Dialogue Q A) where
  pure := done
  bind := Dialogue.bind

/-- One question, answered by the result. -/
def query (q : Q) : Dialogue Q A A := ask q done

@[simp] theorem pure_eq (r : R) : (pure r : Dialogue Q A R) = done r := rfl

@[simp] theorem done_bind (r : R) (f : R → Dialogue Q A S) : (done r >>= f) = f r := rfl

@[simp] theorem ask_bind (q : Q) (next : A → Dialogue Q A R) (f : R → Dialogue Q A S) :
    (ask q next >>= f) = ask q fun a => next a >>= f := rfl

@[simp] theorem query_bind (q : Q) (f : A → Dialogue Q A S) : (query q >>= f) = ask q f := rfl

instance : LawfulMonad (Dialogue Q A) := LawfulMonad.mk' _
  (fun d => by
    induction d with
    | done r => rfl
    | ask q next ih =>
        show ask q _ = ask q _
        congr 1
        funext a
        exact ih a)
  (fun _ _ => rfl)
  (fun d f g => by
    induction d with
    | done r => rfl
    | ask q next ih =>
        show ask q _ = ask q _
        congr 1
        funext a
        exact ih a)

/-- The dialogue still has a question. -/
def Pending : Dialogue Q A R → Prop
  | done _ => False
  | ask _ _ => True

theorem Pending.bind {d : Dialogue Q A R} (h : d.Pending) (f : R → Dialogue Q A S) :
    (d >>= f).Pending := by
  cases d with
  | done r => exact h.elim
  | ask q next => exact trivial

/-! ## Courses -/

/-- The answered questions lead from one dialogue to another. -/
inductive Leads : Dialogue Q A R → List (Q × A) → Dialogue Q A R → Prop where
  | refl (d : Dialogue Q A R) : Leads d [] d
  | ask {q : Q} {next : A → Dialogue Q A R} (a : A) {log : List (Q × A)} {d : Dialogue Q A R} :
      Leads (next a) log d → Leads (.ask q next) ((q, a) :: log) d

/-- The answered questions lead to the end, with a result. -/
def Plays (d : Dialogue Q A R) (log : List (Q × A)) (r : R) : Prop := Leads d log (done r)

@[simp] theorem plays_done {r s : R} {log : List (Q × A)} :
    Plays (done r) log s ↔ log = [] ∧ s = r := by
  constructor
  · rintro ⟨⟩
    exact ⟨rfl, rfl⟩
  · rintro ⟨rfl, rfl⟩
    exact Leads.refl _

theorem plays_ask {q : Q} {next : A → Dialogue Q A R} {log : List (Q × A)} {r : R} :
    Plays (ask q next) log r ↔ ∃ a log', log = (q, a) :: log' ∧ Plays (next a) log' r := by
  constructor
  · rintro (_ | ⟨a, h⟩)
    exact ⟨a, _, rfl, h⟩
  · rintro ⟨a, log', rfl, h⟩
    exact Leads.ask a h

theorem Leads.trans {d d' d'' : Dialogue Q A R} {log log' : List (Q × A)} (h : Leads d log d')
    (h' : Leads d' log' d'') : Leads d (log ++ log') d'' := by
  induction h with
  | refl d => exact h'
  | ask a _ ih => exact Leads.ask a (ih h')

/-- A course of the first part is a course of the sequence. -/
theorem Leads.bind {d d' : Dialogue Q A R} {log : List (Q × A)} (h : Leads d log d')
    (f : R → Dialogue Q A S) : Leads (d >>= f) log (d' >>= f) := by
  induction h with
  | refl d => exact Leads.refl _
  | ask a _ ih => exact Leads.ask a ih

/-- **The plays of a sequence** are a play of the first part and a play of what follows it. -/
theorem plays_bind {d : Dialogue Q A R} {f : R → Dialogue Q A S} {log : List (Q × A)} {s : S} :
    Plays (d >>= f) log s ↔
      ∃ log₁ r log₂, log = log₁ ++ log₂ ∧ Plays d log₁ r ∧ Plays (f r) log₂ s := by
  constructor
  · intro h
    induction d generalizing log with
    | done r => exact ⟨[], r, log, rfl, Leads.refl _, h⟩
    | ask q next ih =>
        obtain ⟨a, log', rfl, h'⟩ := plays_ask.mp h
        obtain ⟨log₁, r, log₂, rfl, h₁, h₂⟩ := ih a h'
        exact ⟨(q, a) :: log₁, r, log₂, rfl, Leads.ask a h₁, h₂⟩
  · rintro ⟨log₁, r, log₂, rfl, h₁, h₂⟩
    exact (h₁.bind f).trans h₂

/-- **The answers determine the questions.** -/
theorem Leads.unique {d d₁ d₂ : Dialogue Q A R} {log : List (Q × A)} (h₁ : Leads d log d₁)
    (h₂ : Leads d log d₂) : d₁ = d₂ := by
  induction h₁ with
  | refl d =>
      cases h₂
      rfl
  | ask a _ ih =>
      cases h₂ with
      | ask _ h₂ => exact ih h₂

/-- A course, cut in two. -/
theorem Leads.split {d d' : Dialogue Q A R} {log rest : List (Q × A)}
    (h : Leads d (log ++ rest) d') : ∃ e, Leads d log e ∧ Leads e rest d' := by
  induction log generalizing d with
  | nil => exact ⟨d, Leads.refl d, h⟩
  | cons qa log ih =>
      cases h with
      | ask a h =>
          obtain ⟨e, he, hrest⟩ := ih h
          exact ⟨e, Leads.ask a he, hrest⟩

/-- After the same answers the same is asked. -/
theorem Plays.ask_unique {d : Dialogue Q A R} {log x y : List (Q × A)} {q q' : Q} {a a' : A}
    {r r' : R} (h : Plays d (log ++ (q, a) :: x) r) (h' : Plays d (log ++ (q', a') :: y) r') :
    q = q' := by
  obtain ⟨e, he, hx⟩ := h.split
  obtain ⟨e', he', hy⟩ := h'.split
  obtain rfl := he.unique he'
  cases hx
  cases hy
  rfl

/-- A dialogue can be played to its end, and if it is pending at least one question is asked. -/
theorem exists_plays [Nonempty A] (d : Dialogue Q A R) :
    ∃ log r, Plays d log r ∧ (d.Pending → log ≠ []) := by
  induction d with
  | done r => exact ⟨[], r, Leads.refl _, fun h => h.elim⟩
  | ask q next ih =>
      obtain ⟨a⟩ := ‹Nonempty A›
      obtain ⟨log, r, h, _⟩ := ih a
      exact ⟨(q, a) :: log, r, Leads.ask a h, fun _ => by simp⟩

/-! ## Strategies -/

/-- The play in which the strategy answers: the questions, and the result. -/
def walk (answer : Q → A) : Dialogue Q A R → List Q × R
  | done r => ([], r)
  | ask q next => (q :: ((next (answer q)).walk answer).1, ((next (answer q)).walk answer).2)

@[simp] theorem walk_done (answer : Q → A) (r : R) :
    (done r : Dialogue Q A R).walk answer = ([], r) := rfl

theorem walk_bind (answer : Q → A) (d : Dialogue Q A R) (f : R → Dialogue Q A S) :
    (d >>= f).walk answer = ((d.walk answer).1 ++ ((f (d.walk answer).2).walk answer).1,
      ((f (d.walk answer).2).walk answer).2) := by
  induction d with
  | done r => rfl
  | ask q next ih => simp only [ask_bind, walk, ih, List.cons_append]

/-- A course that the strategy answered follows its walk, and stops there only at the end. -/
theorem Leads.walk {answer : Q → A} {d d' : Dialogue Q A R} {log : List (Q × A)}
    (h : Leads d log d') (hans : ∀ qa ∈ log, qa.2 = answer qa.1) :
    d.walk answer = (log.map Prod.fst ++ (d'.walk answer).1, (d'.walk answer).2) := by
  induction h with
  | refl d => rfl
  | @ask q next a log d h ih =>
      have ha : a = answer q := hans (q, a) (by simp)
      have hlog := ih fun qa hqa => hans qa (by simp [hqa])
      rw [Dialogue.walk, ← ha, hlog]
      rfl

end Dialogue

/-! ## Actions that follow a dialogue -/

namespace Act

open Dialogue

variable {W E H Q A α β γ : Type}

/-- The reasons for which an action may stop early, from the events it left behind and whether a
question was still to come.  A reason is not lost when more happened before. -/
structure Reasons (E H : Type) where
  allows : List E → (pending : Prop) → H → Prop
  mono : ∀ {es es' : List E} {p p' : Prop} {h : H}, es.Sublist es' → (p → p') →
    allows es p h → allows es' p' h

/-- The reasons of an action that runs after the events `past`. -/
def Reasons.after (why : Reasons E H) (past : List E) : Reasons E H where
  allows es p h := why.allows (past ++ es) p h
  mono hes hp h := why.mono (hes.append_left past) hp h

theorem Reasons.after_after (why : Reasons E H) (past past' : List E) :
    (why.after past).after past' = why.after (past ++ past') := by
  simp only [Reasons.after, List.append_assoc]

/-- The action follows the dialogue. -/
def Follows (asks : E → Option (Q × A)) (why : Reasons E H) (m : Act W E H α)
    (d : Dialogue Q A α) : Prop :=
  ∀ w, ∃ d', Leads d ((m w).events.filterMap asks) d' ∧
    match (m w).result with
    | .ok a => d' = done a
    | .error h => why.allows (m w).events d'.Pending h

/-- If the action returns, the course is complete. -/
theorem Follows.of_ok {asks : E → Option (Q × A)} {why : Reasons E H} {m : Act W E H α}
    {d : Dialogue Q A α} (hm : Follows asks why m d) {w : W} {a : α}
    (hres : (m w).result = .ok a) : Plays d ((m w).events.filterMap asks) a := by
  obtain ⟨d', hlead, hd⟩ := hm w
  rw [hres] at hd
  have hd : d' = done a := hd
  rwa [hd] at hlead

/-- If it stops early, the reason is allowed. -/
theorem Follows.of_error {asks : E → Option (Q × A)} {why : Reasons E H} {m : Act W E H α}
    {d : Dialogue Q A α} (hm : Follows asks why m d) {w : W} {h : H}
    (hres : (m w).result = .error h) :
    ∃ d', Leads d ((m w).events.filterMap asks) d' ∧ why.allows (m w).events d'.Pending h := by
  obtain ⟨d', hlead, hd⟩ := hm w
  rw [hres] at hd
  exact ⟨d', hlead, hd⟩

section Rules

variable {asks : E → Option (Q × A)} {why : Reasons E H}

theorem Follows.pure (a : α) :
    Follows asks why (pure a : Act W E H α) (pure a : Dialogue Q A α) := by
  intro w
  exact ⟨done a, Leads.refl _, rfl⟩

/-- What is followed is followed after other events, too. -/
theorem Follows.weaken {m : Act W E H α} {d : Dialogue Q A α} (hm : Follows asks why m d)
    (past : List E) : Follows asks (why.after past) m d := by
  intro w
  obtain ⟨d', hlead, hres⟩ := hm w
  refine ⟨d', hlead, ?_⟩
  rcases hr : (m w).result with h | a
  · rw [hr] at hres
    exact why.mono (List.sublist_append_right past _) id hres
  · rw [hr] at hres
    exact hres

/-- An event that answers nothing; what follows may rely on it. -/
theorem Follows.emit {e : E} {k : Unit → Act W E H β} {d : Dialogue Q A β} (he : asks e = none)
    (hk : Follows asks (why.after [e]) (k ()) d) : Follows asks why (Act.emit e >>= k) d := by
  intro w
  obtain ⟨d', hlead, hres⟩ := hk w
  rw [emit_bind_run]
  refine ⟨d', ?_, ?_⟩
  · rw [List.filterMap_cons_none he]
    exact hlead
  · rcases hr : (k () w).result with h | b
    · rw [hr] at hres
      exact hres
    · rw [hr] at hres
      exact hres

/-- So are several. -/
theorem Follows.write {es : List E} {k : Unit → Act W E H β} {d : Dialogue Q A β}
    (hes : es.filterMap asks = []) (hk : Follows asks (why.after es) (k ()) d) :
    Follows asks why (Act.write es >>= k) d := by
  intro w
  obtain ⟨d', hlead, hres⟩ := hk w
  rw [write_bind_run]
  refine ⟨d', ?_, ?_⟩
  · rw [List.filterMap_append, hes, List.nil_append]
    exact hlead
  · rcases hr : (k () w).result with h | b
    · rw [hr] at hres
      exact hres
    · rw [hr] at hres
      exact hres

/-- An event that answers the next question; what follows may rely on it. -/
theorem Follows.answer {e : E} {q : Q} {a : A} {next : A → Dialogue Q A β}
    {k : Unit → Act W E H β} (he : asks e = some (q, a))
    (hk : Follows asks (why.after [e]) (k ()) (next a)) :
    Follows asks why (Act.emit e >>= k) (.ask q next) := by
  intro w
  obtain ⟨d', hlead, hres⟩ := hk w
  rw [emit_bind_run]
  refine ⟨d', ?_, ?_⟩
  · rw [List.filterMap_cons_some he]
    exact Leads.ask a hlead
  · rcases hr : (k () w).result with h | b
    · rw [hr] at hres
      exact hres
    · rw [hr] at hres
      exact hres

/-- An allowed early end, whatever was to follow. -/
theorem Follows.halt {h : H} {k : α → Act W E H β} {d : Dialogue Q A β}
    (hallow : why.allows [] d.Pending h) :
    Follows asks why ((Act.halt h : Act W E H α) >>= k) d := by
  intro w
  rw [halt_bind_run]
  exact ⟨d, Leads.refl d, hallow⟩

/-- Reading the world asks nothing, whatever is read. -/
theorem Follows.reads {f : W → α} {k : α → Act W E H β} {d : Dialogue Q A β}
    (h : ∀ a, Follows asks why (k a) d) : Follows asks why (Act.reads f >>= k) d := by
  intro w
  rw [reads_bind_run]
  exact h (f w) w

/-- Neither does changing it. -/
theorem Follows.modify {f : W → W} {k : Unit → Act W E H β} {d : Dialogue Q A β}
    (h : Follows asks why (k ()) d) : Follows asks why (Act.modify f >>= k) d := by
  intro w
  rw [modify_bind_run]
  exact h (f w)

/-- Or both. -/
theorem Follows.perform {f : W → α × W} {k : α → Act W E H β} {d : Dialogue Q A β}
    (h : ∀ a, Follows asks why (k a) d) : Follows asks why (Act.perform f >>= k) d := by
  intro w
  rw [perform_bind_run]
  exact h (f w).1 (f w).2

/-- **Following is compositional.** -/
theorem Follows.bind {m : Act W E H α} {d : Dialogue Q A α} {f : α → Act W E H β}
    {e : α → Dialogue Q A β} (hm : Follows asks why m d)
    (hf : ∀ a, Follows asks why (f a) (e a)) : Follows asks why (m >>= f) (d >>= e) := by
  intro w
  obtain ⟨d', hlead, hres⟩ := hm w
  rcases h : m w with ⟨es, x | a, w'⟩
  · rw [bind_of_error h]
    rw [h] at hlead hres
    refine ⟨d' >>= e, hlead.bind e, ?_⟩
    exact why.mono (List.Sublist.refl es) (fun hp => hp.bind e) hres
  · rw [h] at hlead hres
    obtain ⟨e', hlead', hres'⟩ := hf a w'
    rw [bind_of_ok h]
    refine ⟨e', ?_, ?_⟩
    · have hres : d' = done a := hres
      subst hres
      rw [List.filterMap_append]
      exact (hlead.bind e).trans hlead'
    · rcases hr : ((f a) w').result with x | b
      · rw [hr] at hres'
        exact why.mono (List.sublist_append_right es _) id hres'
      · rw [hr] at hres'
        exact hres'

/-- The loop over a list, on both sides. -/
theorem Follows.forEach {body : β → α → Act W E H β} {dbody : β → α → Dialogue Q A β}
    (hbody : ∀ b a, Follows asks why (body b a) (dbody b a)) (as : List α) (b : β) :
    Follows asks why (Act.forEach body as b) (as.foldlM dbody b) := by
  induction as generalizing b with
  | nil => exact Follows.pure b
  | cons a as ih =>
      rw [List.foldlM_cons]
      exact Follows.bind (hbody b a) ih

end Rules

end Act

end Testcase
