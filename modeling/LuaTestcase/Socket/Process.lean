import LuaTestcase.Socket.Closing
import LuaTestcase.Socket.Kernel

/-!
# A process with sockets

A process makes any number of pairs and calls the methods of its objects, finalizers among them, in
any order.  Its other code opens and closes files of its own.  Numbers are handed out again as soon
as they are free, so an object whose number was given back would reach a file of somebody else.

* `socket_call_cases`, `socket_new_cases` — **what a step does**.
* `custody_run` — while nothing uses an object after its finalizer, the descriptor table and the
  objects match.
* `own_endpoint` — **every system call of a method is on the object's own end**, every end that is
  open has an object that holds its number, and the files of the other code are left alone.
-/

namespace Testcase

/-- The process: the kernel, the value of `*sock` of each object, and whether its finalizer ran. -/
structure SocketProcess where
  kernel : SocketKernel
  sock : Endpoint → Int32
  finalized : Endpoint → Bool

/-- A step: `new` and a method of an object, with what the kernel replies, and what other code
does. -/
inductive SocketAction (F U : Type) where
  | new (args : List (Value F U)) (answer : NewCall → NewReply)
  | call (e : Endpoint) (t : SocketTurn F U)
  | openOther (fd : Descriptor)
  | closeOther (fd : Int32)

/-- What the process sees of a step. -/
inductive SocketObs (F U : Type) where
  | made (pair : Nat) (args : List (Value F U)) (result : NewResult)
  | called (e : Endpoint) (method : SocketMethod) (args : List (Value F U)) (result : CResult F U)
  | opened (fd : Int32)
  | closed (fd : Int32)

/-- What the method returns. -/
def SocketTurn.result {F U : Type} (lib : CLib F U) (t : SocketTurn F U) (sock : Int32) :
    CResult F U :=
  ((t.method.run lib sock t.args).walk t.reply).2.result

namespace SocketProcess

variable {F U : Type} (lib : CLib F U) (s : SocketProcess)

/-- The object was made, and neither closed nor finalized. -/
def Live (e : Endpoint) : Prop :=
  e.pair < s.kernel.made ∧ s.sock e ≠ -1 ∧ s.finalized e = false

instance (e : Endpoint) : Decidable (s.Live e) := by
  unfold Live
  infer_instance

/-- The number that a live object holds. -/
def holds (e : Endpoint) : Option Int32 := if s.Live e then some (s.sock e) else none

/-- The process after `new`, whose first object has the second descriptor. -/
def receive (k : SocketKernel) : NewResult → SocketProcess
  | .objects sock2 sock1 =>
      { kernel := k
        sock := Function.update (Function.update s.sock ⟨s.kernel.made, true⟩ sock1.num)
          ⟨s.kernel.made, false⟩ sock2.num
        finalized := Function.update (Function.update s.finalized ⟨s.kernel.made, true⟩ false)
          ⟨s.kernel.made, false⟩ false }
  | _ => { s with kernel := k }

/-- The process after a method. -/
def called (e : Endpoint) (t : SocketTurn F U) (k : SocketKernel) : SocketProcess where
  kernel := k
  sock := Function.update s.sock e (socketMachine lib (s.sock e) t).1
  finalized := if t.method = .gc then Function.update s.finalized e true else s.finalized

/-- What is seen of a step. -/
def observe : SocketAction F U → SocketObs F U
  | .new args answer => .made s.kernel.made args ((newLua args).walk answer).2
  | .call e t => .called e t.method t.args (t.result lib (s.sock e))
  | .openOther fd => .opened fd.num
  | .closeOther fd => .closed fd

/-- Nothing uses an object after its finalizer, unless it was closed. -/
def Quiet : SocketAction F U → Prop
  | .call e t => s.finalized e = true → s.sock e ≠ -1 → ¬t.Uses lib
  | _ => True

/-- A process without sockets. -/
structure Initial : Prop where
  made : s.kernel.made = 0
  others : ∀ fd f, s.kernel.table fd = some f → f = .other
  nonneg : ∀ fd f, s.kernel.table fd = some f → 0 ≤ fd

end SocketProcess

open SocketProcess

section Steps

variable {F U : Type} (lib : CLib F U)

/-- One step of the process.  Other code takes free numbers and closes only what it has opened. -/
inductive SocketStep (s : SocketProcess) : SocketAction F U → SocketProcess → Prop where
  | new {args : List (Value F U)} {answer : NewCall → NewReply} {k : SocketKernel}
      (hkernel : Answered Makes answer s.kernel ((newLua args).walk answer).1 k) :
      SocketStep s (.new args answer) (s.receive k ((newLua args).walk answer).2)
  | call {e : Endpoint} {t : SocketTurn F U} {k : SocketKernel} (hmade : e.pair < s.kernel.made)
      (hkernel : Answered Replies t.reply s.kernel (socketMachine lib (s.sock e) t).2 k) :
      SocketStep s (.call e t) (s.called lib e t k)
  | openOther {fd : Descriptor} (hfree : s.kernel.table fd.num = none) :
      SocketStep s (.openOther fd)
        { s with kernel :=
          { s.kernel with table := Function.update s.kernel.table fd.num (some .other) } }
  | closeOther {fd : Int32} (hfd : s.kernel.table fd = some .other) :
      SocketStep s (.closeOther fd) { s with kernel := s.kernel.clear fd }

/-- A run, with what was seen of it, in which nothing uses an object after its finalizer. -/
inductive SocketRun : SocketProcess → List (SocketObs F U) → SocketProcess → Prop where
  | nil (s : SocketProcess) : SocketRun s [] s
  | step {s s' s'' : SocketProcess} {obs : List (SocketObs F U)} {a : SocketAction F U}
      (hrun : SocketRun s obs s') (hquiet : s'.Quiet lib a) (hstep : SocketStep lib s' a s'') :
      SocketRun s (obs ++ [s'.observe lib a]) s''

end Steps

/-! ## The invariant -/

/-- The table and the live objects match; no number in it is negative. -/
structure Custody (s : SocketProcess) : Prop where
  matched : Matched s.kernel.socketAt s.holds
  nonneg : ∀ fd f, s.kernel.table fd = some f → 0 ≤ fd

namespace Custody

variable {s : SocketProcess}

theorem holds_eq {e : Endpoint} {fd : Int32} :
    s.holds e = some fd ↔ s.Live e ∧ s.sock e = fd := by
  rw [holds]
  split
  · rename_i hlive
    rw [Option.some.injEq, and_iff_right hlive]
  · rename_i hlive
    simp [hlive]

theorem table_iff (h : Custody s) {fd : Int32} {e : Endpoint} :
    s.kernel.table fd = some (.socket e) ↔ s.Live e ∧ s.sock e = fd := by
  rw [← SocketKernel.socketAt_eq, h.matched fd e, holds_eq]

theorem table_sock (h : Custody s) {e : Endpoint} (hlive : s.Live e) :
    s.kernel.table (s.sock e) = some (.socket e) := h.table_iff.mpr ⟨hlive, rfl⟩

theorem closed_free (h : Custody s) : s.kernel.table (-1) = none := by
  rw [Option.eq_none_iff_forall_ne_some]
  intro f hf
  exact absurd (h.nonneg (-1) f hf) (by decide)

theorem of_initial (h : s.Initial) : Custody s := by
  refine ⟨fun fd e => ?_, h.nonneg⟩
  rw [SocketKernel.socketAt_eq, holds_eq]
  refine iff_of_false (fun hfd => ?_) ?_
  · exact absurd (h.others fd _ hfd) (by simp)
  · rintro ⟨⟨hmade, -⟩, -⟩
    rw [h.made] at hmade
    exact absurd hmade (Nat.not_lt_zero _)

end Custody

/-! ## What a step does -/

section Steps

variable {F U : Type} {lib : CLib F U} {s s' : SocketProcess}

theorem answered_on_free {t : SocketTurn F U} {k k' : SocketKernel} {es : List OnSocket}
    (h : Answered Replies t.reply k es k') (hfree : ∀ c ∈ es, k.table c.fd = none) : k' = k := by
  refine h.induction (I := fun k' => k' = k) (P := fun c => k.table c.fd = none) ?_ hfree rfl
  rintro _ c r k'' hc rfl hreply
  exact (hreply.on_free hc).1

/-- The calls of a method that keeps the object open leave the table as it is. -/
theorem answered_keepsOpen {t : SocketTurn F U} {k k' : SocketKernel} {es : List OnSocket}
    {fd : Int32} {e : Endpoint} (h : Answered Replies t.reply k es k')
    (hkeeps : ∀ c ∈ es, KeepsOpen fd c) (hfd : k.table fd = some (.socket e)) :
    ∃ ends, k' = { k with ends := ends } ∧ ∀ e', Keeps (k.ends e') (ends e') := by
  refine h.induction (I := fun k' => ∃ ends, k' = { k with ends := ends } ∧
    ∀ e', Keeps (k.ends e') (ends e')) (P := KeepsOpen fd) ?_ hkeeps ?_
  · rintro _ c r k'' ⟨rfl, hclose⟩ ⟨ends, rfl, hends⟩ hreply
    rcases hreply.on_socket hfd hclose with ⟨-, rfl, -⟩ | ⟨ends', hserves, rfl⟩
    · exact ⟨ends, rfl, hends⟩
    · refine ⟨ends', rfl, fun e' => ?_⟩
      have hkeep := hserves.keeps e'
      exact ⟨hkeep.isOpen.trans (hends e').isOpen, hkeep.shutRd ∘ (hends e').shutRd,
        hkeep.shutWr ∘ (hends e').shutWr⟩
  · exact ⟨k.ends, rfl, fun e' => Keeps.refl _⟩

/-- The object is not live, and nothing happens. -/
structure CallIdle (lib : CLib F U) (s : SocketProcess) (e : Endpoint) (t : SocketTurn F U)
    (s' : SocketProcess) : Prop where
  dead : ¬s.Live e
  kernel : s'.kernel = s.kernel
  holds : ∀ e', s'.holds e' = s.holds e'
  calls : ∀ c ∈ (socketMachine lib (s.sock e) t).2, c.fd = -1

/-- The object lets go of its end, which is closed. -/
structure CallCloses (lib : CLib F U) (s : SocketProcess) (e : Endpoint) (t : SocketTurn F U)
    (s' : SocketProcess) : Prop where
  live : s.Live e
  closing : t.method = .close ∨ t.method = .gc
  kernel : s'.kernel = s.kernel.closeEnd (s.sock e) e
  holds : s'.holds = Function.update s.holds e none
  calls : ∀ c ∈ (socketMachine lib (s.sock e) t).2, c.fd = s.sock e

/-- The method works on the object's end. -/
structure CallWorks (lib : CLib F U) (s : SocketProcess) (e : Endpoint) (t : SocketTurn F U)
    (s' : SocketProcess) : Prop where
  live : s.Live e
  keeping : t.method ≠ .close ∧ t.method ≠ .gc
  kernel : ∃ ends, s'.kernel = { s.kernel with ends := ends } ∧
    ∀ e', Keeps (s.kernel.ends e') (ends e')
  holds : ∀ e', s'.holds e' = s.holds e'
  calls : ∀ c ∈ (socketMachine lib (s.sock e) t).2, KeepsOpen (s.sock e) c

/-- What is held after a method of an object, if the kernel still counts the same pairs. -/
theorem called_holds {e : Endpoint} {t : SocketTurn F U} {k : SocketKernel}
    (hmade : k.made = s.kernel.made) (e' : Endpoint) :
    (s.called lib e t k).holds e' =
      if e' = e then
        if e.pair < s.kernel.made ∧ (socketMachine lib (s.sock e) t).1 ≠ -1 ∧ t.method ≠ .gc ∧
          s.finalized e = false then some (socketMachine lib (s.sock e) t).1 else none
      else s.holds e' := by
  by_cases he : e' = e
  · subst he
    rw [if_pos rfl]
    by_cases hgc : t.method = .gc
    · simp [holds, Live, called, hgc]
    · simp [holds, Live, called, hgc, hmade]
  · rw [if_neg he]
    by_cases hgc : t.method = .gc
    · simp [holds, Live, called, hgc, hmade, he]
    · simp [holds, Live, called, hgc, hmade, he]

/-- A call on an object that is not live. -/
theorem idle_step (hcustody : Custody s) {e : Endpoint} {t : SocketTurn F U} {k : SocketKernel}
    (hquiet : s.Quiet lib (.call e t)) (hmade : e.pair < s.kernel.made)
    (h : Answered Replies t.reply s.kernel (socketMachine lib (s.sock e) t).2 k)
    (hdead : ¬s.Live e) : CallIdle lib s e t (s.called lib e t k) := by
  have hholds : s.holds e = none := by rw [holds, if_neg hdead]
  by_cases hclosed : s.sock e = -1
  · -- closed: every system call is on `-1`, and fails
    have hstep := @closed_step _ _ lib t
    rw [← hclosed] at hstep
    have hk : k = s.kernel := by
      refine answered_on_free h fun c hc => ?_
      rw [hstep.2 c hc, hclosed, hcustody.closed_free]
    refine ⟨hdead, hk, fun e' => ?_, fun c hc => by rw [hstep.2 c hc, hclosed]⟩
    rw [called_holds (by rw [hk]) e']
    split
    · rename_i he
      rw [he, hholds, hstep.1, hclosed]
      simp
    · rfl
  · -- finalized: the method is none of those that use the descriptor
    have hfinal : s.finalized e = true := by
      by_contra hne
      exact hdead ⟨hmade, hclosed, by simpa using hne⟩
    have hunused := hquiet hfinal hclosed
    have hclose : t.method ≠ .close := fun hm => hunused (uses_of_closes (.inl hm))
    have hgc : t.method ≠ .gc := fun hm => hunused (uses_of_closes (.inr hm))
    obtain ⟨es, hstep, -, huses⟩ :
        ∃ es, socketMachine lib (s.sock e) t = (s.sock e, es) ∧
          (∀ c ∈ es, KeepsOpen (s.sock e) c) ∧ (es ≠ [] ↔ t.Uses lib) := other_step t hclose hgc
    have hnil : es = [] := by
      by_contra hne
      exact hunused (huses.mp hne)
    rw [hstep, hnil] at h
    have hk := h.of_nil
    refine ⟨hdead, hk, fun e' => ?_, ?_⟩
    · rw [called_holds (by rw [hk]) e']
      split
      · rename_i he
        rw [he, hholds, hfinal]
        simp
      · rfl
    · rw [hstep, hnil]
      exact fun c hc => absurd hc List.not_mem_nil

/-- **What a call does**, while the table and the objects match. -/
theorem socket_call_cases (hcustody : Custody s) {e : Endpoint} {t : SocketTurn F U}
    (hquiet : s.Quiet lib (.call e t)) (h : SocketStep lib s (.call e t) s') :
    CallIdle lib s e t s' ∨ CallCloses lib s e t s' ∨ CallWorks lib s e t s' := by
  obtain ⟨⟩ | @⟨_, _, k, hmade, hkernel⟩ := h
  by_cases hlive : s.Live e
  case neg => exact .inl (idle_step hcustody hquiet hmade hkernel hlive)
  have hfd := hcustody.table_sock hlive
  obtain ⟨-, hopen, hfinal⟩ := hlive
  have hlive : s.Live e := ⟨hmade, hopen, hfinal⟩
  rcases open_step lib hopen t with ⟨hm, hstep⟩ | ⟨hm, hstep⟩ | ⟨hclose, hgc, es, hstep, hkeeps, -⟩
  · have hk : k = s.kernel.closeEnd (s.sock e) e := by
      rw [hstep] at hkernel
      exact hkernel.of_single.on_close hfd
    refine .inr (.inl ⟨hlive, .inl hm, hk, ?_, by simp [hstep]⟩)
    funext e'
    rw [called_holds (by rw [hk]; rfl) e', Function.update_apply, hstep]
    simp
  · have hk : k = s.kernel.closeEnd (s.sock e) e := by
      rw [hstep] at hkernel
      exact hkernel.of_single.on_close hfd
    refine .inr (.inl ⟨hlive, .inr hm, hk, ?_, by simp [hstep]⟩)
    funext e'
    rw [called_holds (by rw [hk]; rfl) e', Function.update_apply, hm]
    simp
  · rw [hstep] at hkernel
    obtain ⟨ends, hk, hends⟩ := answered_keepsOpen hkernel hkeeps hfd
    refine .inr (.inr ⟨hlive, ⟨hclose, hgc⟩, ⟨ends, hk, hends⟩, fun e' => ?_, by rwa [hstep]⟩)
    rw [called_holds (by rw [hk]) e', hstep]
    split
    · rename_i he
      rw [he, holds, if_pos hlive, if_pos ⟨hmade, hopen, hgc, hfinal⟩]
    · rfl

/-! ### New objects -/

/-- The first argument of `new` is `true`. -/
def wantsNonblock (args : List (Value F U)) : Bool :=
  match argument args 1 with
  | some (.boolean b) => b
  | _ => false

/-- What `new` asks, and what it does in the end. -/
theorem newLua_walk (args : List (Value F U)) (answer : NewCall → NewReply) :
    (∃ e, (newLua args).walk answer = ([], .raised e)) ∨
    (∃ errno, (answer .socketpair).pair = .error errno ∧
      (newLua args).walk answer = ([.socketpair], .failed errno)) ∨
    ∃ fd0 fd1, (answer .socketpair).pair = .ok (fd0, fd1) ∧
      (newLua args).walk answer =
        (.socketpair :: if wantsNonblock args then
          [.setfl fd0 O_NONBLOCK, .setfl fd1 O_NONBLOCK] else [], .objects fd1 fd0) := by
  rw [newLua, wantsNonblock]
  rcases argument args 1 with - | v
  · right
    simp only [Dialogue.query_bind, Dialogue.walk]
    rcases (answer .socketpair).pair with errno | ⟨fd0, fd1⟩
    · exact .inl ⟨errno, rfl, rfl⟩
    · exact .inr ⟨fd0, fd1, rfl, rfl⟩
  · cases v with
    | boolean b =>
        right
        simp only [Dialogue.query_bind, Dialogue.walk]
        rcases (answer .socketpair).pair with errno | ⟨fd0, fd1⟩
        · exact .inl ⟨errno, rfl, rfl⟩
        · refine .inr ⟨fd0, fd1, rfl, ?_⟩
          cases b with
          | false => rfl
          | true => rfl
    | _ => exact .inl ⟨_, rfl⟩

/-- The ends of a new pair. -/
def newEnd (nonblock : Bool) : EndState :=
  if nonblock then EndState.fresh.setfl O_NONBLOCK else .fresh

/-- `new` has made two objects, on free numbers. -/
structure NewMakes (s : SocketProcess) (args : List (Value F U)) (result : NewResult)
    (s' : SocketProcess) (fd0 fd1 : Descriptor) : Prop where
  result_eq : result = .objects fd1 fd0
  free0 : s.kernel.table fd0.num = none
  free1 : s.kernel.table fd1.num = none
  ne : fd0.num ≠ fd1.num
  made : s'.kernel.made = s.kernel.made + 1
  table : s'.kernel.table = (s.kernel.addPair fd0.num fd1.num).table
  ends : ∀ e, s'.kernel.ends e =
    if e.pair = s.kernel.made then newEnd (wantsNonblock args) else s.kernel.ends e
  holds : s'.holds = Function.update (Function.update s.holds ⟨s.kernel.made, true⟩ (some fd0.num))
    ⟨s.kernel.made, false⟩ (some fd1.num)

/-- `new` has made nothing. -/
structure NewFails (s : SocketProcess) (result : NewResult) (s' : SocketProcess) : Prop where
  result_ne : ∀ fd0 fd1, result ≠ .objects fd1 fd0
  same : s' = s

theorem Endpoint.pair_eq {e : Endpoint} {n : Nat} :
    e.pair = n ↔ e = ⟨n, false⟩ ∨ e = ⟨n, true⟩ := by
  obtain ⟨pair, second⟩ := e
  cases second with
  | false => simp
  | true => simp

/-- The state of the ends after the calls of `new`. -/
theorem makes_ends {k k' : SocketKernel} {answer : NewCall → NewReply} {fd0 fd1 : Descriptor}
    {nonblock : Bool} (hne : fd0.num ≠ fd1.num)
    (h : Answered Makes answer (k.addPair fd0.num fd1.num)
      (if nonblock then [.setfl fd0 O_NONBLOCK, .setfl fd1 O_NONBLOCK] else []) k') :
    k'.made = k.made + 1 ∧ k'.table = (k.addPair fd0.num fd1.num).table ∧
      ∀ e, k'.ends e = if e.pair = k.made then newEnd nonblock else k.ends e := by
  cases nonblock with
  | false =>
      obtain rfl := h.of_nil
      refine ⟨rfl, rfl, fun e => ?_⟩
      simp only [SocketKernel.addPair, newEnd, Function.update_apply]
      by_cases he : e.pair = k.made
      · rcases Endpoint.pair_eq.mp he with rfl | rfl
        · simp
        · simp
      · have hno := mt Endpoint.pair_eq.mpr he
        rw [not_or] at hno
        simp [he, hno.1, hno.2]
  | true =>
      obtain ⟨⟩ | ⟨h0, h1⟩ := h
      have h1 := h1.of_single
      cases h0 with
      | @setfl _ _ _ e0 hfd0 =>
      cases h1 with
      | @setfl _ _ _ e1 hfd1 =>
      have he0 : e0 = ⟨k.made, true⟩ := by
        simp only [SocketKernel.addPair, Function.update_of_ne hne, Function.update_self] at hfd0
        exact (OpenFile.socket.inj (Option.some.inj hfd0)).symm
      have he1 : e1 = ⟨k.made, false⟩ := by
        simp only [SocketKernel.addPair, Function.update_self] at hfd1
        exact (OpenFile.socket.inj (Option.some.inj hfd1)).symm
      subst he0 he1
      refine ⟨rfl, rfl, fun e => ?_⟩
      by_cases he : e.pair = k.made
      · rcases Endpoint.pair_eq.mp he with rfl | rfl
        · simp [SocketKernel.addPair, newEnd]
        · simp [SocketKernel.addPair, newEnd]
      · have hno := mt Endpoint.pair_eq.mpr he
        rw [not_or] at hno
        simp [SocketKernel.addPair, he, hno.1, hno.2]

/-- What is held after `new` has made two objects. -/
theorem receive_holds {k : SocketKernel} {fd0 fd1 : Descriptor}
    (hmade : k.made = s.kernel.made + 1) :
    (s.receive k (.objects fd1 fd0)).holds =
      Function.update (Function.update s.holds ⟨s.kernel.made, true⟩ (some fd0.num))
        ⟨s.kernel.made, false⟩ (some fd1.num) := by
  have hne0 := fd0.ne_closed
  have hne1 := fd1.ne_closed
  funext e
  by_cases he : e.pair = s.kernel.made
  · rcases Endpoint.pair_eq.mp he with rfl | rfl
    · simp [holds, Live, receive, hmade, hne1]
    · simp [holds, Live, receive, hmade, hne0]
  · have hno := mt Endpoint.pair_eq.mpr he
    rw [not_or] at hno
    have hlt : e.pair < s.kernel.made + 1 ↔ e.pair < s.kernel.made := by omega
    simp [holds, Live, receive, hmade, hno.1, hno.2, hlt]

/-- **What `new` does.** -/
theorem socket_new_cases {args : List (Value F U)} {answer : NewCall → NewReply}
    (h : SocketStep lib s (.new args answer) s') :
    NewFails s ((newLua args).walk answer).2 s' ∨
      ∃ fd0 fd1, NewMakes s args ((newLua args).walk answer).2 s' fd0 fd1 := by
  obtain @⟨_, _, k, hkernel⟩ := h
  rcases newLua_walk args answer with
    ⟨e, hwalk⟩ | ⟨errno, hpair, hwalk⟩ | ⟨fd0, fd1, hpair, hwalk⟩
  · rw [hwalk] at hkernel ⊢
    obtain rfl := hkernel.of_nil
    exact .inl ⟨by simp, rfl⟩
  · rw [hwalk] at hkernel ⊢
    refine .inl ⟨by simp, ?_⟩
    have hmakes := hkernel.of_single
    cases hmakes with
    | fails => rfl
    | makes fd0 fd1 hpair' =>
        rw [hpair] at hpair'
        cases hpair'
  · rw [hwalk] at hkernel ⊢
    right
    obtain ⟨⟩ | ⟨hmakes, hrest⟩ := hkernel
    cases hmakes with
    | fails errno hpair' =>
        rw [hpair] at hpair'
        cases hpair'
    | makes fd0' fd1' hpair' hfree0 hfree1 hne =>
        rw [hpair] at hpair'
        obtain ⟨rfl, rfl⟩ := Prod.mk.inj (Except.ok.inj hpair')
        obtain ⟨hmade, htable, hends⟩ := makes_ends hne hrest
        exact ⟨fd0, fd1, rfl, hfree0, hfree1, hne, hmade, htable, hends, receive_holds hmade⟩

/-! ## Runs -/

namespace Custody

theorem step_call (h : Custody s) {e : Endpoint} {t : SocketTurn F U}
    (hquiet : s.Quiet lib (.call e t)) (hstep : SocketStep lib s (.call e t) s') : Custody s' := by
  rcases socket_call_cases h hquiet hstep with hcase | hcase | hcase
  · refine ⟨h.matched.congr (fun fd => by rw [hcase.kernel]) hcase.holds, ?_⟩
    rw [hcase.kernel]
    exact h.nonneg
  · have hheld : s.holds e = some (s.sock e) := holds_eq.mpr ⟨hcase.live, rfl⟩
    have hat : s'.kernel.socketAt = Function.update s.kernel.socketAt (s.sock e) none := by
      rw [hcase.kernel]
      exact Function.comp_update _ _ _ _
    constructor
    · rw [hat, hcase.holds]
      exact h.matched.unbind hheld
    · rw [hcase.kernel]
      intro fd f hfd
      by_cases hsock : fd = s.sock e
      · simp [hsock] at hfd
      · rw [SocketKernel.closeEnd_table, Function.update_of_ne hsock] at hfd
        exact h.nonneg fd f hfd
  · obtain ⟨ends, hkernel, -⟩ := hcase.kernel
    refine ⟨h.matched.congr (fun fd => by rw [hkernel]; rfl) hcase.holds, ?_⟩
    rw [hkernel]
    exact h.nonneg

theorem step_new (h : Custody s) {args : List (Value F U)} {answer : NewCall → NewReply}
    (hstep : SocketStep lib s (.new args answer) s') : Custody s' := by
  rcases socket_new_cases hstep with hfails | ⟨fd0, fd1, hmakes⟩
  · rwa [hfails.same]
  have hnone : ∀ second, s.holds ⟨s.kernel.made, second⟩ = none := by
    intro second
    rw [SocketProcess.holds, if_neg]
    exact fun hlive => absurd hlive.1 (Nat.lt_irrefl _)
  have hat : s'.kernel.socketAt = Function.update (Function.update s.kernel.socketAt fd0.num
      (some ⟨s.kernel.made, true⟩)) fd1.num (some ⟨s.kernel.made, false⟩) := by
    rw [SocketKernel.socketAt, hmakes.table, SocketKernel.addPair, Function.comp_update,
      Function.comp_update]
    rfl
  have hfree0 : s.kernel.socketAt fd0.num = none := by
    rw [SocketKernel.socketAt, Function.comp_apply, hmakes.free0, Option.bind_none]
  have hfree1 : s.kernel.socketAt fd1.num = none := by
    rw [SocketKernel.socketAt, Function.comp_apply, hmakes.free1, Option.bind_none]
  constructor
  · rw [hat, hmakes.holds]
    refine (h.matched.bind hfree0 (hnone true)).bind ?_ ?_
    · rw [Function.update_of_ne hmakes.ne.symm, hfree1]
    · rw [Function.update_of_ne (by simp), hnone false]
  · rw [hmakes.table]
    intro fd f hfd
    simp only [SocketKernel.addPair, Function.update_apply] at hfd
    split at hfd
    · rename_i heq
      rw [heq]
      exact fd1.nonneg
    · split at hfd
      · rename_i heq
        rw [heq]
        exact fd0.nonneg
      · exact h.nonneg fd f hfd

theorem step (h : Custody s) {a : SocketAction F U} (hquiet : s.Quiet lib a)
    (hstep : SocketStep lib s a s') : Custody s' := by
  cases a with
  | new args answer => exact h.step_new hstep
  | call e t => exact h.step_call hquiet hstep
  | openOther fd =>
      cases hstep with
      | openOther hfree =>
      refine ⟨h.matched.congr (fun n => ?_) fun _ => rfl, fun n f hf => ?_⟩
      · simp only [SocketKernel.socketAt, Function.comp_apply, Function.update_apply]
        split
        · rename_i hn
          rw [hn, hfree]
          rfl
        · rfl
      · simp only [Function.update_apply] at hf
        split at hf
        · rename_i hn
          rw [hn]
          exact fd.nonneg
        · exact h.nonneg n f hf
  | closeOther fd =>
      cases hstep with
      | closeOther hfd =>
      refine ⟨h.matched.congr (fun n => ?_) fun _ => rfl, fun n f hf => ?_⟩
      · simp only [SocketKernel.clear_table, SocketKernel.socketAt, Function.comp_apply,
          Function.update_apply]
        split
        · rename_i hn
          rw [hn, hfd]
          rfl
        · rfl
      · simp only [SocketKernel.clear_table, Function.update_apply] at hf
        split at hf
        · cases hf
        · exact h.nonneg n f hf

end Custody

/-- **The table and the objects match** after every run. -/
theorem custody_run {s₀ : SocketProcess} {obs : List (SocketObs F U)} (hcustody : Custody s₀)
    (hrun : SocketRun lib s₀ obs s) : Custody s := by
  induction hrun with
  | nil => exact hcustody
  | step hrun hquiet hstep ih => exact ih.step hquiet hstep

/-- A run around something that was seen. -/
theorem SocketRun.split {s₀ : SocketProcess} {pre post : List (SocketObs F U)} {o : SocketObs F U}
    (hrun : SocketRun lib s₀ (pre ++ o :: post) s) :
    ∃ s₁ a s₂, SocketRun lib s₀ pre s₁ ∧ s₁.Quiet lib a ∧ SocketStep lib s₁ a s₂ ∧
      o = s₁.observe lib a ∧ SocketRun lib s₂ post s := by
  generalize hobs : pre ++ o :: post = obs at hrun
  induction hrun generalizing post with
  | nil => simp at hobs
  | @step s₁ s₂ obs a hrun hquiet hstep ih =>
      rcases List.eq_nil_or_concat post with rfl | ⟨post, o', rfl⟩
      · obtain ⟨rfl, ho⟩ := List.append_inj' hobs rfl
        exact ⟨s₁, a, s₂, hrun, hquiet, hstep, List.singleton_inj.mp ho, .nil _⟩
      · rw [List.concat_eq_append] at hobs ⊢
        rw [← List.cons_append, ← List.append_assoc] at hobs
        obtain ⟨hinit, ho⟩ := List.append_inj' hobs rfl
        obtain ⟨s₃, b, s₄, hpre, hquiet', hstep', ho', hpost⟩ := ih hinit
        refine ⟨s₃, b, s₄, hpre, hquiet', hstep', ho', ?_⟩
        rw [List.singleton_inj.mp ho]
        exact hpost.step hquiet hstep

/-- Whether other code has a number open, after what was seen. -/
def SocketObs.others (fd : Int32) (held : Bool) : SocketObs F U → Bool
  | .opened fd' => if fd' = fd then true else held
  | .closed fd' => if fd' = fd then false else held
  | _ => held

/-- The files of other code are opened and closed by other code. -/
theorem others_step (hcustody : Custody s) {a : SocketAction F U} (hquiet : s.Quiet lib a)
    (hstep : SocketStep lib s a s') {fd : Int32} {held : Bool}
    (hheld : s.kernel.table fd = some .other ↔ held = true) :
    s'.kernel.table fd = some .other ↔ (s.observe lib a).others fd held = true := by
  cases a with
  | new args answer =>
      rcases socket_new_cases hstep with hfails | ⟨fd0, fd1, hmakes⟩
      · rw [hfails.same]
        exact hheld
      · simp only [observe, SocketObs.others]
        rw [hmakes.table, ← hheld]
        simp only [SocketKernel.addPair, Function.update_apply]
        split
        · rename_i heq
          rw [heq, hmakes.free1]
          simp
        · split
          · rename_i heq
            rw [heq, hmakes.free0]
            simp
          · rfl
  | call e t =>
      simp only [observe, SocketObs.others]
      rw [← hheld]
      rcases socket_call_cases hcustody hquiet hstep with hcase | hcase | hcase
      · rw [hcase.kernel]
      · rw [hcase.kernel]
        simp only [SocketKernel.closeEnd_table, Function.update_apply]
        split
        · rename_i heq
          rw [heq, hcustody.table_sock hcase.live]
          simp
        · rfl
      · obtain ⟨ends, hkernel, -⟩ := hcase.kernel
        rw [hkernel]
  | openOther fd' =>
      obtain ⟨⟩ := hstep
      simp only [observe, SocketObs.others, Function.update_apply, eq_comm (a := fd)]
      split
      · simp
      · exact hheld
  | closeOther fd' =>
      obtain ⟨⟩ := hstep
      simp only [observe, SocketObs.others, SocketKernel.clear_table, Function.update_apply,
        eq_comm (a := fd)]
      split
      · simp
      · exact hheld

theorem others_run {s₀ : SocketProcess} {obs : List (SocketObs F U)} (hinit : s₀.Initial)
    (hrun : SocketRun lib s₀ obs s) (fd : Int32) :
    s.kernel.table fd = some .other ↔
      obs.foldl (SocketObs.others fd) (s₀.kernel.table fd = some .other) = true := by
  induction hrun with
  | nil => simp
  | step hrun hquiet hstep ih =>
      rw [List.foldl_concat]
      exact others_step (custody_run (Custody.of_initial hinit) hrun) hquiet hstep ih

/-- The calls of a method are on the end of its object, or on no file if it is not live. -/
theorem call_own (hcustody : Custody s) {e : Endpoint} {t : SocketTurn F U}
    (hquiet : s.Quiet lib (.call e t)) (hstep : SocketStep lib s (.call e t) s') :
    ∀ c ∈ (socketMachine lib (s.sock e) t).2,
      if s.Live e then s.kernel.table c.fd = some (.socket e) else c.fd = -1 := by
  intro c hc
  rcases socket_call_cases hcustody hquiet hstep with hcase | hcase | hcase
  · rw [if_neg hcase.dead]
    exact hcase.calls c hc
  · rw [if_pos hcase.live, hcase.calls c hc]
    exact hcustody.table_sock hcase.live
  · rw [if_pos hcase.live, (hcase.calls c hc).1]
    exact hcustody.table_sock hcase.live

/-- **Every system call of a method is on the object's own end**, in a run in which nothing uses an
object after its finalizer: an open end is that of a live object that holds its number, a file of
other code is open until that code closes it, and a method's calls are on the end of its object, or
on no file if the object is not live. -/
theorem own_endpoint {s₀ : SocketProcess} {obs : List (SocketObs F U)} (hinit : s₀.Initial)
    (hrun : SocketRun lib s₀ obs s) :
    (∀ fd e, s.kernel.table fd = some (.socket e) ↔ s.Live e ∧ s.sock e = fd) ∧
    (∀ fd, s.kernel.table fd = some .other ↔
      obs.foldl (SocketObs.others fd) (s₀.kernel.table fd = some .other) = true) ∧
    ∀ e t s', s.Quiet lib (.call e t) → SocketStep lib s (.call e t) s' →
      ∀ c ∈ (socketMachine lib (s.sock e) t).2,
        if s.Live e then s.kernel.table c.fd = some (.socket e) else c.fd = -1 := by
  have hcustody := custody_run (Custody.of_initial hinit) hrun
  exact ⟨fun fd e => hcustody.table_iff, others_run hinit hrun,
    fun e t s' hquiet hstep => call_own hcustody hquiet hstep⟩

end Steps

/-- A process that has nothing open. -/
def socketStart : SocketProcess where
  kernel := ⟨fun _ => none, fun _ => .fresh, 0⟩
  sock _ := -1
  finalized _ := false

theorem socketStart_initial : socketStart.Initial := by
  refine ⟨rfl, fun fd f hfd => ?_, fun fd f hfd => ?_⟩
  · cases hfd
  · cases hfd

theorem fd3_nonneg : (0 : Int32) ≤ 3 := by decide

theorem fd4_nonneg : (0 : Int32) ≤ 4 := by decide

def fd3 : Descriptor := ⟨3, fd3_nonneg⟩

def fd4 : Descriptor := ⟨4, fd4_nonneg⟩

/-- A pair is made, its first object is closed, and other code gets the number. -/
theorem reused_run : ∃ (obs : List (SocketObs Unit Unit)) (s : SocketProcess),
    SocketRun plainC socketStart obs s ∧ (s.Live ⟨0, true⟩ ∧ s.sock ⟨0, true⟩ = 3) ∧
      obs.foldl (SocketObs.others 4) false = true := by
  let turn : SocketTurn Unit Unit := ⟨.close, [], fun _ => ⟨0, 0, [], 0⟩⟩
  let s₁ := socketStart.receive (socketStart.kernel.addPair 3 4) (.objects fd4 fd3)
  let s₂ := s₁.called plainC ⟨0, false⟩ turn (s₁.kernel.closeEnd 4 ⟨0, false⟩)
  have hnew : SocketStep plainC socketStart (.new [] fun _ => ⟨.ok (fd3, fd4)⟩) s₁ :=
    .new (.single (.makes fd3 fd4 rfl rfl rfl (by decide)))
  have hclose : SocketStep plainC s₁ (.call ⟨0, false⟩ turn) s₂ :=
    .call (by decide) (.single (.closes rfl))
  have hopen : SocketStep plainC s₂ (.openOther fd4) _ := .openOther rfl
  have hmade : SocketRun plainC socketStart _ s₁ :=
    .step (.nil _) (by exact trivial) hnew
  have hquiet : s₁.Quiet plainC (.call ⟨0, false⟩ turn) := fun hfinal => nomatch hfinal
  have hrun := (hmade.step hquiet hclose).step (by exact trivial) hopen
  exact ⟨_, _, hrun,
    ⟨by decide, rfl⟩, rfl⟩

theorem own_endpoint_reused : ∃ (obs : List (SocketObs Unit Unit)) (s : SocketProcess),
    SocketRun plainC socketStart obs s ∧ s.kernel.table 4 = some .other ∧
      s.kernel.table 3 = some (.socket ⟨0, true⟩) := by
  obtain ⟨obs, s, hrun, hobject, hothers⟩ := reused_run
  obtain ⟨htable, hother, -⟩ := own_endpoint socketStart_initial hrun
  exact ⟨obs, s, hrun, (hother 4).mpr hothers, (htable 3 ⟨0, true⟩).mpr hobject⟩
end Testcase
