import LuaTestcase.Core.Machine
import LuaTestcase.Socket.Def

/-!
# Closing a socket

An object's methods and its finalizer are called in any order, the finalizer also before methods,
which the finalizer of another object may call.  `close` stores `-1`, so that the object lets go of
its descriptor.  The finalizer does not.

* `open_step` — **what a call does with an open object**, in three cases.
* `closed_once` — **the descriptor is closed at most once and left alone then** if and only if
  nothing uses the object after the finalizer of an open object.
-/

namespace Testcase

/-- A method that is called, with its arguments, and the replies of the kernel. -/
structure SocketTurn (F U : Type) where
  method : SocketMethod
  args : List (Value F U)
  reply : OnSocket → SocketReply

section Turns

variable {F U : Type} (lib : CLib F U)

/-- The object as a machine on the value of `*sock`; what is observed are the system calls. -/
def socketMachine : Machine Int32 (SocketTurn F U) OnSocket := fun sock t =>
  let out := (t.method.run lib sock t.args).walk t.reply
  (out.2.stored.getD sock, out.1)

/-- The method makes a system call on the descriptor of an open object. -/
def SocketTurn.Uses (t : SocketTurn F U) : Prop :=
  match t.method with
  | .write => ∃ msg, checkstring lib t.args 2 = .ok msg
  | .sendbuf | .recvbuf => ∃ size, checkBufsize lib t.args = .ok size
  | .nonblock => ∃ enabled, checkEnabled t.args = .ok enabled
  | .fd | .tostring => False
  | .read | .shutwr | .shutrd | .shutdown | .close | .gc => True

/-! ## One call -/

/-- A system call on the descriptor other than `close`. -/
def KeepsOpen (sock : Int32) (e : OnSocket) : Prop := e.fd = sock ∧ e.call ≠ .close

variable {lib} {sock : Int32}

theorem storesNothing_walk (d : SocketDialogue (CResult F U)) (reply : OnSocket → SocketReply) :
    ((storesNothing d).walk reply).1 = (d.walk reply).1 ∧
      ((storesNothing d).walk reply).2.stored = none := by
  rw [storesNothing, Dialogue.walk_bind]
  exact ⟨List.append_nil _, rfl⟩

theorem checked_onlyAsks {α : Type} {P : OnSocket → Prop} {x : Except CError α}
    {k : α → SocketDialogue (CResult F U)} (h : ∀ a, (k a).OnlyAsks P) :
    (checked x k).OnlyAsks P := by
  cases x with
  | error e => exact trivial
  | ok a => exact h a

theorem writeLua_keepsOpen (args : List (Value F U)) :
    (writeLua lib sock args).OnlyAsks (KeepsOpen sock) := by
  refine checked_onlyAsks fun msg => ?_
  refine .query ⟨rfl, by simp⟩ fun r => ?_
  split <;> exact trivial

theorem readLua_keepsOpen : (readLua lib sock).OnlyAsks (KeepsOpen sock) := by
  refine .query ⟨rfl, by simp⟩ fun r => ?_
  split
  · exact trivial
  · split <;> exact trivial

theorem doShutdown_keepsOpen (how : ShutHow) :
    (doShutdown lib sock how).OnlyAsks (KeepsOpen sock) := by
  refine .query ⟨rfl, by simp⟩ fun r => ?_
  split <;> exact trivial

theorem sockbuf_keepsOpen (args : List (Value F U)) (opt : SockOpt) :
    (sockbuf lib sock args opt).OnlyAsks (KeepsOpen sock) := by
  refine checked_onlyAsks fun newsize => ?_
  refine .query ⟨rfl, by simp⟩ fun r => ?_
  split
  · exact trivial
  · cases newsize with
    | none => exact trivial
    | some size =>
        refine .query ⟨rfl, by simp⟩ fun r' => ?_
        split <;> exact trivial

theorem nonblockLua_keepsOpen (args : List (Value F U)) :
    (nonblockLua lib sock args).OnlyAsks (KeepsOpen sock) := by
  refine checked_onlyAsks fun enabled => ?_
  refine .query ⟨rfl, by simp⟩ fun r => ?_
  split
  · exact trivial
  · cases enabled with
    | none => exact trivial
    | some b =>
        refine .query ⟨rfl, by simp⟩ fun r' => ?_
        split <;> exact trivial

/-- What a method that stores nothing does. -/
theorem keepsOpen_step {t : SocketTurn F U} {d : SocketDialogue (CResult F U)}
    (hrun : t.method.run lib sock t.args = storesNothing d) (hasks : d.OnlyAsks (KeepsOpen sock))
    (huses : d.Pending ↔ t.Uses lib) :
    ∃ es, socketMachine lib sock t = (sock, es) ∧ (∀ e ∈ es, KeepsOpen sock e) ∧
      (es ≠ [] ↔ t.Uses lib) := by
  obtain ⟨hcalls, hstored⟩ := storesNothing_walk d t.reply
  refine ⟨(d.walk t.reply).1, ?_, hasks.walk t.reply, ?_⟩
  · rw [socketMachine, hrun, hstored, hcalls]
    rfl
  · rw [Dialogue.walk_ne_nil, huses]

/-- The other methods keep the object open. -/
theorem other_step (t : SocketTurn F U) (hclose : t.method ≠ .close) (hgc : t.method ≠ .gc) :
    ∃ es, socketMachine lib sock t = (sock, es) ∧ (∀ e ∈ es, KeepsOpen sock e) ∧
      (es ≠ [] ↔ t.Uses lib) := by
  obtain ⟨method, args, reply⟩ := t
  cases method with
  | close => exact absurd rfl hclose
  | gc => exact absurd rfl hgc
  | write =>
      refine keepsOpen_step rfl (writeLua_keepsOpen args) ?_
      rw [writeLua, checked_pending]
      exact exists_congr fun msg => and_iff_left trivial
  | read => exact keepsOpen_step rfl readLua_keepsOpen Iff.rfl
  | shutwr => exact keepsOpen_step rfl (doShutdown_keepsOpen .SHUT_WR) Iff.rfl
  | shutrd => exact keepsOpen_step rfl (doShutdown_keepsOpen .SHUT_RD) Iff.rfl
  | shutdown => exact keepsOpen_step rfl (doShutdown_keepsOpen .SHUT_RDWR) Iff.rfl
  | sendbuf =>
      refine keepsOpen_step rfl (sockbuf_keepsOpen args .SO_RCVBUF) ?_
      rw [sendbufLua, sockbuf, checked_pending]
      exact exists_congr fun size => and_iff_left trivial
  | recvbuf =>
      refine keepsOpen_step rfl (sockbuf_keepsOpen args .SO_RCVBUF) ?_
      rw [recvbufLua, sockbuf, checked_pending]
      exact exists_congr fun size => and_iff_left trivial
  | nonblock =>
      refine keepsOpen_step rfl (nonblockLua_keepsOpen args) ?_
      rw [nonblockLua, checked_pending]
      exact exists_congr fun enabled => and_iff_left trivial
  | fd => exact ⟨[], rfl, by simp, by simp [SocketTurn.Uses]⟩
  | tostring => exact ⟨[], rfl, by simp, by simp [SocketTurn.Uses]⟩

/-- **A call on an open object** closes it and lets go of the descriptor, or closes it and does not,
or does neither. -/
theorem open_step (lib : CLib F U) (hopen : sock ≠ -1) (t : SocketTurn F U) :
    (t.method = .close ∧ socketMachine lib sock t = (-1, [⟨sock, .close⟩])) ∨
    (t.method = .gc ∧ socketMachine lib sock t = (sock, [⟨sock, .close⟩])) ∨
    (t.method ≠ .close ∧ t.method ≠ .gc ∧
      ∃ es, socketMachine lib sock t = (sock, es) ∧ (∀ e ∈ es, KeepsOpen sock e) ∧
        (es ≠ [] ↔ t.Uses lib)) := by
  by_cases hclose : t.method = .close
  · refine .inl ⟨hclose, ?_⟩
    rw [socketMachine, hclose, SocketMethod.run, socketClose, if_pos hopen]
    rfl
  by_cases hgc : t.method = .gc
  · refine .inr (.inl ⟨hgc, ?_⟩)
    rw [socketMachine, hgc, SocketMethod.run, socketGc, if_pos hopen]
    rfl
  exact .inr (.inr ⟨hclose, hgc, other_step t hclose hgc⟩)

/-- A closed object stays closed, and uses no descriptor. -/
theorem closed_step (t : SocketTurn F U) :
    (socketMachine lib (-1) t).1 = -1 ∧ ∀ e ∈ (socketMachine lib (-1) t).2, e.fd = -1 := by
  by_cases hclose : t.method = .close
  · rw [socketMachine, hclose]
    exact ⟨rfl, fun e he => absurd he List.not_mem_nil⟩
  by_cases hgc : t.method = .gc
  · rw [socketMachine, hgc]
    exact ⟨rfl, fun e he => absurd he List.not_mem_nil⟩
  obtain ⟨es, hstep, hkeeps, -⟩ := other_step t hclose hgc
  rw [hstep]
  exact ⟨rfl, fun e he => (hkeeps e he).1⟩

/-! ## Runs -/

theorem closed_events (lib : CLib F U) (ts : List (SocketTurn F U)) :
    ∀ e ∈ (socketMachine lib).events (-1) ts, e.fd = -1 := by
  induction ts with
  | nil => exact fun e he => absurd he List.not_mem_nil
  | cons t ts ih =>
      intro e he
      rw [Machine.events_cons, (closed_step t).1] at he
      rcases List.mem_append.mp he with he | he
      · exact (closed_step t).2 e he
      · exact ih e he

theorem uses_of_closes {t : SocketTurn F U} (h : t.method = .close ∨ t.method = .gc) :
    t.Uses lib := by
  rcases h with h | h
  · simp only [SocketTurn.Uses, h]
  · simp only [SocketTurn.Uses, h]

/-- The descriptor of an open object is used in a run if a turn uses it. -/
theorem exists_event (hopen : sock ≠ -1) {ts : List (SocketTurn F U)}
    (huses : ∃ t ∈ ts, t.Uses lib) : ∃ e ∈ (socketMachine lib).events sock ts, e.fd = sock := by
  induction ts with
  | nil => simp at huses
  | cons t ts ih =>
      rw [Machine.events_cons]
      rcases open_step lib hopen t with ⟨-, hstep⟩ | ⟨-, hstep⟩ | ⟨-, -, es, hstep, hkeeps, hiff⟩
      · rw [hstep]
        exact ⟨_, List.mem_cons_self, rfl⟩
      · rw [hstep]
        exact ⟨_, List.mem_cons_self, rfl⟩
      · rw [hstep]
        by_cases ht : t.Uses lib
        · obtain ⟨e, he⟩ := List.exists_mem_of_ne_nil es (hiff.mpr ht)
          exact ⟨e, List.mem_append_left _ he, (hkeeps e he).1⟩
        · have hrest : ∃ t ∈ ts, t.Uses lib := by simpa [ht] using huses
          obtain ⟨e, he, hfd⟩ := ih hrest
          exact ⟨e, List.mem_append_right _ he, hfd⟩

/-- If none does, there is no system call. -/
theorem events_eq_nil (hopen : sock ≠ -1) {ts : List (SocketTurn F U)}
    (huses : ∀ t ∈ ts, ¬t.Uses lib) : (socketMachine lib).events sock ts = [] := by
  induction ts with
  | nil => rfl
  | cons t ts ih =>
      have ht := huses t List.mem_cons_self
      have hts := ih fun u hu => huses u (List.mem_cons_of_mem t hu)
      rw [Machine.events_cons]
      rcases open_step lib hopen t with ⟨hm, -⟩ | ⟨hm, -⟩ | ⟨-, -, es, hstep, -, hiff⟩
      · exact absurd (uses_of_closes (.inl hm)) ht
      · exact absurd (uses_of_closes (.inr hm)) ht
      · have hes : es = [] := by
          by_contra hne
          exact ht (hiff.mp hne)
        rw [hstep, hes, hts]
        rfl

/-! ## Closing once -/

/-- After a system call that closes the descriptor, none is on its number. -/
def Final (fd : Int32) (es : List OnSocket) : Prop :=
  es.Pairwise fun e e' => e = ⟨fd, .close⟩ → e'.fd ≠ fd

/-- A descriptor is closed at most once, and not used after that. -/
structure ClosedOnce (fd : Int32) (es : List OnSocket) : Prop where
  once : es.count ⟨fd, .close⟩ ≤ 1
  final : Final fd es

theorem Final.once {fd : Int32} {es : List OnSocket} (h : Final fd es) : ClosedOnce fd es := by
  refine ⟨?_, h⟩
  induction h with
  | nil => exact Nat.zero_le 1
  | @cons e es hhead _ ih =>
      by_cases he : e = ⟨fd, .close⟩
      · have hnone : (⟨fd, .close⟩ : OnSocket) ∉ es := fun hmem => hhead _ hmem he rfl
        rw [he, List.count_cons_self, List.count_eq_zero_of_not_mem hnone]
      · rwa [List.count_cons_of_ne he]

/-- Nothing uses the object after the finalizer of an open object. -/
def QuietAfterGc (lib : CLib F U) (ts : List (SocketTurn F U)) : Prop :=
  ∀ pre t post, ts = pre ++ t :: post → t.method = .gc → (∀ u ∈ pre, u.method ≠ .close) →
    ∀ u ∈ post, ¬u.Uses lib

theorem quietAfterGc_cons {t : SocketTurn F U} {ts : List (SocketTurn F U)} :
    QuietAfterGc lib (t :: ts) ↔
      (t.method = .gc → ∀ u ∈ ts, ¬u.Uses lib) ∧ (t.method ≠ .close → QuietAfterGc lib ts) := by
  constructor
  · intro h
    refine ⟨fun ht => h [] t ts rfl ht (by simp), ?_⟩
    intro ht pre u post hts hu hpre
    refine h (t :: pre) u post (by rw [hts, List.cons_append]) hu ?_
    exact List.forall_mem_cons.mpr ⟨ht, hpre⟩
  · rintro ⟨hhead, htail⟩ pre u post hts hu hpre
    cases pre with
    | nil =>
        obtain ⟨rfl, rfl⟩ := List.cons.inj hts
        exact hhead hu
    | cons v pre =>
        obtain ⟨rfl, rfl⟩ := List.cons.inj hts
        obtain ⟨ht, hpre⟩ := List.forall_mem_cons.mp hpre
        exact htail ht pre u post rfl hu hpre

theorem final_iff_quiet (hopen : sock ≠ -1) (ts : List (SocketTurn F U)) :
    Final sock ((socketMachine lib).events sock ts) ↔ QuietAfterGc lib ts := by
  induction ts with
  | nil => exact ⟨fun _ pre t post hts => by simp at hts, fun _ => List.Pairwise.nil⟩
  | cons t ts ih =>
      rw [Machine.events_cons, quietAfterGc_cons]
      rcases open_step lib hopen t with
        ⟨hm, hstep⟩ | ⟨hm, hstep⟩ | ⟨hclose, hgc, es, hstep, hkeeps, -⟩
      · -- the object is closed: what follows is on no descriptor
        have hrest : ∀ e ∈ (socketMachine lib).events (-1) ts, e.fd ≠ sock := by
          intro e he hfd
          exact hopen (by rw [← hfd, closed_events lib ts e he])
        have hfinal : Final sock ((socketMachine lib).events (-1) ts) :=
          List.pairwise_of_forall_mem_list fun e he e' he' _ => hrest e' he'
        rw [hstep]
        refine ⟨fun _ => ⟨by simp [hm], fun hne => absurd hm hne⟩, fun _ => ?_⟩
        exact List.pairwise_cons.mpr ⟨fun e he _ => hrest e he, hfinal⟩
      · -- the descriptor is closed, and the object still has it
        rw [hstep]
        constructor
        · intro h
          obtain ⟨hhead, htail⟩ := List.pairwise_cons.mp h
          refine ⟨fun _ u hu huses => ?_, fun _ => ih.mp htail⟩
          obtain ⟨e, he, hfd⟩ := exists_event hopen ⟨u, hu, huses⟩
          exact hhead e he rfl hfd
        · rintro ⟨hnone, -⟩
          rw [events_eq_nil hopen (hnone hm)]
          exact List.pairwise_singleton _ _
      · have hfirst : ∀ e ∈ es, e ≠ ⟨sock, .close⟩ := by
          rintro e he rfl
          exact (hkeeps _ he).2 rfl
        rw [hstep, Final, List.pairwise_append]
        constructor
        · rintro ⟨-, hrest, -⟩
          exact ⟨fun h => absurd h hgc, fun _ => ih.mp hrest⟩
        · rintro ⟨-, hquiet⟩
          refine ⟨?_, ih.mpr (hquiet hclose), fun e he e' _ h => absurd h (hfirst e he)⟩
          exact List.pairwise_of_forall_mem_list fun e he e' _ h => absurd h (hfirst e he)

/-- **The descriptor is closed at most once and left alone then**, in a run of a new object, if and
only if nothing uses the object after its finalizer, unless `close` came first. -/
theorem closed_once (lib : CLib F U) (d : Descriptor) (ts : List (SocketTurn F U)) :
    ClosedOnce d.num ((socketMachine lib).events d.num ts) ↔ QuietAfterGc lib ts := by
  rw [← final_iff_quiet d.ne_closed]
  exact ⟨ClosedOnce.final, Final.once⟩

end Turns

/-- The finalizer of an object runs, and then that of another object calls `close`. -/
theorem closed_twice :
    let turn : SocketMethod → SocketTurn Unit Unit := fun method =>
      ⟨method, [], fun _ => ⟨0, 0, [], 0⟩⟩
    (socketMachine plainC).events 3 [turn .gc, turn .close] = [⟨3, .close⟩, ⟨3, .close⟩] ∧
      ¬ClosedOnce 3 ((socketMachine plainC).events 3 [turn .gc, turn .close]) := by
  intro turn
  refine ⟨rfl, ?_⟩
  intro h
  exact absurd h.once (by decide)

end Testcase
