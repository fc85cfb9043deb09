import LuaTestcase.Core.Tables
import LuaTestcase.Socket.Def

/-!
# Sockets in the kernel

What the kernel may reply to the system calls on connected stream sockets, and what it does then.
The descriptor table of the process says what each number is open for: an end of a pair, or a file
of other code.  A call may fail at any time; `write` may take a part of what it is given, and `read`
may give a part of what has arrived.

* `Replies`, `Makes` — the replies to the calls of the methods and of `new`.
* `Serves.frame`, `Replies.table` — what a reply leaves as it is.
-/

namespace Testcase

/-- An end of a pair: the first or the second object that `new` returns. -/
structure Endpoint where
  pair : Nat
  second : Bool
deriving DecidableEq

/-- The other end. -/
def Endpoint.peer (e : Endpoint) : Endpoint := ⟨e.pair, !e.second⟩

@[simp] theorem Endpoint.peer_peer (e : Endpoint) : e.peer.peer = e := by
  simp [Endpoint.peer]

@[simp] theorem Endpoint.peer_pair (e : Endpoint) : e.peer.pair = e.pair := rfl

/-- What a descriptor is open for. -/
inductive OpenFile where
  | socket (e : Endpoint)
  | other
deriving DecidableEq

def OpenFile.endpoint : OpenFile → Option Endpoint
  | .socket e => some e
  | .other => none

/-- An end: whether it is open and not shut down, what has arrived and was not read, and the status
flags. -/
structure EndState where
  isOpen : Bool
  shutRd : Bool
  shutWr : Bool
  inbox : Str
  flags : UInt32

def O_RDWR : UInt32 := 2

/-- The flags that `F_SETFL` changes: `O_APPEND`, `O_NONBLOCK`, `O_ASYNC`, `O_DIRECT`, `O_NOATIME`.
-/
def SETFL_MASK : UInt32 := 0x46C00

/-- An end of a new pair. -/
def EndState.fresh : EndState := ⟨true, false, false, [], O_RDWR⟩

/-- `F_SETFL`. -/
def EndState.setfl (x : EndState) (flags : UInt32) : EndState :=
  { x with flags := (x.flags &&& ~~~SETFL_MASK) ||| (flags &&& SETFL_MASK) }

def EndState.shutdown (x : EndState) : ShutHow → EndState
  | .SHUT_RD => { x with shutRd := true }
  | .SHUT_WR => { x with shutWr := true }
  | .SHUT_RDWR => { x with shutRd := true, shutWr := true }

abbrev Ends : Type := Endpoint → EndState

namespace Ends

variable (ends : Ends) (e : Endpoint)

/-- Nothing more arrives at the end: it is closed or shut for reading, or the other end is closed or
shut for writing. -/
def Ended : Prop :=
  (ends e).isOpen = false ∨ (ends e).shutRd = true ∨ (ends e.peer).isOpen = false ∨
    (ends e.peer).shutWr = true

instance : Decidable (ends.Ended e) := inferInstanceAs (Decidable (_ ∨ _ ∨ _ ∨ _))

/-- What was written arrives. -/
def deliver (s : Str) : Ends :=
  Function.update ends e { ends e with inbox := (ends e).inbox ++ s }

/-- What has arrived is read. -/
def consume (n : Nat) : Ends :=
  Function.update ends e { ends e with inbox := (ends e).inbox.drop n }

end Ends

/-- The replies to a call on an open end, other than a failure, and what becomes of the ends. -/
inductive Serves (ends : Ends) (e : Endpoint) : SocketCall → SocketReply → Ends → Prop where
  | writes {msg : Str} {r : SocketReply} (n : Nat) (hlen : n ≤ msg.length) (hret : r.ret = n)
      (harrives : n ≠ 0 → ¬ends.Ended e.peer) :
      Serves ends e (.write msg) r (ends.deliver e.peer (msg.take n))
  | reads {size : Nat} {r : SocketReply} (n : Nat) (hpos : 0 < n) (hsize : n ≤ size)
      (hlen : n ≤ (ends e).inbox.length) (hret : r.ret = n) (hbuf : r.buf = (ends e).inbox.take n) :
      Serves ends e (.read size) r (ends.consume e n)
  | readsEnd {size : Nat} {r : SocketReply} (hret : r.ret = 0) (hempty : (ends e).inbox = [])
      (hended : ends.Ended e) : Serves ends e (.read size) r ends
  | shuts {how : ShutHow} {r : SocketReply} (hret : r.ret = 0) :
      Serves ends e (.shutdown how) r (Function.update ends e ((ends e).shutdown how))
  | getsockopt {opt : SockOpt} {r : SocketReply} (hret : r.ret = 0) :
      Serves ends e (.getsockopt opt) r ends
  | setsockopt {opt : SockOpt} {size : Int32} {r : SocketReply} (hret : r.ret = 0) :
      Serves ends e (.setsockopt opt size) r ends
  | getfl {r : SocketReply} (hret : r.ret = (ends e).flags.toNat) : Serves ends e .getfl r ends
  | setfl {flags : UInt32} {r : SocketReply} (hret : r.ret = 0) :
      Serves ends e (.setfl flags) r (Function.update ends e ((ends e).setfl flags))

/-- The kernel: the descriptors of the process, the ends, and how many pairs were made. -/
structure SocketKernel where
  table : Int32 → Option OpenFile
  ends : Ends
  made : Nat

namespace SocketKernel

variable (k : SocketKernel)

/-- The end that a descriptor is open for. -/
def socketAt : Int32 → Option Endpoint := (Option.bind · OpenFile.endpoint) ∘ k.table

theorem socketAt_eq {k : SocketKernel} {fd : Int32} {e : Endpoint} :
    k.socketAt fd = some e ↔ k.table fd = some (.socket e) := by
  rw [socketAt, Function.comp_apply]
  rcases k.table fd with - | (e' | -)
  · simp
  · simp [OpenFile.endpoint]
  · simp [OpenFile.endpoint]

/-- A descriptor is given back. -/
def clear (fd : Int32) : SocketKernel := { k with table := Function.update k.table fd none }

/-- The only descriptor of an end is given back. -/
def closeEnd (fd : Int32) (e : Endpoint) : SocketKernel :=
  { k.clear fd with ends := Function.update k.ends e { k.ends e with isOpen := false } }

@[simp] theorem clear_table (fd : Int32) :
    (k.clear fd).table = Function.update k.table fd none := rfl

@[simp] theorem closeEnd_table (fd : Int32) (e : Endpoint) :
    (k.closeEnd fd e).table = Function.update k.table fd none := rfl

/-- Two ends are made. -/
def addPair (fd0 fd1 : Int32) : SocketKernel where
  table := Function.update (Function.update k.table fd0 (some (.socket ⟨k.made, true⟩))) fd1
    (some (.socket ⟨k.made, false⟩))
  ends := Function.update (Function.update k.ends ⟨k.made, true⟩ .fresh) ⟨k.made, false⟩ .fresh
  made := k.made + 1

end SocketKernel

/-- The end does not block. -/
def EndState.Nonblocking (x : EndState) : Prop := x.flags &&& O_NONBLOCK ≠ 0

/-- The replies to a system call, and what becomes of the kernel.  A call would block only on an end
that does not block.  What other code has open is closed or left alone. -/
inductive Replies (k : SocketKernel) : OnSocket → SocketReply → SocketKernel → Prop where
  | fails {c : OnSocket} {r : SocketReply} (hcall : c.call ≠ .close) (hret : r.ret = -1)
      (hagain : r.errno = EWOULDBLOCK →
        ∃ e, k.table c.fd = some (.socket e) ∧ (k.ends e).Nonblocking) : Replies k c r k
  | serves {c : OnSocket} {r : SocketReply} {e : Endpoint} {ends : Ends}
      (hfd : k.table c.fd = some (.socket e)) (hserves : Serves k.ends e c.call r ends) :
      Replies k c r { k with ends := ends }
  | other {c : OnSocket} {r : SocketReply} (hfd : k.table c.fd = some .other)
      (hcall : c.call ≠ .close) : Replies k c r k
  | closes {fd : Int32} {r : SocketReply} {e : Endpoint} (hfd : k.table fd = some (.socket e)) :
      Replies k ⟨fd, .close⟩ r (k.closeEnd fd e)
  | closesOther {fd : Int32} {r : SocketReply} (hfd : k.table fd = some .other) :
      Replies k ⟨fd, .close⟩ r (k.clear fd)
  | notOpen {fd : Int32} {r : SocketReply} (hfd : k.table fd = none) : Replies k ⟨fd, .close⟩ r k

/-- The replies to the calls of `new`: the numbers of a new pair were free. -/
inductive Makes (k : SocketKernel) : NewCall → NewReply → SocketKernel → Prop where
  | fails {r : NewReply} (errno : Nat) (hpair : r.pair = .error errno) : Makes k .socketpair r k
  | makes {r : NewReply} (fd0 fd1 : Descriptor) (hpair : r.pair = .ok (fd0, fd1))
      (hfree0 : k.table fd0.num = none) (hfree1 : k.table fd1.num = none)
      (hne : fd0.num ≠ fd1.num) : Makes k .socketpair r (k.addPair fd0.num fd1.num)
  | setfl {fd : Descriptor} {flags : UInt32} {r : NewReply} {e : Endpoint}
      (hfd : k.table fd.num = some (.socket e)) :
      Makes k (.setfl fd flags) r
        { k with ends := Function.update k.ends e ((k.ends e).setfl flags) }

/-! ## What a reply leaves as it is -/

/-- What a call on an end keeps at each end. -/
structure Keeps (x y : EndState) : Prop where
  isOpen : y.isOpen = x.isOpen
  shutRd : x.shutRd = true → y.shutRd = true
  shutWr : x.shutWr = true → y.shutWr = true

theorem Keeps.refl (x : EndState) : Keeps x x := ⟨rfl, id, id⟩

/-- The rule for a change of one end. -/
theorem Keeps.update {ends : Ends} {e : Endpoint} {y : EndState} (h : Keeps (ends e) y)
    (e' : Endpoint) : Keeps (ends e') (Function.update ends e y e') := by
  by_cases he : e' = e
  · subst he
    rwa [Function.update_self]
  · rw [Function.update_of_ne he]
    exact Keeps.refl _

namespace Serves

variable {ends ends' : Ends} {e : Endpoint} {call : SocketCall} {r : SocketReply}

theorem keeps (h : Serves ends e call r ends') (e' : Endpoint) : Keeps (ends e') (ends' e') := by
  cases h with
  | writes n =>
      refine Keeps.update ?_ e'
      exact ⟨rfl, id, id⟩
  | reads n =>
      refine Keeps.update ?_ e'
      exact ⟨rfl, id, id⟩
  | @shuts how =>
      refine Keeps.update ?_ e'
      cases how with
      | SHUT_RD => exact ⟨rfl, fun _ => rfl, id⟩
      | SHUT_WR => exact ⟨rfl, id, fun _ => rfl⟩
      | SHUT_RDWR => exact ⟨rfl, fun _ => rfl, fun _ => rfl⟩
  | setfl =>
      refine Keeps.update ?_ e'
      exact ⟨rfl, id, id⟩
  | _ => exact Keeps.refl _

/-- Only `write` and `read` touch what has arrived. -/
theorem inbox (h : Serves ends e call r ends') (hwrite : ∀ msg, call ≠ .write msg)
    (hread : ∀ size, call ≠ .read size) (e' : Endpoint) : (ends' e').inbox = (ends e').inbox := by
  have hupdate : ∀ y : EndState, y.inbox = (ends e).inbox →
      (Function.update ends e y e').inbox = (ends e').inbox := by
    intro y hy
    by_cases he : e' = e
    · rw [he, Function.update_self, hy]
    · rw [Function.update_of_ne he]
  cases h with
  | @writes msg => exact absurd rfl (hwrite msg)
  | @reads size => exact absurd rfl (hread size)
  | @readsEnd size => rfl
  | @shuts how => exact hupdate _ (by cases how <;> rfl)
  | setfl => exact hupdate _ rfl
  | _ => rfl

/-- Only `F_SETFL` touches the status flags. -/
theorem flags (h : Serves ends e call r ends') (hsetfl : ∀ flags, call ≠ .setfl flags)
    (e' : Endpoint) : (ends' e').flags = (ends e').flags := by
  have hupdate : ∀ (i : Endpoint) (y : EndState), y.flags = (ends i).flags →
      (Function.update ends i y e').flags = (ends e').flags := by
    intro i y hy
    by_cases he : e' = i
    · rw [he, Function.update_self, hy]
    · rw [Function.update_of_ne he]
  cases h with
  | writes n => exact hupdate _ _ rfl
  | reads n => exact hupdate _ _ rfl
  | @shuts how => exact hupdate _ _ (by cases how <;> rfl)
  | @setfl flags => exact absurd rfl (hsetfl flags)
  | _ => rfl

end Serves

/-- An end at which nothing more arrives stays one. -/
theorem Ends.Ended.keeps {ends ends' : Ends} {e : Endpoint} (h : ends.Ended e)
    (hkeeps : ∀ e', Keeps (ends e') (ends' e')) : ends'.Ended e := by
  rcases h with h | h | h | h
  · exact .inl (by rw [(hkeeps e).isOpen, h])
  · exact .inr (.inl ((hkeeps e).shutRd h))
  · exact .inr (.inr (.inl (by rw [(hkeeps e.peer).isOpen, h])))
  · exact .inr (.inr (.inr ((hkeeps e.peer).shutWr h)))

namespace Replies

variable {k k' : SocketKernel} {c : OnSocket} {r : SocketReply}

/-- A call on an open end, other than `close`, fails or is served. -/
theorem on_socket (h : Replies k c r k') {e : Endpoint} (hfd : k.table c.fd = some (.socket e))
    (hcall : c.call ≠ .close) :
    (r.ret = -1 ∧ k' = k ∧ (r.errno = EWOULDBLOCK → (k.ends e).Nonblocking)) ∨
      ∃ ends, Serves k.ends e c.call r ends ∧ k' = { k with ends := ends } := by
  cases h with
  | fails _ hret hagain =>
      refine .inl ⟨hret, rfl, fun herrno => ?_⟩
      obtain ⟨e', hfd', hnonblocking⟩ := hagain herrno
      rw [hfd] at hfd'
      rwa [OpenFile.socket.inj (Option.some.inj hfd')]
  | @serves _ _ e' ends hfd' hserves =>
      rw [hfd] at hfd'
      obtain rfl := OpenFile.socket.inj (Option.some.inj hfd')
      exact .inr ⟨ends, hserves, rfl⟩
  | other hfd' =>
      rw [hfd] at hfd'
      cases hfd'
  | closes | closesOther | notOpen => exact absurd rfl hcall

/-- `close` on an open end closes it. -/
theorem on_close {fd : Int32} (h : Replies k ⟨fd, .close⟩ r k') {e : Endpoint}
    (hfd : k.table fd = some (.socket e)) : k' = k.closeEnd fd e := by
  cases h with
  | fails hcall => exact absurd rfl hcall
  | serves _ hserves => cases hserves
  | other _ hcall => exact absurd rfl hcall
  | closes hfd' =>
      rw [hfd] at hfd'
      rw [OpenFile.socket.inj (Option.some.inj hfd')]
  | closesOther hfd' =>
      rw [hfd] at hfd'
      cases hfd'
  | notOpen hfd' =>
      rw [hfd] at hfd'
      cases hfd'

/-- A call on a number that is not open does nothing, and fails. -/
theorem on_free (h : Replies k c r k') (hfd : k.table c.fd = none) :
    k' = k ∧ (c.call ≠ .close → r.ret = -1 ∧ r.errno ≠ EWOULDBLOCK) := by
  cases h with
  | fails _ hret hagain =>
      refine ⟨rfl, fun _ => ⟨hret, fun herrno => ?_⟩⟩
      obtain ⟨e, hfd', -⟩ := hagain herrno
      rw [hfd] at hfd'
      cases hfd'
  | notOpen => exact ⟨rfl, fun hcall => absurd rfl hcall⟩
  | serves hfd' =>
      rw [hfd] at hfd'
      cases hfd'
  | other hfd' =>
      rw [hfd] at hfd'
      cases hfd'
  | closes hfd' =>
      have hfd' := hfd.symm.trans hfd'
      cases hfd'
  | closesOther hfd' =>
      have hfd' := hfd.symm.trans hfd'
      cases hfd'

/-- What has arrived stays unless it is read or something is written. -/
theorem inbox (h : Replies k c r k') (hwrite : ∀ msg, c.call ≠ .write msg)
    (hread : ∀ size, c.call ≠ .read size) (e : Endpoint) :
    (k'.ends e).inbox = (k.ends e).inbox := by
  cases h with
  | serves _ hserves => exact hserves.inbox hwrite hread e
  | @closes _ _ i =>
      by_cases he : e = i
      · simp [SocketKernel.closeEnd, he]
      · simp [SocketKernel.closeEnd, he]
  | _ => rfl

/-- The status flags stay unless they are set. -/
theorem flags (h : Replies k c r k') (hsetfl : ∀ flags, c.call ≠ .setfl flags) (e : Endpoint) :
    (k'.ends e).flags = (k.ends e).flags := by
  cases h with
  | serves _ hserves => exact hserves.flags hsetfl e
  | @closes _ _ i =>
      by_cases he : e = i
      · simp [SocketKernel.closeEnd, he]
      · simp [SocketKernel.closeEnd, he]
  | _ => rfl

end Replies

/-! ## What a method asks -/

/-- The system calls of a method. -/
def SocketMethod.Asks : SocketMethod → SocketCall → Prop
  | write, c => ∃ msg, c = .write msg
  | read, c => c = .read 4096
  | shutwr, c => c = .shutdown .SHUT_WR
  | shutrd, c => c = .shutdown .SHUT_RD
  | shutdown, c => c = .shutdown .SHUT_RDWR
  | close, c | gc, c => c = .close
  | sendbuf, c | recvbuf, c => c = .getsockopt .SO_RCVBUF ∨ ∃ size, c = .setsockopt .SO_RCVBUF size
  | nonblock, c => c = .getfl ∨ ∃ flags, c = .setfl flags
  | fd, _ | tostring, _ => False

section Asks

variable {F U : Type} (lib : CLib F U) (sock : Int32)

theorem storesNothing_onlyAsks {P : OnSocket → Prop} {d : SocketDialogue (CResult F U)}
    (h : d.OnlyAsks P) : (storesNothing d).OnlyAsks P := by
  induction d with
  | done r => exact trivial
  | ask q next ih => exact ⟨h.1, fun a => ih a (h.2 a)⟩

theorem doShutdown_asks (how : ShutHow) :
    (doShutdown lib sock how).OnlyAsks fun c => c.call = .shutdown how := by
  refine .query rfl fun r => ?_
  split <;> exact trivial

theorem sockbuf_asks (args : List (Value F U)) (opt : SockOpt) :
    (sockbuf lib sock args opt).OnlyAsks fun c =>
      c.call = .getsockopt opt ∨ ∃ size, c.call = .setsockopt opt size := by
  rw [sockbuf]
  rcases checkBufsize lib args with e | newsize
  · exact trivial
  refine .query (.inl rfl) fun r => ?_
  split
  · exact trivial
  · cases newsize with
    | none => exact trivial
    | some size =>
        refine .query (.inr ⟨size, rfl⟩) fun r' => ?_
        split <;> exact trivial

theorem nonblockLua_asks (args : List (Value F U)) :
    (nonblockLua lib sock args).OnlyAsks fun c =>
      c.call = .getfl ∨ ∃ flags, c.call = .setfl flags := by
  rw [nonblockLua]
  rcases checkEnabled args with e | enabled
  · exact trivial
  refine .query (.inl rfl) fun r => ?_
  split
  · exact trivial
  · cases enabled with
    | none => exact trivial
    | some b =>
        refine .query (.inr ⟨_, rfl⟩) fun r' => ?_
        split <;> exact trivial

theorem SocketMethod.run_asks (method : SocketMethod) (args : List (Value F U)) :
    (method.run lib sock args).OnlyAsks fun c => method.Asks c.call := by
  cases method with
  | write =>
      refine storesNothing_onlyAsks ?_
      rw [writeLua]
      rcases checkstring lib args 2 with e | msg
      · exact trivial
      · refine .query ⟨msg, rfl⟩ fun r => ?_
        split <;> exact trivial
  | read =>
      refine storesNothing_onlyAsks (.query rfl fun r => ?_)
      split
      · exact trivial
      · split <;> exact trivial
  | shutwr => exact storesNothing_onlyAsks (doShutdown_asks lib sock .SHUT_WR)
  | shutrd => exact storesNothing_onlyAsks (doShutdown_asks lib sock .SHUT_RD)
  | shutdown => exact storesNothing_onlyAsks (doShutdown_asks lib sock .SHUT_RDWR)
  | close =>
      rw [run, socketClose]
      split
      · exact .query rfl fun _ => trivial
      · exact trivial
  | gc =>
      rw [run, socketGc]
      split
      · exact .query rfl fun _ => trivial
      · exact trivial
  | sendbuf => exact storesNothing_onlyAsks (sockbuf_asks lib sock args .SO_RCVBUF)
  | recvbuf => exact storesNothing_onlyAsks (sockbuf_asks lib sock args .SO_RCVBUF)
  | nonblock => exact storesNothing_onlyAsks (nonblockLua_asks lib sock args)
  | fd => exact trivial
  | tostring => exact trivial

end Asks

end Testcase
