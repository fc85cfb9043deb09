import LuaTestcase.Core.Machine
import LuaTestcase.Socket.Def

/-!
# The two buffers of a socket

`recvbuf` and `sendbuf` of an open socket, with a kernel that keeps a size for each buffer and may
round what it is asked for.  Both methods get and set the receive buffer, so what `sendbuf` does is
right only as long as nobody can tell the two sizes apart.

* `bufferMachine_step` — **a call, of either method, reads and sets the receive buffer**.
* `buffers_independent` — **the buffers are independent in a run if and only if** every `sendbuf`
  finds both sizes equal and leaves them so.
-/

namespace Testcase

/-- The sizes of the buffers of a socket. -/
structure Buffers where
  rcv : Int32
  snd : Int32
deriving DecidableEq

def Buffers.size (s : Buffers) : SockOpt → Int32
  | .SO_RCVBUF => s.rcv
  | .SO_SNDBUF => s.snd

def Buffers.set (s : Buffers) (opt : SockOpt) (size : Int32) : Buffers :=
  match opt with
  | .SO_RCVBUF => { s with rcv := size }
  | .SO_SNDBUF => { s with snd := size }

/-- What a kernel makes of the current and the requested size of a buffer. -/
structure BufferKernel where
  rounds : SockOpt → Int32 → Int32 → Int32

/-- The reply for an open socket. -/
def BufferKernel.reply (K : BufferKernel) (s : Buffers) (q : OnSocket) : Buffers × SocketReply :=
  match q.call with
  | .getsockopt opt => (s, ⟨0, 0, [], s.size opt⟩)
  | .setsockopt opt size => (s.set opt (K.rounds opt (s.size opt) size), ⟨0, 0, [], 0⟩)
  | _ => (s, ⟨0, 0, [], 0⟩)

/-- `sock:recvbuf()`, `sock:recvbuf(n)`, `sock:sendbuf()` or `sock:sendbuf(n)`. -/
inductive BufferCall where
  | recvbuf (size : Option Int64)
  | sendbuf (size : Option Int64)
deriving DecidableEq

/-- The buffer that a call is for. -/
def BufferCall.opt : BufferCall → SockOpt
  | recvbuf _ => .SO_RCVBUF
  | sendbuf _ => .SO_SNDBUF

def BufferCall.size : BufferCall → Option Int64
  | recvbuf size => size
  | sendbuf size => size

section Runs

variable {F U : Type} (lib : CLib F U) (K : BufferKernel) (sock : Int32) (object : Value F U)

/-- The arguments of a call. -/
def BufferCall.args (c : BufferCall) : List (Value F U) :=
  object :: (c.size.map fun n => Value.integer n.toInt).toList

/-- A call. -/
def BufferCall.run (c : BufferCall) : SocketDialogue (CResult F U) :=
  match c with
  | recvbuf _ => recvbufLua lib sock (c.args object)
  | sendbuf _ => sendbufLua lib sock (c.args object)

/-- The socket as a machine; what is observed are the calls with their results. -/
def bufferMachine : Machine Buffers BufferCall (BufferCall × CResult F U) := fun s c =>
  let out := (c.run lib sock object).serve K.reply s
  (out.state, [(c, out.result)])

/-- The receive buffer, when a size was requested. -/
def Buffers.request (s : Buffers) (K : BufferKernel) : Option Int64 → Buffers
  | none => s
  | some n => { s with rcv := K.rounds .SO_RCVBUF s.rcv n.toInt32 }

variable {lib K sock object}

theorem checkBufsize_args (c : BufferCall) :
    checkBufsize lib (c.args object) = .ok (c.size.map Int64.toInt32) := by
  rw [BufferCall.args]
  rcases c.size with _ | n
  · rfl
  · have harg : argument [object, Value.integer n.toInt] 2 = some (.integer n.toInt) := rfl
    have hlength : 1 < [object, Value.integer n.toInt].length := Nat.lt_add_one 1
    show checkBufsize lib [object, Value.integer n.toInt] = _
    rw [checkBufsize, if_pos hlength, checkinteger_integer lib harg]
    rfl

theorem sockbuf_serve (s : Buffers) (c : BufferCall) :
    (sockbuf lib sock (c.args object) .SO_RCVBUF).serve K.reply s =
      ⟨s.request K c.size, ((sockbuf lib sock (c.args object) .SO_RCVBUF).serve K.reply s).log,
        .returned [.integer s.rcv.toInt]⟩ := by
  rw [sockbuf, checkBufsize_args, checked_ok]
  rcases c.size with _ | n
  · rfl
  · rfl

/-- **A call reads the receive buffer, and sets it.** -/
theorem bufferMachine_step (s : Buffers) (c : BufferCall) :
    bufferMachine lib K sock object s c =
      (s.request K c.size, [(c, .returned [.integer s.rcv.toInt])]) := by
  have hrun : c.run lib sock object = sockbuf lib sock (c.args object) .SO_RCVBUF := by
    cases c with
    | recvbuf size => rfl
    | sendbuf size => rfl
  rw [bufferMachine, hrun, sockbuf_serve]

@[simp] theorem request_snd (s : Buffers) (size : Option Int64) :
    (s.request K size).snd = s.snd := by
  cases size with
  | none => rfl
  | some n => rfl

/-- Nobody sets the send buffer. -/
theorem after_snd (s : Buffers) (cs : List BufferCall) :
    ((bufferMachine lib K sock object).after s cs).snd = s.snd := by
  induction cs generalizing s with
  | nil => rfl
  | cons c cs ih => rw [Machine.after_cons, ih, bufferMachine_step, request_snd]

/-! ## Independence -/

variable (lib K sock object)

/-- A call returns the size of its own buffer, does not change the other one, and changes its own
one only if a size is requested. -/
structure Separate (s : Buffers) (c : BufferCall) : Prop where
  result : (bufferMachine lib K sock object s c).2 =
    [(c, .returned [.integer (s.size c.opt).toInt])]
  other : ∀ opt, opt ≠ c.opt → (bufferMachine lib K sock object s c).1.size opt = s.size opt
  reads : c.size = none → (bufferMachine lib K sock object s c).1 = s

/-- The calls of a run are separate, and the calls for one buffer return what they would return
without the calls for the other one. -/
structure IndependentBuffers (s : Buffers) (cs : List BufferCall) : Prop where
  separate : ∀ pre c post, cs = pre ++ c :: post →
    Separate lib K sock object ((bufferMachine lib K sock object).after s pre) c
  removal : ∀ opt,
    ((bufferMachine lib K sock object).events s cs).filter (fun e => e.1.opt = opt) =
      (bufferMachine lib K sock object).events s (cs.filter fun c => c.opt = opt)

/-- A `sendbuf` finds both sizes equal, and what it requests, if anything, is rounded to the size
that the receive buffer has. -/
def Coincides (s : Buffers) (c : BufferCall) : Prop :=
  c.opt = .SO_SNDBUF → s.snd = s.rcv ∧ (s.request K c.size).rcv = s.rcv

/-- Every `sendbuf` of a run does. -/
def AllCoincide (s : Buffers) (cs : List BufferCall) : Prop :=
  ∀ pre c post, cs = pre ++ c :: post →
    Coincides K ((bufferMachine lib K sock object).after s pre) c

/-- And if there is one, the sizes are equal at the beginning. -/
structure Coincide (s : Buffers) (cs : List BufferCall) : Prop where
  calls : AllCoincide lib K sock object s cs
  start : (∃ c ∈ cs, c.opt = .SO_SNDBUF) → s.snd = s.rcv

variable {lib K sock object}

theorem separate_iff {s : Buffers} {c : BufferCall} :
    Separate lib K sock object s c ↔ Coincides K s c := by
  have hstep : bufferMachine lib K sock object s c =
    (s.request K c.size, [(c, .returned [.integer s.rcv.toInt])]) := bufferMachine_step s c
  constructor
  · rintro ⟨hresult, hother, -⟩ hopt
    rw [hstep] at hresult hother
    rw [hopt] at hresult hother
    have hsize : s.rcv.toInt = s.snd.toInt := by simpa [Buffers.size] using hresult
    exact ⟨(Int32.toInt_inj.mp hsize).symm, hother .SO_RCVBUF (by decide)⟩
  · intro h
    have hsize : s.size c.opt = s.rcv := by
      cases hopt : c.opt with
      | SO_RCVBUF => rfl
      | SO_SNDBUF => exact (h hopt).1
    refine ⟨?_, ?_, ?_⟩
    · rw [hstep, hsize]
    · intro opt hopt
      rw [hstep]
      cases opt with
      | SO_SNDBUF => exact request_snd s c.size
      | SO_RCVBUF =>
          cases hc : c.opt with
          | SO_RCVBUF => exact absurd hc.symm hopt
          | SO_SNDBUF => exact (h hc).2
    · intro hnone
      rw [hstep, hnone]
      rfl

/-- A `sendbuf` changes nothing then. -/
theorem Coincides.request {s : Buffers} {c : BufferCall} (h : Coincides K s c)
    (hopt : c.opt = .SO_SNDBUF) : s.request K c.size = s := by
  have hrcv := (h hopt).2
  have hsnd : (s.request K c.size).snd = s.snd := request_snd s c.size
  cases hs : s.request K c.size with
  | mk rcv snd =>
      rw [hs] at hrcv hsnd
      cases s
      exact congrArg₂ Buffers.mk hrcv hsnd

theorem AllCoincide.head {s : Buffers} {c : BufferCall} {cs : List BufferCall}
    (h : AllCoincide lib K sock object s (c :: cs)) : Coincides K s c :=
  h [] c cs rfl

theorem AllCoincide.tail {s : Buffers} {c : BufferCall} {cs : List BufferCall}
    (h : AllCoincide lib K sock object s (c :: cs)) :
    AllCoincide lib K sock object (s.request K c.size) cs := by
  intro pre d post hcs
  have hd := h (c :: pre) d post (by rw [hcs, List.cons_append])
  rwa [Machine.after_cons, bufferMachine_step] at hd

/-- Without the calls of `sendbuf`, those of `recvbuf` return the same. -/
theorem removal_sendbuf {s : Buffers} {cs : List BufferCall}
    (h : AllCoincide lib K sock object s cs) :
    ((bufferMachine lib K sock object).events s cs).filter (fun e => e.1.opt = .SO_RCVBUF) =
      (bufferMachine lib K sock object).events s (cs.filter fun c => c.opt = .SO_RCVBUF) := by
  induction cs generalizing s with
  | nil => rfl
  | cons c cs ih =>
      have htail := ih h.tail
      rw [Machine.events_cons, bufferMachine_step, List.filter_append, htail]
      cases hopt : c.opt with
      | SO_RCVBUF =>
          rw [List.filter_cons_of_pos (by simpa using hopt),
            List.filter_cons_of_pos (by simpa using hopt), Machine.events_cons, bufferMachine_step]
          rfl
      | SO_SNDBUF =>
          rw [h.head.request hopt, List.filter_cons_of_neg (by simp [hopt]),
            List.filter_cons_of_neg (by simp [hopt])]
          rfl

/-- Without the calls of `recvbuf`, those of `sendbuf` return the same, also in another state, whose
sizes are equal if a `sendbuf` is to come. -/
theorem removal_recvbuf {s t : Buffers} {cs : List BufferCall}
    (h : AllCoincide lib K sock object s cs) (hsnd : t.snd = s.snd)
    (heq : (∃ c ∈ cs, c.opt = .SO_SNDBUF) → t.snd = t.rcv) :
    ((bufferMachine lib K sock object).events s cs).filter (fun e => e.1.opt = .SO_SNDBUF) =
      (bufferMachine lib K sock object).events t (cs.filter fun c => c.opt = .SO_SNDBUF) := by
  induction cs generalizing s with
  | nil => rfl
  | cons c cs ih =>
      have hrest : (∃ d ∈ cs, d.opt = .SO_SNDBUF) → t.snd = t.rcv := by
        rintro ⟨d, hd, hopt⟩
        exact heq ⟨d, List.mem_cons_of_mem c hd, hopt⟩
      have htail := ih h.tail (by rw [request_snd, hsnd]) hrest
      rw [Machine.events_cons, bufferMachine_step, List.filter_append, htail]
      cases hopt : c.opt with
      | SO_RCVBUF =>
          rw [List.filter_cons_of_neg (by simp [hopt]), List.filter_cons_of_neg (by simp [hopt])]
          rfl
      | SO_SNDBUF =>
          -- this call finds the same size in both runs, and leaves it there
          have ht := heq ⟨c, List.mem_cons_self, hopt⟩
          have hrcv : t.rcv = s.rcv := by rw [← ht, hsnd, (h.head hopt).1]
          have hs := h.head.request hopt
          have hcoin : Coincides K t c := by
            intro _
            refine ⟨ht, ?_⟩
            have hkeep := (h.head hopt).2
            cases hsize : c.size with
            | none => rfl
            | some n =>
                rw [hsize] at hkeep
                show K.rounds .SO_RCVBUF t.rcv n.toInt32 = t.rcv
                rw [hrcv]
                exact hkeep
          rw [List.filter_cons_of_pos (by simpa using hopt),
            List.filter_cons_of_pos (by simpa using hopt), Machine.events_cons, bufferMachine_step,
            hcoin.request hopt, hrcv]
          rfl

/-- Where the buffers are independent, the first `sendbuf` returns the size that both have. -/
theorem IndependentBuffers.start {s : Buffers} {cs : List BufferCall}
    (h : IndependentBuffers lib K sock object s cs) (hsend : ∃ c ∈ cs, c.opt = .SO_SNDBUF) :
    s.snd = s.rcv := by
  obtain ⟨c, hc, hopt⟩ := hsend
  have hmem : c ∈ cs.filter fun c => c.opt = .SO_SNDBUF := by simp [hc, hopt]
  obtain ⟨d, rest, hfilter⟩ := List.exists_cons_of_ne_nil (List.ne_nil_of_mem hmem)
  have hevent : (d, CResult.returned [.integer s.rcv.toInt]) ∈
      (bufferMachine lib K sock object).events s cs := by
    have hremoval := h.removal .SO_SNDBUF
    rw [hfilter, Machine.events_cons, bufferMachine_step] at hremoval
    refine List.mem_of_mem_filter (p := fun e => e.1.opt = .SO_SNDBUF) ?_
    rw [hremoval]
    exact List.mem_cons_self
  obtain ⟨pre, i, post, hcs, hi⟩ := (Machine.mem_events _).mp hevent
  rw [bufferMachine_step, List.mem_singleton] at hi
  obtain ⟨rfl, hrcv⟩ : d = i ∧ s.rcv.toInt = _ := by simpa using hi
  have hdopt : d.opt = .SO_SNDBUF := by
    have hd : d ∈ cs.filter fun c => c.opt = .SO_SNDBUF := by simp [hfilter]
    simpa using (List.mem_filter.mp hd).2
  have hcoin := (separate_iff.mp (h.separate pre d post hcs) hdopt).1
  rw [after_snd, ← Int32.toInt_inj.mp hrcv] at hcoin
  exact hcoin

/-- **The buffers are independent in a run** if and only if every `sendbuf` finds both sizes equal
and leaves them so. -/
theorem buffers_independent (lib : CLib F U) (K : BufferKernel) (sock : Int32) (object : Value F U)
    (s : Buffers) (cs : List BufferCall) :
    IndependentBuffers lib K sock object s cs ↔ Coincide lib K sock object s cs := by
  constructor
  · intro h
    exact ⟨fun pre c post hcs => separate_iff.mp (h.separate pre c post hcs), h.start⟩
  · rintro ⟨hcalls, hstart⟩
    refine ⟨fun pre c post hcs => separate_iff.mpr (hcalls pre c post hcs), ?_⟩
    intro opt
    cases opt with
    | SO_RCVBUF => exact removal_sendbuf hcalls
    | SO_SNDBUF => exact removal_recvbuf hcalls rfl hstart

end Runs

/-- A new socket of a kernel that does as it is told. -/
theorem sendbuf_reads_rcvbuf :
    let K : BufferKernel := ⟨fun _ _ size => size⟩
    let m := bufferMachine plainC K 3 .nil
    m.events ⟨100, 200⟩ [.sendbuf none] = [(.sendbuf none, .returned [.integer 100])] ∧
      m.after ⟨100, 200⟩ [.sendbuf (some 50)] = ⟨50, 200⟩ ∧
      ¬IndependentBuffers plainC K 3 .nil ⟨100, 200⟩ [.sendbuf none] := by
  intro K m
  refine ⟨rfl, rfl, ?_⟩
  intro h
  have hcoin := separate_iff.mp (h.separate [] (.sendbuf none) [] rfl) rfl
  exact absurd hcoin.1 (by decide)

end Testcase
