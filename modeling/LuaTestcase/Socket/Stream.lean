import LuaTestcase.Socket.Process

/-!
# Streams

What is written to one end of a pair is read from the other, in order, whatever else the process
does with any of its objects.  `write` reports how much was accepted, which may be a part, and
`read` returns what has arrived, in parts of its own.

* `call_flow` — what a call does to the bytes on their way.
* `stream` — **nothing is lost, duplicated or reordered**, and a `read` that returns `nil` has read
  everything there ever is to read.
-/

namespace Testcase

open SocketProcess

section Streams

variable {F U : Type} (lib : CLib F U)

/-- What a call reports to have been accepted at an end. -/
def SocketObs.sent (e : Endpoint) : SocketObs F U → Str
  | .called e' .write args (.returned [.integer n]) =>
      if e' = e then
        match checkstring lib args 2 with
        | .ok msg => msg.take n.toNat
        | .error _ => []
      else []
  | _ => []

/-- What a call returns that was read at an end. -/
def SocketObs.received (e : Endpoint) : SocketObs F U → Str
  | .called e' .read _ (.returned [.string s]) => if e' = e then s else []
  | _ => []

def sentBy (e : Endpoint) (obs : List (SocketObs F U)) : Str := obs.flatMap (·.sent lib e)

def receivedBy (e : Endpoint) (obs : List (SocketObs F U)) : Str := obs.flatMap (·.received e)

theorem sentBy_concat (e : Endpoint) (obs : List (SocketObs F U)) (o : SocketObs F U) :
    sentBy lib e (obs ++ [o]) = sentBy lib e obs ++ o.sent lib e := by
  simp [sentBy]

theorem receivedBy_concat (e : Endpoint) (obs : List (SocketObs F U)) (o : SocketObs F U) :
    receivedBy e (obs ++ [o]) = receivedBy e obs ++ o.received e := by
  simp [receivedBy]

/-! ## `write` and `read` -/

/-- What `write` asks and returns. -/
theorem write_turn (sock : Int32) (args : List (Value F U)) (reply : OnSocket → SocketReply) :
    (∃ err, (socketMachine lib sock ⟨.write, args, reply⟩).2 = [] ∧
      SocketTurn.result lib ⟨.write, args, reply⟩ sock = .raised err) ∨
    ∃ msg, checkstring lib args 2 = .ok msg ∧
      (socketMachine lib sock ⟨.write, args, reply⟩).2 = [⟨sock, .write msg⟩] ∧
      SocketTurn.result lib ⟨.write, args, reply⟩ sock =
        if (reply ⟨sock, .write msg⟩).ret = -1 then
          againOrMessage lib (reply ⟨sock, .write msg⟩).errno
        else .returned [.integer (reply ⟨sock, .write msg⟩).ret] := by
  simp only [socketMachine, SocketTurn.result, SocketMethod.run, writeLua]
  rcases checkstring lib args 2 with err | msg
  · exact .inl ⟨err, rfl, rfl⟩
  · refine .inr ⟨msg, rfl, ?_⟩
    simp only [checked_ok, Dialogue.query_bind, storesNothing, Dialogue.ask_bind, Dialogue.walk]
    split
    · exact ⟨rfl, rfl⟩
    · exact ⟨rfl, rfl⟩

/-- What `read` asks and returns. -/
theorem read_turn (sock : Int32) (args : List (Value F U)) (reply : OnSocket → SocketReply) :
    (socketMachine lib sock ⟨.read, args, reply⟩).2 = [⟨sock, .read 4096⟩] ∧
    SocketTurn.result lib ⟨.read, args, reply⟩ sock =
      if (reply ⟨sock, .read 4096⟩).ret = -1 then
        againOrMessage lib (reply ⟨sock, .read 4096⟩).errno
      else if (reply ⟨sock, .read 4096⟩).ret = 0 then .returned [.nil]
      else .returned [.string (reply ⟨sock, .read 4096⟩).buf] := by
  simp only [socketMachine, SocketTurn.result, SocketMethod.run, readLua]
  simp only [Dialogue.query_bind, storesNothing, Dialogue.ask_bind, Dialogue.walk]
  split
  · exact ⟨rfl, rfl⟩
  · split
    · exact ⟨rfl, rfl⟩
    · exact ⟨rfl, rfl⟩

variable {lib} {s s' : SocketProcess}

/-- A reply to a call of a method, on the table of the process. -/
theorem reply_own (hcustody : Custody s) {e : Endpoint} {c : OnSocket} {r : SocketReply}
    {k k' : SocketKernel} (htable : k.table = s.kernel.table)
    (hfd : if s.Live e then s.kernel.table c.fd = some (.socket e) else c.fd = -1)
    (hcall : c.call ≠ .close) (h : Replies k c r k') :
    (r.ret = -1 ∧ k' = k ∧ (r.errno = EWOULDBLOCK → (k.ends e).Nonblocking)) ∨
      ∃ ends, Serves k.ends e c.call r ends ∧ k' = { k with ends := ends } := by
  rw [← htable] at hfd
  split at hfd
  · exact h.on_socket hfd hcall
  · have hfree : k.table c.fd = none := by rw [hfd, htable, hcustody.closed_free]
    obtain ⟨hk, hret⟩ := h.on_free hfree
    obtain ⟨hret, herrno⟩ := hret hcall
    exact .inl ⟨hret, hk, fun hagain => absurd hagain herrno⟩

/-- The reply to a method that makes one call. -/
theorem single_reply (hcustody : Custody s) {e : Endpoint} {t : SocketTurn F U}
    (hquiet : s.Quiet lib (.call e t)) (hstep : SocketStep lib s (.call e t) s') {c : OnSocket}
    (hcalls : (socketMachine lib (s.sock e) t).2 = [c]) (hcall : c.call ≠ .close) :
    ((t.reply c).ret = -1 ∧ s'.kernel = s.kernel ∧
      ((t.reply c).errno = EWOULDBLOCK → (s.kernel.ends e).Nonblocking)) ∨
      ∃ ends, Serves s.kernel.ends e c.call (t.reply c) ends ∧
        s'.kernel = { s.kernel with ends := ends } := by
  have hfd := call_own hcustody hquiet hstep c (by rw [hcalls]; exact List.mem_cons_self)
  cases hstep with
  | call hmade hkernel =>
      rw [hcalls] at hkernel
      exact reply_own hcustody rfl hfd hcall hkernel.of_single

/-! ## The bytes on their way -/

theorem sent_again (e e' : Endpoint) (args : List (Value F U)) (errno : Nat) :
    SocketObs.sent lib e (.called e' .write args (againOrMessage lib errno)) = [] := by
  rw [againOrMessage]
  split <;> rfl

theorem received_again (e e' : Endpoint) (args : List (Value F U)) (errno : Nat) :
    SocketObs.received e (.called e' .read args (againOrMessage lib errno)) = [] := by
  rw [againOrMessage]
  split <;> rfl

/-- The bytes on their way to an end, before and after something that was seen. -/
def Flows (lib : CLib F U) (s : SocketProcess) (o : SocketObs F U) (s' : SocketProcess)
    (e : Endpoint) : Prop :=
  o.received e ++ (s'.kernel.ends e).inbox = (s.kernel.ends e).inbox ++ o.sent lib e.peer

theorem write_flow (hcustody : Custody s) {e : Endpoint} {args : List (Value F U)}
    {reply : OnSocket → SocketReply} (hquiet : s.Quiet lib (.call e ⟨.write, args, reply⟩))
    (hstep : SocketStep lib s (.call e ⟨.write, args, reply⟩) s') (e' : Endpoint) :
    Flows lib s (s.observe lib (.call e ⟨.write, args, reply⟩)) s' e' := by
  rw [Flows, observe]
  rcases write_turn lib (s.sock e) args reply with ⟨err, hcalls, hres⟩ | ⟨msg, hmsg, hcalls, hres⟩
  · cases hstep with
    | call hmade hkernel =>
        rw [hcalls] at hkernel
        rw [hres, called, hkernel.of_nil]
        simp [SocketObs.received, SocketObs.sent]
  · rw [hres]
    rcases single_reply hcustody hquiet hstep hcalls (by simp) with
      ⟨hret, hsame, -⟩ | ⟨ends, hserves, hkernel⟩
    · rw [if_pos hret, sent_again, hsame]
      simp [SocketObs.received]
    · rw [hkernel]
      cases hserves with
      | writes n hlen hret harrives =>
          have hret : (reply ⟨s.sock e, .write msg⟩).ret = n := hret
          rw [if_neg (by omega), hret]
          simp only [SocketObs.received, SocketObs.sent, hmsg, Int.toNat_natCast, List.nil_append]
          by_cases he : e' = e.peer
          · subst he
            simp [Ends.deliver]
          · have hpeer : e ≠ e'.peer := by
              rintro rfl
              exact he (Endpoint.peer_peer e').symm
            simp [Ends.deliver, he, hpeer]

theorem read_flow (hcustody : Custody s) {e : Endpoint} {args : List (Value F U)}
    {reply : OnSocket → SocketReply} (hquiet : s.Quiet lib (.call e ⟨.read, args, reply⟩))
    (hstep : SocketStep lib s (.call e ⟨.read, args, reply⟩) s') (e' : Endpoint) :
    Flows lib s (s.observe lib (.call e ⟨.read, args, reply⟩)) s' e' := by
  obtain ⟨hcalls, hres⟩ := read_turn lib (s.sock e) args reply
  have hsent : ∀ res, SocketObs.sent lib e'.peer (.called e .read args res) = [] := fun _ => rfl
  rw [Flows, observe, hsent, List.append_nil, hres]
  rcases single_reply hcustody hquiet hstep hcalls (by simp) with
    ⟨hret, hsame, -⟩ | ⟨ends, hserves, hkernel⟩
  · rw [if_pos hret, received_again, hsame]
    rfl
  · rw [hkernel]
    cases hserves with
    | reads n hpos hsize hlen hret hbuf =>
        have hret : (reply ⟨s.sock e, .read 4096⟩).ret = n := hret
        have hbuf : (reply ⟨s.sock e, .read 4096⟩).buf = (s.kernel.ends e).inbox.take n := hbuf
        rw [if_neg (by omega), if_neg (by omega), hbuf, SocketObs.received]
        by_cases he : e' = e
        · simp [Ends.consume, he]
        · simp [Ends.consume, he, Ne.symm he]
    | readsEnd hret =>
        have hret : (reply ⟨s.sock e, .read 4096⟩).ret = 0 := hret
        rw [if_neg (by omega), if_pos hret]
        rfl

/-- The other methods move no bytes. -/
theorem other_flow {e : Endpoint} {t : SocketTurn F U} (hwrite : t.method ≠ .write)
    (hread : t.method ≠ .read) (hstep : SocketStep lib s (.call e t) s') (e' : Endpoint) :
    Flows lib s (s.observe lib (.call e t)) s' e' := by
  have hasks : ∀ c ∈ (socketMachine lib (s.sock e) t).2, t.method.Asks c.call :=
    (t.method.run_asks lib (s.sock e) t.args).walk t.reply
  have hinbox : (s'.kernel.ends e').inbox = (s.kernel.ends e').inbox := by
    cases hstep with
    | @call _ _ k hmade hkernel =>
        refine hkernel.induction (I := fun k => (k.ends e').inbox = (s.kernel.ends e').inbox)
          (P := fun c => t.method.Asks c.call) ?_ hasks rfl
        rintro k c r k' hc hk hreply
        rw [← hk]
        refine hreply.inbox ?_ ?_ e'
        · rintro msg hmsg
          rw [hmsg] at hc
          cases hm : t.method <;> simp_all [SocketMethod.Asks]
        · rintro size hsize
          rw [hsize] at hc
          cases hm : t.method <;> simp_all [SocketMethod.Asks]
  rw [Flows, observe, hinbox]
  obtain ⟨method, args, reply⟩ := t
  cases method with
  | write => exact absurd rfl hwrite
  | read => exact absurd rfl hread
  | _ => simp [SocketObs.received, SocketObs.sent]

/-- **What a call does to the bytes on their way.** -/
theorem call_flow (hcustody : Custody s) {e : Endpoint} {t : SocketTurn F U}
    (hquiet : s.Quiet lib (.call e t)) (hstep : SocketStep lib s (.call e t) s') (e' : Endpoint) :
    Flows lib s (s.observe lib (.call e t)) s' e' := by
  by_cases hwrite : t.method = .write
  · obtain ⟨method, args, reply⟩ := t
    obtain rfl := hwrite
    exact write_flow hcustody hquiet hstep e'
  by_cases hread : t.method = .read
  · obtain ⟨method, args, reply⟩ := t
    obtain rfl := hread
    exact read_flow hcustody hquiet hstep e'
  exact other_flow hwrite hread hstep e'

/-! ## The end of a stream -/

/-- An end at which nothing more arrives stays one. -/
theorem ended_step (hcustody : Custody s) {a : SocketAction F U} (hquiet : s.Quiet lib a)
    (hstep : SocketStep lib s a s') {e : Endpoint} (hmade : e.pair < s.kernel.made)
    (hended : s.kernel.ends.Ended e) : s'.kernel.ends.Ended e := by
  cases a with
  | new args answer =>
      rcases socket_new_cases hstep with hfails | ⟨fd0, fd1, hmakes⟩
      · rwa [hfails.same]
      · have hsame : s'.kernel.ends e = s.kernel.ends e := by
          rw [hmakes.ends, if_neg (Nat.ne_of_lt hmade)]
        have hpeer : s'.kernel.ends e.peer = s.kernel.ends e.peer := by
          rw [hmakes.ends, Endpoint.peer_pair, if_neg (Nat.ne_of_lt hmade)]
        rwa [Ends.Ended, hsame, hpeer]
  | call i t =>
      rcases socket_call_cases hcustody hquiet hstep with hcase | hcase | hcase
      · rwa [hcase.kernel]
      · rw [hcase.kernel]
        rcases hended with h | h | h | h
        · refine .inl ?_
          by_cases he : e = i
          · simp [SocketKernel.closeEnd, he]
          · simpa [SocketKernel.closeEnd, he] using h
        · refine .inr (.inl ?_)
          by_cases he : e = i
          · simpa [SocketKernel.closeEnd, he] using he ▸ h
          · simpa [SocketKernel.closeEnd, he] using h
        · refine .inr (.inr (.inl ?_))
          by_cases he : e.peer = i
          · simp [SocketKernel.closeEnd, he]
          · simpa [SocketKernel.closeEnd, he] using h
        · refine .inr (.inr (.inr ?_))
          by_cases he : e.peer = i
          · simpa [SocketKernel.closeEnd, he] using he ▸ h
          · simpa [SocketKernel.closeEnd, he] using h
      · obtain ⟨ends, hkernel, hkeeps⟩ := hcase.kernel
        rw [hkernel]
        exact hended.keeps hkeeps
  | openOther fd =>
      obtain ⟨⟩ := hstep
      exact hended
  | closeOther fd =>
      obtain ⟨⟩ := hstep
      exact hended

/-- Nothing is accepted for such an end. -/
theorem ended_sent (hcustody : Custody s) {a : SocketAction F U} (hquiet : s.Quiet lib a)
    (hstep : SocketStep lib s a s') {e : Endpoint} (hended : s.kernel.ends.Ended e) :
    (s.observe lib a).sent lib e.peer = [] := by
  cases a with
  | call i t =>
      obtain ⟨method, args, reply⟩ := t
      cases method with
      | write =>
          rw [observe]
          rcases write_turn lib (s.sock i) args reply with
            ⟨err, hcalls, hres⟩ | ⟨msg, hmsg, hcalls, hres⟩
          · rw [hres]
            rfl
          · rw [hres]
            rcases single_reply hcustody hquiet hstep hcalls (by simp) with
              ⟨hret, hsame, -⟩ | ⟨ends, hserves, hkernel⟩
            · rw [if_pos hret, sent_again]
            · cases hserves with
              | writes n hlen hret harrives =>
                  have hret : (reply ⟨s.sock i, .write msg⟩).ret = n := hret
                  rw [if_neg (by omega), hret]
                  simp only [SocketObs.sent, hmsg, Int.toNat_natCast]
                  by_cases hi : i = e.peer
                  · subst hi
                    rw [Endpoint.peer_peer] at harrives
                    have hn : n = 0 := by
                      by_contra hne
                      exact harrives hne hended
                    simp [hn]
                  · rw [if_neg hi]
      | _ => rfl
  | _ => rfl

/-- The step by which an end has nothing more to read. -/
theorem read_nil (hcustody : Custody s) {a : SocketAction F U} (hquiet : s.Quiet lib a)
    (hstep : SocketStep lib s a s') {e : Endpoint} {args : List (Value F U)}
    (hobs : s.observe lib a = .called e .read args (.returned [.nil])) :
    e.pair < s.kernel.made ∧ (s.kernel.ends e).inbox = [] ∧ s.kernel.ends.Ended e := by
  cases a with
  | call i t =>
      obtain ⟨method, args', reply⟩ := t
      obtain ⟨rfl, rfl, rfl, hres⟩ := SocketObs.called.inj hobs
      have hmade : i.pair < s.kernel.made := by
        cases hstep with
        | call hmade => exact hmade
      obtain ⟨hcalls, hresult⟩ := read_turn lib (s.sock i) args' reply
      rw [hresult] at hres
      refine ⟨hmade, ?_⟩
      rcases single_reply hcustody hquiet hstep hcalls (by simp) with
        ⟨hret, -, -⟩ | ⟨ends, hserves, -⟩
      · have hret : (reply ⟨s.sock i, .read 4096⟩).ret = -1 := hret
        rw [if_pos hret, againOrMessage] at hres
        split at hres
        · simp at hres
        · simp [nilMessage] at hres
      · cases hserves with
        | reads n hpos hsize hlen hret hbuf =>
            have hret : (reply ⟨s.sock i, .read 4096⟩).ret = n := hret
            rw [if_neg (by omega), if_neg (by omega)] at hres
            simp at hres
        | readsEnd hret hempty hended => exact ⟨hempty, hended⟩
  | _ => cases hobs

/-! ## Runs -/

/-- The ends of a pair stay those of the pair. -/
theorem made_step (hcustody : Custody s) {a : SocketAction F U} (hquiet : s.Quiet lib a)
    (hstep : SocketStep lib s a s') : s.kernel.made ≤ s'.kernel.made := by
  cases a with
  | new args answer =>
      rcases socket_new_cases hstep with hfails | ⟨fd0, fd1, hmakes⟩
      · rw [hfails.same]
      · rw [hmakes.made]
        exact Nat.le_succ _
  | call e t =>
      rcases socket_call_cases hcustody hquiet hstep with hcase | hcase | hcase
      · rw [hcase.kernel]
      · rw [hcase.kernel]
        rfl
      · obtain ⟨ends, hkernel, -⟩ := hcase.kernel
        rw [hkernel]
  | openOther fd =>
      obtain ⟨⟩ := hstep
      exact Nat.le_refl _
  | closeOther fd =>
      obtain ⟨⟩ := hstep
      exact Nat.le_refl _

/-- What a step does to the bytes on their way, between ends that exist. -/
theorem step_flow (hcustody : Custody s) {a : SocketAction F U} (hquiet : s.Quiet lib a)
    (hstep : SocketStep lib s a s') {e : Endpoint} (hmade : e.pair < s.kernel.made) :
    Flows lib s (s.observe lib a) s' e := by
  cases a with
  | new args answer =>
      rw [Flows]
      rcases socket_new_cases hstep with hfails | ⟨fd0, fd1, hmakes⟩
      · simp [hfails.same, observe, SocketObs.received, SocketObs.sent]
      · rw [hmakes.ends, if_neg (Nat.ne_of_lt hmade)]
        simp [observe, SocketObs.received, SocketObs.sent]
  | call i t => exact call_flow hcustody hquiet hstep e
  | openOther fd =>
      obtain ⟨⟩ := hstep
      simp [Flows, observe, SocketObs.received, SocketObs.sent]
  | closeOther fd =>
      obtain ⟨⟩ := hstep
      simp [Flows, observe, SocketObs.received, SocketObs.sent, SocketKernel.clear]

theorem called_ne {e e' : Endpoint} (hne : e' ≠ e) (method : SocketMethod)
    (args : List (Value F U)) (res : CResult F U) :
    SocketObs.sent lib e (.called e' method args res) = [] ∧
      SocketObs.received e (.called e' method args res) = [] := by
  constructor
  · rw [SocketObs.sent.eq_def]
    split
    · rename_i heq
      obtain ⟨rfl, -⟩ := SocketObs.called.inj heq
      rw [if_neg hne]
    · rfl
  · rw [SocketObs.received.eq_def]
    split
    · rename_i heq
      obtain ⟨rfl, -⟩ := SocketObs.called.inj heq
      rw [if_neg hne]
    · rfl

/-- Nothing is seen of an end that was not made. -/
theorem unmade_step {a : SocketAction F U} (hstep : SocketStep lib s a s') {e : Endpoint}
    (hmade : ¬e.pair < s.kernel.made) :
    (s.observe lib a).sent lib e = [] ∧ (s.observe lib a).received e = [] := by
  cases a with
  | call i t =>
      cases hstep with
      | call hi =>
          have hne : i ≠ e := by
            rintro rfl
            exact hmade hi
          exact called_ne hne t.method t.args _
  | _ => exact ⟨rfl, rfl⟩

theorem newEnd_inbox (nonblock : Bool) : (newEnd nonblock).inbox = [] := by
  cases nonblock <;> rfl

/-- What was read at an end, and what has arrived, is what was accepted at the other end; nothing
was seen of an end that was not made. -/
structure Balanced (lib : CLib F U) (s : SocketProcess) (obs : List (SocketObs F U)) : Prop where
  made : ∀ e, e.pair < s.kernel.made →
    receivedBy e obs ++ (s.kernel.ends e).inbox = sentBy lib e.peer obs
  unmade : ∀ e, ¬e.pair < s.kernel.made → sentBy lib e obs = [] ∧ receivedBy e obs = []

theorem balanced_step (hcustody : Custody s) {a : SocketAction F U} (hquiet : s.Quiet lib a)
    (hstep : SocketStep lib s a s') {obs : List (SocketObs F U)} (h : Balanced lib s obs) :
    Balanced lib s' (obs ++ [s.observe lib a]) := by
  have hmono := made_step hcustody hquiet hstep
  constructor
  · intro e hmade'
    rw [sentBy_concat, receivedBy_concat]
    by_cases hmade : e.pair < s.kernel.made
    · have hflow := step_flow hcustody hquiet hstep hmade
      rw [List.append_assoc, hflow, ← List.append_assoc, h.made e hmade]
    · -- a new end: nothing has arrived yet
      obtain ⟨-, hreceived⟩ := h.unmade e hmade
      obtain ⟨hsent, -⟩ := h.unmade e.peer hmade
      rw [(unmade_step hstep hmade).2, hreceived, hsent]
      have hpeer := (unmade_step hstep (e := e.peer) hmade).1
      rw [hpeer]
      simp only [List.nil_append]
      cases a with
      | new args answer =>
          rcases socket_new_cases hstep with hfails | ⟨fd0, fd1, hmakes⟩
          · rw [hfails.same] at hmade'
            exact absurd hmade' hmade
          · have hpair : e.pair = s.kernel.made := by
              rw [hmakes.made] at hmade'
              omega
            rw [hmakes.ends, if_pos hpair, newEnd_inbox]
      | call i t =>
          rcases socket_call_cases hcustody hquiet hstep with hcase | hcase | hcase
          · rw [hcase.kernel] at hmade'
            exact absurd hmade' hmade
          · rw [hcase.kernel] at hmade'
            exact absurd hmade' hmade
          · obtain ⟨ends, hkernel, -⟩ := hcase.kernel
            rw [hkernel] at hmade'
            exact absurd hmade' hmade
      | openOther fd =>
          obtain ⟨⟩ := hstep
          exact absurd hmade' hmade
      | closeOther fd =>
          obtain ⟨⟩ := hstep
          exact absurd hmade' hmade
  · intro e hmade'
    have hmade : ¬e.pair < s.kernel.made := fun hlt => hmade' (Nat.lt_of_lt_of_le hlt hmono)
    obtain ⟨hsent, hreceived⟩ := h.unmade e hmade
    obtain ⟨hsent', hreceived'⟩ := unmade_step hstep hmade
    rw [sentBy_concat, receivedBy_concat, hsent, hreceived, hsent', hreceived']
    exact ⟨rfl, rfl⟩

theorem balanced_run {s₀ : SocketProcess} {obs : List (SocketObs F U)} (hinit : s₀.Initial)
    (hrun : SocketRun lib s₀ obs s) : Balanced lib s obs := by
  have hcustody := Custody.of_initial hinit
  induction hrun with
  | nil =>
      refine ⟨fun e hmade => ?_, fun e _ => ⟨rfl, rfl⟩⟩
      rw [hinit.made] at hmade
      exact absurd hmade (Nat.not_lt_zero _)
  | step hrun hquiet hstep ih => exact balanced_step (custody_run hcustody hrun) hquiet hstep ih

/-- Once an end has nothing more to read, nothing is accepted for it or read from it. -/
theorem ended_run {s₀ : SocketProcess} {obs : List (SocketObs F U)} (hcustody : Custody s₀)
    (hrun : SocketRun lib s₀ obs s) {e : Endpoint} (hmade : e.pair < s₀.kernel.made)
    (hempty : (s₀.kernel.ends e).inbox = []) (hended : s₀.kernel.ends.Ended e) :
    sentBy lib e.peer obs = [] ∧ receivedBy e obs = [] := by
  suffices h : (e.pair < s.kernel.made ∧ (s.kernel.ends e).inbox = [] ∧ s.kernel.ends.Ended e) ∧
      sentBy lib e.peer obs = [] ∧ receivedBy e obs = [] from h.2
  induction hrun with
  | nil => exact ⟨⟨hmade, hempty, hended⟩, rfl, rfl⟩
  | step hrun hquiet hstep ih =>
      obtain ⟨⟨hmade, hempty, hended⟩, hsent, hreceived⟩ := ih
      have hcustody := custody_run hcustody hrun
      have hflow := step_flow hcustody hquiet hstep hmade
      rw [Flows, ended_sent hcustody hquiet hstep hended, hempty, List.append_nil,
        List.append_eq_nil_iff] at hflow
      have hmono := made_step hcustody hquiet hstep
      refine ⟨⟨Nat.lt_of_lt_of_le hmade hmono, hflow.2, ?_⟩, ?_, ?_⟩
      · exact ended_step hcustody hquiet hstep hmade hended
      · rw [sentBy_concat, hsent, ended_sent hcustody hquiet hstep hended]
        rfl
      · rw [receivedBy_concat, hreceived, hflow.1]
        rfl

/-- **Nothing is lost, duplicated or reordered**: what was read at an end, followed by what has
arrived there, is what was accepted at the other end.  **A `read` that returns `nil` has read
everything**: what was accepted before was read before, and nothing is accepted or read after. -/
theorem stream {s₀ : SocketProcess} {obs : List (SocketObs F U)} (hinit : s₀.Initial)
    (hrun : SocketRun lib s₀ obs s) (e : Endpoint) (hmade : e.pair < s.kernel.made) :
    receivedBy e obs ++ (s.kernel.ends e).inbox = sentBy lib e.peer obs ∧
    ∀ pre args post, obs = pre ++ .called e .read args (.returned [.nil]) :: post →
      receivedBy e pre = sentBy lib e.peer pre ∧
        sentBy lib e.peer post = [] ∧ receivedBy e post = [] := by
  refine ⟨(balanced_run hinit hrun).made e hmade, ?_⟩
  rintro pre args post rfl
  obtain ⟨s₁, a, s₂, hpre, hquiet, hstep, hobs, hpost⟩ := hrun.split
  have hcustody := custody_run (Custody.of_initial hinit) hpre
  obtain ⟨hmade₁, hempty, hended⟩ := read_nil hcustody hquiet hstep hobs.symm
  have hbalanced := (balanced_run hinit hpre).made e hmade₁
  rw [hempty, List.append_nil] at hbalanced
  refine ⟨hbalanced, ?_⟩
  have hflow := step_flow hcustody hquiet hstep hmade₁
  rw [Flows, ended_sent hcustody hquiet hstep hended, hempty, List.append_nil,
    List.append_eq_nil_iff] at hflow
  have hmono := made_step hcustody hquiet hstep
  exact ended_run (hcustody.step hquiet hstep) hpost (Nat.lt_of_lt_of_le hmade₁ hmono) hflow.2
    (ended_step hcustody hquiet hstep hmade₁ hended)

end Streams

/-- Two of three bytes are accepted, and the writer closes; the reader gets them, and then `nil`. -/
theorem stream_closed : ∃ (pre : List (SocketObs Unit Unit)) (s : SocketProcess),
    SocketRun plainC socketStart (pre ++ [.called ⟨0, true⟩ .read [] (.returned [.nil])]) s ∧
      receivedBy ⟨0, true⟩ pre = "ab".toList ∧
      receivedBy ⟨0, true⟩ pre = sentBy plainC ⟨0, false⟩ pre := by
  let write : SocketTurn Unit Unit :=
    ⟨.write, [.nil, .string "abc".toList], fun _ => ⟨2, 0, [], 0⟩⟩
  let close : SocketTurn Unit Unit := ⟨.close, [], fun _ => ⟨0, 0, [], 0⟩⟩
  let read : SocketTurn Unit Unit := ⟨.read, [], fun _ => ⟨2, 0, "ab".toList, 0⟩⟩
  let readNil : SocketTurn Unit Unit := ⟨.read, [], fun _ => ⟨0, 0, [], 0⟩⟩
  let s₁ := socketStart.receive (socketStart.kernel.addPair 3 4) (.objects fd4 fd3)
  let s₂ := s₁.called plainC ⟨0, false⟩ write
    { s₁.kernel with ends := s₁.kernel.ends.deliver ⟨0, true⟩ "ab".toList }
  let s₃ := s₂.called plainC ⟨0, false⟩ close (s₂.kernel.closeEnd 4 ⟨0, false⟩)
  let s₄ := s₃.called plainC ⟨0, true⟩ read
    { s₃.kernel with ends := s₃.kernel.ends.consume ⟨0, true⟩ 2 }
  let s₅ := s₄.called plainC ⟨0, true⟩ readNil s₄.kernel
  have hnew : SocketStep plainC socketStart (.new [] fun _ => ⟨.ok (fd3, fd4)⟩) s₁ :=
    .new (.single (.makes fd3 fd4 rfl rfl rfl (by decide)))
  have hwrite : SocketStep plainC s₁ (.call ⟨0, false⟩ write) s₂ :=
    .call (by decide) (.single (.serves rfl (.writes 2 (by decide) rfl fun _ => by decide)))
  have hclose : SocketStep plainC s₂ (.call ⟨0, false⟩ close) s₃ :=
    .call (by decide) (.single (.closes rfl))
  have hread : SocketStep plainC s₃ (.call ⟨0, true⟩ read) s₄ :=
    .call (by decide) (.single (.serves rfl (.reads 2 (by decide) (by decide) (by decide) rfl rfl)))
  have hnil : SocketStep plainC s₄ (.call ⟨0, true⟩ readNil) s₅ :=
    .call (by decide) (.single (.serves rfl (.readsEnd rfl (by decide) (by decide))))
  have hmade : SocketRun plainC socketStart _ s₁ :=
    .step (.nil _) (by exact trivial) hnew
  have hwritten : SocketRun plainC socketStart _ s₂ := hmade.step (by exact nofun) hwrite
  have hclosed : SocketRun plainC socketStart _ s₃ := hwritten.step (by exact nofun) hclose
  have hdrained : SocketRun plainC socketStart _ s₄ := hclosed.step (by exact nofun) hread
  have hrun : SocketRun plainC socketStart _ s₅ := hdrained.step (by exact nofun) hnil
  have hstream := stream socketStart_initial hrun ⟨0, true⟩ (by decide)
  exact ⟨_, s₅, hrun, rfl, (hstream.2 _ [] [] rfl).1⟩

end Testcase
