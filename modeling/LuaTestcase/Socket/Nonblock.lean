import LuaTestcase.Socket.Stream

/-!
# The non-blocking mode

`new` and `nonblock` set the mode of an end, `nonblock` returns what it was.  The status flags of an
end belong to the kernel and hold more than this bit, so `nonblock` reads and writes all of them.

* `mode_step` — what a step does to the mode.
* `nonblock_register` — **`nonblock` returns what was set last**, no other flag changes, and only an
  end that does not block reports that a call would block.
-/

namespace Testcase

open SocketProcess

theorem ofInt_toNat (x : UInt32) : UInt32.ofInt x.toNat = x := by
  have hlt := x.toNat_lt
  rw [UInt32.ofInt, Int.emod_eq_of_lt (by omega) (by omega), Int.toNat_natCast, UInt32.ofNat_toNat]

/-- The status flags of an end, by its mode. -/
def modeFlags (nonblock : Bool) : UInt32 := if nonblock then O_RDWR ||| O_NONBLOCK else O_RDWR

theorem modeFlags_nonblock (nonblock : Bool) :
    decide (modeFlags nonblock &&& O_NONBLOCK ≠ 0) = nonblock := by
  cases nonblock <;> decide

theorem newEnd_flags (nonblock : Bool) : (newEnd nonblock).flags = modeFlags nonblock := by
  cases nonblock <;> decide

/-- What `nonblock` sets, on top of the flags that it has read. -/
def enabledFlags (flags : UInt32) (enabled : Bool) : UInt32 :=
  if enabled then flags ||| O_NONBLOCK else flags &&& ~~~O_NONBLOCK

theorem setfl_enabled {x : EndState} {nonblock : Bool} (hflags : x.flags = modeFlags nonblock)
    (enabled : Bool) : (x.setfl (enabledFlags (modeFlags nonblock) enabled)).flags =
      modeFlags enabled := by
  have hbits : (modeFlags nonblock &&& ~~~SETFL_MASK) |||
      (enabledFlags (modeFlags nonblock) enabled &&& SETFL_MASK) = modeFlags enabled := by
    cases nonblock <;> cases enabled <;> decide
  rw [← hbits, ← hflags]
  rfl

section Nonblock

variable {F U : Type} (lib : CLib F U)

/-- The mode of an end, after something that was seen. -/
def SocketObs.mode (e : Endpoint) (nonblock : Bool) : SocketObs F U → Bool
  | .made pair args (.objects _ _) => if e.pair = pair then wantsNonblock args else nonblock
  | .called e' .nonblock args (.returned [.boolean _]) =>
      if e' = e then
        match checkEnabled args with
        | .ok (some enabled) => enabled
        | _ => nonblock
      else nonblock
  | _ => nonblock

def modeAfter (e : Endpoint) (obs : List (SocketObs F U)) : Bool :=
  obs.foldl (SocketObs.mode e) false

/-- What `nonblock` asks and returns. -/
theorem nonblock_turn (sock : Int32) (args : List (Value F U)) (reply : OnSocket → SocketReply) :
    let r := reply ⟨sock, .getfl⟩
    let calls := (socketMachine lib sock ⟨.nonblock, args, reply⟩).2
    let result := SocketTurn.result lib ⟨.nonblock, args, reply⟩ sock
    (∃ err, calls = [] ∧ result = .raised err) ∨
    (r.ret = -1 ∧ calls = [⟨sock, .getfl⟩] ∧ result = nilMessage lib r.errno) ∨
    (r.ret ≠ -1 ∧ checkEnabled args = .ok none ∧ calls = [⟨sock, .getfl⟩] ∧
      result = .returned [.boolean (UInt32.ofInt r.ret &&& O_NONBLOCK ≠ 0)]) ∨
    (r.ret ≠ -1 ∧ ∃ enabled, checkEnabled args = .ok (some enabled) ∧
      calls = [⟨sock, .getfl⟩, ⟨sock, .setfl (enabledFlags (UInt32.ofInt r.ret) enabled)⟩] ∧
      result =
        if (reply ⟨sock, .setfl (enabledFlags (UInt32.ofInt r.ret) enabled)⟩).ret = -1 then
          nilMessage lib (reply ⟨sock, .setfl (enabledFlags (UInt32.ofInt r.ret) enabled)⟩).errno
        else .returned [.boolean (UInt32.ofInt r.ret &&& O_NONBLOCK ≠ 0)]) := by
  intro r calls result
  simp only [r, calls, result, socketMachine, SocketTurn.result, SocketMethod.run, nonblockLua]
  rcases checkEnabled args with err | enabled
  · exact .inl ⟨err, rfl, rfl⟩
  right
  simp only [checked_ok, Dialogue.query_bind, storesNothing, Dialogue.ask_bind, Dialogue.walk]
  by_cases hret : (reply ⟨sock, .getfl⟩).ret = -1
  · rw [if_pos hret]
    exact .inl ⟨hret, rfl, rfl⟩
  right
  rw [if_neg hret]
  cases enabled with
  | none => exact .inl ⟨hret, rfl, rfl, rfl⟩
  | some enabled =>
      refine .inr ⟨hret, enabled, rfl, ?_⟩
      simp only [Dialogue.ask_bind, Dialogue.walk, ← enabledFlags.eq_def]
      split
      · exact ⟨rfl, rfl⟩
      · exact ⟨rfl, rfl⟩

variable {lib} {s s' : SocketProcess}

/-- The modes of the ends that were made. -/
def Modes (s : SocketProcess) (mode : Endpoint → Bool) : Prop :=
  ∀ e, e.pair < s.kernel.made → (s.kernel.ends e).flags = modeFlags (mode e)

/-- `nonblock` on an end returns the mode and sets it. -/
theorem nonblock_step (hcustody : Custody s) {e : Endpoint} {args : List (Value F U)}
    {reply : OnSocket → SocketReply} (hquiet : s.Quiet lib (.call e ⟨.nonblock, args, reply⟩))
    (hstep : SocketStep lib s (.call e ⟨.nonblock, args, reply⟩) s') {mode : Endpoint → Bool}
    (hmodes : Modes s mode) :
    (∀ e', e'.pair < s.kernel.made → (s'.kernel.ends e').flags = modeFlags
      ((s.observe lib (.call e ⟨.nonblock, args, reply⟩)).mode e' (mode e'))) ∧
    ∀ b, SocketTurn.result lib ⟨.nonblock, args, reply⟩ (s.sock e) = .returned [.boolean b] →
      b = mode e := by
  have hown := call_own hcustody hquiet hstep
  cases hstep with
  | @call _ _ k hmade hkernel =>
  simp only [observe, called]
  have hflags := hmodes e hmade
  -- the flags that a served `F_GETFL` gives
  have hread : ∀ {ends : Ends} {r : SocketReply}, Serves s.kernel.ends e .getfl r ends →
      ends = s.kernel.ends ∧ r.ret ≠ -1 ∧ UInt32.ofInt r.ret = modeFlags (mode e) := by
    intro ends r hserves
    cases hserves with
    | getfl hret =>
        refine ⟨rfl, by omega, ?_⟩
        rw [hret, ← hflags]
        exact ofInt_toNat _
  have hresult : ∀ {r : SocketReply}, UInt32.ofInt r.ret = modeFlags (mode e) →
      ∀ b, (.returned [.boolean (UInt32.ofInt r.ret &&& O_NONBLOCK ≠ 0)] : CResult F U) =
        .returned [.boolean b] → b = mode e := by
    intro r hr b hb
    rw [hr, modeFlags_nonblock] at hb
    exact (Value.boolean.inj (List.singleton_inj.mp (CResult.returned.inj hb))).symm
  rcases nonblock_turn lib (s.sock e) args reply with
    ⟨err, hcalls, hres⟩ | ⟨hret, hcalls, hres⟩ | ⟨hret, henabled, hcalls, hres⟩ |
    ⟨hret, enabled, henabled, hcalls, hres⟩
  · rw [hcalls] at hkernel
    rw [hres, hkernel.of_nil]
    exact ⟨hmodes, by simp⟩
  · rw [hcalls] at hkernel hown
    rw [hres]
    have hfd := hown ⟨s.sock e, .getfl⟩ (by simp)
    rcases reply_own hcustody rfl hfd (by simp) hkernel.of_single with
      ⟨-, hk, -⟩ | ⟨ends, hserves, -⟩
    · rw [hk]
      exact ⟨hmodes, by simp [nilMessage]⟩
    · exact absurd hret (hread hserves).2.1
  · rw [hcalls] at hkernel hown
    rw [hres]
    have hfd := hown ⟨s.sock e, .getfl⟩ (by simp)
    rcases reply_own hcustody rfl hfd (by simp) hkernel.of_single with
      ⟨hfail, -, -⟩ | ⟨ends, hserves, hk⟩
    · exact absurd hfail hret
    · obtain ⟨rfl, -, hr⟩ := hread hserves
      refine ⟨fun e' hmade' => ?_, hresult hr⟩
      rw [hk, SocketObs.mode, henabled]
      simpa using hmodes e' hmade'
  · rw [hcalls] at hkernel hown
    rw [hres]
    have hfd := hown ⟨s.sock e, .getfl⟩ (by simp)
    obtain ⟨⟩ | ⟨hget, hrest⟩ := hkernel
    rcases reply_own hcustody rfl hfd (by simp) hget with ⟨hfail, -, -⟩ | ⟨ends, hserves, hk⟩
    · exact absurd hfail hret
    obtain ⟨rfl, -, hr⟩ := hread hserves
    have hfd' := hown ⟨s.sock e, .setfl _⟩ (List.mem_cons_of_mem _ List.mem_cons_self)
    rw [hk] at hrest
    rcases reply_own hcustody rfl hfd' (by simp) hrest.of_single with
      ⟨hfail, hk', -⟩ | ⟨ends', hserves', hk'⟩
    · rw [if_pos hfail, hk']
      exact ⟨hmodes, by simp [nilMessage]⟩
    · cases hserves' with
      | setfl hret' =>
          have hne : (reply ⟨s.sock e, .setfl
              (enabledFlags (UInt32.ofInt (reply ⟨s.sock e, .getfl⟩).ret) enabled)⟩).ret ≠ -1 := by
            rw [hret']
            decide
          rw [if_neg hne]
          refine ⟨fun e' hmade' => ?_, hresult hr⟩
          rw [hk', SocketObs.mode, henabled]
          by_cases he : e' = e
          · subst he
            simp only [Function.update_self, if_true]
            rw [hr]
            exact setfl_enabled hflags enabled
          · simpa [he, Ne.symm he] using hmodes e' hmade'

/-- The other methods leave the flags. -/
theorem other_flags {e : Endpoint} {t : SocketTurn F U} (hother : t.method ≠ .nonblock)
    (hstep : SocketStep lib s (.call e t) s') (e' : Endpoint) :
    (s'.kernel.ends e').flags = (s.kernel.ends e').flags := by
  have hasks : ∀ c ∈ (socketMachine lib (s.sock e) t).2, t.method.Asks c.call :=
    (t.method.run_asks lib (s.sock e) t.args).walk t.reply
  cases hstep with
  | call hmade hkernel =>
      refine hkernel.induction (I := fun k => (k.ends e').flags = (s.kernel.ends e').flags)
        (P := fun c => t.method.Asks c.call) ?_ hasks rfl
      rintro k c r k' hc hk hreply
      rw [← hk]
      refine hreply.flags (fun flags hflags => ?_) e'
      rw [hflags] at hc
      cases hm : t.method <;> simp_all [SocketMethod.Asks]

theorem mode_other (e e' : Endpoint) (nonblock : Bool) {method : SocketMethod}
    (hother : method ≠ .nonblock) (args : List (Value F U)) (res : CResult F U) :
    SocketObs.mode e nonblock (.called e' method args res) = nonblock := by
  rw [SocketObs.mode.eq_def]
  split
  · rename_i heq
    cases heq
  · rename_i heq
    exact absurd (SocketObs.called.inj heq).2.1 hother
  · rfl

/-- **What a step does to the modes**: the flags of an end are those of its mode. -/
theorem mode_step (hcustody : Custody s) {a : SocketAction F U} (hquiet : s.Quiet lib a)
    (hstep : SocketStep lib s a s') {mode : Endpoint → Bool} (hmodes : Modes s mode) :
    Modes s' fun e => (s.observe lib a).mode e (mode e) := by
  intro e hmade'
  beta_reduce
  cases a with
  | new args answer =>
      rcases socket_new_cases hstep with hfails | ⟨fd0, fd1, hmakes⟩
      · rw [hfails.same] at hmade' ⊢
        have hmode : (s.observe lib (.new args answer)).mode e (mode e) = mode e := by
          rw [observe, SocketObs.mode.eq_def]
          split
          · rename_i heq
            exact absurd (SocketObs.made.inj heq).2.2 (hfails.result_ne _ _)
          · rename_i heq
            cases heq
          · rfl
        rw [hmode]
        exact hmodes e hmade'
      · rw [hmakes.ends, observe, hmakes.result_eq, SocketObs.mode]
        split
        · exact newEnd_flags _
        · rename_i hne
          rw [hmakes.made] at hmade'
          exact hmodes e (by omega)
  | call i t =>
      have hmade : e.pair < s.kernel.made := by
        rcases socket_call_cases hcustody hquiet hstep with hcase | hcase | hcase
        · rwa [hcase.kernel] at hmade'
        · rwa [hcase.kernel] at hmade'
        · obtain ⟨ends, hkernel, -⟩ := hcase.kernel
          rwa [hkernel] at hmade'
      by_cases hm : t.method = .nonblock
      · obtain ⟨method, args, reply⟩ := t
        obtain rfl := hm
        exact (nonblock_step hcustody hquiet hstep hmodes).1 e hmade
      · rw [other_flags hm hstep, observe, mode_other e i _ hm]
        exact hmodes e hmade
  | openOther fd =>
      obtain ⟨⟩ := hstep
      exact hmodes e hmade'
  | closeOther fd =>
      obtain ⟨⟩ := hstep
      exact hmodes e hmade'

theorem mode_run {s₀ : SocketProcess} {obs : List (SocketObs F U)} (hinit : s₀.Initial)
    (hrun : SocketRun lib s₀ obs s) : Modes s fun e => modeAfter e obs := by
  have hcustody := Custody.of_initial hinit
  induction hrun with
  | nil =>
      intro e hmade
      rw [hinit.made] at hmade
      exact absurd hmade (Nat.not_lt_zero _)
  | step hrun hquiet hstep ih =>
      simp only [modeAfter, List.foldl_concat]
      exact mode_step (custody_run hcustody hrun) hquiet hstep ih

/-- Only an end that does not block reports that a call would block. -/
theorem again_step (hcustody : Custody s) {e : Endpoint} {t : SocketTurn F U}
    (hquiet : s.Quiet lib (.call e t)) (hstep : SocketStep lib s (.call e t) s')
    (hmethod : t.method = .write ∨ t.method = .read)
    (hres : t.result lib (s.sock e) = .returned [.nil, .nil, .boolean true]) :
    (s.kernel.ends e).Nonblocking := by
  have hagain : ∀ errno, (againOrMessage lib errno : CResult F U) =
      .returned [.nil, .nil, .boolean true] → errno = EWOULDBLOCK := by
    intro errno h
    rw [againOrMessage] at h
    split at h
    · assumption
    · simp [nilMessage] at h
  obtain ⟨method, args, reply⟩ := t
  rcases hmethod with hm | hm
  · obtain rfl : method = .write := hm
    rcases write_turn lib (s.sock e) args reply with
      ⟨err, hcalls, hresult⟩ | ⟨msg, hmsg, hcalls, hresult⟩
    · rw [hresult] at hres
      cases hres
    · rw [hresult] at hres
      rcases single_reply hcustody hquiet hstep hcalls (by simp) with
        ⟨hret, -, hnonblocking⟩ | ⟨ends, hserves, -⟩
      · rw [if_pos hret] at hres
        exact hnonblocking (hagain _ hres)
      · split at hres
        · rename_i hret
          cases hserves with
          | writes n hlen hret' =>
              have hret' : (reply ⟨s.sock e, .write msg⟩).ret = n := hret'
              omega
        · simp at hres
  · obtain rfl : method = .read := hm
    obtain ⟨hcalls, hresult⟩ := read_turn lib (s.sock e) args reply
    rw [hresult] at hres
    rcases single_reply hcustody hquiet hstep hcalls (by simp) with
      ⟨hret, -, hnonblocking⟩ | ⟨ends, hserves, -⟩
    · rw [if_pos hret] at hres
      exact hnonblocking (hagain _ hres)
    · have hret : (reply ⟨s.sock e, .read 4096⟩).ret ≠ -1 := by
        cases hserves with
        | reads n hpos hsize hlen hret =>
            have hret : (reply ⟨s.sock e, .read 4096⟩).ret = n := hret
            omega
        | readsEnd hret =>
            have hret : (reply ⟨s.sock e, .read 4096⟩).ret = 0 := hret
            omega
      rw [if_neg hret] at hres
      split at hres
      · simp at hres
      · simp at hres

/-- **`nonblock` is a register of its own end**: what it returns was set last, by `nonblock` or by
`new`, and the end has no status flag beside it.  **Only an end that does not block** reports that a
`write` or a `read` would block. -/
theorem nonblock_register {s₀ : SocketProcess} {obs : List (SocketObs F U)} (hinit : s₀.Initial)
    (hrun : SocketRun lib s₀ obs s) :
    (∀ e, e.pair < s.kernel.made → (s.kernel.ends e).flags =
      if modeAfter e obs then O_RDWR ||| O_NONBLOCK else O_RDWR) ∧
    (∀ pre e args b post, obs = pre ++ .called e .nonblock args (.returned [.boolean b]) :: post →
      b = modeAfter e pre) ∧
    ∀ pre e method args post,
      obs = pre ++ .called e method args (.returned [.nil, .nil, .boolean true]) :: post →
      method = .write ∨ method = .read → modeAfter e pre = true := by
  refine ⟨mode_run hinit hrun, ?_, ?_⟩
  · rintro pre e args b post rfl
    obtain ⟨s₁, a, s₂, hpre, hquiet, hstep, hobs, -⟩ := hrun.split
    have hcustody := custody_run (Custody.of_initial hinit) hpre
    cases a with
    | call i t =>
        obtain ⟨method, args', reply⟩ := t
        obtain ⟨rfl, rfl, rfl, hres⟩ := SocketObs.called.inj hobs
        exact (nonblock_step hcustody hquiet hstep (mode_run hinit hpre)).2 b hres.symm
    | _ => cases hobs
  · rintro pre e method args post rfl hmethod
    obtain ⟨s₁, a, s₂, hpre, hquiet, hstep, hobs, -⟩ := hrun.split
    have hcustody := custody_run (Custody.of_initial hinit) hpre
    cases a with
    | call i t =>
        obtain ⟨rfl, rfl, rfl, hres⟩ := SocketObs.called.inj hobs
        have hnonblocking := again_step hcustody hquiet hstep hmethod hres.symm
        have hmade : e.pair < s₁.kernel.made := by
          cases hstep with
          | call hmade => exact hmade
        rw [EndState.Nonblocking, mode_run hinit hpre e hmade] at hnonblocking
        rw [← modeFlags_nonblock (modeAfter e pre), decide_eq_true hnonblocking]
    | _ => cases hobs

end Nonblock

/-- A pair that does not block is made, and one of its ends is made to block. -/
theorem nonblock_register_unset : ∃ (obs : List (SocketObs Unit Unit)) (s : SocketProcess),
    SocketRun plainC socketStart obs s ∧ (s.kernel.ends ⟨0, false⟩).flags = O_RDWR ∧
      (s.kernel.ends ⟨0, true⟩).flags = O_RDWR ||| O_NONBLOCK := by
  let answer : OnSocket → SocketReply := fun c =>
    if c.call = .getfl then ⟨2050, 0, [], 0⟩ else ⟨0, 0, [], 0⟩
  let unset : SocketTurn Unit Unit := ⟨.nonblock, [.nil, .boolean false], answer⟩
  let k₀ := socketStart.kernel.addPair 3 4
  let k₁ := { k₀ with
    ends := Function.update k₀.ends ⟨0, true⟩ ((k₀.ends ⟨0, true⟩).setfl O_NONBLOCK) }
  let k₂ := { k₁ with
    ends := Function.update k₁.ends ⟨0, false⟩ ((k₁.ends ⟨0, false⟩).setfl O_NONBLOCK) }
  let s₁ := socketStart.receive k₂ (.objects fd4 fd3)
  let s₂ := s₁.called plainC ⟨0, false⟩ unset
    { k₂ with
      ends := Function.update k₂.ends ⟨0, false⟩
        ((k₂.ends ⟨0, false⟩).setfl (enabledFlags (UInt32.ofInt 2050) false)) }
  have hnew : SocketStep plainC socketStart (.new [.boolean true] fun _ => ⟨.ok (fd3, fd4)⟩) s₁ :=
    .new (.cons (.makes fd3 fd4 rfl rfl rfl (by decide))
      (.cons (.setfl rfl) (.single (.setfl rfl))))
  have hunset : SocketStep plainC s₁ (.call ⟨0, false⟩ unset) s₂ :=
    .call (by decide)
      (.cons (.serves rfl (.getfl (by decide))) (.single (.serves rfl (.setfl rfl))))
  have hmade : SocketRun plainC socketStart _ s₁ := .step (.nil _) (by exact trivial) hnew
  have hrun : SocketRun plainC socketStart _ s₂ := hmade.step (by exact nofun) hunset
  obtain ⟨hflags, -⟩ := nonblock_register socketStart_initial hrun
  exact ⟨_, s₂, hrun, hflags ⟨0, false⟩ (by decide), hflags ⟨0, true⟩ (by decide)⟩

end Testcase
