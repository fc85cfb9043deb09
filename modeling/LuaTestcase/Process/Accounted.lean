import LuaTestcase.Process.Ownership

/-!
# No child is left behind

The other side of the ownership of process objects: a child that was not reaped has an object that
can still wait for it or kill it.  A collection lets go of the object, and has to reap the child
first; between its system calls the collection itself is what accounts for the child.

It gives up when a system call fails, and it does not touch the pid 1.  These are the only ways to
lose a child (`Spoiled`).

* `accounted_step`, `accounted_after` — the invariant.
* `no_child_left` — **the children are the objects in use**.
-/

namespace Testcase

namespace ProcessTable

variable {t : ProcessTable} {pid pid' : Int} {k n : Nat}

/-! ## What stays in the table -/

theorem Holds.of_reap (h : (t.reap pid').Holds k pid) : t.Holds k pid ∧ pid ≠ pid' := by
  obtain ⟨q, hq, rfl, hfork⟩ := h
  obtain ⟨hmem, hne⟩ := List.mem_filter.mp hq
  exact ⟨⟨q, hmem, rfl, hfork⟩, by simpa using hne⟩

theorem Holds.of_vanish (h : (t.vanish pid').Holds k pid) : t.Holds k pid := by
  obtain ⟨q, hq, hpid, hfork⟩ := h
  exact ⟨q, (List.mem_filter.mp hq).1, hpid, hfork⟩

theorem Holds.of_change {state : RunState} (h : (t.change pid' state).Holds k pid) :
    t.Holds k pid := by
  obtain ⟨f, heq, hf⟩ := change_eq t pid' state
  obtain ⟨q', hq', hpid, hfork⟩ := h
  rw [heq] at hq'
  obtain ⟨q, hq, rfl⟩ := List.mem_map.mp hq'
  exact ⟨q, hq, (hf q).1.symm.trans hpid, (hf q).2.symm.trans hfork⟩

theorem Holds.of_append {fork : Option Nat} {state : RunState}
    (h : Holds (t ++ [⟨pid', fork, state⟩]) k pid) :
    t.Holds k pid ∨ (pid = pid' ∧ fork = some k) := by
  obtain ⟨q, hq, hpid, hfork⟩ := h
  rcases List.mem_append.mp hq with hq | hq
  · exact .inl ⟨q, hq, hpid, hfork⟩
  · rw [List.mem_singleton.mp hq] at hpid hfork
    exact .inr ⟨hpid.symm, hfork⟩

/-- A `waitpid` that asks for the end only: it fails, finds the child alive, or reaps it. -/
theorem reply_end {options : List WaitOption} {choice : KernelChoice} {r : SysReply}
    {t' : ProcessTable} (hd : t.Distinct) (hk : t.Holds k pid) (huntraced : .untraced ∉ options)
    (hcontinued : .continued ∉ options)
    (h : t.reply n (.waitpid pid options) choice = some (r, t')) :
    (∃ errno, choice = .fails errno) ∨ (r.ret = 0 ∧ .nohang ∈ options) ∨ t' = t.reap pid := by
  obtain ⟨⟨_, _, state⟩, hfind, rfl, rfl⟩ := hk.process? hd
  cases choice with
  | fails errno => exact .inl ⟨errno, rfl⟩
  | pid pid => cases h
  | news news =>
      right
      simp only [reply, waitpid, hfind] at h
      cases state with
      | zombie e coredump =>
          cases h
          exact .inr rfl
      | stopped sig =>
          dsimp only at h
          rw [if_neg fun hnews => huntraced hnews.1] at h
          split_ifs at h with hhang
          cases h
          exact .inl ⟨rfl, hhang⟩
      | running =>
          dsimp only at h
          rw [if_neg fun hnews => hcontinued hnews.1] at h
          split_ifs at h with hhang
          cases h
          exact .inl ⟨rfl, hhang⟩

/-- A signal for a child: it cannot be sent, or it is. -/
theorem reply_signal {sig : Nat} {choice : KernelChoice} {r : SysReply} {t' : ProcessTable}
    (hd : t.Distinct) (hk : t.Holds k pid) (h : t.reply n (.kill pid sig) choice = some (r, t')) :
    (∃ errno, choice = .fails errno) ∨ r.ret = 0 := by
  obtain ⟨q, hfind, -⟩ := hk.process? hd
  cases choice with
  | fails errno => exact .inl ⟨errno, rfl⟩
  | pid pid => cases h
  | news news =>
      simp only [reply, hfind] at h
      cases h
      exact .inr rfl

end ProcessTable

/-! ## The invariant -/

/-- The call in progress. -/
def Forker.busy (s : Forker) : Option ProcCaller := s.job.map ProcJob.caller

/-- A system call of the collection of the `k`-th object fails. -/
def Forker.Spoils (s : Forker) (turn : ForkerTurn) (k : Nat) : Prop :=
  s.busy = some (.gc k) ∧ ∃ errno, turn = .reply (.fails errno)

/-- The `k`-th object has the pid; if it was collected, then it is just being collected, or the
child is lost. -/
def Forker.Accounts (s : Forker) (lost : Nat → Prop) (k : Nat) (pid : Int) : Prop :=
  ∃ c, s.objects[k]? = some ⟨pid, c⟩ ∧ (c = true → s.busy = some (.gc k) ∨ lost k ∨ pid = 1)

/-- Every child is accounted for. -/
structure Accounted (lost : Nat → Prop) (s : Forker) : Prop where
  child : ∀ {k : Nat} {pid : Int}, s.table.Holds k pid → 0 < pid ∧ s.Accounts lost k pid

section Steps

variable {s s' : Forker} {lost lost' : Nat → Prop} {k : Nat} {p : Int}

theorem accounted_start (n : Nat) : Accounted lost (Forker.start n) where
  child := by
    rintro k pid ⟨q, hq, -⟩
    cases hq

/-- The objects stay, no child comes, and a collection that is over has reaped its child. -/
theorem Accounted.pass (h : Accounted lost s) (hlost : ∀ k, lost k → lost' k)
    (htable : ∀ {k pid}, s'.table.Holds k pid → s.table.Holds k pid)
    (hobjects : s'.objects = s.objects)
    (hbusy : ∀ {k pid}, s'.table.Holds k pid → s.objects[k]? = some ⟨pid, true⟩ →
      s.busy = some (.gc k) → s'.busy = some (.gc k) ∨ lost' k) : Accounted lost' s' := by
  refine ⟨fun {k pid} hk => ?_⟩
  obtain ⟨hpos, c, hobj, hcollected⟩ := h.child (htable hk)
  refine ⟨hpos, c, by rw [hobjects, hobj], fun hc => ?_⟩
  rcases hcollected hc with hgc | hl | h1
  · exact (hbusy hk (hc ▸ hobj) hgc).imp_right .inl
  · exact .inr (.inl (hlost k hl))
  · exact .inr (.inr h1)

/-- Nothing happens to the objects and the children while no collection ends. -/
theorem Accounted.quiet (h : Accounted lost s)
    (htable : ∀ {k pid}, s'.table.Holds k pid → s.table.Holds k pid)
    (hobjects : s'.objects = s.objects) (hbusy : ∀ k, s.busy = some (.gc k) → s'.busy = s.busy) :
    Accounted lost s' :=
  h.pass (fun _ hl => hl) htable hobjects fun _ _ hgc => .inl ((hbusy _ hgc).trans hgc)

/-! ### Calls -/

/-- A collection takes its object out of use, and is in progress, or has not touched the child. -/
theorem Accounted.collects (h : Accounted lost s) (hidle : s.busy = none)
    (hobj : s.objects[k]? = some ⟨p, false⟩) (htable : s'.table = s.table)
    (hobjects : s'.objects = s.objects.set k ⟨p, true⟩)
    (hbusy : 0 < p → s'.busy = some (.gc k) ∨ p = 1) : Accounted lost s' := by
  refine ⟨fun {k' pid} hk => ?_⟩
  rw [htable] at hk
  obtain ⟨hpos, c, hobj', hcollected⟩ := h.child hk
  refine ⟨hpos, ?_⟩
  rw [Forker.Accounts, hobjects]
  by_cases heq : k = k'
  · subst heq
    rw [hobj] at hobj'
    obtain ⟨rfl, rfl⟩ : p = pid ∧ false = c := by simpa using hobj'
    refine ⟨true, collected_self hobj _, fun _ => ?_⟩
    exact (hbusy hpos).imp_right .inr
  · refine ⟨c, by rw [List.getElem?_set_ne heq, hobj'], fun hc => ?_⟩
    rcases hcollected hc with hgc | hl
    · rw [hidle] at hgc
      cases hgc
    · exact .inr hl

theorem accounted_call (h : Accounted lost s) (hidle : s.job = none) (caller : ProcCaller) :
    Accounted lost (s.call caller).1 := by
  have hbusy : s.busy = none := by rw [Forker.busy, hidle]; rfl
  have hquiet : ∀ {s' : Forker}, s'.table = s.table → s'.objects = s.objects →
      Accounted lost s' := by
    intro s' htable hobjects
    refine h.quiet (fun hk => htable ▸ hk) hobjects fun k hgc => ?_
    rw [hbusy] at hgc
    cases hgc
  cases caller with
  | fork =>
      rw [Forker.call, settle_ask rfl rfl]
      exact hquiet rfl rfl
  | wait k =>
      rw [Forker.call]
      split
      · rename_i p hobj
        by_cases hp : 0 < p
        · rw [settle_ask rfl (waitLua_pos hp)]
          exact hquiet rfl rfl
        · obtain ⟨r, hdone, -⟩ := waitLua_nonpos (not_lt.mp hp)
          rw [settle_done rfl hdone]
          exact hquiet rfl rfl
      · exact h
  | gc k =>
      rw [Forker.call]
      split
      · rename_i p hobj
        by_cases h0 : p = 0
        · subst h0
          rw [settle_ask rfl gcLua_zero]
          exact h.collects hbusy hobj rfl rfl fun _ => .inl rfl
        · by_cases h1 : 1 < p
          · rw [settle_ask rfl (gcLua_child h1)]
            exact h.collects hbusy hobj rfl rfl fun _ => .inl rfl
          · rw [settle_done rfl (gcLua_other h0 h1)]
            exact h.collects hbusy hobj rfl rfl fun hp => .inr (by omega)
      · exact h

/-! ### Replies -/

theorem accounted_wait (howned : Owned s) (h : Accounted lost s)
    (hobj : s.objects[k]? = some ⟨p, false⟩) (hp : 0 < p)
    (hjob : s.job = some ⟨.wait k, waitLua p⟩) (choice : KernelChoice) :
    Accounted lost (forker s (.reply choice)).1 := by
  have hk := howned.holds hobj hp
  rcases forker_reply hjob (waitLua_pos hp) choice with ⟨-, hstep⟩ | ⟨r, t, hr, hstep⟩
  · rw [hstep]
    exact h
  · rw [hstep, settle_done rfl rfl]
    rcases ProcessTable.reply_waitpid howned.distinct hk hr with
      ⟨rfl, halive⟩ | ⟨rfl, hret, e, c, hw⟩
    · have halive : r.ret = -1 ∨ ∀ e c, r.wstatus ≠ .ended e c := by
        rcases halive with hret | ⟨-, hhang⟩ | hw
        · exact .inl hret
        · simp at hhang
        · exact .inr hw
      rw [(waited_alive halive).1]
      refine h.quiet id rfl fun k' hgc => ?_
      rw [Forker.busy, hjob] at hgc
      cases hgc
    · rw [waited_ended hp hret hw, store_wait hobj]
      refine ⟨fun {k' pid} hk' => ?_⟩
      obtain ⟨hk', hne⟩ := hk'.of_reap
      obtain ⟨hpos, c', hobj', hcollected⟩ := h.child hk'
      have hkk' : k ≠ k' := by
        rintro rfl
        rw [hobj] at hobj'
        exact hne (by simpa using (congrArg (Option.map ProcObject.p) hobj').symm)
      refine ⟨hpos, c', by rw [List.getElem?_set_ne hkk', hobj'], fun hc => ?_⟩
      rcases hcollected hc with hgc | hl
      · rw [Forker.busy, hjob] at hgc
        cases hgc
      · exact .inr hl

theorem accounted_fork (h : Accounted lost s) (hjob : s.job = some ⟨.fork, forkLua⟩)
    (choice : KernelChoice) : Accounted lost (forker s (.reply choice)).1 := by
  have hgc : ∀ k, s.busy ≠ some (.gc k) := by
    intro k hgc
    rw [Forker.busy, hjob] at hgc
    cases hgc
  rcases forker_reply hjob rfl choice with ⟨-, hstep⟩ | ⟨r, t, hr, hstep⟩
  · rw [hstep]
    exact h
  · rw [hstep, settle_done rfl rfl]
    rcases ProcessTable.reply_fork hr with ⟨rfl, hret⟩ | ⟨pid, hu, hret, rfl⟩
    · have hstored : (forked r).stored = none := by
        rw [forked, if_pos hret]
        split
        · rfl
        · rfl
      rw [hstored]
      exact h.quiet id rfl fun k hk => absurd hk (hgc k)
    · have hpid := (ProcessTable.unused_iff.mp hu).1
      have hstored : (forked r).stored = some pid := by
        rw [forked, if_neg (by omega), hret]
      rw [hstored]
      refine ⟨fun {k pid'} hk => ?_⟩
      rcases hk.of_append with hk | ⟨rfl, hfork⟩
      · obtain ⟨hpos, c, hobj, hcollected⟩ := h.child hk
        have hlt := (List.getElem?_eq_some_iff.mp hobj).1
        refine ⟨hpos, c, (List.getElem?_append_left hlt).trans hobj, fun hc => ?_⟩
        exact (hcollected hc).elim (fun hk => absurd hk (hgc k)) .inr
      · obtain rfl := Option.some.inj hfork
        exact ⟨hpid, false, List.getElem?_concat_length, by simp⟩

/-- A system call of a collection: it fails, the collection goes on, or the child is reaped. -/
theorem Accounted.collecting (h : Accounted lost s) (hjob : s.busy = some (.gc k))
    (hobj : s.objects[k]? = some ⟨p, true⟩) {choice : KernelChoice}
    (htable : s'.table = s.table ∨ s'.table = s.table.reap p) (hobjects : s'.objects = s.objects)
    (hdone : (∃ errno, choice = .fails errno) ∨ s'.busy = some (.gc k) ∨
      s'.table = s.table.reap p) :
    Accounted (fun k => lost k ∨ s.Spoils (.reply choice) k) s' := by
  refine h.pass (fun _ hl => .inl hl) ?_ hobjects ?_
  · intro k' pid hk'
    rcases htable with htable | htable
    · rwa [htable] at hk'
    · rw [htable] at hk'
      exact hk'.of_reap.1
  · intro k' pid hk' hobj' hgc
    obtain rfl : k = k' := by
      rw [hjob] at hgc
      cases hgc
      rfl
    rcases hdone with ⟨errno, rfl⟩ | hbusy | hreap
    · exact .inr (.inr ⟨hjob, errno, rfl⟩)
    · exact .inl hbusy
    · rw [hreap] at hk'
      rw [hobj] at hobj'
      exact absurd (by simpa using hobj'.symm) hk'.of_reap.2

theorem accounted_probe (howned : Owned s) (h : Accounted lost s)
    (hobj : s.objects[k]? = some ⟨p, true⟩) (hp : 1 < p) (hk : s.table.Holds k p)
    (hjob : s.job = some ⟨.gc k, gcLua p⟩) (choice : KernelChoice) :
    Accounted (fun k => lost k ∨ s.Spoils (.reply choice) k) (forker s (.reply choice)).1 := by
  have hbusy : s.busy = some (.gc k) := by rw [Forker.busy, hjob]; rfl
  rcases forker_reply hjob (gcLua_child hp) choice with ⟨-, hstep⟩ | ⟨r, t, hr, hstep⟩
  · rw [hstep]
    exact h.collecting hbusy hobj (.inl rfl) rfl (.inr (.inl hbusy))
  · rw [hstep]
    have ht := (ProcessTable.reply_waitpid howned.distinct hk hr).imp And.left And.left
    have hend := ProcessTable.reply_end howned.distinct hk (by simp) (by simp) hr
    by_cases hret : r.ret = 0
    · have hnext : gcProbed p r = .ask (.kill p SIGKILL) (gcKilled p) := by
        rw [gcProbed, if_pos hret]
        rfl
      rw [settle_ask rfl hnext]
      exact h.collecting hbusy hobj ht rfl (.inr (.inl rfl))
    · have hnext : gcProbed p r = gcDone := by rw [gcProbed, if_neg hret]
      rw [settle_done rfl hnext]
      refine h.collecting hbusy hobj ht rfl ?_
      rcases hend with hfails | ⟨h0, -⟩ | hreap
      · exact .inl hfails
      · exact absurd h0 hret
      · exact .inr (.inr hreap)

theorem accounted_kill (howned : Owned s) (h : Accounted lost s)
    (hobj : s.objects[k]? = some ⟨p, true⟩) (hk : s.table.Holds k p)
    (hjob : s.job = some ⟨.gc k, .ask (.kill p SIGKILL) (gcKilled p)⟩) (choice : KernelChoice) :
    Accounted (fun k => lost k ∨ s.Spoils (.reply choice) k) (forker s (.reply choice)).1 := by
  have hbusy : s.busy = some (.gc k) := by rw [Forker.busy, hjob]; rfl
  rcases forker_reply hjob rfl choice with ⟨-, hstep⟩ | ⟨r, t, hr, hstep⟩
  · rw [hstep]
    exact h.collecting hbusy hobj (.inl rfl) rfl (.inr (.inl hbusy))
  · obtain rfl := ProcessTable.reply_kill hr
    rw [hstep]
    by_cases hret : r.ret = 0
    · have hnext : gcKilled p r = .ask (.waitpid p []) fun _ => gcDone := by
        rw [gcKilled, if_pos hret]
        rfl
      rw [settle_ask rfl hnext]
      exact h.collecting hbusy hobj (.inl rfl) rfl (.inr (.inl rfl))
    · have hnext : gcKilled p r = gcDone := by rw [gcKilled, if_neg hret]
      rw [settle_done rfl hnext]
      have hsent := ProcessTable.reply_signal howned.distinct hk hr
      exact h.collecting hbusy hobj (.inl rfl) rfl (.inl (hsent.resolve_right hret))

theorem accounted_reap (howned : Owned s) (h : Accounted lost s)
    (hobj : s.objects[k]? = some ⟨p, true⟩) (hk : s.table.Holds k p)
    (hjob : s.job = some ⟨.gc k, .ask (.waitpid p []) fun _ => gcDone⟩) (choice : KernelChoice) :
    Accounted (fun k => lost k ∨ s.Spoils (.reply choice) k) (forker s (.reply choice)).1 := by
  have hbusy : s.busy = some (.gc k) := by rw [Forker.busy, hjob]; rfl
  rcases forker_reply hjob rfl choice with ⟨-, hstep⟩ | ⟨r, t, hr, hstep⟩
  · rw [hstep]
    exact h.collecting hbusy hobj (.inl rfl) rfl (.inr (.inl hbusy))
  · have ht := (ProcessTable.reply_waitpid howned.distinct hk hr).imp And.left And.left
    rw [hstep, settle_done rfl rfl]
    refine h.collecting hbusy hobj ht rfl ?_
    rcases ProcessTable.reply_end howned.distinct hk (by simp) (by simp) hr with
      hfails | ⟨-, hhang⟩ | hreap
    · exact .inl hfails
    · cases hhang
    · exact .inr (.inr hreap)

/-- **One step.** -/
theorem accounted_step (howned : Owned s) (h : Accounted lost s) (turn : ForkerTurn) :
    Accounted (fun k => lost k ∨ s.Spoils turn k) (forker s turn).1 := by
  have hmore : ∀ {s' : Forker}, Accounted lost s' →
      Accounted (fun k => lost k ∨ s.Spoils turn k) s' := fun h =>
    h.pass (fun _ hl => .inl hl) id rfl fun _ _ hgc => .inl hgc
  cases turn with
  | call caller =>
      rcases hjob : s.job with _ | j
      · have hstep : forker s (.call caller) = s.call caller := by simp only [forker, hjob]
        rw [hstep]
        exact hmore (accounted_call h hjob caller)
      · have hstep : forker s (.call caller) = (s, []) := by simp only [forker, hjob]
        rw [hstep]
        exact hmore h
  | reply choice =>
      rcases hjob : s.job with _ | j
      · have hstep : forker s (.reply choice) = (s, []) := by simp only [forker, hjob]
        rw [hstep]
        exact hmore h
      · cases howned.job j hjob with
        | fork => exact hmore (accounted_fork h hjob choice)
        | wait hobj hp => exact hmore (accounted_wait howned h hobj hp hjob choice)
        | exit hobj =>
            -- The process has ended: there is no reply.
            rcases forker_reply hjob gcLua_zero choice with ⟨-, hstep⟩ | ⟨r, t, hr, -⟩
            · rw [hstep]
              exact hmore h
            · cases choice <;> cases hr
        | probe hobj hp hk => exact accounted_probe howned h hobj hp hk hjob choice
        | kill hobj hp hk => exact accounted_kill howned h hobj hk hjob choice
        | reap hobj hp hk => exact accounted_reap howned h hobj hk hjob choice
  | change pid state => exact hmore (h.quiet (fun hk => hk.of_change) rfl fun _ _ => rfl)
  | appear pid =>
      rw [forker]
      split_ifs with hu
      · refine hmore (h.quiet (fun hk => ?_) rfl fun _ _ => rfl)
        rcases hk.of_append with hk | ⟨-, hfork⟩
        · exact hk
        · cases hfork
      · exact hmore h
  | vanish pid => exact hmore (h.quiet (fun hk => hk.of_vanish) rfl fun _ _ => rfl)

end Steps

/-! ## Runs -/

/-- A system call of the collection of the `k`-th object failed. -/
def Spoiled (n : Nat) (turns : List ForkerTurn) (k : Nat) : Prop :=
  ∃ before turn after, turns = before ++ turn :: after ∧
    (forker.after (Forker.start n) before).Spoils turn k

theorem spoiled_concat {n : Nat} {turns : List ForkerTurn} {turn : ForkerTurn} {k : Nat}
    (h : Spoiled n turns k ∨ (forker.after (Forker.start n) turns).Spoils turn k) :
    Spoiled n (turns ++ [turn]) k := by
  rcases h with ⟨before, turn', after, rfl, hspoils⟩ | hspoils
  · exact ⟨before, turn', after ++ [turn], by simp, hspoils⟩
  · exact ⟨turns, turn, [], rfl, hspoils⟩

theorem accounted_after (n : Nat) (turns : List ForkerTurn) :
    Accounted (Spoiled n turns) (forker.after (Forker.start n) turns) := by
  induction turns using List.reverseRecOn with
  | nil => exact accounted_start n
  | append_singleton turns turn ih =>
      have hstep := accounted_step (sighted_after n turns).1 ih turn
      rw [Machine.after_concat]
      exact hstep.pass (fun _ => spoiled_concat) id rfl fun _ _ hgc => .inl hgc

/-! ## The children are the objects in use -/

/-- What there is of the child of the `k`-th object. -/
structure ChildKept (s : Forker) (lost : Nat → Prop) (k : Nat) : Prop where
  /-- A child has an object, with its pid. -/
  owner : ∀ q ∈ s.table, q.fork = some k → ∃ o, s.objects[k]? = some o ∧ o.p = q.pid
  /-- There is at most one. -/
  one : ∀ q ∈ s.table, ∀ q' ∈ s.table, q.fork = some k → q'.fork = some k → q = q'
  /-- There is one if and only if the object is in use and its pid is positive, unless the object is
  just being collected, the child has the pid 1 or its collection failed. -/
  in_use : ∀ o, s.objects[k]? = some o → s.busy ≠ some (.gc k) → o.p ≠ 1 → ¬lost k →
    ((∃ q ∈ s.table, q.fork = some k) ↔ o.collected = false ∧ 0 < o.p)

/-- **No child is left behind.**  In every run the children that were not reaped are those of the
objects that are in use and have not reported the end. -/
theorem no_child_left (n : Nat) (turns : List ForkerTurn) (k : Nat) :
    ChildKept (forker.after (Forker.start n) turns) (Spoiled n turns) k := by
  have howned := (sighted_after n turns).1
  have haccounted := accounted_after n turns
  refine ⟨?_, ?_, ?_⟩
  · intro q hq hfork
    obtain ⟨-, c, hobj, -⟩ := haccounted.child ⟨q, hq, rfl, hfork⟩
    exact ⟨_, hobj, rfl⟩
  · intro q hq q' hq' hfork hfork'
    obtain ⟨-, c, hobj, -⟩ := haccounted.child ⟨q, hq, rfl, hfork⟩
    obtain ⟨-, c', hobj', -⟩ := haccounted.child ⟨q', hq', rfl, hfork'⟩
    have hpid : q.pid = q'.pid := by
      rw [hobj] at hobj'
      simpa using congrArg (Option.map ProcObject.p) hobj'
    exact howned.distinct.eq hq hq' hpid
  · rintro ⟨p, c⟩ ho hbusy h1 hlost
    constructor
    · rintro ⟨q, hq, hfork⟩
      obtain ⟨hpos, c', hobj, hcollected⟩ := haccounted.child ⟨q, hq, rfl, hfork⟩
      rw [ho] at hobj
      obtain ⟨rfl, rfl⟩ : p = q.pid ∧ c = c' := by simpa using hobj
      refine ⟨?_, hpos⟩
      cases c with
      | false => rfl
      | true =>
          rcases hcollected rfl with hgc | hl | hp
          · exact absurd hgc hbusy
          · exact absurd hl hlost
          · exact absurd hp h1
    · rintro ⟨rfl, hp⟩
      obtain ⟨q, hq, -, hfork⟩ := howned.holds ho hp
      exact ⟨q, hq, hfork⟩

end Testcase
