import Mathlib.Data.List.Induction
import Mathlib.Data.List.Nodup
import LuaTestcase.Process.Kernel

/-!
# Process objects never touch a foreign process

A pid is a number that the kernel hands out again, so a positive pid in an object is right only as
long as the child of that object's own fork was not reaped.  The invariant `Owned` says that it
was not, for every object that can still be waited for, and also for the one that is just being
collected: between the three system calls of `gc_lua` nobody else reaps the child.

A step does one of three things to the pids of the objects (`Progress`): nothing; a wait that
reports the end of the child makes one negative; a fork adds one.
-/

namespace Testcase

namespace ProcessTable

variable {t : ProcessTable} {q q' : KernelProcess} {pid pid' : Int} {k k' : Nat}

/-! ## Pids and forks -/

def Distinct (t : ProcessTable) : Prop := (t.map KernelProcess.pid).Nodup

/-- The pid is the one of the child of the fork that returned the `k`-th object. -/
def Holds (t : ProcessTable) (k : Nat) (pid : Int) : Prop := ∃ q ∈ t, q.pid = pid ∧ q.fork = some k

theorem Distinct.eq (h : t.Distinct) (hq : q ∈ t) (hq' : q' ∈ t) (hpid : q.pid = q'.pid) :
    q = q' := List.inj_on_of_nodup_map h hq hq' hpid

theorem Distinct.process? (h : t.Distinct) (hq : q ∈ t) : t.process? q.pid = some q := by
  rcases hf : t.find? (·.pid == q.pid) with _ | q'
  · have := List.find?_eq_none.mp hf q hq
    simp at this
  · have hpid : q'.pid = q.pid := by simpa using List.find?_some hf
    rw [← h.eq (List.mem_of_find?_eq_some hf) hq hpid]
    rw [← hpid] at hf
    exact hf

theorem Holds.process? (h : t.Distinct) (hk : t.Holds k pid) :
    ∃ q, t.process? pid = some q ∧ q.pid = pid ∧ q.fork = some k := by
  obtain ⟨q, hq, rfl, hfork⟩ := hk
  exact ⟨q, h.process? hq, rfl, hfork⟩

/-- A pid belongs to one child. -/
theorem Holds.unique (h : t.Distinct) (hk : t.Holds k pid) (hk' : t.Holds k' pid) : k = k' := by
  obtain ⟨q, hq, hpid, hfork⟩ := hk
  obtain ⟨q', hq', hpid', hfork'⟩ := hk'
  obtain rfl := h.eq hq hq' (hpid.trans hpid'.symm)
  exact Option.some.inj (hfork.symm.trans hfork')

theorem Distinct.reap (h : t.Distinct) : (t.reap pid).Distinct :=
  h.sublist (List.filter_sublist.map _)

/-- Reaping a child leaves the other ones. -/
theorem Holds.reap (h : t.Distinct) (hk : t.Holds k pid) (hk' : t.Holds k' pid') (hne : k ≠ k') :
    (t.reap pid).Holds k' pid' := by
  have hpid : pid' ≠ pid := by
    rintro rfl
    exact hne (hk.unique h hk')
  obtain ⟨q, hq, rfl, hfork⟩ := hk'
  exact ⟨q, List.mem_filter.mpr ⟨hq, by simpa using hpid⟩, rfl, hfork⟩

theorem Distinct.vanish (h : t.Distinct) : (t.vanish pid).Distinct :=
  h.sublist (List.filter_sublist.map _)

theorem Holds.vanish (hk : t.Holds k pid) : (t.vanish pid').Holds k pid := by
  obtain ⟨q, hq, hpid, hfork⟩ := hk
  exact ⟨q, List.mem_filter.mpr ⟨hq, by simp [hfork]⟩, hpid, hfork⟩

/-- What `change` does with a process. -/
theorem change_eq (t : ProcessTable) (pid : Int) (state : RunState) :
    ∃ f : KernelProcess → KernelProcess, t.change pid state = t.map f ∧
      ∀ q, (f q).pid = q.pid ∧ (f q).fork = q.fork := by
  refine ⟨_, rfl, ?_⟩
  intro q
  split
  · exact ⟨rfl, rfl⟩
  · split
    · exact ⟨rfl, rfl⟩
    · exact ⟨rfl, rfl⟩

theorem Distinct.change {state : RunState} (h : t.Distinct) : (t.change pid state).Distinct := by
  obtain ⟨f, heq, hf⟩ := change_eq t pid state
  have hmap : KernelProcess.pid ∘ f = KernelProcess.pid := funext fun q => (hf q).1
  rw [Distinct, heq, List.map_map, hmap]
  exact h

theorem Holds.change {state : RunState} (hk : t.Holds k pid) :
    (t.change pid' state).Holds k pid := by
  obtain ⟨f, heq, hf⟩ := change_eq t pid' state
  obtain ⟨q, hq, hpid, hfork⟩ := hk
  rw [heq]
  exact ⟨f q, List.mem_map_of_mem hq, (hf q).1.trans hpid, (hf q).2.trans hfork⟩

theorem unused_iff : t.unused pid = true ↔ 0 < pid ∧ ∀ q ∈ t, q.pid ≠ pid := by
  simp [unused]

theorem Distinct.append {fork : Option Nat} {state : RunState} (h : t.Distinct)
    (hu : t.unused pid = true) : Distinct (t ++ [⟨pid, fork, state⟩]) := by
  have hnew := (unused_iff.mp hu).2
  rw [Distinct, List.map_append, List.nodup_append]
  refine ⟨h, by simp, ?_⟩
  intro a ha b hb
  obtain ⟨q, hq, rfl⟩ := List.mem_map.mp ha
  rw [List.map_singleton, List.mem_singleton] at hb
  exact hb ▸ hnew q hq

theorem Holds.append {more : ProcessTable} (hk : t.Holds k pid) : Holds (t ++ more) k pid := by
  obtain ⟨q, hq, hpid, hfork⟩ := hk
  exact ⟨q, List.mem_append_left _ hq, hpid, hfork⟩

/-! ## Replies -/

/-- `waitpid` for a child: it is not reaped, and its end not reported; or both. -/
theorem reply_waitpid {options : List WaitOption} {n : Nat} {choice : KernelChoice} {r : SysReply}
    {t' : ProcessTable} (hd : t.Distinct) (hk : t.Holds k pid)
    (h : t.reply n (.waitpid pid options) choice = some (r, t')) :
    (t' = t ∧ (r.ret = -1 ∨ r.ret = 0 ∧ .nohang ∈ options ∨ ∀ e c, r.wstatus ≠ .ended e c)) ∨
      (t' = t.reap pid ∧ r.ret = pid ∧ ∃ e c, r.wstatus = .ended e c) := by
  obtain ⟨⟨_, _, state⟩, hfind, rfl, rfl⟩ := hk.process? hd
  cases choice with
  | fails errno =>
      cases h
      exact .inl ⟨rfl, .inl rfl⟩
  | pid pid => cases h
  | news news =>
      simp only [reply, waitpid, hfind] at h
      cases state with
      | zombie e coredump =>
          cases h
          exact .inr ⟨rfl, rfl, e, coredump, rfl⟩
      | stopped sig =>
          dsimp only at h
          split_ifs at h with hnews hhang
          · cases h
            exact .inl ⟨rfl, .inr (.inr (by simp))⟩
          · cases h
            exact .inl ⟨rfl, .inr (.inl ⟨rfl, hhang⟩)⟩
      | running =>
          dsimp only at h
          split_ifs at h with hnews hhang
          · cases h
            exact .inl ⟨rfl, .inr (.inr (by simp))⟩
          · cases h
            exact .inl ⟨rfl, .inr (.inl ⟨rfl, hhang⟩)⟩

theorem reply_kill {sig n : Nat} {choice : KernelChoice} {r : SysReply} {t' : ProcessTable}
    (h : t.reply n (.kill pid sig) choice = some (r, t')) : t' = t := by
  cases choice with
  | fails errno =>
      cases h
      rfl
  | pid pid => cases h
  | news news =>
      rcases hfind : t.process? pid with _ | q
      · simp only [reply, hfind] at h
        cases h
        rfl
      · simp only [reply, hfind] at h
        cases h
        rfl

theorem reply_fork {n : Nat} {choice : KernelChoice} {r : SysReply} {t' : ProcessTable}
    (h : t.reply n .fork choice = some (r, t')) :
    (t' = t ∧ r.ret = -1) ∨
      ∃ pid, t.unused pid = true ∧ r.ret = pid ∧ t' = t ++ [⟨pid, some n, .running⟩] := by
  cases choice with
  | fails errno =>
      cases h
      exact .inl ⟨rfl, rfl⟩
  | pid pid =>
      simp only [reply] at h
      split_ifs at h with hu
      cases h
      exact .inr ⟨pid, hu, rfl, rfl⟩
  | news news => cases h

end ProcessTable

/-! ## The invariant -/

/-- The values of `*p`. -/
def Forker.pids (s : Forker) : List Int := s.objects.map ProcObject.p

/-- Where a function may be in the middle, with a table and objects. -/
inductive InProgress (t : ProcessTable) (objects : List ProcObject) : ProcJob → Prop where
  | fork : InProgress t objects ⟨.fork, forkLua⟩
  | wait {k : Nat} {p : Int} : objects[k]? = some ⟨p, false⟩ → 0 < p →
      InProgress t objects ⟨.wait k, waitLua p⟩
  | exit {k : Nat} : objects[k]? = some ⟨0, true⟩ → InProgress t objects ⟨.gc k, gcLua 0⟩
  | probe {k : Nat} {p : Int} : objects[k]? = some ⟨p, true⟩ → 1 < p → t.Holds k p →
      InProgress t objects ⟨.gc k, gcLua p⟩
  | kill {k : Nat} {p : Int} : objects[k]? = some ⟨p, true⟩ → 1 < p → t.Holds k p →
      InProgress t objects ⟨.gc k, .ask (.kill p SIGKILL) (gcKilled p)⟩
  | reap {k : Nat} {p : Int} : objects[k]? = some ⟨p, true⟩ → 1 < p → t.Holds k p →
      InProgress t objects ⟨.gc k, .ask (.waitpid p []) fun _ => gcDone⟩

/-- Every object that is in use and has a positive pid has the one of its own child. -/
structure Owned (s : Forker) : Prop where
  distinct : s.table.Distinct
  holds : ∀ {k : Nat} {p : Int}, s.objects[k]? = some ⟨p, false⟩ → 0 < p → s.table.Holds k p
  job : ∀ j, s.job = some j → InProgress s.table s.objects j

theorem owned_start (n : Nat) : Owned (Forker.start n) where
  distinct := List.nodup_nil
  holds {k p} hk hp := by
    have hmem := List.mem_of_getElem? hk
    simp only [Forker.start, List.mem_replicate] at hmem
    have hzero : p = 0 := congrArg ProcObject.p hmem.2
    omega
  job j hj := by cases hj

/-- The event reports that the child of the `k`-th object ended. -/
def ForkerEvent.Reports (k : Nat) : ForkerEvent → Prop
  | returned (.wait k') r => k' = k ∧ r.reportsEnd = true
  | _ => False

/-- A system call about a pid is made for an object that has the pid, and the process that has it is
the child of the object's own fork; only a collection sends a signal. -/
def ForkerEvent.Own (s : Forker) : ForkerEvent → Prop
  | asked caller q found =>
      (∀ pid, q.target? = some pid →
        ∃ k e, caller.object? = some k ∧ found = some e ∧ e.pid = pid ∧ e.fork = some k ∧
          s.pids[k]? = some pid ∧ 0 < pid) ∧
      ∀ pid sig, q = .kill pid sig → ∃ k, caller = .gc k ∧ sig = SIGKILL
  | returned _ _ => True

/-- What a step does: the invariant holds afterwards, the system calls are about own children, and
the pids of the objects stay as they are, or an end was reported, or a fork has returned. -/
structure Progress (s : Forker) (out : Forker × List ForkerEvent) : Prop where
  owned : Owned out.1
  own : ∀ e ∈ out.2, e.Own s
  pids : (out.1.pids = s.pids ∧ ∀ e ∈ out.2, ∀ k, ¬ e.Reports k) ∨
    (∃ k p q found status, s.pids[k]? = some p ∧ 0 < p ∧ out.1.pids = s.pids.set k (-p) ∧
      (ProcResult.table p status).reportsEnd = true ∧
      out.2 = [.asked (.wait k) q found, .returned (.wait k) (.table p status)]) ∨
    ∃ p, 0 < p ∧ out.1.pids = s.pids ++ [p] ∧ ∀ e ∈ out.2, ∀ k, ¬ e.Reports k

/-- Nothing happens. -/
theorem Progress.idle {s : Forker} (h : Owned s) : Progress s (s, []) :=
  ⟨h, by simp, .inl ⟨rfl, by simp⟩⟩

/-- Something happens to the processes, and every child stays. -/
theorem Progress.kernel {s : Forker} {t : ProcessTable} (h : Owned s) (hd : t.Distinct)
    (hk : ∀ {k pid}, s.table.Holds k pid → t.Holds k pid) :
    Progress s ({ s with table := t }, []) := by
  refine ⟨⟨hd, fun ho hp => hk (h.holds ho hp), ?_⟩, by simp, .inl ⟨rfl, by simp⟩⟩
  intro j hj
  cases h.job j hj with
  | fork => exact .fork
  | wait ho hp => exact .wait ho hp
  | exit ho => exact .exit ho
  | probe ho hp hc => exact .probe ho hp (hk hc)
  | kill ho hp hc => exact .kill ho hp (hk hc)
  | reap ho hp hc => exact .reap ho hp (hk hc)

/-! ## Calls -/

section Steps

variable {s : Forker} {k : Nat} {p : Int}

theorem settle_ask {caller : ProcCaller} {d : Dialogue Syscall SysReply ProcReturn} {q : Syscall}
    {next : SysReply → Dialogue Syscall SysReply ProcReturn} (h : s.job = some ⟨caller, d⟩)
    (hd : d = .ask q next) : s.settle = (s, []) := by
  subst hd
  rw [Forker.settle, h]

theorem settle_done {caller : ProcCaller} {d : Dialogue Syscall SysReply ProcReturn}
    {r : ProcReturn} (h : s.job = some ⟨caller, d⟩) (hd : d = .done r) :
    s.settle = ({ s with objects := caller.store s.objects r.stored, job := none },
      [.returned caller r.result]) := by
  subst hd
  rw [Forker.settle, h]

/-- Collecting an object leaves the other ones in use. -/
theorem collected_other {objects : List ProcObject} {k' : Nat} {p' : Int}
    (h : (objects.set k ⟨p, true⟩)[k']? = some ⟨p', false⟩) :
    k ≠ k' ∧ objects[k']? = some ⟨p', false⟩ := by
  rw [List.getElem?_set] at h
  split_ifs at h with heq hlt
  · simp at h
  · exact ⟨heq, h⟩

theorem collected_self {objects : List ProcObject} {o : ProcObject} (h : objects[k]? = some o)
    (o' : ProcObject) : (objects.set k o')[k]? = some o' := by
  rw [List.getElem?_set_self (List.getElem?_eq_some_iff.mp h).1]

/-- Collecting an object leaves its pid. -/
theorem collected_pids {objects : List ProcObject} {o : ProcObject} (h : objects[k]? = some o)
    (o' : ProcObject) (hp : o'.p = o.p) :
    (objects.set k o').map ProcObject.p = objects.map ProcObject.p := by
  rw [List.map_set, hp]
  apply List.ext_getElem?
  intro i
  rw [List.getElem?_set]
  split_ifs with heq hlt
  · subst heq
    rw [List.getElem?_map, h]
    rfl
  · subst heq
    rw [List.getElem?_eq_none (by omega)]
  · rfl

/-- A function that stores nothing returns. -/
theorem Progress.returned {caller : ProcCaller} {result : ProcResult} (h : Owned s)
    {objects : List ProcObject}
    (hobjects : ∀ {k' : Nat} {p' : Int}, objects[k']? = some ⟨p', false⟩ →
      s.objects[k']? = some ⟨p', false⟩)
    (hpids : objects.map ProcObject.p = s.pids) (hend : result.reportsEnd = false) :
    Progress s ({ s with objects := objects, job := none }, [.returned caller result]) := by
  refine ⟨⟨h.distinct, fun ho hp => h.holds (hobjects ho) hp, by simp⟩, ?_, .inl ⟨hpids, ?_⟩⟩
  · intro e he
    rw [List.mem_singleton.mp he]
    trivial
  · intro e he k
    rw [List.mem_singleton.mp he]
    cases caller with
    | fork => exact id
    | gc k' => exact id
    | wait k' => simp [ForkerEvent.Reports, hend]

theorem reportsEnd_of_ne_table {r : ProcResult} (h : ∀ pid status, r ≠ .table pid status) :
    r.reportsEnd = false := by
  cases r with
  | table pid status => exact absurd rfl (h pid status)
  | raised msg => rfl
  | failed errno => rfl
  | again => rfl
  | object => rfl
  | nothing => rfl

theorem progress_call (h : Owned s) (caller : ProcCaller) :
    Progress s (s.call caller) := by
  cases caller with
  | fork =>
      rw [Forker.call, settle_ask rfl rfl]
      refine ⟨⟨h.distinct, h.holds, ?_⟩, by simp, .inl ⟨rfl, by simp⟩⟩
      rintro j ⟨⟩
      exact .fork
  | wait k =>
      rw [Forker.call]
      split
      · rename_i p hobj
        by_cases hp : 0 < p
        · rw [settle_ask rfl (waitLua_pos hp)]
          refine ⟨⟨h.distinct, h.holds, ?_⟩, by simp, .inl ⟨rfl, by simp⟩⟩
          rintro j ⟨⟩
          exact .wait hobj hp
        · obtain ⟨r, hdone, htable⟩ := waitLua_nonpos (not_lt.mp hp)
          rw [settle_done rfl hdone]
          exact .returned h id rfl (reportsEnd_of_ne_table htable)
      · exact .idle h
  | gc k =>
      rw [Forker.call]
      split
      · rename_i p hobj
        have hpids := collected_pids hobj ⟨p, true⟩ rfl
        have howned : ∀ j, InProgress s.table (s.objects.set k ⟨p, true⟩) j →
            Owned { s with objects := s.objects.set k ⟨p, true⟩, job := some j } := by
          intro j hj
          refine ⟨h.distinct, fun ho hp => h.holds (collected_other ho).2 hp, ?_⟩
          rintro j ⟨⟩
          exact hj
        by_cases h0 : p = 0
        · subst h0
          rw [settle_ask rfl gcLua_zero]
          exact ⟨howned _ (.exit (collected_self hobj _)), by simp, .inl ⟨hpids, by simp⟩⟩
        · by_cases h1 : 1 < p
          · rw [settle_ask rfl (gcLua_child h1)]
            have hholds := h.holds hobj (by omega)
            exact ⟨howned _ (.probe (collected_self hobj _) h1 hholds), by simp,
              .inl ⟨hpids, by simp⟩⟩
          · rw [settle_done rfl (gcLua_other h0 h1)]
            exact .returned h (fun ho => (collected_other ho).2) hpids rfl
      · exact .idle h

/-! ## Replies -/

/-- What a reply does. -/
theorem forker_reply {caller : ProcCaller} {d : Dialogue Syscall SysReply ProcReturn} {q : Syscall}
    {next : SysReply → Dialogue Syscall SysReply ProcReturn} (h : s.job = some ⟨caller, d⟩)
    (hd : d = .ask q next) (choice : KernelChoice) :
    (s.table.reply s.objects.length q choice = none ∧ forker s (.reply choice) = (s, [])) ∨
      ∃ r t, s.table.reply s.objects.length q choice = some (r, t) ∧
        forker s (.reply choice) =
          (({ s with table := t, job := some ⟨caller, next r⟩ } : Forker).settle.1,
            .asked caller q (q.target?.bind s.table.process?) ::
              ({ s with table := t, job := some ⟨caller, next r⟩ } : Forker).settle.2) := by
  subst hd
  rcases hr : s.table.reply s.objects.length q choice with _ | ⟨r, t⟩
  · exact .inl ⟨rfl, by simp only [forker, h, hr]⟩
  · exact .inr ⟨r, t, rfl, by simp only [forker, h, hr]⟩

/-- A system call about the own child. -/
theorem own_asked {c : Bool} (h : Owned s) (caller : ProcCaller) (q : Syscall)
    (hcaller : caller.object? = some k) (hobj : s.objects[k]? = some ⟨p, c⟩) (hp : 0 < p)
    (hq : q.target? = some p) (hk : s.table.Holds k p)
    (hsig : ∀ pid sig, q = .kill pid sig → ∃ k, caller = .gc k ∧ sig = SIGKILL) :
    ForkerEvent.Own s (.asked caller q (q.target?.bind s.table.process?)) := by
  refine ⟨?_, hsig⟩
  intro pid hpid
  obtain rfl : p = pid := Option.some.inj (hq.symm.trans hpid)
  obtain ⟨e, hfind, hepid, hfork⟩ := hk.process? h.distinct
  refine ⟨k, e, hcaller, ?_, hepid, hfork, ?_, hp⟩
  · rw [hq]
    exact hfind
  · rw [Forker.pids, List.getElem?_map, hobj]
    rfl

/-- The next system call of a collection. -/
theorem Progress.asks {caller : ProcCaller} {q : Syscall} {found : Option KernelProcess}
    {j : ProcJob} (h : Owned s) (hown : ForkerEvent.Own s (.asked caller q found))
    (hj : InProgress s.table s.objects j) :
    Progress s ({ s with job := some j }, [.asked caller q found]) := by
  refine ⟨⟨h.distinct, h.holds, ?_⟩, ?_, .inl ⟨rfl, ?_⟩⟩
  · rintro j ⟨⟩
    exact hj
  · intro e he
    rwa [List.mem_singleton.mp he]
  · intro e he k
    rw [List.mem_singleton.mp he]
    exact id

theorem own_pair {e e' : ForkerEvent} {caller : ProcCaller} {result : ProcResult} (h : e.Own s)
    (he : e' ∈ [e, .returned caller result]) : e'.Own s := by
  rcases List.mem_pair.mp he with rfl | rfl
  · exact h
  · trivial

/-- A function asks for the last time and stores nothing; every child of an object that is in use
stays. -/
theorem Progress.answered {caller : ProcCaller} {q : Syscall} {found : Option KernelProcess}
    {result : ProcResult} {t : ProcessTable}
    (hown : ForkerEvent.Own s (.asked caller q found)) (hd : t.Distinct)
    (hholds : ∀ {k : Nat} {p : Int}, s.objects[k]? = some ⟨p, false⟩ → 0 < p → t.Holds k p)
    (hend : result.reportsEnd = false) :
    Progress s (⟨t, s.objects, none⟩, [.asked caller q found, .returned caller result]) := by
  refine ⟨⟨hd, hholds, by simp⟩, fun e he => own_pair hown he, .inl ⟨rfl, ?_⟩⟩
  intro e he k
  rcases List.mem_pair.mp he with rfl | rfl
  · exact id
  · cases caller with
    | fork => exact id
    | gc k' => exact id
    | wait k' => simp [ForkerEvent.Reports, hend]

/-- The end of a collection, which may have reaped the child. -/
theorem Progress.collected {q : Syscall} {found : Option KernelProcess} {t : ProcessTable}
    (h : Owned s) (hown : ForkerEvent.Own s (.asked (.gc k) q found))
    (hobj : s.objects[k]? = some ⟨p, true⟩) (hk : s.table.Holds k p)
    (ht : t = s.table ∨ t = s.table.reap p) :
    Progress s (⟨t, s.objects, none⟩, [.asked (.gc k) q found, .returned (.gc k) .nothing]) := by
  rcases ht with rfl | rfl
  · exact .answered hown h.distinct h.holds rfl
  · refine .answered hown h.distinct.reap ?_ rfl
    intro k' p' ho hp
    refine hk.reap h.distinct (h.holds ho hp) ?_
    rintro rfl
    rw [hobj] at ho
    simp at ho

/-- A wait reports the end of the child, which was reaped. -/
theorem Progress.reported {q : Syscall} {found : Option KernelProcess} {e : End} {c : Bool}
    (h : Owned s) (hown : ForkerEvent.Own s (.asked (.wait k) q found))
    (hobj : s.objects[k]? = some ⟨p, false⟩) (hp : 0 < p) :
    Progress s (⟨s.table.reap p, s.objects.set k ⟨-p, false⟩, none⟩,
      [.asked (.wait k) q found, .returned (.wait k) (.table p (.ended e c))]) := by
  refine ⟨⟨h.distinct.reap, ?_, by simp⟩, fun e he => own_pair hown he,
    .inr (.inl ⟨k, p, q, found, .ended e c, ?_, hp, List.map_set, ?_, rfl⟩)⟩
  · intro k' p' ho hp'
    rw [List.getElem?_set] at ho
    split_ifs at ho with heq hlt
    · simp only [Option.some.injEq, ProcObject.mk.injEq, and_true] at ho
      omega
    · exact (h.holds hobj hp).reap h.distinct (h.holds ho hp') heq
  · rw [Forker.pids, List.getElem?_map, hobj]
    rfl
  · exact reportsEnd_table.mpr ⟨e, c, rfl⟩

/-- A fork returns, with the pid of its child. -/
theorem Progress.forked {found : Option KernelProcess} {state : RunState} (h : Owned s)
    (hown : ForkerEvent.Own s (.asked .fork .fork found)) (hu : s.table.unused p = true) :
    Progress s (⟨s.table ++ [⟨p, some s.objects.length, state⟩], s.objects ++ [⟨p, false⟩], none⟩,
      [.asked .fork .fork found, .returned .fork .object]) := by
  refine ⟨⟨h.distinct.append hu, ?_, by simp⟩, fun e he => own_pair hown he,
    .inr (.inr ⟨p, (ProcessTable.unused_iff.mp hu).1, List.map_append, ?_⟩)⟩
  · intro k p' ho hp
    rcases lt_or_ge k s.objects.length with hlt | hge
    · rw [List.getElem?_append_left hlt] at ho
      exact (h.holds ho hp).append
    · rw [List.getElem?_append_right hge, List.getElem?_singleton] at ho
      split_ifs at ho with hk
      obtain rfl : k = s.objects.length := by omega
      simp only [Option.some.injEq, ProcObject.mk.injEq, and_true] at ho
      exact ⟨_, List.mem_append_right _ (List.mem_singleton.mpr rfl), ho, rfl⟩
  · intro e he k
    rcases List.mem_pair.mp he with rfl | rfl
    · exact id
    · exact id

/-- Without an end `wait_lua` stores nothing. -/
theorem waited_alive {r : SysReply} (h : r.ret = -1 ∨ ∀ e c, r.wstatus ≠ .ended e c) :
    (waited p r).stored = none ∧ (waited p r).result.reportsEnd = false := by
  rw [waited]
  by_cases hret : r.ret = -1
  · rw [if_pos hret]
    exact ⟨rfl, rfl⟩
  · have hstatus := h.resolve_left hret
    rw [if_neg hret]
    rcases hw : r.wstatus with ⟨e, c⟩ | sig | _
    · exact absurd hw (hstatus e c)
    · exact ⟨rfl, rfl⟩
    · exact ⟨rfl, rfl⟩

theorem waited_ended {r : SysReply} (hp : 0 < p) (hret : r.ret = p) {e : End} {c : Bool}
    (hw : r.wstatus = .ended e c) : waited p r = ⟨some (-p), .table p (.ended e c)⟩ := by
  rw [waited, if_neg (by omega), hw]

theorem store_wait {objects : List ProcObject} (h : objects[k]? = some ⟨p, false⟩) (pid : Int) :
    (ProcCaller.wait k).store objects (some pid) = objects.set k ⟨pid, false⟩ := by
  show objects.modify k _ = _
  rw [List.modify_eq_set_getElem?, h]
  rfl

/-- The reply to `wait_lua`. -/
theorem progress_wait (h : Owned s) (hobj : s.objects[k]? = some ⟨p, false⟩) (hp : 0 < p)
    (hjob : s.job = some ⟨.wait k, waitLua p⟩) (choice : KernelChoice) :
    Progress s (forker s (.reply choice)) := by
  have hk := h.holds hobj hp
  have hown := own_asked h (.wait k) (.waitpid p [.untraced, .continued]) rfl hobj hp rfl hk
    (by simp)
  rcases forker_reply hjob (waitLua_pos hp) choice with ⟨-, hstep⟩ | ⟨r, t, hr, hstep⟩
  · rw [hstep]
    exact .idle h
  · rw [hstep, settle_done rfl rfl]
    rcases ProcessTable.reply_waitpid h.distinct hk hr with ⟨rfl, halive⟩ | ⟨rfl, hret, e, c, hw⟩
    · have halive : r.ret = -1 ∨ ∀ e c, r.wstatus ≠ .ended e c := by
        rcases halive with hret | ⟨-, hhang⟩ | hw
        · exact .inl hret
        · simp at hhang
        · exact .inr hw
      obtain ⟨hstored, hend⟩ := waited_alive halive
      rw [hstored]
      exact .answered hown h.distinct h.holds hend
    · rw [waited_ended hp hret hw, store_wait hobj]
      exact .reported h hown hobj hp

/-- The reply to `fork_lua`. -/
theorem progress_fork (h : Owned s) (hjob : s.job = some ⟨.fork, forkLua⟩)
    (choice : KernelChoice) : Progress s (forker s (.reply choice)) := by
  have hown : ForkerEvent.Own s (.asked .fork .fork none) := by
    exact ⟨by rintro pid ⟨⟩, by rintro pid sig ⟨⟩⟩
  rcases forker_reply hjob rfl choice with ⟨-, hstep⟩ | ⟨r, t, hr, hstep⟩
  · rw [hstep]
    exact .idle h
  · rw [hstep, settle_done rfl rfl]
    rcases ProcessTable.reply_fork hr with ⟨rfl, hret⟩ | ⟨pid, hu, hret, rfl⟩
    · have hfailed : (forked r).stored = none ∧ (forked r).result.reportsEnd = false := by
        rw [forked, if_pos hret]
        split
        · exact ⟨rfl, rfl⟩
        · exact ⟨rfl, rfl⟩
      rw [hfailed.1]
      exact .answered hown h.distinct h.holds hfailed.2
    · have hforked : forked r = ⟨some pid, .object⟩ := by
        have hpos := (ProcessTable.unused_iff.mp hu).1
        rw [forked, if_neg (by omega), hret]
      rw [hforked]
      exact .forked h hown hu

/-- The replies to `gc_lua`. -/
theorem progress_probe (h : Owned s) (hobj : s.objects[k]? = some ⟨p, true⟩) (hp : 1 < p)
    (hk : s.table.Holds k p) (hjob : s.job = some ⟨.gc k, gcLua p⟩) (choice : KernelChoice) :
    Progress s (forker s (.reply choice)) := by
  have hown := own_asked h (.gc k) (.waitpid p [.nohang]) rfl hobj (by omega) rfl hk (by simp)
  rcases forker_reply hjob (gcLua_child hp) choice with ⟨-, hstep⟩ | ⟨r, t, hr, hstep⟩
  · rw [hstep]
    exact .idle h
  · rw [hstep]
    have ht := ProcessTable.reply_waitpid h.distinct hk hr
    by_cases hret : r.ret = 0
    · -- The child was not reaped.
      have ht : t = s.table := by
        rcases ht with ⟨ht, -⟩ | ⟨-, hpid, -⟩
        · exact ht
        · omega
      have hnext : gcProbed p r = .ask (.kill p SIGKILL) (gcKilled p) := by
        rw [gcProbed, if_pos hret]
        rfl
      subst ht
      rw [settle_ask rfl hnext, hnext]
      exact .asks h hown (.kill hobj hp hk)
    · have hnext : gcProbed p r = .done ⟨none, .nothing⟩ := by
        rw [gcProbed, if_neg hret]
        rfl
      rw [settle_done rfl hnext]
      exact .collected h hown hobj hk (ht.imp And.left And.left)

theorem progress_kill (h : Owned s) (hobj : s.objects[k]? = some ⟨p, true⟩) (hp : 1 < p)
    (hk : s.table.Holds k p) (hjob : s.job = some ⟨.gc k, .ask (.kill p SIGKILL) (gcKilled p)⟩)
    (choice : KernelChoice) : Progress s (forker s (.reply choice)) := by
  have hown := own_asked h (.gc k) (.kill p SIGKILL) rfl hobj (by omega) rfl hk
    (by rintro _ _ ⟨⟩; exact ⟨k, rfl, rfl⟩)
  rcases forker_reply hjob rfl choice with ⟨-, hstep⟩ | ⟨r, t, hr, hstep⟩
  · rw [hstep]
    exact .idle h
  · obtain rfl := ProcessTable.reply_kill hr
    rw [hstep]
    by_cases hret : r.ret = 0
    · have hnext : gcKilled p r = .ask (.waitpid p []) fun _ => gcDone := by
        rw [gcKilled, if_pos hret]
        rfl
      rw [settle_ask rfl hnext, hnext]
      exact .asks h hown (.reap hobj hp hk)
    · have hnext : gcKilled p r = .done ⟨none, .nothing⟩ := by
        rw [gcKilled, if_neg hret]
        rfl
      rw [settle_done rfl hnext]
      exact .collected h hown hobj hk (.inl rfl)

theorem progress_reap (h : Owned s) (hobj : s.objects[k]? = some ⟨p, true⟩) (hp : 1 < p)
    (hk : s.table.Holds k p) (hjob : s.job = some ⟨.gc k, .ask (.waitpid p []) fun _ => gcDone⟩)
    (choice : KernelChoice) : Progress s (forker s (.reply choice)) := by
  have hown := own_asked h (.gc k) (.waitpid p []) rfl hobj (by omega) rfl hk (by simp)
  rcases forker_reply hjob rfl choice with ⟨-, hstep⟩ | ⟨r, t, hr, hstep⟩
  · rw [hstep]
    exact .idle h
  · have ht := ProcessTable.reply_waitpid h.distinct hk hr
    rw [hstep, settle_done rfl rfl]
    exact .collected h hown hobj hk (ht.imp And.left And.left)

/-- **One step.** -/
theorem progress_step (h : Owned s) (turn : ForkerTurn) : Progress s (forker s turn) := by
  cases turn with
  | call caller =>
      rcases hjob : s.job with _ | j
      · have hstep : forker s (.call caller) = s.call caller := by simp only [forker, hjob]
        rw [hstep]
        exact progress_call h caller
      · have hstep : forker s (.call caller) = (s, []) := by simp only [forker, hjob]
        rw [hstep]
        exact .idle h
  | reply choice =>
      rcases hjob : s.job with _ | j
      · have hstep : forker s (.reply choice) = (s, []) := by simp only [forker, hjob]
        rw [hstep]
        exact .idle h
      · cases h.job j hjob with
        | fork => exact progress_fork h hjob choice
        | wait hobj hp => exact progress_wait h hobj hp hjob choice
        | exit hobj =>
            -- The process has ended: there is no reply.
            rcases forker_reply hjob gcLua_zero choice with ⟨-, hstep⟩ | ⟨r, t, hr, -⟩
            · rw [hstep]
              exact .idle h
            · cases choice <;> cases hr
        | probe hobj hp hk => exact progress_probe h hobj hp hk hjob choice
        | kill hobj hp hk => exact progress_kill h hobj hp hk hjob choice
        | reap hobj hp hk => exact progress_reap h hobj hp hk hjob choice
  | change pid state => exact .kernel h h.distinct.change fun hk => hk.change
  | appear pid =>
      rw [forker]
      split_ifs with hu
      · exact .kernel h (h.distinct.append hu) fun hk => hk.append
      · exact .idle h
  | vanish pid => exact .kernel h h.distinct.vanish fun hk => hk.vanish

end Steps

/-! ## Runs -/

/-- The event is a `waitpid` or a `kill` for the `k`-th object. -/
def ForkerEvent.Asks (k : Nat) : ForkerEvent → Prop
  | asked caller q _ => caller.object? = some k ∧ q.target?.isSome
  | returned _ _ => False

/-- What was observed so far, and the pids of the objects. -/
structure Sighted (pids : List Int) (log : List ForkerEvent) : Prop where
  /-- A pid is negative if and only if the end of the child was reported. -/
  negative : ∀ {k : Nat} {p : Int}, pids[k]? = some p → (p < 0 ↔ ∃ e ∈ log, e.Reports k)
  /-- Then it is the one that the report told. -/
  final : ∀ {k : Nat} {pid : Int} {status : WaitStatus},
    .returned (.wait k) (.table pid status) ∈ log →
    (ProcResult.table pid status).reportsEnd = true → pids[k]? = some (-pid) ∧ 0 < pid
  /-- Behind the report there is no system call for the object. -/
  last : log.Pairwise fun e e' => ∀ k, e.Reports k → ¬ e'.Asks k
  /-- Every system call about a pid was about the own child. -/
  own : ∀ {caller : ProcCaller} {q : Syscall} {found : Option KernelProcess} {pid : Int},
    .asked caller q found ∈ log → q.target? = some pid →
    ∃ k e, caller.object? = some k ∧ found = some e ∧ e.pid = pid ∧ e.fork = some k
  kills : ∀ {caller : ProcCaller} {pid : Int} {sig : Nat} {found : Option KernelProcess},
    .asked caller (.kill pid sig) found ∈ log → ∃ k, caller = .gc k ∧ sig = SIGKILL

/-- A report says which object it is about, and what its pid was. -/
theorem reports_table {e : ForkerEvent} {k : Nat} (h : e.Reports k) :
    ∃ pid status, e = .returned (.wait k) (.table pid status) ∧
      (ProcResult.table pid status).reportsEnd = true := by
  rcases e with ⟨caller, q, found⟩ | ⟨caller, r⟩
  · exact h.elim
  · cases caller with
    | fork => exact h.elim
    | gc k' => exact h.elim
    | wait k' =>
        obtain ⟨rfl, hend⟩ := h
        cases r with
        | table pid status => exact ⟨pid, status, rfl, hend⟩
        | raised msg => cases hend
        | failed errno => cases hend
        | again => cases hend
        | object => cases hend
        | nothing => cases hend

theorem Sighted.of_reports {pids : List Int} {log : List ForkerEvent} (h : Sighted pids log)
    {e : ForkerEvent} {k : Nat} (he : e ∈ log) (hk : e.Reports k) :
    ∃ pid, pids[k]? = some (-pid) ∧ 0 < pid := by
  obtain ⟨pid, status, rfl, hend⟩ := reports_table hk
  exact ⟨pid, h.final he hend⟩

/-- For an object with a positive pid no end was reported. -/
theorem Sighted.alive {pids : List Int} {log : List ForkerEvent} (h : Sighted pids log) {k : Nat}
    {p : Int} (hk : pids[k]? = some p) (hp : 0 < p) : ∀ e ∈ log, ¬ e.Reports k := by
  intro e he hrep
  obtain ⟨pid, hpid, hpos⟩ := h.of_reports he hrep
  obtain rfl : p = -pid := Option.some.inj (hk.symm.trans hpid)
  omega

/-- The part that is the same for every step. -/
theorem Sighted.extend {s : Forker} {log es : List ForkerEvent} {pids : List Int}
    (h : Sighted s.pids log) (hown : ∀ e ∈ es, e.Own s)
    (hes : es.Pairwise fun e e' => ∀ k, e.Reports k → ¬ e'.Asks k)
    (hneg : ∀ {k : Nat} {p : Int}, pids[k]? = some p → (p < 0 ↔ ∃ e ∈ log ++ es, e.Reports k))
    (hfinal : ∀ {k : Nat} {pid : Int} {status : WaitStatus},
      .returned (.wait k) (.table pid status) ∈ log ++ es →
      (ProcResult.table pid status).reportsEnd = true → pids[k]? = some (-pid) ∧ 0 < pid) :
    Sighted pids (log ++ es) where
  negative := hneg
  final := hfinal
  last := by
    refine List.pairwise_append.mpr ⟨h.last, hes, ?_⟩
    intro e he e' he' k hrep hasks
    rcases e' with ⟨caller, q, found⟩ | ⟨caller, r⟩
    · obtain ⟨hcaller, htarget⟩ := hasks
      obtain ⟨pid, hpid⟩ := Option.isSome_iff_exists.mp htarget
      obtain ⟨k', _, hk', -, -, -, hpids, hpos⟩ := (hown _ he').1 pid hpid
      obtain rfl : k = k' := Option.some.inj (hcaller.symm.trans hk')
      exact h.alive hpids hpos e he hrep
    · exact hasks
  own := by
    intro caller q found pid hmem hpid
    rcases List.mem_append.mp hmem with hmem | hmem
    · exact h.own hmem hpid
    · obtain ⟨k, e, hk, hfound, hepid, hfork, -⟩ := (hown _ hmem).1 pid hpid
      exact ⟨k, e, hk, hfound, hepid, hfork⟩
  kills := by
    intro caller pid sig found hmem
    rcases List.mem_append.mp hmem with hmem | hmem
    · exact h.kills hmem
    · exact (hown _ hmem).2 pid sig rfl

/-- Without a report nothing changes for the objects there are. -/
theorem Sighted.silent {s : Forker} {log es : List ForkerEvent} {more : List Int}
    (h : Sighted s.pids log) (hown : ∀ e ∈ es, e.Own s)
    (hes : ∀ e ∈ es, ∀ k, ¬ e.Reports k) (hmore : ∀ p ∈ more, 0 < p) :
    Sighted (s.pids ++ more) (log ++ es) := by
  have hrep : ∀ {k : Nat} {e : ForkerEvent}, e ∈ log ++ es → e.Reports k → e ∈ log := by
    intro k e he hk
    exact (List.mem_append.mp he).resolve_right fun he => hes e he k hk
  have hold : ∀ {k : Nat} {p : Int}, s.pids[k]? = some p → (s.pids ++ more)[k]? = some p := by
    intro k p hk
    rw [List.getElem?_append_left (List.getElem?_eq_some_iff.mp hk).1, hk]
  refine h.extend hown ?_ ?_ ?_
  · exact List.pairwise_of_forall_mem_list fun e he e' _ k hk => (hes e he k hk).elim
  · intro k p hk
    have hiff : (∃ e ∈ log ++ es, e.Reports k) ↔ ∃ e ∈ log, e.Reports k :=
      ⟨fun ⟨e, he, hk⟩ => ⟨e, hrep he hk, hk⟩, fun ⟨e, he, hk⟩ => ⟨e, List.mem_append_left _ he, hk⟩⟩
    rw [hiff]
    rcases lt_or_ge k s.pids.length with hlt | hge
    · rw [List.getElem?_append_left hlt] at hk
      exact h.negative hk
    · rw [List.getElem?_append_right hge] at hk
      have hp := hmore p (List.mem_of_getElem? hk)
      refine iff_of_false (by omega) ?_
      rintro ⟨e, he, hrep⟩
      obtain ⟨pid, hpid, -⟩ := h.of_reports he hrep
      have := (List.getElem?_eq_some_iff.mp hpid).1
      omega
  · intro k pid status hmem hend
    obtain ⟨hk, hpos⟩ := h.final (hrep hmem ⟨rfl, hend⟩) hend
    exact ⟨hold hk, hpos⟩

/-- One step, seen from outside. -/
theorem Progress.sighted {s : Forker} {out : Forker × List ForkerEvent} (hp : Progress s out)
    {log : List ForkerEvent} (h : Sighted s.pids log) : Sighted out.1.pids (log ++ out.2) := by
  rcases hp.pids with ⟨hpids, hes⟩ | ⟨k, p, q, found, status, hk, hpos, hpids, hend, hes⟩ |
    ⟨p, hpos, hpids, hes⟩
  · have hsame : Sighted (s.pids ++ []) (log ++ out.2) := h.silent hp.own hes (by simp)
    rwa [List.append_nil, ← hpids] at hsame
  · have hrep : ∀ {k' : Nat} {e : ForkerEvent}, e ∈ out.2 → e.Reports k' → k' = k := by
      intro k' e he hk'
      rw [hes] at he
      rcases List.mem_pair.mp he with rfl | rfl
      · exact hk'.elim
      · exact hk'.1.symm
    have hlast : ForkerEvent.returned (.wait k) (.table p status) ∈ out.2 := by
      rw [hes]
      simp
    refine h.extend hp.own ?_ ?_ ?_
    · rw [hes]
      simp [ForkerEvent.Asks]
    · intro k' p' hk'
      rw [hpids, List.getElem?_set] at hk'
      split_ifs at hk' with heq hlt
      · subst heq
        obtain rfl : -p = p' := Option.some.inj hk'
        exact iff_of_true (by omega) ⟨_, List.mem_append_right _ hlast, rfl, hend⟩
      · rw [h.negative hk']
        constructor
        · rintro ⟨e, he, hr⟩
          exact ⟨e, List.mem_append_left _ he, hr⟩
        · rintro ⟨e, he, hr⟩
          rcases List.mem_append.mp he with he | he
          · exact ⟨e, he, hr⟩
          · exact absurd (hrep he hr).symm heq
    · intro k' pid status' hmem hend'
      rw [hpids]
      rcases List.mem_append.mp hmem with hmem | hmem
      · have hne : k ≠ k' := by
          rintro rfl
          exact h.alive hk hpos _ hmem ⟨rfl, hend'⟩
        rw [List.getElem?_set_ne hne]
        exact h.final hmem hend'
      · rw [hes] at hmem
        rcases List.mem_pair.mp hmem with heq | heq
        · cases heq
        · cases heq
          rw [List.getElem?_set_self (List.getElem?_eq_some_iff.mp hk).1]
          exact ⟨rfl, hpos⟩
  · rw [hpids]
    exact h.silent hp.own hes (by simpa using hpos)

/-- **A run.** -/
theorem sighted_after (n : Nat) (turns : List ForkerTurn) :
    Owned (forker.after (Forker.start n) turns) ∧
      Sighted (forker.after (Forker.start n) turns).pids
        (forker.events (Forker.start n) turns) := by
  induction turns using List.reverseRecOn with
  | nil =>
      refine ⟨owned_start n, ?_, ?_, List.Pairwise.nil, ?_, ?_⟩
      · intro k p hk
        have hmem := List.mem_of_getElem? hk
        simp only [Machine.after_nil, Forker.pids, Forker.start, List.map_replicate,
          List.mem_replicate] at hmem
        simp [hmem.2]
      · intro k pid status hmem
        simp at hmem
      · intro caller q found pid hmem
        simp at hmem
      · intro caller pid sig found hmem
        simp at hmem
  | append_singleton turns turn ih =>
      have hp := progress_step ih.1 turn
      rw [Machine.after_concat, Machine.events_concat]
      exact ⟨hp.owned, hp.sighted ih.2⟩

/-! ## Own children only -/

/-- The process touches none but its own children: a state, and what was observed before. -/
structure OwnChildrenOnly (s : Forker) (log : List ForkerEvent) : Prop where
  /-- An object in use with a positive pid stands for the child of its own fork, which was not
  reaped. -/
  stands : ∀ (k : Nat) (o : ProcObject), s.objects[k]? = some o → o.collected = false → 0 < o.p →
    ∃ e, s.table.process? o.p = some e ∧ e.fork = some k
  /-- No two of them have the same pid. -/
  apart : ∀ (k k' : Nat) (o o' : ProcObject), s.objects[k]? = some o → s.objects[k']? = some o' →
    o.collected = false → o'.collected = false → 0 < o.p → o.p = o'.p → k = k'
  /-- A pid is negative if and only if a wait has reported that the child ended. -/
  negative : ∀ (k : Nat) (o : ProcObject), s.objects[k]? = some o →
    (o.p < 0 ↔ ∃ e ∈ log, e.Reports k)
  /-- From then on it is the negated pid of that report. -/
  fixed : ∀ (k : Nat) (pid : Int) (status : WaitStatus),
    .returned (.wait k) (.table pid status) ∈ log →
    (ProcResult.table pid status).reportsEnd = true → s.pids[k]? = some (-pid)
  /-- From then on there is neither a `waitpid` nor a `kill` for the object. -/
  last : log.Pairwise fun e e' => ∀ k, e.Reports k → ¬ e'.Asks k
  /-- Every `kill` is the `SIGKILL` of a collection. -/
  kills : ∀ (caller : ProcCaller) (pid : Int) (sig : Nat) (found : Option KernelProcess),
    .asked caller (.kill pid sig) found ∈ log → ∃ k, caller = .gc k ∧ sig = SIGKILL
  /-- The process that had the pid of a `waitpid` or a `kill` was the child of the object's own
  fork, and not reaped. -/
  own : ∀ (caller : ProcCaller) (q : Syscall) (found : Option KernelProcess) (pid : Int),
    .asked caller q found ∈ log → q.target? = some pid →
    ∃ k e, caller.object? = some k ∧ found = some e ∧ e.pid = pid ∧ e.fork = some k

/-- **Process objects never touch a foreign process.** -/
theorem own_children_only (n : Nat) (turns : List ForkerTurn) :
    OwnChildrenOnly (forker.after (Forker.start n) turns)
      (forker.events (Forker.start n) turns) := by
  obtain ⟨howned, hlog⟩ := sighted_after n turns
  have hpid : ∀ {k : Nat} {o : ProcObject}, (forker.after (Forker.start n) turns).objects[k]? =
      some o → (forker.after (Forker.start n) turns).pids[k]? = some o.p := by
    intro k o ho
    rw [Forker.pids, List.getElem?_map, ho]
    rfl
  have hholds : ∀ {k : Nat} {o : ProcObject}, (forker.after (Forker.start n) turns).objects[k]? =
      some o → o.collected = false → 0 < o.p →
      (forker.after (Forker.start n) turns).table.Holds k o.p := by
    rintro k ⟨p, c⟩ ho rfl hp
    exact howned.holds ho hp
  refine ⟨?_, ?_, ?_, ?_, hlog.last, ?_, ?_⟩
  · intro k o ho hc hp
    obtain ⟨e, hfind, -, hfork⟩ := (hholds ho hc hp).process? howned.distinct
    exact ⟨e, hfind, hfork⟩
  · intro k k' o o' ho ho' hc hc' hp heq
    have hk' := hholds ho' hc' (heq ▸ hp)
    rw [← heq] at hk'
    exact (hholds ho hc hp).unique howned.distinct hk'
  · intro k o ho
    exact hlog.negative (hpid ho)
  · intro k pid status hmem hend
    exact (hlog.final hmem hend).1
  · intro caller pid sig found hmem
    exact hlog.kills hmem
  · intro caller q found pid hmem htarget
    exact hlog.own hmem htarget

end Testcase
