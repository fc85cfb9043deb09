import LuaTestcase.Process.Def
import LuaTestcase.Runner.Directory

/-!
# With which status forked children exit

`exit.lua` keeps the arguments of `os.exit`, but nothing reads them: a process that is not the
runner's own exits behind the protected call without an argument, and the collector lets it exit
with success, too.  So every forked child that exits does so with status 0.

* `leave_eq` — what `call` does behind the protected call.
* `Moves` — what can become of a process.
* `Kept` — the invariant: the runner's process is the first, and no other has its pid.
* `processes_kept` — **every turn keeps it**.
* `forked_exit_status` — **the status asked for survives exactly if it is 0**.
-/

namespace Testcase

variable {S : Type}

/-! ## Behind the protected call -/

/-- **What `call` does behind the protected call.** -/
theorem leave_eq (PID pid : Int) (res : Except Str Unit) :
    (leave PID pid res : Phase S) = if pid = PID then .back res else .ended (.exited 0) := by
  have hrun := call_run (processEnv PID pid res) .beforeAll () ⟨(), false⟩
  rw [leave]
  generalize call (processEnv PID pid res) .beforeAll () ⟨(), false⟩ = o at hrun
  cases hrun with
  | noCwd v hnone => cases hnone
  | finalizer cwd v _ hraised => cases hraised
  | forked cwd _ _ _ hpid =>
      have hother : pid ≠ PID := hpid
      rw [if_neg hother]
      rfl
  | refused cwd err v _ _ _ _ herr => cases herr
  | returned cwd _ _ _ hpid =>
      have hsame : pid = PID := hpid
      rw [if_pos hsame]

/-! ## What can become of a process -/

theorem Process.end?_eq_some {p : Process S} {e : End} : p.end? = some e ↔ p.phase = .ended e := by
  rw [Process.end?]
  cases p.phase with
  | ended e' => simp
  | _ => simp

/-- The process is no longer in the function. -/
def Process.left (p : Process S) : Prop := ∀ s, p.phase ≠ .running s

/-- What can become of a process, in any number of turns. -/
structure Moves (PID : Int) (p q : Process S) : Prop where
  pid : q.pid = p.pid
  parent : q.parent = p.parent
  reaped : p.parent = none → q.reaped = p.reaped
  left : p.left → q.left
  ended : ∀ e, p.phase = .ended e → q.phase = .ended e
  back : ∀ res, q.phase = .back res → p.phase = .back res ∨ p.pid = PID
  exited : ∀ status, q.phase = .ended (.exited status) →
    p.phase = .ended (.exited status) ∨ p.pid = PID ∨ status = 0

section Moves

variable {PID : Int} {p q r : Process S}

theorem Moves.refl (p : Process S) : Moves PID p p :=
  ⟨rfl, rfl, fun _ => rfl, id, fun _ => id, fun _ => Or.inl, fun _ => Or.inl⟩

theorem Moves.trans (h : Moves PID p q) (h' : Moves PID q r) : Moves PID p r where
  pid := h'.pid.trans h.pid
  parent := h'.parent.trans h.parent
  reaped hnone := (h'.reaped (h.parent.trans hnone)).trans (h.reaped hnone)
  left hleft := h'.left (h.left hleft)
  ended e he := h'.ended e (h.ended e he)
  back res hres := by
    rcases h'.back res hres with hback | hpid
    · exact h.back res hback
    · exact Or.inr (h.pid.symm.trans hpid)
  exited status hstatus := by
    rcases h'.exited status hstatus with hexited | hpid | hzero
    · exact h.exited status hexited
    · exact Or.inr (Or.inl (h.pid.symm.trans hpid))
    · exact Or.inr (Or.inr hzero)

/-- A step of the function, or its end. -/
theorem Moves.step {s : S} {ph : Phase S} (hs : p.phase = .running s)
    (hph : (∃ s', ph = .running s') ∨ ∃ res, ph = .called res) (exitArgs : List ExitArg)
    (objects : List Int) :
    Moves PID p { p with phase := ph, exitArgs := exitArgs, objects := objects } where
  pid := rfl
  parent := rfl
  reaped _ := rfl
  left hleft := absurd hs (hleft s)
  ended e he := by
    rw [hs] at he
    cases he
  back res hres := by
    rcases hph with ⟨s', rfl⟩ | ⟨res', rfl⟩
    · cases hres
    · cases hres
  exited status hstatus := by
    rcases hph with ⟨s', rfl⟩ | ⟨res', rfl⟩
    · cases hstatus
    · cases hstatus

/-- The way out of the function, or behind it. -/
theorem Moves.settle {ph : Phase S} (hp : p.end? = none) (hleft : ∀ s, ph ≠ .running s)
    (hback : ∀ res, ph = .back res → p.pid = PID)
    (hexited : ∀ status, ph = .ended (.exited status) → p.pid = PID ∨ status = 0) :
    Moves PID p { p with phase := ph } where
  pid := rfl
  parent := rfl
  reaped _ := rfl
  left _ := hleft
  ended e he := by
    rw [Process.end?, he] at hp
    cases hp
  back res hres := Or.inr (hback res hres)
  exited status hstatus := Or.inr (hexited status hstatus)

/-- The way on behind the protected call. -/
theorem Moves.leave {res : Except Str Unit} (hres : p.phase = .called res) :
    Moves PID p { p with phase := Testcase.leave PID p.pid res } := by
  have hend : p.end? = none := by rw [Process.end?, hres]
  rw [leave_eq]
  split_ifs with hpid
  · refine Moves.settle hend ?_ (fun _ _ => hpid) (fun _ _ => Or.inl hpid)
    intro s hs
    cases hs
  · refine Moves.settle hend ?_ ?_ ?_
    · intro s hs
      cases hs
    · intro res' hback
      cases hback
    · intro status hstatus
      cases hstatus
      exact Or.inr rfl

/-- The end of a process, by the collector or by a signal. -/
theorem Moves.finish {e : End} (hp : p.end? = none)
    (he : e = .exited 0 ∨ ∃ signal, e = .signalled signal) :
    Moves PID p { p with phase := .ended e } := by
  refine Moves.settle hp ?_ ?_ ?_
  · intro s hs
    cases hs
  · intro res' hback
    cases hback
  · intro status hstatus
    rcases he with rfl | ⟨signal, rfl⟩
    · cases hstatus
      exact Or.inr rfl
    · cases hstatus

/-- A child that is waited for keeps its end. -/
theorem Moves.reap (hparent : p.parent ≠ none) (objects : List Int) :
    Moves PID p { p with objects := objects, reaped := true } :=
  ⟨rfl, rfl, fun hnone => absurd hnone hparent, id, fun _ => id, fun _ => Or.inl, fun _ => Or.inl⟩

/-- A child whose object is finalized ends, and is waited for. -/
theorem Moves.collect (hparent : p.parent ≠ none) (signal : Nat) :
    Moves PID p { p with phase := .ended (p.end?.getD (.signalled signal)), reaped := true } := by
  rcases hend : p.end? with _ | e
  · have hfinish : Moves PID p { p with phase := .ended (.signalled signal) } :=
      Moves.finish hend (Or.inr ⟨signal, rfl⟩)
    exact hfinish.trans
      (Moves.reap (p := { p with phase := .ended (.signalled signal) }) hparent p.objects)
  · have hreap : Moves PID p { p with phase := p.phase, reaped := true } :=
      Moves.reap hparent p.objects
    rw [Process.end?_eq_some.mp hend] at hreap
    exact hreap

/-- The process objects do not matter. -/
theorem Moves.objects (objects : List Int) : Moves PID p { p with objects := objects } :=
  ⟨rfl, rfl, fun _ => rfl, id, fun _ => id, fun _ => Or.inl, fun _ => Or.inl⟩

end Moves

/-! ## What can become of a family -/

/-- The runner's own process. -/
structure Root (PID : Int) (p : Process S) : Prop where
  pid : p.pid = PID
  parent : p.parent = none
  reaped : p.reaped = false

/-- A forked child: it never gets back to the runner, and exits with 0 if it exits. -/
structure Child (PID : Int) (p : Process S) : Prop where
  pid : p.pid ≠ PID
  parent : p.parent ≠ none
  back : ∀ res, p.phase ≠ .back res
  exited : ∀ status, p.phase = .ended (.exited status) → status = 0

/-- The first process is the runner's own, and the others are children. -/
structure Kept (PID : Int) (fam : Family S) : Prop where
  root : ∃ p, fam[0]? = some p ∧ Root PID p
  child : ∀ (i : Nat) (p : Process S), i ≠ 0 → fam[i]? = some p → Child PID p

/-- What can become of a family: its processes move, and children are born. -/
structure Grows (PID : Int) (fam fam' : Family S) : Prop where
  old : ∀ (i : Nat) (p : Process S), fam[i]? = some p → ∃ q, fam'[i]? = some q ∧ Moves PID p q
  born : ∀ (i : Nat) (q : Process S), fam'[i]? = some q → fam[i]? = none → Child PID q

section Grows

variable {PID : Int} {fam fam' fam'' : Family S} {i : Nat} {p q : Process S}

theorem Grows.refl (fam : Family S) : Grows PID fam fam where
  old i p hp := ⟨p, hp, Moves.refl p⟩
  born i q hq hnone := by
    rw [hnone] at hq
    cases hq

theorem Child.moves (h : Child PID p) (hm : Moves PID p q) : Child PID q where
  pid := hm.pid ▸ h.pid
  parent := hm.parent ▸ h.parent
  back res hres := (hm.back res hres).elim (h.back res) h.pid
  exited status hstatus := by
    rcases hm.exited status hstatus with hexited | hpid | hzero
    · exact h.exited status hexited
    · exact absurd hpid h.pid
    · exact hzero

theorem Grows.trans (h : Grows PID fam fam') (h' : Grows PID fam' fam'') :
    Grows PID fam fam'' where
  old i p hp := by
    obtain ⟨q, hq, hm⟩ := h.old i p hp
    obtain ⟨r, hr, hm'⟩ := h'.old i q hq
    exact ⟨r, hr, hm.trans hm'⟩
  born i r hr hnone := by
    rcases hq : fam'[i]? with _ | q
    · exact h'.born i r hr hq
    · obtain ⟨r', hr', hm⟩ := h'.old i q hq
      obtain rfl : r' = r := Option.some.inj (hr'.symm.trans hr)
      exact (h.born i q hq hnone).moves hm

/-- **What grows keeps the invariant.** -/
theorem Kept.grows (hkept : Kept PID fam) (h : Grows PID fam fam') : Kept PID fam' where
  root := by
    obtain ⟨p, hp, hroot⟩ := hkept.root
    obtain ⟨q, hq, hm⟩ := h.old 0 p hp
    exact ⟨q, hq, hm.pid.trans hroot.pid, hm.parent.trans hroot.parent,
      (hm.reaped hroot.parent).trans hroot.reaped⟩
  child i q hi hq := by
    rcases hp : fam[i]? with _ | p
    · exact h.born i q hq hp
    · obtain ⟨q', hq', hm⟩ := h.old i p hp
      obtain rfl : q' = q := Option.some.inj (hq'.symm.trans hq)
      exact (hkept.child i p hi hp).moves hm

/-- One process moves. -/
theorem Grows.set (hp : fam[i]? = some p) (hm : Moves PID p q) : Grows PID fam (fam.set i q) where
  old j p' hp' := by
    rcases eq_or_ne i j with rfl | hne
    · obtain rfl : p = p' := Option.some.inj (hp.symm.trans hp')
      have hlt := (List.getElem?_eq_some_iff.mp hp).1
      exact ⟨q, by rw [List.getElem?_set_self hlt], hm⟩
    · exact ⟨p', by rw [List.getElem?_set_ne hne, hp'], Moves.refl p'⟩
  born j q' hq' hnone := by
    have hlen : (fam.set i q).length ≤ j := by
      rw [List.length_set]
      exact List.getElem?_eq_none_iff.mp hnone
    rw [List.getElem?_eq_none hlen] at hq'
    cases hq'

/-- A child is born. -/
theorem Grows.append (hq : Child PID q) : Grows PID fam (fam ++ [q]) where
  old j p hp := by
    have hlt := (List.getElem?_eq_some_iff.mp hp).1
    exact ⟨p, by rw [List.getElem?_append_left hlt, hp], Moves.refl p⟩
  born j q' hq' hnone := by
    rw [List.getElem?_append_right (List.getElem?_eq_none_iff.mp hnone)] at hq'
    obtain rfl : q = q' := by
      have hmem := List.mem_of_getElem? hq'
      exact (List.mem_singleton.mp hmem).symm
    exact hq

/-- A fresh pid is not that of the runner. -/
theorem Kept.fresh (hkept : Kept PID fam) {pid : Int} (h : fam.fresh pid = true) : pid ≠ PID := by
  obtain ⟨p, hp, hroot⟩ := hkept.root
  simp only [Family.fresh, Bool.and_eq_true, List.all_eq_true] at h
  have hother := h.2 p (List.mem_of_getElem? hp)
  rw [hroot.reaped, hroot.pid, Bool.false_or, bne_iff_ne] at hother
  exact hother.symm

end Grows

/-! ## Turns -/

/-- What was observed is still so: who called `os.exit` is no longer in the function, and who was
waited for ended as was seen. -/
def Observed (fam : Family S) : ProcessEvent → Prop
  | .exit i _ => ∃ p, fam[i]? = some p ∧ p.left
  | .waited _ j e => ∃ p, fam[j]? = some p ∧ p.phase = .ended e

theorem Observed.grows {PID : Int} {fam fam' : Family S} {e : ProcessEvent} (he : Observed fam e)
    (h : Grows PID fam fam') : Observed fam' e := by
  cases e with
  | exit i args =>
      obtain ⟨p, hp, hleft⟩ := he
      obtain ⟨q, hq, hm⟩ := h.old i p hp
      exact ⟨q, hq, hm.left hleft⟩
  | waited i j e =>
      obtain ⟨p, hp, hended⟩ := he
      obtain ⟨q, hq, hm⟩ := h.old j p hp
      exact ⟨q, hq, hm.ended e hended⟩

section Turns

variable {PID : Int} {script : Script S} {fam : Family S} {i : Nat} {p : Process S}

theorem fork_grows (hkept : Kept PID fam) (hp : fam[i]? = some p) {s : S}
    (hs : p.phase = .running s) (next : Forked → S) (pid : Int) :
    Grows PID fam (fork fam i p next pid) := by
  rw [fork]
  split_ifs with hfresh
  · refine (Grows.set hp (Moves.step hs (Or.inl ⟨_, rfl⟩) _ _)).trans (Grows.append ?_)
    refine ⟨hkept.fresh hfresh, Option.some_ne_none i, ?_, ?_⟩
    · intro res hres
      cases hres
    · intro status hstatus
      cases hstatus
  · exact Grows.set hp (Moves.step hs (Or.inl ⟨_, rfl⟩) _ _)

/-- The process that is found is a child. -/
theorem isChild_parent {pid : Int} {j : Nat} {q : Process S}
    (hj : fam.findIdx? (Process.isChild i pid) = some j) (hq : fam[j]? = some q) :
    q.parent ≠ none := by
  obtain ⟨hlt, hchild, _⟩ := List.findIdx?_eq_some_iff_getElem.mp hj
  obtain ⟨_, heq⟩ := List.getElem?_eq_some_iff.mp hq
  rw [heq] at hchild
  simp only [Process.isChild, Bool.and_eq_true, beq_iff_eq] at hchild
  rw [hchild.1.1]
  exact Option.some_ne_none i

/-- What is found behind the wait is the end of the child. -/
theorem wait_grows (hp : fam[i]? = some p) {s : S} (hs : p.phase = .running s) (pid : Int)
    (next : Waited → S) : Grows PID fam (wait fam i p pid next).1 ∧
      ∀ e ∈ (wait fam i p pid next).2, Observed (wait fam i p pid next).1 e := by
  have hrunning : ∀ ph : S, Grows PID fam (fam.set i { p with phase := .running ph }) :=
    fun ph => Grows.set hp (Moves.step hs (Or.inl ⟨ph, rfl⟩) _ _)
  rw [wait]
  split_ifs with hzero hneg
  · exact ⟨hrunning _, by simp⟩
  · exact ⟨hrunning _, by simp⟩
  · rcases hj : fam.findIdx? (Process.isChild i pid) with _ | j
    · exact ⟨hrunning _, by simp⟩
    · rcases hq : fam[j]? with _ | q
      · simp only [hq]
        exact ⟨Grows.refl fam, by simp⟩
      · rcases hend : q.end? with _ | e
        · simp only [hq, hend]
          exact ⟨Grows.refl fam, by simp⟩
        · simp only [hq, hend]
          have hne : i ≠ j := by
            intro heq
            rw [heq, hq, Option.some.injEq] at hp
            rw [hp, Process.end?, hs] at hend
            cases hend
          have hreap : Grows PID fam (fam.set j { q with reaped := true }) :=
            Grows.set hq (Moves.reap (isChild_parent hj hq) q.objects)
          have hp' : (fam.set j { q with reaped := true })[i]? = some p := by
            rw [List.getElem?_set_ne hne.symm, hp]
          refine ⟨hreap.trans (Grows.set hp' (Moves.step hs (Or.inl ⟨_, rfl⟩) _ _)), ?_⟩
          intro e' he'
          have hlt := (List.getElem?_eq_some_iff.mp hq).1
          rw [List.mem_singleton.mp he']
          refine ⟨{ q with reaped := true }, ?_, Process.end?_eq_some.mp hend⟩
          rw [List.getElem?_set_ne hne, List.getElem?_set_self hlt]

theorem gc_grows (hp : fam[i]? = some p) (hend : p.end? = none) (pid : Int) :
    Grows PID fam (gc fam i p pid) := by
  have hobjects : Grows PID fam (fam.set i { p with objects := p.objects.erase pid }) :=
    Grows.set hp (Moves.objects (p.objects.erase pid))
  rw [gc]
  split_ifs with hzero hpid
  · exact Grows.set hp (Moves.finish hend (Or.inl rfl))
  · revert hobjects
    generalize fam.set i { p with objects := p.objects.erase pid } = fam'
    intro hobjects
    rcases hj : fam'.findIdx? (Process.isChild i pid) with _ | j
    · simp only [hj]
      exact hobjects
    · rcases hq : fam'[j]? with _ | q
      · simp only [hj, hq]
        exact hobjects
      · simp only [hj, hq]
        exact hobjects.trans (Grows.set hq (Moves.collect (isChild_parent hj hq) SIGKILL))
  · exact hobjects

theorem proceed_grows (hkept : Kept PID fam) (hp : fam[i]? = some p) (answer : Int) :
    Grows PID fam (proceed PID script fam i p answer).1 ∧
      ∀ e ∈ (proceed PID script fam i p answer).2,
        Observed (proceed PID script fam i p answer).1 e := by
  rw [proceed]
  rcases hs : p.phase with s | res | res | e
  · simp only
    have hstep : ∀ (ph : Phase S) (exitArgs : List ExitArg),
        ((∃ s', ph = .running s') ∨ ∃ res, ph = .called res) →
        Grows PID fam (fam.set i { p with phase := ph, exitArgs := exitArgs }) :=
      fun ph exitArgs hph => Grows.set hp (Moves.step hs hph exitArgs p.objects)
    rcases script.doing s with res | ⟨position, args, _ | s'⟩ | next | ⟨pid, next⟩ | next
    · exact ⟨hstep _ _ (Or.inr ⟨_, rfl⟩), by simp⟩
    · refine ⟨hstep _ _ (Or.inr ⟨_, rfl⟩), fun e he => ?_⟩
      have hlt := (List.getElem?_eq_some_iff.mp hp).1
      rw [List.mem_singleton.mp he]
      refine ⟨_, List.getElem?_set_self hlt, ?_⟩
      intro s' hs'
      cases hs'
    · exact ⟨hstep _ _ (Or.inl ⟨_, rfl⟩), by simp⟩
    · exact ⟨fork_grows hkept hp hs next answer, by simp⟩
    · exact wait_grows hp hs pid next
    · exact ⟨hstep _ _ (Or.inl ⟨_, rfl⟩), by simp⟩
  · exact ⟨Grows.set hp (Moves.leave hs), by simp⟩
  · exact ⟨Grows.refl fam, by simp⟩
  · exact ⟨Grows.refl fam, by simp⟩

/-- **What a turn does**: the family grows, and what is observed is so behind it. -/
theorem processes_grows (hkept : Kept PID fam) (turn : Turn) :
    Grows PID fam (processes PID script fam turn).1 ∧
      ∀ e ∈ (processes PID script fam turn).2,
        Observed (processes PID script fam turn).1 e := by
  have hrefl : Grows PID fam fam := Grows.refl fam
  cases turn with
  | run i answer =>
      rw [processes]
      rcases hp : fam[i]? with _ | p
      · simp only
        exact ⟨hrefl, by simp⟩
      · exact proceed_grows hkept hp answer
  | collect i pid =>
      rw [processes]
      rcases hp : fam[i]? with _ | p
      · simp only
        exact ⟨hrefl, by simp⟩
      · simp only
        split_ifs with hcollect
        · exact ⟨gc_grows hp hcollect.2 pid, by simp⟩
        · exact ⟨hrefl, by simp⟩
  | kill i =>
      rw [processes]
      rcases hp : fam[i]? with _ | p
      · simp only
        exact ⟨hrefl, by simp⟩
      · simp only
        split_ifs with hend
        · exact ⟨Grows.set hp (Moves.finish hend (Or.inr ⟨SIGKILL, rfl⟩)), by simp⟩
        · exact ⟨hrefl, by simp⟩

/-- **What a run does.** -/
theorem run_grows (hkept : Kept PID fam) (turns : List Turn) :
    Grows PID fam ((processes PID script).after fam turns) ∧
      ∀ e ∈ (processes PID script).events fam turns,
        Observed ((processes PID script).after fam turns) e := by
  induction turns generalizing fam with
  | nil => exact ⟨Grows.refl fam, by simp⟩
  | cons turn turns ih =>
      obtain ⟨hgrows, hobserved⟩ := processes_grows hkept turn
      obtain ⟨hgrows', hobserved'⟩ := ih (hkept.grows hgrows)
      rw [Machine.after_cons, Machine.events_cons]
      refine ⟨hgrows.trans hgrows', List.forall_mem_append.mpr ⟨fun e he => ?_, hobserved'⟩⟩
      exact (hobserved e he).grows hgrows'

theorem start_kept (exitArgs : List ExitArg) (objects : List Int) :
    Kept PID (Family.start PID script exitArgs objects) where
  root := ⟨_, rfl, rfl, rfl, rfl⟩
  child i p hi hp := by
    rw [Family.start, List.getElem?_eq_none (by simp only [List.length_singleton]; omega)] at hp
    cases hp

end Turns

/-! ## Exit statuses -/

/-- A call of a function: the arguments of the last `os.exit` before it, the process objects that
are left from before, and the turns that are taken. -/
structure Calling (S : Type) where
  PID : Int
  script : Script S
  exitArgs : List ExitArg
  objects : List Int
  turns : List Turn

/-- The processes behind the turns. -/
def Calling.family (c : Calling S) : Family S :=
  (processes c.PID c.script).after (.start c.PID c.script c.exitArgs c.objects) c.turns

/-- What was observed. -/
def Calling.events (c : Calling S) : List ProcessEvent :=
  (processes c.PID c.script).events (.start c.PID c.script c.exitArgs c.objects) c.turns

/-- The process exited with the status: as it is, or as it was seen by who waited for it. -/
def Calling.ExitedWith (c : Calling S) (i : Nat) (status : Int) : Prop :=
  (∃ p, c.family[i]? = some p ∧ p.phase = .ended (.exited status)) ∨
    ∃ j, .waited j i (.exited status) ∈ c.events

section Calling

variable {c : Calling S} {i : Nat}

theorem Calling.kept (c : Calling S) : Kept c.PID c.family :=
  (start_kept c.exitArgs c.objects).grows (run_grows (start_kept c.exitArgs c.objects) c.turns).1

theorem Calling.observed (c : Calling S) : ∀ e ∈ c.events, Observed c.family e :=
  (run_grows (start_kept c.exitArgs c.objects) c.turns).2

/-- A child that exits does so with 0. -/
theorem Calling.ExitedWith.zero {status : Int} (hi : i ≠ 0) (h : c.ExitedWith i status) :
    status = 0 := by
  have hended : ∃ p, c.family[i]? = some p ∧ p.phase = .ended (.exited status) := by
    rcases h with hended | ⟨j, hwaited⟩
    · exact hended
    · exact c.observed _ hwaited
  obtain ⟨p, hp, hphase⟩ := hended
  exact (c.kept.child i p hi hp).exited status hphase

/-- A child behind the protected call exits in its next turn. -/
theorem Child.exits {PID : Int} {script : Script S} {fam : Family S} {p : Process S}
    (hchild : Child PID p) (hp : fam[i]? = some p) (hleft : p.left) (hend : p.end? = none)
    (answer : Int) : ∃ q, (processes PID script fam (.run i answer)).1[i]? = some q ∧
      q.phase = .ended (.exited 0) := by
  have hlt := (List.getElem?_eq_some_iff.mp hp).1
  rw [processes]
  simp only [hp]
  rw [proceed]
  rcases hphase : p.phase with s | res | res | e
  · exact absurd hphase (hleft s)
  · refine ⟨_, List.getElem?_set_self hlt, ?_⟩
    simp only [leave_eq, if_neg hchild.pid]
  · exact absurd hphase (hchild.back res)
  · rw [Process.end?_eq_some.mpr hphase] at hend
    cases hend

end Calling

/-- **The exit status of a forked child.**  In every run, a child that called `os.exit` without the
function catching it does not go on in the function, and if it did not end yet, it exits in its
next turn.  If it exits, then the status is the one that `os.exit` was asked for exactly if that
is 0. -/
theorem forked_exit_status (c : Calling S) (i : Nat) (args : List ExitArg) (hi : i ≠ 0)
    (hexit : .exit i args ∈ c.events) :
    (∃ p, c.family[i]? = some p ∧ p.left ∧ (p.end? = none → ∀ answer,
      ∃ q, (processes c.PID c.script c.family (.run i answer)).1[i]? = some q ∧
        ∃ status, q.phase = .ended (.exited status) ∧
          (status = askedStatus args ↔ askedStatus args = 0))) ∧
    ∀ status, c.ExitedWith i status → (status = askedStatus args ↔ askedStatus args = 0) := by
  obtain ⟨p, hp, hleft⟩ := c.observed _ hexit
  refine ⟨⟨p, hp, hleft, fun hend answer => ?_⟩, fun status hstatus => ?_⟩
  · obtain ⟨q, hq, hphase⟩ := (c.kept.child i p hi hp).exits hp hleft hend answer
    exact ⟨q, hq, 0, hphase, eq_comm⟩
  · rw [hstatus.zero hi]
    exact eq_comm

/-! ### A child that calls `os.exit` -/

/-- The function forks once; the child calls `os.exit(code)`, and the parent waits for it. -/
def exitWith (code : Int) : Script Int where
  start := 0
  doing s :=
    if s = 0 then
      .fork fun res =>
        match res with
        | .child => 1
        | .parent pid => pid
        | .failed => -1
    else if s = 1 then .exit "x_test.lua:3: ".toList [.integer code] none
    else if 1 < s then .wait s fun _ => -1
    else .done (.ok ())
  traceback msg := msg

/-- The fork, the turns of the child, and the wait of the parent. -/
def waitedExit (code : Int) : Calling Int where
  PID := 42
  script := exitWith code
  exitArgs := []
  objects := []
  turns := [.run 0 100, .run 1 0, .run 1 0, .run 0 0]

theorem waitedExit_events (code : Int) :
    (waitedExit code).events = [.exit 1 [.integer code], .waited 0 1 (.exited 0)] := rfl

/-- `os.exit(256)` asks for the status 0, and that is what the parent sees. -/
theorem exitZero_survives :
    (waitedExit 256).ExitedWith 1 0 ∧ 0 = askedStatus [.integer 256] := by
  have hstatus : (waitedExit 256).ExitedWith 1 0 := Or.inr ⟨0, by simp [waitedExit_events]⟩
  refine ⟨hstatus, ?_⟩
  exact ((forked_exit_status (waitedExit 256) 1 [.integer 256] (by decide)
    (by simp [waitedExit_events])).2 0 hstatus).mpr rfl

/-- The status 3 is lost. -/
theorem exitThree_lost : ¬ ∀ (i : Nat) (args : List ExitArg) (status : Int), i ≠ 0 →
    .exit i args ∈ (waitedExit 3).events → (waitedExit 3).ExitedWith i status →
    status = askedStatus args := by
  intro hsurvive
  have hstatus := hsurvive 1 [.integer 3] 0 (by decide) (by simp [waitedExit_events])
    (Or.inr ⟨0, by simp [waitedExit_events]⟩)
  exact absurd hstatus (by decide)

end Testcase
