import Mathlib.Data.List.Induction
import LuaTestcase.Timer.Def

/-!
# Timer arithmetic is exact

The operations of a timer in any order and number, with clock failures anywhere.  If the readings
fit in 64 bits and do not go back, then `total ≤ start` and `start` is at most the latest reading:
this is the invariant `Timer.Sound`, and it is what keeps the subtractions of `stop` and `elapsed`
and the sum of `stop` from wrapping around.

Repeated stops are laps, and a `reset` sets `start` to `0`, so the sum of the laps is compared with
`total` and not with a distance from some start.
-/

namespace Testcase

/-! ## Readings -/

/-- What a call reads from the clock. -/
def TimerCall.reading (c : TimerCall) : Option Timespec :=
  match c.clock with
  | some (.ok ts) => some ts
  | _ => none

/-- What a sequence of calls reads. -/
def readings (calls : List TimerCall) : List Timespec := calls.filterMap TimerCall.reading

/-- The readings fit, and no reading is before an earlier one. -/
def Clocked (calls : List TimerCall) : Prop :=
  (∀ ts ∈ readings calls, ts.Fits) ∧
    (readings calls).Pairwise (fun a b => a.nanos ≤ b.nanos)

instance (calls : List TimerCall) : Decidable (Clocked calls) :=
  inferInstanceAs (Decidable (_ ∧ _))

/-- The latest reading, `0` before the first one. -/
def latest (calls : List TimerCall) : Int :=
  match (readings calls).getLast? with
  | some ts => ts.nanos
  | none => 0

theorem readings_concat (calls : List TimerCall) (c : TimerCall) :
    readings (calls ++ [c]) = readings calls ++ c.reading.toList := by
  rw [readings, List.filterMap_append]
  rcases h : c.reading with _ | ts
  · simp [readings, h]
  · simp [readings, h]

/-- One more call. -/
theorem clocked_concat {calls : List TimerCall} {c : TimerCall} (h : Clocked (calls ++ [c])) :
    Clocked calls ∧
      ∀ ts, c.reading = some ts → ts.Fits ∧ ∀ past ∈ readings calls, past.nanos ≤ ts.nanos := by
  obtain ⟨hfit, hle⟩ := h
  rw [readings_concat] at hfit hle
  rw [List.pairwise_append] at hle
  refine ⟨⟨fun ts hts => hfit ts (by simp [hts]), hle.1⟩, ?_⟩
  intro ts hts
  rw [hts] at hfit hle
  exact ⟨hfit ts (by simp), fun past hpast => hle.2.2 past hpast ts (by simp)⟩

theorem latest_mem (calls : List TimerCall) :
    (readings calls = [] ∧ latest calls = 0) ∨
      ∃ ts ∈ readings calls, latest calls = ts.nanos := by
  rw [latest]
  rcases h : (readings calls).getLast? with _ | ts
  · exact .inl ⟨List.getLast?_eq_none_iff.mp h, rfl⟩
  · exact .inr ⟨ts, List.mem_of_getLast? h, rfl⟩

theorem latest_concat_none {calls : List TimerCall} {c : TimerCall} (h : c.reading = none) :
    latest (calls ++ [c]) = latest calls := by
  rw [latest, readings_concat, h, Option.toList_none, List.append_nil]
  rfl

theorem latest_concat_some {calls : List TimerCall} {c : TimerCall} {ts : Timespec}
    (h : c.reading = some ts) : latest (calls ++ [c]) = ts.nanos := by
  rw [latest, readings_concat, h, Option.toList_some, List.getLast?_concat]

/-- A reading is not before the latest one. -/
theorem latest_le {calls : List TimerCall} {c : TimerCall} {ts : Timespec}
    (h : Clocked (calls ++ [c])) (hc : c.reading = some ts) :
    ts.Fits ∧ latest calls ≤ ts.nanos := by
  obtain ⟨hfit, hpast⟩ := (clocked_concat h).2 ts hc
  refine ⟨hfit, ?_⟩
  rcases latest_mem calls with ⟨-, h0⟩ | ⟨last, hlast, heq⟩
  · rw [h0]
    exact hfit.1
  · rw [heq]
    exact hpast last hlast

/-! ## The invariant -/

/-- `total ≤ start ≤ now`. -/
structure Timer.Sound (t : Timer) (now : Int) : Prop where
  total_le : t.total ≤ t.start
  start_le : (t.start.toNat : Int) ≤ now

theorem Timer.Sound.mono {t : Timer} {now now' : Int} (h : t.Sound now) (hle : now ≤ now') :
    t.Sound now' :=
  ⟨h.total_le, h.start_le.trans hle⟩

/-- The distance to a later reading is computed without wrapping around. -/
theorem Timer.Sound.elapsed {t : Timer} {now : Int} (h : t.Sound now) {ts : Timespec}
    (hfit : ts.Fits) (hle : now ≤ ts.nanos) :
    ((ts.ns - t.start).toNat : Int) = ts.nanos - t.start.toNat := by
  have hns := toNat_ns hfit
  have hstart := h.start_le
  have hsub : t.start ≤ ts.ns := UInt64.le_iff_toNat_le.mpr (by omega)
  rw [UInt64.toNat_sub_of_le _ _ hsub]
  have := UInt64.le_iff_toNat_le.mp hsub
  omega

/-- Nor does the sum of `stop` wrap around: it is at most the reading. -/
theorem Timer.Sound.accumulated {t : Timer} {now : Int} (h : t.Sound now) {ts : Timespec}
    (hfit : ts.Fits) (hle : now ≤ ts.nanos) :
    (t.total + (ts.ns - t.start)).toNat = t.total.toNat + (ts.ns - t.start).toNat := by
  have helapsed := h.elapsed hfit hle
  have htotal := UInt64.le_iff_toNat_le.mp h.total_le
  have hns := toNat_ns hfit
  have hlt := ts.ns.toNat_lt
  rw [UInt64.toNat_add, Nat.mod_eq_of_lt]
  omega

theorem sound_new {now : Int} (h : 0 ≤ now) : Timer.new.Sound now := ⟨Nat.le_refl _, h⟩

/-- A successful `start` or `stop` leaves the reading in `start`. -/
theorem sound_start {t : Timer} {now : Int} (h : t.Sound now) {ts : Timespec} (hfit : ts.Fits)
    (hle : now ≤ ts.nanos) : (Timer.mk t.total ts.ns).Sound ts.nanos := by
  have hns := toNat_ns hfit
  have htotal := UInt64.le_iff_toNat_le.mp h.total_le
  have hstart := h.start_le
  exact ⟨UInt64.le_iff_toNat_le.mpr (by show t.total.toNat ≤ ts.ns.toNat; omega), hns.le⟩

theorem sound_stop {t : Timer} {now : Int} (h : t.Sound now) {ts : Timespec} (hfit : ts.Fits)
    (hle : now ≤ ts.nanos) :
    (Timer.mk (t.total + (ts.ns - t.start)) ts.ns).Sound ts.nanos := by
  have hns := toNat_ns hfit
  have helapsed := h.elapsed hfit hle
  have hsum := h.accumulated hfit hle
  have htotal := UInt64.le_iff_toNat_le.mp h.total_le
  refine ⟨UInt64.le_iff_toNat_le.mpr ?_, hns.le⟩
  show (t.total + (ts.ns - t.start)).toNat ≤ ts.ns.toNat
  omega

/-! ## One call -/

/-- What a call can be: a `start` or a `stop` that reads `ns`, a `reset`, or a call that changes
nothing.  The reading is a variable here, as its computation is of no interest to a state. -/
theorem timer_cases (t : Timer) (c : TimerCall) :
    (∃ ts ns, ts.ns = ns ∧ c = .start (.ok ts) ∧ timer t c = (⟨t.total, ns⟩, [.started])) ∨
      (∃ ts ns, ts.ns = ns ∧ c = .stop (.ok ts) ∧
        timer t c = (⟨t.total + (ns - t.start), ns⟩, [.utime (nsec2utime (ns - t.start))])) ∨
      (c = .reset ∧ timer t c = (Timer.new, [.nothing])) ∨
      ((timer t c).1 = t ∧ c ≠ .reset ∧ ∀ ts, c ≠ .stop (.ok ts)) := by
  cases c with
  | start clock =>
      cases clock with
      | error errno => exact .inr (.inr (.inr ⟨rfl, by simp, by simp⟩))
      | ok ts => exact .inl ⟨ts, _, rfl, rfl, rfl⟩
  | stop clock =>
      cases clock with
      | error errno => exact .inr (.inr (.inr ⟨rfl, by simp, by simp⟩))
      | ok ts => exact .inr (.inl ⟨ts, _, rfl, rfl, rfl⟩)
  | elapsed inSec clock => exact .inr (.inr (.inr ⟨by simp, by simp, by simp⟩))
  | total => exact .inr (.inr (.inr ⟨rfl, by simp, by simp⟩))
  | reset => exact .inr (.inr (.inl ⟨rfl, rfl⟩))

theorem latest_mono {calls : List TimerCall} {c : TimerCall} (h : Clocked (calls ++ [c])) :
    latest calls ≤ latest (calls ++ [c]) := by
  rcases hc : c.reading with _ | ts
  · rw [latest_concat_none hc]
  · rw [latest_concat_some hc]
    exact (latest_le h hc).2

theorem latest_nonneg {calls : List TimerCall} (h : Clocked calls) : 0 ≤ latest calls := by
  rcases latest_mem calls with ⟨-, h0⟩ | ⟨ts, hts, heq⟩
  · exact h0.ge
  · rw [heq]
    exact (h.1 ts hts).1

/-- The invariant holds in every run. -/
theorem sound_after {calls : List TimerCall} (h : Clocked calls) :
    (timer.after Timer.new calls).Sound (latest calls) := by
  induction calls using List.reverseRecOn with
  | nil => exact sound_new (le_refl 0)
  | append_singleton calls c ih =>
      have hs := ih (clocked_concat h).1
      rw [Machine.after_concat]
      rcases timer_cases (timer.after Timer.new calls) c with
        ⟨ts, ns, rfl, rfl, heq⟩ | ⟨ts, ns, rfl, rfl, heq⟩ | ⟨rfl, heq⟩ | ⟨heq, -⟩
      · obtain ⟨hfit, hle⟩ := latest_le h rfl
        rw [heq, latest_concat_some rfl]
        exact sound_start hs hfit hle
      · obtain ⟨hfit, hle⟩ := latest_le h rfl
        rw [heq, latest_concat_some rfl]
        exact sound_stop hs hfit hle
      · rw [heq]
        exact sound_new (latest_nonneg h)
      · rw [heq]
        exact hs.mono (latest_mono h)

/-! ## Laps -/

/-- The calls of a run with their results. -/
def timerHistory (calls : List TimerCall) : List (TimerCall × TimerResult) :=
  calls.zip (timer.events Timer.new calls)

/-- The times that the stops returned since the last `reset`, where `before` are the ones of the
calls before. -/
def lap (before : List Nat) : TimerCall × TimerResult → List Nat
  | (.reset, _) => []
  | (.stop _, .utime u) => before ++ [u.ns.toNat]
  | _ => before

/-- The times that the stops returned since the last `reset`. -/
def laps (calls : List TimerCall) : List Nat := (timerHistory calls).foldl lap []

theorem events_length (t : Timer) (calls : List TimerCall) :
    (timer.events t calls).length = calls.length := by
  induction calls generalizing t with
  | nil => rfl
  | cons c calls ih =>
      rw [Machine.events_cons, List.length_append, ih, timer_returns, List.length_cons, Nat.add_comm]

/-- One more call. -/
theorem laps_concat (calls : List TimerCall) (c : TimerCall) :
    laps (calls ++ [c]) =
      ([c].zip (timer (timer.after Timer.new calls) c).2).foldl lap (laps calls) := by
  rw [laps, timerHistory, Machine.events_concat, List.zip_append (events_length _ _).symm,
    List.foldl_append]
  rfl

theorem laps_stop (calls : List TimerCall) (ts : Timespec) :
    laps (calls ++ [.stop (.ok ts)]) =
      laps calls ++ [(ts.ns - (timer.after Timer.new calls).start).toNat] := by
  rw [laps_concat, timer_stop]
  simp [lap]

theorem laps_reset (calls : List TimerCall) : laps (calls ++ [.reset]) = [] := by
  rw [laps_concat, timer_reset]
  rfl

theorem laps_other {calls : List TimerCall} {c : TimerCall} (hreset : c ≠ .reset)
    (hstop : ∀ ts, c ≠ .stop (.ok ts)) : laps (calls ++ [c]) = laps calls := by
  rw [laps_concat]
  cases c with
  | start clock => cases clock <;> rfl
  | stop clock =>
      cases clock with
      | error errno => rfl
      | ok ts => exact absurd rfl (hstop ts)
  | elapsed inSec clock => rcases clock with errno | ts <;> cases inSec <;> rfl
  | total => rfl
  | reset => exact absurd rfl hreset

/-- `total` is the sum of the laps. -/
theorem total_eq_laps {calls : List TimerCall} (h : Clocked calls) :
    (timer.after Timer.new calls).total.toNat = (laps calls).sum := by
  induction calls using List.reverseRecOn with
  | nil => rfl
  | append_singleton calls c ih =>
      have hcalls := (clocked_concat h).1
      have hs := sound_after hcalls
      rw [Machine.after_concat]
      rcases timer_cases (timer.after Timer.new calls) c with
        ⟨ts, ns, -, rfl, heq⟩ | ⟨ts, ns, hns, rfl, heq⟩ | ⟨rfl, heq⟩ | ⟨heq, hreset, hstop⟩
      · rw [heq, laps_other (by simp) (by simp), ← ih hcalls]
      · obtain ⟨hfit, hle⟩ := latest_le h rfl
        have hsum := hs.accumulated hfit hle
        rw [hns] at hsum
        rw [heq, laps_stop, List.sum_append, List.sum_singleton, ← ih hcalls, hns]
        exact hsum
      · rw [heq, laps_reset]
        rfl
      · rw [heq, laps_other hreset hstop, ih hcalls]

/-! ## A start before the first stop -/

/-- A call that is no `reset`. -/
def TimerCall.Keeps (c : TimerCall) : Prop := c ≠ .reset

/-- A call that is neither a `reset` nor a successful `stop`. -/
def TimerCall.Quiet (c : TimerCall) : Prop := c ≠ .reset ∧ ∀ ts, c ≠ .stop (.ok ts)

theorem quiet_total (t : Timer) {calls : List TimerCall} (h : ∀ c ∈ calls, c.Quiet) :
    (timer.after t calls).total = t.total := by
  induction calls generalizing t with
  | nil => rfl
  | cons c calls ih =>
      have hc := h c (by simp)
      rw [Machine.after_cons, ih _ (fun x hx => h x (by simp [hx]))]
      rcases timer_cases t c with
        ⟨ts, ns, -, rfl, heq⟩ | ⟨ts, ns, -, rfl, -⟩ | ⟨rfl, -⟩ | ⟨heq, -⟩
      · rw [heq]
      · exact absurd rfl (hc.2 ts)
      · exact absurd rfl hc.1
      · rw [heq]

/-- `total` is at most the time from `t₀` to the last start or stop. -/
def Timer.Since (t : Timer) (t₀ : Int) : Prop := (t.total.toNat : Int) + t₀ ≤ t.start.toNat

/-- Without a `reset` it stays so. -/
theorem since_after {run calls : List TimerCall} {t₀ : Int} (h : Clocked (run ++ calls))
    (hkeeps : ∀ c ∈ calls, c.Keeps) (hrun : (timer.after Timer.new run).Since t₀) :
    (timer.after Timer.new (run ++ calls)).Since t₀ := by
  induction calls using List.reverseRecOn with
  | nil => rwa [List.append_nil]
  | append_singleton calls c ih =>
      rw [← List.append_assoc] at h ⊢
      have hs := sound_after (clocked_concat h).1
      have hsince := ih (clocked_concat h).1 (fun x hx => hkeeps x (by simp [hx]))
      rw [Machine.after_concat]
      rcases timer_cases (timer.after Timer.new (run ++ calls)) c with
        ⟨ts, ns, hread, rfl, heq⟩ | ⟨ts, ns, hread, rfl, heq⟩ | ⟨rfl, -⟩ | ⟨heq, -⟩
      · obtain ⟨hfit, hle⟩ := latest_le h rfl
        have hns := toNat_ns hfit
        have hstart := hs.start_le
        rw [hread] at hns
        unfold Timer.Since at hsince ⊢
        rw [heq]
        dsimp only
        omega
      · obtain ⟨hfit, hle⟩ := latest_le h rfl
        have hns := toNat_ns hfit
        have helapsed := hs.elapsed hfit hle
        have hsum := hs.accumulated hfit hle
        rw [hread] at hns helapsed hsum
        unfold Timer.Since at hsince ⊢
        rw [heq]
        dsimp only
        omega
      · exact absurd rfl (hkeeps .reset (by simp))
      · rwa [heq]

/-- The run began, or it was just reset. -/
def Fresh (calls : List TimerCall) : Prop := calls = [] ∨ ∃ before, calls = before ++ [.reset]

theorem fresh_after {calls : List TimerCall} (h : Fresh calls) :
    timer.after Timer.new calls = Timer.new := by
  rcases h with rfl | ⟨before, rfl⟩
  · rfl
  · rw [Machine.after_concat]
    rfl

theorem clocked_append {calls more : List TimerCall} (h : Clocked (calls ++ more)) :
    Clocked calls := by
  induction more using List.reverseRecOn with
  | nil => rwa [List.append_nil] at h
  | append_singleton more c ih =>
      rw [← List.append_assoc] at h
      exact ih (clocked_concat h).1

/-- A start at `ts` before the first stop, and the last stop at `ts'`. -/
theorem total_le_distance {fresh first between last : List TimerCall} {ts ts' : Timespec}
    (h : Clocked (fresh ++ first ++ [.start (.ok ts)] ++ between ++ [.stop (.ok ts')] ++ last))
    (hfresh : Fresh fresh) (hfirst : ∀ c ∈ first, c.Quiet) (hbetween : ∀ c ∈ between, c.Keeps)
    (hlast : ∀ c ∈ last, c.Quiet) :
    ((timer.after Timer.new
      (fresh ++ first ++ [.start (.ok ts)] ++ between ++ [.stop (.ok ts')] ++ last)).total.toNat
        : Int) ≤ ts'.nanos - ts.nanos := by
  have hstop := clocked_append h
  have hbegin := clocked_append (clocked_append hstop)
  have hzero : (timer.after Timer.new (fresh ++ first)).total = 0 := by
    rw [Machine.after_append, quiet_total _ hfirst, fresh_after hfresh]
    rfl
  have hstarted : (timer.after Timer.new (fresh ++ first ++ [.start (.ok ts)])).Since ts.nanos := by
    have hns := toNat_ns (latest_le hbegin rfl).1
    rw [Machine.after_concat, timer_start, hzero]
    generalize ts.ns = ns at hns
    rw [Timer.Since]
    show (0 : Int) + ts.nanos ≤ ns.toNat
    omega
  have hstopped := since_after (by rwa [List.append_assoc] at hstop) (by
    intro c hc
    rcases List.mem_append.mp hc with hc | hc
    · exact hbetween c hc
    · rw [List.mem_singleton.mp hc]
      simp [TimerCall.Keeps]) hstarted
  have hns := toNat_ns (latest_le hstop rfl).1
  rw [Machine.after_append, quiet_total _ hlast]
  rw [← List.append_assoc, Timer.Since] at hstopped
  have hread : (timer.after Timer.new
      (fresh ++ first ++ [.start (.ok ts)] ++ between ++ [.stop (.ok ts')])).start = ts'.ns := by
    rw [Machine.after_concat, timer_stop]
  rw [hread] at hstopped
  omega

/-! ## Exactness -/

/-- What holds after the calls `calls`. -/
structure TimerExact (calls : List TimerCall) : Prop where
  /-- `total ≤ start ≤` the latest reading. -/
  total_le_start : (timer.after Timer.new calls).total ≤ (timer.after Timer.new calls).start
  start_le_latest : ((timer.after Timer.new calls).start.toNat : Int) ≤ latest calls
  /-- `total` is the sum of what the stops returned since the last `reset`. -/
  total_eq_sum : (timer.after Timer.new calls).total.toNat = (laps calls).sum
  /-- `total` returns this sum as `nsec2utime` shows it, and changes nothing. -/
  total : ∃ ns : UInt64,
    timer (timer.after Timer.new calls) .total =
      (timer.after Timer.new calls, [.utime (nsec2utime ns)]) ∧
    ns.toNat = (laps calls).sum
  /-- A `stop` returns the distance to `start`, and adds it to `total`. -/
  stop : ∀ ts, Clocked (calls ++ [.stop (.ok ts)]) →
    ∃ u : Utime,
      timer (timer.after Timer.new calls) (.stop (.ok ts)) =
        (⟨(timer.after Timer.new calls).total + u.ns, ts.ns⟩, [.utime u]) ∧
      (u.ns.toNat : Int) = ts.nanos - (timer.after Timer.new calls).start.toNat ∧
      ((timer.after Timer.new calls).total + u.ns).toNat =
        (timer.after Timer.new calls).total.toNat + u.ns.toNat
  /-- `elapsed` returns the distance to `start`. -/
  elapsed : ∀ inSec ts, Clocked (calls ++ [.elapsed inSec (.ok ts)]) →
    ∃ ns : UInt64,
      timer (timer.after Timer.new calls) (.elapsed inSec (.ok ts)) =
        (timer.after Timer.new calls,
          [if inSec then .seconds ns else .utime (nsec2utime ns)]) ∧
      (ns.toNat : Int) = ts.nanos - (timer.after Timer.new calls).start.toNat
  /-- A call that cannot read the clock changes nothing. -/
  failed : ∀ (c : TimerCall) (errno : Nat), c.clock = some (.error errno) →
    (timer (timer.after Timer.new calls) c).1 = timer.after Timer.new calls
  /-- If a start succeeds before the first stop, `total` is at most the time from that start to
  the last stop. -/
  within : ∀ (fresh first between last : List TimerCall) (ts ts' : Timespec),
    calls = fresh ++ first ++ [.start (.ok ts)] ++ between ++ [.stop (.ok ts')] ++ last →
    Fresh fresh → (∀ c ∈ first, c.Quiet) → (∀ c ∈ between, c.Keeps) → (∀ c ∈ last, c.Quiet) →
    ((timer.after Timer.new calls).total.toNat : Int) ≤ ts'.nanos - ts.nanos

/-- Timer arithmetic is exact. -/
theorem timer_exact {calls : List TimerCall} (h : Clocked calls) : TimerExact calls where
  total_le_start := (sound_after h).total_le
  start_le_latest := (sound_after h).start_le
  total_eq_sum := total_eq_laps h
  total := ⟨(timer.after Timer.new calls).total, rfl, total_eq_laps h⟩
  stop ts hclocked := by
    obtain ⟨hfit, hle⟩ := latest_le hclocked rfl
    have hs := sound_after h
    refine ⟨nsec2utime (ts.ns - (timer.after Timer.new calls).start), ?_, ?_, ?_⟩
    · rw [timer_stop, nsec2utime_ns]
    · rw [nsec2utime_ns]
      exact hs.elapsed hfit hle
    · rw [nsec2utime_ns]
      exact hs.accumulated hfit hle
  elapsed inSec ts hclocked := by
    obtain ⟨hfit, hle⟩ := latest_le hclocked rfl
    refine ⟨ts.ns - (timer.after Timer.new calls).start, ?_, (sound_after h).elapsed hfit hle⟩
    cases inSec with
    | true => rfl
    | false => rfl
  failed c errno hc := timer_failed _ hc
  within fresh first between last ts ts' heq hfresh hfirst hbetween hlast := by
    subst heq
    exact total_le_distance h hfresh hfirst hbetween hlast

/-- A run with a stop without a start, a failed stop, a `reset` and two laps, which are a second in
sum. -/
theorem lapped_exact :
    TimerExact [.stop (.ok ⟨1, 5⟩), .stop (.error 22), .reset, .start (.ok ⟨2, 0⟩),
      .stop (.ok ⟨2, 7⟩), .stop (.ok ⟨3, 0⟩)] ∧
    laps [.stop (.ok ⟨1, 5⟩), .stop (.error 22), .reset, .start (.ok ⟨2, 0⟩),
      .stop (.ok ⟨2, 7⟩), .stop (.ok ⟨3, 0⟩)] = [7, 999999993] :=
  ⟨timer_exact (by decide), by decide⟩

end Testcase
