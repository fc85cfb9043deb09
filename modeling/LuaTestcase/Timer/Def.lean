import Mathlib.Algebra.Order.Ring.Int
import LuaTestcase.Core.Machine
import LuaTestcase.Lua.String

/-!
# `testcase.timer`

The timer of `src/timer.c` as a machine that is driven by its methods.  Its two fields are unsigned
numbers of 64 bits that wrap around.  Every method but `total` and `reset` reads the clock, which
may fail; what it reads is part of the call.

A time is returned as a number of nanoseconds with the divisor of its unit: it is rounded only
where the quotient becomes a Lua number.
-/

namespace Testcase

/-! ## The clock -/

/-- `struct timespec`. -/
structure Timespec where
  tv_sec : Int64
  tv_nsec : Int64
deriving DecidableEq

def NSEC_IN_SEC : Nat := 1000000000

/-- What `getnsec_ex` does: it fails with an `errno`, or it fills the structure. -/
abbrev Clock : Type := Except Nat Timespec

/-- `*ns` in `getnsec`. -/
def Timespec.ns (ts : Timespec) : UInt64 :=
  ts.tv_sec.toUInt64 * UInt64.ofNat NSEC_IN_SEC + ts.tv_nsec.toUInt64

/-- `getnsec(&ns)`. -/
def getnsec : Clock → Except Nat UInt64
  | .error errno => .error errno
  | .ok ts => .ok ts.ns

/-- The time that was read, in nanoseconds. -/
def Timespec.nanos (ts : Timespec) : Int := ts.tv_sec.toInt * NSEC_IN_SEC + ts.tv_nsec.toInt

/-- The time fits in 64 bits. -/
def Timespec.Fits (ts : Timespec) : Prop := 0 ≤ ts.nanos ∧ ts.nanos < 2 ^ 64

instance (ts : Timespec) : Decidable ts.Fits := inferInstanceAs (Decidable (_ ∧ _))

/-- A cast keeps the value modulo `2 ^ 64`. -/
theorem toUInt64_eq_ofInt (x : Int64) : x.toUInt64 = UInt64.ofInt x.toInt := by
  have hcast : ∀ i : Int, (Int64.ofInt i).toUInt64.toNat = (i % 2 ^ 64).toNat := by
    intro i
    show (Int64.ofInt i).toBitVec.toNat = _
    rw [Int64.toBitVec_ofInt, BitVec.toNat_ofInt]
    rfl
  have hlt : (x.toInt % 2 ^ 64).toNat < 2 ^ 64 := by
    have := Int.emod_lt_of_pos x.toInt (show (0 : Int) < 2 ^ 64 by decide)
    omega
  apply UInt64.toNat_inj.mp
  rw [UInt64.ofInt, UInt64.toNat_ofNat_of_lt' hlt, ← hcast, Int64.ofInt_toInt]

/-- Wrap-around arithmetic computes the time modulo `2 ^ 64`. -/
theorem ns_eq_ofInt (ts : Timespec) : ts.ns = UInt64.ofInt ts.nanos := by
  rw [Timespec.ns, Timespec.nanos, UInt64.ofInt_add, UInt64.ofInt_mul, toUInt64_eq_ofInt,
    toUInt64_eq_ofInt]
  rfl

/-- A reading that fits is read exactly. -/
theorem toNat_ns {ts : Timespec} (h : ts.Fits) : (ts.ns.toNat : Int) = ts.nanos := by
  have hmod : ts.nanos % 2 ^ 64 = ts.nanos := Int.emod_eq_of_lt h.1 h.2
  have hlt : ts.nanos.toNat < 2 ^ 64 := by
    have := h.2
    omega
  rw [ns_eq_ofInt, UInt64.ofInt, hmod, UInt64.toNat_ofNat_of_lt' hlt, Int.toNat_of_nonneg h.1]

/-! ## Times with a unit -/

/-- The three results of `nsec2utime`: a time, its format and its unit. -/
structure Utime where
  ns : UInt64
  divisor : Nat
  format : Str
  unit : Str
deriving DecidableEq

/-- `nsec2utime(L, ns)`. -/
def nsec2utime (ns : UInt64) : Utime :=
  let us := 1000
  let ms := us * 1000
  let sec := ms * 1000
  let min := sec * 60
  if min ≤ ns.toNat then ⟨ns, min, "%.3f m".toList, "m".toList⟩
  else if sec ≤ ns.toNat then ⟨ns, sec, "%.3f s".toList, "s".toList⟩
  else if ms ≤ ns.toNat then ⟨ns, ms, "%.3f ms".toList, "ms".toList⟩
  else if us ≤ ns.toNat then ⟨ns, us, "%.3f us".toList, "us".toList⟩
  else ⟨ns, 1, "%d ns".toList, "ns".toList⟩

/-- The unit does not change the time. -/
@[simp] theorem nsec2utime_ns (ns : UInt64) : (nsec2utime ns).ns = ns := by
  simp only [nsec2utime]
  split_ifs <;> rfl

/-! ## The methods -/

/-- `testcase_timer_t`. -/
structure Timer where
  total : UInt64
  start : UInt64
deriving DecidableEq

/-- `new_lua()`. -/
def Timer.new : Timer := ⟨0, 0⟩

/-- A call of a method.  `elapsed` is `get_elapsed_lua`, which both `elapsed` and `elapsed_sec`
call. -/
inductive TimerCall where
  | start (clock : Clock)
  | stop (clock : Clock)
  | elapsed (inSec : Bool) (clock : Clock)
  | total
  | reset
deriving DecidableEq

/-- What a method returns: `nil` or `false` with the message of an `errno`, `true`, nothing, a time
with its unit, or a number of nanoseconds that is returned in seconds. -/
inductive TimerResult where
  | failed (errno : Nat)
  | refused (errno : Nat)
  | started
  | nothing
  | utime (u : Utime)
  | seconds (ns : UInt64)
deriving DecidableEq

/-- `start_lua`. -/
def Timer.callStart (t : Timer) (clock : Clock) : Timer × TimerResult :=
  match getnsec clock with
  | .error errno => (t, .refused errno)
  | .ok ns => ({ t with start := ns }, .started)

/-- `stop_lua`. -/
def Timer.callStop (t : Timer) (clock : Clock) : Timer × TimerResult :=
  match getnsec clock with
  | .error errno => (t, .failed errno)
  | .ok ns =>
      let elapsed := ns - t.start
      (⟨t.total + elapsed, ns⟩, .utime (nsec2utime elapsed))

/-- `get_elapsed_lua(L, in_sec)`. -/
def Timer.callElapsed (t : Timer) (inSec : Bool) (clock : Clock) : Timer × TimerResult :=
  match getnsec clock with
  | .error errno => (t, .failed errno)
  | .ok ns =>
      if inSec then (t, .seconds (ns - t.start)) else (t, .utime (nsec2utime (ns - t.start)))

/-- The machine. -/
def timer : Machine Timer TimerCall TimerResult := fun t c =>
  let (t', r) :=
    match c with
    | .start clock => t.callStart clock
    | .stop clock => t.callStop clock
    | .elapsed inSec clock => t.callElapsed inSec clock
    | .total => (t, .utime (nsec2utime t.total))
    | .reset => (⟨0, 0⟩, .nothing)
  (t', [r])

/-! ## What a call does -/

/-- The clock of a call. -/
def TimerCall.clock : TimerCall → Option Clock
  | start clock => some clock
  | stop clock => some clock
  | elapsed _ clock => some clock
  | total => none
  | reset => none

/-- A call whose reading fails changes nothing. -/
theorem timer_failed (t : Timer) {c : TimerCall} {errno : Nat}
    (h : c.clock = some (.error errno)) : (timer t c).1 = t := by
  cases c with
  | start clock => cases h; rfl
  | stop clock => cases h; rfl
  | elapsed inSec clock => cases h; rfl
  | total => cases h
  | reset => cases h

/-- Neither `total` nor `elapsed` changes anything. -/
@[simp] theorem timer_total (t : Timer) : (timer t .total).1 = t := rfl

@[simp] theorem timer_elapsed (t : Timer) (inSec : Bool) (clock : Clock) :
    (timer t (.elapsed inSec clock)).1 = t := by
  cases clock with
  | error errno => rfl
  | ok ts => cases inSec <;> rfl

@[simp] theorem timer_reset (t : Timer) : timer t .reset = (Timer.new, [.nothing]) := rfl

@[simp] theorem timer_start (t : Timer) (ts : Timespec) :
    timer t (.start (.ok ts)) = (⟨t.total, ts.ns⟩, [.started]) := rfl

@[simp] theorem timer_stop (t : Timer) (ts : Timespec) :
    timer t (.stop (.ok ts)) =
      (⟨t.total + (ts.ns - t.start), ts.ns⟩, [.utime (nsec2utime (ts.ns - t.start))]) := rfl

/-- Every call returns one result. -/
@[simp] theorem timer_returns (t : Timer) (c : TimerCall) : (timer t c).2.length = 1 := rfl

end Testcase
