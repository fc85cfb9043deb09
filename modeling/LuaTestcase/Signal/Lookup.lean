import Mathlib.Data.List.Nodup
import LuaTestcase.Lua.Arguments

/-!
# `testcase.signal`: names and numbers

The two searches of `src/signal.c` over its table of signals, which differs from platform to
platform.  A name of the table is a C string, so a Lua string is only read up to its first NUL; a
number of the table is an `int`, so a Lua integer loses its upper half on the way to it.

* `Inverse` — names and numbers are mutually inverse.
* `signals_inverse` — for which integers and strings they are.
-/

namespace Testcase

/-! ## Names ignoring case -/

/-- The string in lower case, in the C locale. -/
def lower (s : Str) : Str := s.map Char.toLower

/-- `strcasecmp(s, t) == 0`. -/
def strcaseeq (s t : Str) : Bool := lower (cstr s) == lower (cstr t)

/-- No other character becomes a NUL. -/
theorem toLower_eq_nul {c : Char} (h : c.toLower = NUL) : c = NUL := by
  by_cases hrange : c.val ≥ 'A'.val ∧ c.val ≤ 'Z'.val
  · have hlower : c.toLower.val = c.val + 32 := congrArg Char.val (dif_pos hrange)
    have hle : 65 ≤ c.val.toNat := UInt32.le_iff_toNat_le.mp hrange.1
    have hge : c.val.toNat ≤ 90 := UInt32.le_iff_toNat_le.mp hrange.2
    have hzero : (c.val + 32).toNat = 0 := by
      rw [← hlower, h]
      rfl
    rw [UInt32.toNat_add] at hzero
    have : (32 : UInt32).toNat = 32 := rfl
    omega
  · have hlower : c.toLower = c := dif_neg hrange
    rw [← hlower, h]

/-- A string with a NUL is no C string, in whatever case. -/
theorem nul_mem_of_lower {s t : Str} (h : lower s = lower t) (hs : NUL ∈ s) : NUL ∈ t := by
  have hmem : NUL ∈ lower t := h ▸ List.mem_map.mpr ⟨NUL, hs, by decide⟩
  obtain ⟨c, hc, hlower⟩ := List.mem_map.mp hmem
  rwa [toLower_eq_nul hlower] at hc

/-! ## The table -/

/-- `signal_entry_t`. -/
structure SignalEntry where
  name : Str
  num : Int32
  terminated : NUL ∉ name
deriving DecidableEq

variable (SIGNALS : List SignalEntry)

/-- `lookup_by_name(name)`. -/
def lookupByName (name : Str) : Option SignalEntry := SIGNALS.find? fun e => strcaseeq e.name name

/-- `lookup_by_num(num)`. -/
def lookupByNum (num : Int32) : Option SignalEntry := SIGNALS.find? fun e => e.num = num

/-- `tosigname(signum)`: the number is converted to an `int`. -/
def tosigname (signum : Int64) : Option Str :=
  (lookupByNum SIGNALS signum.toInt32).map SignalEntry.name

/-- `tosignum(signame)`. -/
def tosignum (signame : Str) : Option Int64 :=
  (lookupByName SIGNALS signame).map fun e => e.num.toInt64

/-- The names are distinct ignoring case. -/
def Distinguished : Prop := (SIGNALS.map fun e => lower e.name).Nodup

instance : Decidable (Distinguished SIGNALS) := inferInstanceAs (Decidable (List.Nodup _))

variable {SIGNALS : List SignalEntry}

/-- A name of the table is compared as a whole. -/
theorem strcaseeq_iff (e : SignalEntry) (s : Str) :
    strcaseeq e.name s = true ↔ lower e.name = lower (cstr s) := by
  rw [strcaseeq, beq_iff_eq, cstr_of_terminated e.terminated]

/-- Distinguished entries are the same if their names are equal ignoring case. -/
theorem Distinguished.eq (h : Distinguished SIGNALS) {e e' : SignalEntry} (he : e ∈ SIGNALS)
    (he' : e' ∈ SIGNALS) (hname : lower e.name = lower e'.name) : e = e' :=
  List.inj_on_of_nodup_map h he he' hname

theorem Distinguished.lookup (h : Distinguished SIGNALS) {e : SignalEntry} (he : e ∈ SIGNALS)
    {s : Str} (hs : lower s = lower e.name) : lookupByName SIGNALS s = some e := by
  have hnul : NUL ∉ s := fun hmem => e.terminated (nul_mem_of_lower hs hmem)
  have hmatch : strcaseeq e.name s = true := by
    rw [strcaseeq_iff, cstr_of_terminated hnul, hs]
  rcases hfind : lookupByName SIGNALS s with _ | e'
  · exact absurd hmatch (List.find?_eq_none.mp hfind e he)
  · rw [lookupByName] at hfind
    have hfound := List.find?_some hfind
    have hname := (strcaseeq_iff e' s).mp hfound
    rw [cstr_of_terminated hnul, hs] at hname
    rw [h.eq he (List.mem_of_find?_eq_some hfind) hname.symm]

/-- The number that `lookupByNum` looks for is found if and only if an entry has it. -/
theorem lookupByNum_isSome {num : Int32} :
    (lookupByNum SIGNALS num).isSome ↔ ∃ e ∈ SIGNALS, e.num = num := by
  simp [lookupByNum, List.find?_isSome]

theorem lookupByName_isSome {s : Str} :
    (lookupByName SIGNALS s).isSome ↔ ∃ e ∈ SIGNALS, lower e.name = lower (cstr s) := by
  simp [lookupByName, List.find?_isSome, strcaseeq_iff]

/-! ## Mutually inverse -/

/-- The first entry with a number. -/
def canonical (SIGNALS : List SignalEntry) (n : Int64) : Option SignalEntry :=
  SIGNALS.find? fun e => e.num.toInt64 = n

/-- `tosigname(n)` is the first name of the signal with the number `n`, which `tosignum` takes back
to `n`; it is `nil` for a number that no signal has. -/
structure NumberInverse (SIGNALS : List SignalEntry) (n : Int64) : Prop where
  known : (tosigname SIGNALS n).isSome ↔ ∃ e ∈ SIGNALS, e.num.toInt64 = n
  back : ∀ name, tosigname SIGNALS n = some name →
    tosignum SIGNALS name = some n ∧ (canonical SIGNALS n).map SignalEntry.name = some name

/-- `tosignum(s)` is the number of the signal with the name `s` in some case, which `tosigname`
takes to its first name; it is `nil` for a string that is no name. -/
structure NameInverse (SIGNALS : List SignalEntry) (s : Str) : Prop where
  known : (tosignum SIGNALS s).isSome ↔ ∃ e ∈ SIGNALS, lower e.name = lower s
  number : ∀ n, tosignum SIGNALS s = some n →
    ∃ e ∈ SIGNALS, lower e.name = lower s ∧ e.num.toInt64 = n
  back : ∀ n, tosignum SIGNALS s = some n →
    tosigname SIGNALS n = (canonical SIGNALS n).map SignalEntry.name ∧
      (tosigname SIGNALS n).isSome

/-- No signal has the `int` that becomes of the number, unless it is the number. -/
def NumberKept (SIGNALS : List SignalEntry) (n : Int64) : Prop :=
  n.toInt32.toInt64 = n ∨ ∀ e ∈ SIGNALS, e.num ≠ n.toInt32

/-- No signal has the name that is left of the string, unless it is the string. -/
def NameKept (SIGNALS : List SignalEntry) (s : Str) : Prop :=
  NUL ∉ s ∨ ∀ e ∈ SIGNALS, lower e.name ≠ lower (cstr s)

theorem toInt64_injective {a b : Int32} (h : a.toInt64 = b.toInt64) : a = b := by
  rw [← Int32.toInt32_toInt64 a, h, Int32.toInt32_toInt64]

/-- The first entry with the `int` is the first one with the number. -/
theorem canonical_eq (SIGNALS : List SignalEntry) (num : Int32) :
    canonical SIGNALS num.toInt64 = lookupByNum SIGNALS num := by
  rw [canonical, lookupByNum]
  congr 1
  funext e
  exact decide_eq_decide.mpr ⟨toInt64_injective, fun h => h ▸ rfl⟩

theorem numberInverse_iff (h : Distinguished SIGNALS) (n : Int64) :
    NumberInverse SIGNALS n ↔ NumberKept SIGNALS n := by
  constructor
  · intro hinv
    by_cases hsome : (tosigname SIGNALS n).isSome
    · obtain ⟨e, -, rfl⟩ := hinv.known.mp hsome
      exact .inl (by rw [Int32.toInt32_toInt64])
    · refine .inr fun e he heq => hsome ?_
      rw [tosigname, Option.isSome_map, lookupByNum_isSome]
      exact ⟨e, he, heq⟩
  · rintro (hn | hnone)
    · rw [← hn]
      generalize n.toInt32 = num
      refine ⟨?_, ?_⟩
      · rw [tosigname, Option.isSome_map, Int32.toInt32_toInt64, lookupByNum_isSome]
        exact exists_congr fun e => and_congr_right fun _ => ⟨fun h => h ▸ rfl, toInt64_injective⟩
      · intro name hname
        rw [tosigname, Int32.toInt32_toInt64] at hname
        refine ⟨?_, by rw [canonical_eq, hname]⟩
        obtain ⟨e, hfind, rfl⟩ := Option.map_eq_some_iff.mp hname
        have hnum : e.num = num := by simpa using List.find?_some hfind
        rw [tosignum, h.lookup (List.mem_of_find?_eq_some hfind) rfl, Option.map_some, hnum]
    · have hno : tosigname SIGNALS n = none := by
        rw [tosigname, Option.map_eq_none_iff, ← Option.not_isSome_iff_eq_none, lookupByNum_isSome]
        rintro ⟨e, he, heq⟩
        exact hnone e he heq
      refine ⟨?_, ?_⟩
      · rw [hno]
        refine iff_of_false (by simp) ?_
        rintro ⟨e, he, rfl⟩
        exact hnone e he (by rw [Int32.toInt32_toInt64])
      · intro name hname
        rw [hno] at hname
        cases hname

theorem nameInverse_iff (SIGNALS : List SignalEntry) (s : Str) :
    NameInverse SIGNALS s ↔ NameKept SIGNALS s := by
  constructor
  · intro hinv
    by_cases hsome : (tosignum SIGNALS s).isSome
    · obtain ⟨e, -, hname⟩ := hinv.known.mp hsome
      exact .inl fun hmem => e.terminated (nul_mem_of_lower hname.symm hmem)
    · refine .inr fun e he heq => hsome ?_
      rw [tosignum, Option.isSome_map, lookupByName_isSome]
      exact ⟨e, he, heq⟩
  · intro hkept
    have hcstr : ∀ e ∈ SIGNALS, lower e.name = lower (cstr s) ↔ lower e.name = lower s := by
      intro e he
      rcases hkept with hnul | hnone
      · rw [cstr_of_terminated hnul]
      · refine iff_of_false (hnone e he) ?_
        intro heq
        have hnul : NUL ∉ s := fun hmem => e.terminated (nul_mem_of_lower heq.symm hmem)
        exact hnone e he (by rw [cstr_of_terminated hnul, heq])
    refine ⟨?_, ?_, ?_⟩
    · rw [tosignum, Option.isSome_map, lookupByName_isSome]
      exact exists_congr fun e => and_congr_right (hcstr e)
    · intro n hn
      obtain ⟨e, hfind, hnum⟩ := Option.map_eq_some_iff.mp hn
      have hmem := List.mem_of_find?_eq_some hfind
      rw [lookupByName] at hfind
      have hfound := List.find?_some hfind
      exact ⟨e, hmem, (hcstr e hmem).mp ((strcaseeq_iff e s).mp hfound), hnum⟩
    · intro n hn
      obtain ⟨e, hfind, rfl⟩ := Option.map_eq_some_iff.mp hn
      rw [canonical_eq, tosigname, Int32.toInt32_toInt64]
      refine ⟨rfl, ?_⟩
      rw [Option.isSome_map, lookupByNum_isSome]
      exact ⟨e, List.mem_of_find?_eq_some hfind, rfl⟩

/-- **Names and numbers are mutually inverse** where the number survives the conversion to an `int`
and the string has no NUL, or nothing is found. -/
theorem signals_inverse (h : Distinguished SIGNALS) (n : Int64) (s : Str) :
    NumberInverse SIGNALS n ∧ NameInverse SIGNALS s ↔
      NumberKept SIGNALS n ∧ NameKept SIGNALS s :=
  and_congr (numberInverse_iff h n) (nameInverse_iff SIGNALS s)

/-- A table with two names of one signal, and another signal between them. -/
def childNames : List SignalEntry :=
  [⟨"SIGCHLD".toList, 17, by decide⟩, ⟨"SIGSTOP".toList, 19, by decide⟩,
    ⟨"SIGCLD".toList, 17, by decide⟩]

/-- The second name has the number, whose name is the first one. -/
theorem childNames_inverse :
    (NumberInverse childNames 17 ∧ NameInverse childNames "sigcld".toList) ∧
      tosignum childNames "sigcld".toList = some 17 ∧
      tosigname childNames 17 = some "SIGCHLD".toList := by
  have hdistinct : Distinguished childNames := by decide
  refine ⟨(signals_inverse hdistinct 17 "sigcld".toList).mpr ⟨.inl ?_, .inl ?_⟩, ?_, ?_⟩
  · decide
  · decide
  · decide
  · decide

/-- A table of one signal. -/
def termOnly : List SignalEntry := [⟨"SIGTERM".toList, 15, by decide⟩]

/-- A number with another upper half, and a name with something behind a NUL. -/
theorem lost_inverse :
    Distinguished termOnly ∧
      tosigname termOnly 4294967311 = some "SIGTERM".toList ∧
      ¬ NumberInverse termOnly 4294967311 ∧
      tosignum termOnly ("SIGTERM".toList ++ [NUL, 'x']) = some 15 ∧
      ¬ NameInverse termOnly ("SIGTERM".toList ++ [NUL, 'x']) := by
  refine ⟨by decide, by decide, ?_, by decide, ?_⟩
  · intro h
    obtain ⟨e, he, hnum⟩ := h.known.mp (by decide)
    obtain rfl := List.mem_singleton.mp he
    exact absurd hnum (by decide)
  · intro h
    obtain ⟨e, he, hname⟩ := h.known.mp (by decide)
    obtain rfl := List.mem_singleton.mp he
    exact absurd hname (by decide)

end Testcase
