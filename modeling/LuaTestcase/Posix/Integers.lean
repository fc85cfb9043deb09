import LuaTestcase.Core.Casts
import LuaTestcase.Posix.Def

/-!
# Which integers reach the operating system

Every function of `Posix.Def` checks its arguments and then makes one system call (`run_oneCall`),
for which it has cast its integers.  So an integer that does not fit in the type of the parameter
becomes another one on the way.

* `integers_unchanged` — **the integers reach the system unchanged, or no call is made, if and only
  if they fit or another argument is rejected**.
-/

namespace Testcase

/-! ## Roles -/

/-- What an integer is for a system call. -/
inductive Role where
  | signal
  | pid
  | seconds
  | descriptor
deriving DecidableEq

/-- The integer has the type of the parameter: `int`, `pid_t` or `unsigned int`. -/
def Role.Fits : Role → Int → Prop
  | seconds, n => 0 ≤ n ∧ n < 2 ^ 32
  | _, n => -2 ^ 31 ≤ n ∧ n < 2 ^ 31

/-- The integer behind the cast. -/
def Role.cast : Role → Int64 → Int
  | seconds, n => n.toUInt64.toUInt32.toNat
  | _, n => n.toInt32.toInt

theorem cast_exact (role : Role) (n : Int64) : role.cast n = n.toInt ↔ role.Fits n.toInt := by
  cases role with
  | seconds => exact toUInt32_exact n
  | signal => exact toInt32_exact n
  | pid => exact toInt32_exact n
  | descriptor => exact toInt32_exact n

/-- The integer that a call has in a role. -/
def PosixCall.value? : PosixCall → Role → Option Int
  | kill _ sig, .signal => some sig.toInt
  | kill pid _, .pid => some pid.toInt
  | raise sig, .signal => some sig.toInt
  | signal sig _, .signal => some sig.toInt
  | alarm sec, .seconds => some sec.toNat
  | close fd, .descriptor => some fd.toInt
  | shutdown fd _, .descriptor => some fd.toInt
  | _, _ => none

/-- The role of an argument. -/
def PosixFunction.role? : PosixFunction → Nat → Option Role
  | kill, 1 => some .signal
  | kill, 2 => some .pid
  | raise, 1 => some .signal
  | sigignore, 1 => some .signal
  | sigdefault, 1 => some .signal
  | alarm, 1 => some .seconds
  | close, 1 => some .descriptor
  | shutdown, 1 => some .descriptor
  | _, _ => none

section Unchanged

variable {F U : Type} (lib : CLib F U) (SIGNALS : List SignalEntry) (f : PosixFunction)
  (args : List (Value F U))

/-- The integer is an argument, in a role. -/
def PosixFunction.Given (role : Role) (n : Int64) : Prop :=
  ∃ idx, f.role? idx = some role ∧ argument args idx = some (.integer n.toInt)

/-- The function raises an error and makes no system call, or it makes one with the integers that
were given, and returns what comes of it. -/
def PosixFunction.Unchanged : Prop :=
  (∃ e, f.run lib SIGNALS args = .done (.raised e)) ∨
    ∃ (q : PosixCall) (r : PosixReply → CResult F U),
      f.run lib SIGNALS args = .ask q (fun a => .done (r a)) ∧
        ∀ role n, f.Given args role n → q.value? role = some n.toInt

def PosixFunction.Fitting : Prop := ∀ role n, f.Given args role n → role.Fits n.toInt

/-! ## Rejected arguments -/

/-- An argument that `get_signal` takes: a number, or a name of the table. -/
def IsSignal : Option (Value F U) → Prop
  | some (.string s) => (lookupByName SIGNALS s).isSome
  | some v => v.type = .number
  | none => False

/-- An argument that `luaL_checkinteger` takes. -/
def IsInteger (v : Option (Value F U)) : Prop := (v.bind (tointegerx lib)).isSome

/-- An argument that is taken for a descriptor: an integer or a file. -/
def IsDescriptor : Option (Value F U) → Prop
  | some (.object .userdata u) => (lib.file u).isSome
  | some (.string s) => lib.numeral s ∧ (lib.string s).isSome
  | some v => v.type = .number ∧ (tointegerx lib v).isSome
  | none => False

/-- An argument that is taken for `how`. -/
def IsHow : Option (Value F U) → Prop
  | some (.string s) => cstr s ∈ SHUTDOWN.map Prod.fst
  | some v => v.type = .nil ∨ v.type = .number ∧ cstr (lib.number v) ∈ SHUTDOWN.map Prod.fst
  | none => True

/-- The function takes its arguments. -/
def PosixFunction.Takes : Prop :=
  match f with
  | kill => IsSignal SIGNALS (argument args 1) ∧ IsInteger lib (argument args 2)
  | raise => IsSignal SIGNALS (argument args 1)
  | sigignore => IsSignal SIGNALS (argument args 1)
  | sigdefault => IsSignal SIGNALS (argument args 1)
  | alarm => IsInteger lib (argument args 1)
  | close => IsDescriptor lib (argument args 1)
  | shutdown => IsDescriptor lib (argument args 1) ∧ IsHow lib (argument args 2)

/-- The check succeeds exactly under a condition, and what it returns has a property. -/
def Checks {α : Type} (x : Except CError α) (ok : Prop) (P : α → Prop) : Prop :=
  match x with
  | .error _ => ¬ok
  | .ok a => ok ∧ P a

theorem Checks.congr {α : Type} {x : Except CError α} {ok ok' : Prop} {P : α → Prop}
    (h : Checks x ok P) (hok : ok ↔ ok') : Checks x ok' P := by
  rwa [← propext hok]

variable {lib SIGNALS args}

/-- An integer that is taken for a signal is cast. -/
theorem getSignal_checks (idx : Nat) :
    Checks (getSignal lib SIGNALS args idx) (IsSignal SIGNALS (argument args idx)) fun sig =>
      ∀ n : Int64, argument args idx = some (.integer n.toInt) → sig = n.toInt32 := by
  rw [getSignal]
  rcases harg : argument args idx with _ | v
  · exact id
  · cases v with
    | integer m =>
        refine ⟨rfl, ?_⟩
        intro n hn
        obtain rfl : m = n.toInt := by simpa using hn
        rw [tointegerx_integer]
        rfl
    | string s =>
        have hstring : checkstring lib args idx = .ok s := by rw [checkstring, harg]
        simp only [hstring]
        rcases hfind : lookupByName SIGNALS s with _ | e
        · simp [Checks, IsSignal, hfind, Value.type]
        · simp [Checks, IsSignal, hfind, Value.type]
    | object k u =>
        cases k with
        | float => exact ⟨rfl, by simp⟩
        | _ => simp [checkstring, harg, Checks, IsSignal, Value.type]
    | _ => simp [checkstring, harg, Checks, IsSignal, Value.type]

theorem checkinteger_checks (lib : CLib F U) (args : List (Value F U)) (idx : Nat) :
    Checks (checkinteger lib args idx) (IsInteger lib (argument args idx)) fun k =>
      ∀ n : Int64, argument args idx = some (.integer n.toInt) → k = n := by
  rcases hk : (argument args idx).bind (tointegerx lib) with _ | k
  · have herror : ∃ e, checkinteger lib args idx = .error e := by
      rw [checkinteger, hk]
      dsimp only
      split <;> exact ⟨_, rfl⟩
    obtain ⟨e, he⟩ := herror
    rw [he]
    simp [Checks, IsInteger, hk]
  · rw [(checkinteger_eq_ok lib).mpr hk]
    refine ⟨by simp [IsInteger, hk], ?_⟩
    intro n hn
    rw [hn, Option.bind_some, tointegerx_integer] at hk
    exact (Option.some.inj hk).symm

theorem getDescriptor_checks :
    Checks (getDescriptor lib args) (IsDescriptor lib (argument args 1)) fun fd =>
      ∀ n : Int64, argument args 1 = some (.integer n.toInt) → fd = n.toInt32 := by
  rw [getDescriptor]
  by_cases hnumber : isnumber lib args 1 = true
  · have hiff : IsDescriptor lib (argument args 1) ↔ IsInteger lib (argument args 1) := by
      rw [isnumber] at hnumber
      rcases harg : argument args 1 with _ | v
      · rw [harg] at hnumber
        cases hnumber
      · rw [harg] at hnumber
        cases v with
        | string s => exact and_iff_right hnumber
        | object k u => cases k <;> simp_all [IsDescriptor, IsInteger, Value.type]
        | _ => simp_all [IsDescriptor, IsInteger, Value.type]
    have hcheck := checkinteger_checks lib args 1
    rw [if_pos hnumber]
    rcases hk : checkinteger lib args 1 with e | k
    · rw [hk] at hcheck
      exact fun h => hcheck (hiff.mp h)
    · rw [hk] at hcheck
      exact ⟨hiff.mpr hcheck.1, fun n hn => by rw [hcheck.2 n hn]⟩
  · rw [if_neg hnumber]
    rw [isnumber] at hnumber
    rcases harg : argument args 1 with _ | v
    · exact id
    · rw [harg] at hnumber
      cases v with
      | object k u =>
          cases k with
          | userdata =>
              rcases hfile : lib.file u with _ | fd
              · simp [Checks, IsDescriptor, hfile]
              · simp [Checks, IsDescriptor, hfile]
          | _ => simp_all [Checks, IsDescriptor, Value.type]
      | _ => simp_all [Checks, IsDescriptor, Value.type]

/-- A name is taken if it is an option. -/
theorem option_checks (idx : Nat) (name : Str) (options : List Str) :
    Checks (optionAt idx options name) (cstr name ∈ options) fun _ => True := by
  rcases hi : optionAt idx options name with e | i
  · intro hmem
    obtain ⟨i, hok⟩ := optionAt_of_mem hmem idx
    rw [hi] at hok
    cases hok
  · exact ⟨List.mem_of_getElem? (optionAt_eq_ok hi), trivial⟩

theorem checkoption_checks :
    Checks (checkoption lib args 2 (some "rdwr".toList) (SHUTDOWN.map Prod.fst))
      (IsHow lib (argument args 2)) fun _ => True := by
  have hrdwr : "rdwr".toList ∈ SHUTDOWN.map Prod.fst := by decide
  rw [checkoption]
  rcases harg : argument args 2 with _ | v
  · simp only [isnoneornil, harg, if_true]
    exact ⟨trivial, trivial⟩
  · cases v with
    | nil =>
        simp only [isnoneornil, harg, Value.type, decide_true, if_true]
        exact ⟨.inl rfl, trivial⟩
    | string s =>
        simp only [isnoneornil, checkstring, harg, Value.type]
        exact option_checks 2 s _
    | integer n =>
        simp only [isnoneornil, checkstring, harg, Value.type]
        refine (option_checks 2 (lib.number (.integer n)) _).congr ?_
        simp [IsHow, Value.type]
    | object k u =>
        cases k with
        | float =>
            simp only [isnoneornil, checkstring, harg, Value.type]
            refine (option_checks 2 (lib.number (.object .float u)) _).congr ?_
            simp [IsHow, Value.type]
        | _ => simp [isnoneornil, checkstring, harg, Checks, IsHow, Value.type]
    | _ => simp [isnoneornil, checkstring, harg, Checks, IsHow, Value.type]

/-! ## One call -/

/-- The arguments are rejected, or they are taken and one call is made, which has a property. -/
def OneCall (ok : Prop) (P : PosixCall → Prop) (d : PosixDialogue F U) : Prop :=
  (¬ok ∧ ∃ e, d = .done (.raised e)) ∨
    ok ∧ ∃ (q : PosixCall) (r : PosixReply → CResult F U), d = .ask q (fun a => .done (r a)) ∧ P q

variable {ok ok' : Prop} {P : PosixCall → Prop}

theorem OneCall.query {q : PosixCall} (hq : P q) (r : PosixReply → CResult F U) :
    OneCall True P (.ask q fun a => .done (r a)) := .inr ⟨trivial, q, r, rfl, hq⟩

/-- A check comes first. -/
theorem OneCall.checked {α : Type} {x : Except CError α} {k : α → PosixDialogue F U}
    {T : α → Prop} (hx : Checks x ok T) (hk : ∀ a, T a → OneCall ok' P (k a)) :
    OneCall (ok ∧ ok') P (checked x k) := by
  cases x with
  | error e => exact .inl ⟨fun h => hx h.1, e, rfl⟩
  | ok a =>
      rcases hk a hx.2 with ⟨hno, e, hd⟩ | ⟨hyes, hd⟩
      · exact .inl ⟨fun h => hno h.2, e, hd⟩
      · exact .inr ⟨⟨hx.1, hyes⟩, hd⟩

theorem OneCall.congr {d : PosixDialogue F U} (h : OneCall ok P d) (hok : ok ↔ ok') :
    OneCall ok' P d := by
  rwa [← propext hok]

/-- **Every function makes one call**, with its integers behind a cast, or it rejects its
arguments. -/
theorem run_oneCall (f : PosixFunction) :
    OneCall (f.Takes lib SIGNALS args)
      (fun q => ∀ role n, f.Given args role n → q.value? role = some (role.cast n))
      (f.run lib SIGNALS args) := by
  cases f with
  | kill =>
      refine (OneCall.checked (getSignal_checks 1) fun sig hsig =>
        OneCall.checked (checkinteger_checks lib args 2) fun pid hpid => OneCall.query ?_ _).congr
          (by simp [PosixFunction.Takes])
      rintro role n ⟨_ | _ | _ | idx, hrole, harg⟩
      · cases hrole
      · cases hrole
        rw [hsig n harg]
        rfl
      · cases hrole
        rw [hpid n harg]
        rfl
      · cases hrole
  | raise =>
      refine (OneCall.checked (getSignal_checks 1) fun sig hsig => OneCall.query ?_ _).congr
        (by simp [PosixFunction.Takes])
      rintro role n ⟨_ | _ | idx, hrole, harg⟩
      · cases hrole
      · cases hrole
        rw [hsig n harg]
        rfl
      · cases hrole
  | sigignore =>
      refine (OneCall.checked (getSignal_checks 1) fun sig hsig => OneCall.query ?_ _).congr
        (by simp [PosixFunction.Takes])
      rintro role n ⟨_ | _ | idx, hrole, harg⟩
      · cases hrole
      · cases hrole
        rw [hsig n harg]
        rfl
      · cases hrole
  | sigdefault =>
      refine (OneCall.checked (getSignal_checks 1) fun sig hsig => OneCall.query ?_ _).congr
        (by simp [PosixFunction.Takes])
      rintro role n ⟨_ | _ | idx, hrole, harg⟩
      · cases hrole
      · cases hrole
        rw [hsig n harg]
        rfl
      · cases hrole
  | alarm =>
      refine (OneCall.checked (checkinteger_checks lib args 1) fun sec hsec =>
        OneCall.query ?_ _).congr
        (by simp [PosixFunction.Takes])
      rintro role n ⟨_ | _ | idx, hrole, harg⟩
      · cases hrole
      · cases hrole
        rw [hsec n harg]
        rfl
      · cases hrole
  | close =>
      refine (OneCall.checked getDescriptor_checks fun fd hfd => OneCall.query ?_ _).congr
        (by simp [PosixFunction.Takes])
      rintro role n ⟨_ | _ | idx, hrole, harg⟩
      · cases hrole
      · cases hrole
        rw [hfd n harg]
        rfl
      · cases hrole
  | shutdown =>
      refine (OneCall.checked getDescriptor_checks fun fd hfd =>
        OneCall.checked checkoption_checks fun opt _ => OneCall.query ?_ _).congr
          (by simp [PosixFunction.Takes])
      rintro role n ⟨_ | _ | idx, hrole, harg⟩
      · cases hrole
      · cases hrole
        rw [hfd n harg]
        rfl
      · cases hrole

variable {f}

/-- The call of an unchanged function has the integers. -/
theorem PosixFunction.Unchanged.value (h : f.Unchanged lib SIGNALS args) {q : PosixCall}
    {next : PosixReply → PosixDialogue F U} (hrun : f.run lib SIGNALS args = .ask q next)
    {role : Role} {n : Int64} (hgiven : f.Given args role n) : q.value? role = some n.toInt := by
  rcases h with ⟨e, herror⟩ | ⟨q', r, hcall, hsame⟩
  · rw [hrun] at herror
    cases herror
  · rw [hrun] at hcall
    obtain ⟨rfl, -⟩ := Dialogue.ask.inj hcall
    exact hsame role n hgiven

variable (lib SIGNALS f args)

/-- **The integers reach the operating system unchanged, or not at all**, if and only if all of them
fit or the arguments are rejected. -/
theorem integers_unchanged :
    f.Unchanged lib SIGNALS args ↔ ¬f.Takes lib SIGNALS args ∨ f.Fitting args := by
  rcases run_oneCall f with ⟨hno, e, hrun⟩ | ⟨hyes, q, r, hrun, hcast⟩
  · exact iff_of_true (.inl ⟨e, hrun⟩) (.inl hno)
  · constructor
    · intro hsame
      refine .inr fun role n hgiven => (cast_exact role n).mp ?_
      have hvalue := hsame.value hrun hgiven
      rw [hcast role n hgiven] at hvalue
      exact Option.some.inj hvalue
    · rintro (h | hfits)
      · exact absurd hyes h
      · refine .inr ⟨q, r, hrun, ?_⟩
        intro role n hgiven
        rw [hcast role n hgiven, (cast_exact role n).mpr (hfits role n hgiven)]

end Unchanged

/-- A pid that becomes the own process group, one that becomes every process, a number of seconds
that cancels the alarm, and a descriptor that becomes another one. -/
theorem wrapped_integers :
    (∃ next, PosixFunction.kill.run plainC termOnly
        [.string "SIGTERM".toList, .integer 4294967296] = .ask (.kill 0 15) next) ∧
      (∃ next, PosixFunction.kill.run plainC termOnly
        [.string "SIGTERM".toList, .integer 4294967295] = .ask (.kill (-1) 15) next) ∧
      (∃ next, PosixFunction.alarm.run plainC termOnly [.integer 4294967296] =
        .ask (.alarm 0) next) ∧
      (∃ next, PosixFunction.close.run plainC termOnly [.integer 4294967297] =
        .ask (.close 1) next) ∧
      ¬PosixFunction.kill.Unchanged plainC termOnly
        [.string "SIGTERM".toList, .integer 4294967296] ∧
      ¬PosixFunction.alarm.Unchanged plainC termOnly [.integer 4294967296] ∧
      ¬PosixFunction.close.Unchanged plainC termOnly [.integer 4294967297] := by
  refine ⟨⟨_, rfl⟩, ⟨_, rfl⟩, ⟨_, rfl⟩, ⟨_, rfl⟩, ?_, ?_, ?_⟩
  · intro h
    have hpid : (PosixCall.kill 0 15).value? .pid = some (4294967296 : Int64).toInt :=
      h.value rfl ⟨2, rfl, rfl⟩
    exact absurd hpid (by decide)
  · intro h
    have hseconds : (PosixCall.alarm 0).value? .seconds = some (4294967296 : Int64).toInt :=
      h.value rfl ⟨1, rfl, rfl⟩
    exact absurd hseconds (by decide)
  · intro h
    have hfd : (PosixCall.close 1).value? .descriptor = some (4294967297 : Int64).toInt :=
      h.value rfl ⟨1, rfl, rfl⟩
    exact absurd hfd (by decide)

end Testcase
