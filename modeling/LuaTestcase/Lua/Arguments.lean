import Mathlib.Data.List.TakeWhile
import LuaTestcase.Core.Dialogue
import LuaTestcase.Lua.Value

/-!
# The arguments of a C function

How a C function reads its arguments with the auxiliary library: it converts them, or raises an
error that names the argument.  How Lua converts floats and strings is a parameter (`CLib`), and so
are the files of its `io` library.

* `checked` — a check in front of what a function does.
* `checkinteger_integer` — a 64-bit integer is taken as it is.
-/

namespace Testcase

/-! ## C strings -/

def NUL : Char := Char.ofNat 0

/-- What a C function sees of a string. -/
def cstr (s : Str) : Str := s.takeWhile (· ≠ NUL)

theorem cstr_of_terminated {s : Str} (h : NUL ∉ s) : cstr s = s := by
  rw [cstr, List.takeWhile_eq_self_iff]
  intro c hc
  rw [decide_eq_true_eq]
  rintro rfl
  exact h hc

/-! ## Arguments -/

/-- What the functions of the auxiliary library raise: `luaL_typeerror`, `luaL_argerror` and
`luaL_error`. -/
inductive CError where
  | typeerror (arg : Nat) (tname : Str)
  | argerror (arg : Nat) (extramsg : Str)
  | error (msg : Str)
deriving DecidableEq

/-- What Lua and the C library do with values that are not looked into: the integer that a float or
a string is, whether a string is a numeral, the string that a number is, the descriptor of a file
handle if the file is open, and the message of an `errno`. -/
structure CLib (F U : Type) where
  float : U → Option Int64
  string : Str → Option Int64
  numeral : Str → Bool
  number : Value F U → Str
  file : U → Option (Option Int32)
  strerror : Nat → Str

/-- A Lua without floats, numerals and files. -/
def plainC : CLib Unit Unit where
  float _ := none
  string _ := none
  numeral _ := false
  number _ := []
  file _ := none
  strerror _ := []

/-- What a C function does in the end. -/
inductive CResult (F U : Type) where
  | raised (e : CError)
  | returned (vs : List (Value F U))

section Arguments

variable {F U : Type} (lib : CLib F U)

/-- The argument at an index of the stack. -/
def argument (args : List (Value F U)) (idx : Nat) : Option (Value F U) := args[idx - 1]?

/-- `lua_isnoneornil(L, idx)`. -/
def isnoneornil (args : List (Value F U)) (idx : Nat) : Bool :=
  match argument args idx with
  | none => true
  | some v => v.type = .nil

/-- `lua_toboolean(L, idx)`. -/
def toboolean (args : List (Value F U)) (idx : Nat) : Bool :=
  ((argument args idx).map Value.truthy).getD false

/-- `lua_tointegerx`. -/
def tointegerx : Value F U → Option Int64
  | .integer n => some (Int64.ofInt n)
  | .object .float u => lib.float u
  | .string s => lib.string s
  | _ => none

/-- `lua_isnumber(L, idx)`. -/
def isnumber (args : List (Value F U)) (idx : Nat) : Bool :=
  match argument args idx with
  | some (.string s) => lib.numeral s
  | some v => v.type = .number
  | none => false

/-- `luaL_checkinteger(L, idx)`. -/
def checkinteger (args : List (Value F U)) (idx : Nat) : Except CError Int64 :=
  match (argument args idx).bind (tointegerx lib) with
  | some n => .ok n
  | none =>
      if isnumber lib args idx then
        .error (.argerror idx "number has no integer representation".toList)
      else .error (.typeerror idx "number".toList)

/-- `luaL_checkstring(L, idx)`. -/
def checkstring (args : List (Value F U)) (idx : Nat) : Except CError Str :=
  match argument args idx with
  | some (.string s) => .ok s
  | some v =>
      if v.type = .number then .ok (lib.number v) else .error (.typeerror idx "string".toList)
  | none => .error (.typeerror idx "string".toList)

/-- The position of an option. -/
def optionAt (idx : Nat) (options : List Str) (name : Str) : Except CError Nat :=
  match options.findIdx? (· = cstr name) with
  | some i => .ok i
  | none => .error (.argerror idx ("invalid option '".toList ++ cstr name ++ "'".toList))

/-- `luaL_checkoption(L, idx, def, options)`. -/
def checkoption (args : List (Value F U)) (idx : Nat) (default : Option Str)
    (options : List Str) : Except CError Nat :=
  let given : Except CError Str :=
    match default with
    | some name => if isnoneornil args idx then .ok name else checkstring lib args idx
    | none => checkstring lib args idx
  match given with
  | .error e => .error e
  | .ok name => optionAt idx options name

theorem optionAt_eq_ok {idx i : Nat} {options : List Str} {name : Str}
    (h : optionAt idx options name = .ok i) : options[i]? = some (cstr name) := by
  rw [optionAt] at h
  split at h
  · rename_i j hidx
    obtain rfl := Except.ok.inj h
    obtain ⟨hlt, hget, -⟩ := List.findIdx?_eq_some_iff_getElem.mp hidx
    rw [List.getElem?_eq_getElem hlt, of_decide_eq_true hget]
  · cases h

theorem optionAt_of_mem {options : List Str} {name : Str} (h : cstr name ∈ options) (idx : Nat) :
    ∃ i, optionAt idx options name = .ok i := by
  rw [optionAt]
  split
  · exact ⟨_, rfl⟩
  · rename_i hidx
    have hno := List.findIdx?_eq_none_iff.mp hidx (cstr name) h
    simp at hno

theorem tointegerx_integer (n : Int64) : tointegerx lib (.integer n.toInt) = some n := by
  rw [tointegerx, Int64.ofInt_toInt]

/-- A 64-bit integer is taken as it is. -/
theorem checkinteger_integer {args : List (Value F U)} {idx : Nat} {n : Int64}
    (h : argument args idx = some (.integer n.toInt)) : checkinteger lib args idx = .ok n := by
  rw [checkinteger, h, Option.bind_some, tointegerx_integer]

theorem checkinteger_eq_ok {args : List (Value F U)} {idx : Nat} {n : Int64} :
    checkinteger lib args idx = .ok n ↔ (argument args idx).bind (tointegerx lib) = some n := by
  rw [checkinteger]
  split
  · rename_i m hm
    rw [hm, Except.ok.injEq, Option.some.injEq]
  · rename_i hnone
    rw [hnone]
    split <;> simp

/-- The check comes first, and raises its error. -/
def checked {Q A α : Type} (x : Except CError α) (k : α → Dialogue Q A (CResult F U)) :
    Dialogue Q A (CResult F U) :=
  match x with
  | .error e => pure (.raised e)
  | .ok a => k a

variable {Q A α : Type}

@[simp] theorem checked_error (e : CError) (k : α → Dialogue Q A (CResult F U)) :
    checked (.error e) k = .done (.raised e) := rfl

@[simp] theorem checked_ok (a : α) (k : α → Dialogue Q A (CResult F U)) :
    checked (.ok a) k = k a := rfl

/-- Something is asked if the check succeeds and what follows asks something. -/
theorem checked_pending {x : Except CError α} {k : α → Dialogue Q A (CResult F U)} :
    (checked x k).Pending ↔ ∃ a, x = .ok a ∧ (k a).Pending := by
  cases x with
  | error e =>
      constructor
      · exact fun h => h.elim
      · rintro ⟨a, ha, -⟩
        cases ha
  | ok a =>
      constructor
      · exact fun h => ⟨a, rfl, h⟩
      · rintro ⟨b, hb, h⟩
        cases hb
        exact h

end Arguments

end Testcase
