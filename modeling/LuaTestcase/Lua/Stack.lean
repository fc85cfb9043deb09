import Mathlib.Data.List.Basic

/-!
# The stack of a C function

A function that Lua calls finds its arguments on a stack of its own and works on it.  Positions are
counted from `1` at the bottom or from `-1` at the top, so a position from the bottom means the same
value as long as nothing below it changes, and one from the top changes its meaning with every
push.

* `slot?_append` — a position from the bottom, under whatever was pushed.
* `slot?_top`, `slot?_below` — the two positions at the top.
* `pop_append` — what was pushed is popped.
-/

namespace Testcase

/-- `LUA_MINSTACK`: so many slots a function may use that does not ask for more. -/
def LUA_MINSTACK : Nat := 20

/-- The values from the bottom to the top. -/
abbrev LuaStack (V : Type) : Type := List V

namespace LuaStack

variable {V : Type}

/-- The value at a position. -/
def slot? (L : LuaStack V) (i : Int) : Option V :=
  if 0 < i then L[(i - 1).toNat]?
  else if i < 0 ∧ -i ≤ L.length then L[(L.length + i).toNat]?
  else none

/-- `lua_gettop(L)`. -/
def gettop (L : LuaStack V) : Nat := L.length

/-- `lua_settop(L, n)`. -/
def settop (nil : V) (L : LuaStack V) (n : Nat) : LuaStack V :=
  L.take n ++ List.replicate (n - L.length) nil

/-- `lua_pop(L, n)`. -/
def pop (L : LuaStack V) (n : Nat) : LuaStack V := L.take (L.length - n)

@[simp] theorem gettop_append (L M : LuaStack V) : (L ++ M).gettop = L.gettop + M.length :=
  List.length_append

theorem slot?_append {L M : LuaStack V} {i : Int} (hi : 0 < i) (hle : i ≤ L.length) :
    (L ++ M).slot? i = L.slot? i := by
  rw [slot?, slot?, if_pos hi, if_pos hi, List.getElem?_append_left (by omega)]

@[simp] theorem slot?_top (L : LuaStack V) (v : V) : (L ++ [v]).slot? (-1) = some v := by
  have hlen : ((L ++ [v]).length : Int) = L.length + 1 := by simp
  have hpos : ((L.length : Int) + 1 + -1).toNat = L.length := by omega
  rw [slot?, if_neg (by decide), if_pos (by omega), hlen, hpos]
  exact List.getElem?_concat_length

@[simp] theorem slot?_below (L : LuaStack V) (u v : V) : (L ++ [u, v]).slot? (-2) = some u := by
  have hlen : ((L ++ [u, v]).length : Int) = L.length + 2 := by simp
  have hpos : ((L.length : Int) + 2 + -2).toNat = L.length := by omega
  rw [slot?, if_neg (by decide), if_pos (by omega), hlen, hpos]
  simp

@[simp] theorem pop_append (L M : LuaStack V) : (L ++ M).pop M.length = L := by
  simp [pop]

theorem settop_of_le {nil : V} {L M : LuaStack V} : (L ++ M).settop nil L.length = L := by
  simp [settop]

end LuaStack

end Testcase
