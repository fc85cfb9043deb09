import Mathlib.Data.List.AList
import Mathlib.Data.List.Perm.Subperm
import LuaTestcase.Core.Heap
import LuaTestcase.Lua.Stack
import LuaTestcase.Lua.Value

/-!
# Raw tables in the C API

What a C function does to tables: they are cells of a heap, and the stack refers to them.  A raw
access to a slot that holds no table is undefined behaviour, and so is the result here.

* `rawset_run`, `rawget_run`, `rawseti_run` — the accesses, on a stack whose top is known.
* `rawlen_array` — the length of a table that is an array.
-/

namespace Testcase

/-- A key of a table, as far as it is looked into. -/
inductive TableKey where
  | integer (n : Int)
  | string (s : Str)
  | other (k : Nat)
deriving DecidableEq

/-- A value whose tables are cells of a heap. -/
abbrev HeapValue (F : Type) : Type := Value F Nat

/-- The content of a table. -/
abbrev RawTable (F : Type) : Type := AList fun _ : TableKey => HeapValue F

/-- The stack of a C function, and the tables. -/
structure LuaC (F : Type) where
  stack : LuaStack (HeapValue F)
  heap : Heap (RawTable F)

variable {F : Type}

/-- A reference to a table. -/
def tableRef (a : Nat) : HeapValue F := .object .table a

/-- The address a value refers to. -/
def HeapValue.address? : HeapValue F → Option Nat
  | .object .table a => some a
  | _ => none

/-- The key that a string or an integer is. -/
def HeapValue.key? : HeapValue F → Option TableKey
  | .integer n => some (.integer n)
  | .string s => some (.string s)
  | _ => none

/-- `t[k] = v`. -/
def RawTable.assign (t : RawTable F) (k : TableKey) (v : HeapValue F) : RawTable F :=
  if v.type = .nil then t.erase k else t.insert k v

namespace LuaC

def push (L : LuaC F) (v : HeapValue F) : LuaC F := { L with stack := L.stack ++ [v] }

/-- `lua_pop(L, n)`. -/
def pop (L : LuaC F) (n : Nat) : LuaC F := { L with stack := L.stack.pop n }

/-- `lua_pushvalue(L, i)`. -/
def pushvalue (L : LuaC F) (i : Int) : LuaC F := L.push ((L.stack.slot? i).getD .nil)

/-- `lua_newtable(L)`. -/
def newtable (L : LuaC F) : LuaC F :=
  let (heap, a) := L.heap.alloc ∅
  LuaC.push { L with heap := heap } (tableRef a)

/-- `lua_type(L, i)`. -/
def type (L : LuaC F) (i : Int) : LuaType := ((L.stack.slot? i).getD .nil).type

/-- The table in a slot, with its address. -/
def table? (L : LuaC F) (i : Int) : Option (Nat × RawTable F) := do
  let a ← (← L.stack.slot? i).address?
  let t ← L.heap.read a
  some (a, t)

/-- `lua_rawset(L, i)`. -/
def rawset (L : LuaC F) (i : Int) : Option (LuaC F) := do
  let (a, t) ← L.table? i
  let k ← (← L.stack.slot? (-2)).key?
  let v ← L.stack.slot? (-1)
  some ⟨L.stack.pop 2, L.heap.write a (t.assign k v)⟩

/-- `lua_rawget(L, i)`. -/
def rawget (L : LuaC F) (i : Int) : Option (LuaC F) := do
  let (_, t) ← L.table? i
  let k ← (← L.stack.slot? (-1)).key?
  some ⟨L.stack.pop 1 ++ [(t.lookup k).getD .nil], L.heap⟩

/-- `lua_rawseti(L, i, n)`. -/
def rawseti (L : LuaC F) (i n : Int) : Option (LuaC F) := do
  let (a, t) ← L.table? i
  let v ← L.stack.slot? (-1)
  some ⟨L.stack.pop 1, L.heap.write a (t.assign (.integer n) v)⟩

end LuaC

/-- The first border of a table: `t[n]` is there and `t[n + 1]` is not.  A table holds fewer entries
than an `int` can count. -/
def RawTable.border (t : RawTable F) : Nat :=
  ((List.range (t.keys.length + 1)).find? fun n =>
    (t.lookup (.integer (n + 1))).isNone).getD 0

/-- `(int)lua_rawlen(L, i)`. -/
def LuaC.rawlen (L : LuaC F) (i : Int) : Option Nat := do
  let (_, t) ← L.table? i
  some t.border

/-! ## Accesses -/

section Accesses

variable {M : LuaStack (HeapValue F)} {h : Heap (RawTable F)} {i : Int} {a : Nat} {t : RawTable F}
  {k v : HeapValue F} {key : TableKey}

theorem table?_eq {L : LuaC F} (hslot : L.stack.slot? i = some (tableRef a))
    (hread : L.heap.read a = some t) : L.table? i = some (a, t) := by
  simp only [LuaC.table?, hslot, hread, Option.bind_eq_bind, Option.bind_some, tableRef,
    HeapValue.address?]

theorem address?_eq {v : HeapValue F} (h : v.address? = some a) : v = tableRef a := by
  rcases v with _ | b | n | s | f | e | ⟨_ | _ | _ | _, u⟩ <;> cases h
  rfl

theorem table?_some {L : LuaC F} (h : L.table? i = some (a, t)) :
    L.stack.slot? i = some (tableRef a) ∧ L.heap.read a = some t := by
  rw [LuaC.table?, Option.bind_eq_bind, Option.bind_eq_some_iff] at h
  obtain ⟨v, hslot, h⟩ := h
  rw [Option.bind_eq_bind, Option.bind_eq_some_iff] at h
  obtain ⟨b, hb, h⟩ := h
  rw [Option.bind_eq_bind, Option.bind_eq_some_iff] at h
  obtain ⟨u, hread, h⟩ := h
  cases h
  rw [address?_eq hb] at hslot
  exact ⟨hslot, hread⟩

/-- A table is found by its slot. -/
theorem table?_congr {L L' : LuaC F} {i' : Int} (hslot : L.stack.slot? i = L'.stack.slot? i')
    (hheap : L.heap = L'.heap) : L.table? i = L'.table? i' := by
  simp only [LuaC.table?, hslot, hheap]

theorem rawset_undefined {L : LuaC F} (h : L.table? i = none) : L.rawset i = none := by
  simp only [LuaC.rawset, h, Option.bind_eq_bind, Option.bind_none]

theorem rawset_run (hslot : (M ++ [k, v]).slot? i = some (tableRef a)) (hread : h.read a = some t)
    (hkey : k.key? = some key) :
    LuaC.rawset ⟨M ++ [k, v], h⟩ i = some ⟨M, h.write a (t.assign key v)⟩ := by
  have htable : LuaC.table? ⟨M ++ [k, v], h⟩ i = some (a, t) := table?_eq hslot hread
  have hbelow : (M ++ [k, v]).slot? (-2) = some k := LuaStack.slot?_below M k v
  have htop : (M ++ [k, v]).slot? (-1) = some v := by
    rw [List.append_cons]
    exact LuaStack.slot?_top _ v
  have hpop : (M ++ [k, v]).pop 2 = M := LuaStack.pop_append M [k, v]
  simp only [LuaC.rawset, htable, hbelow, htop, hpop, hkey, Option.bind_eq_bind, Option.bind_some]

theorem rawget_run (hslot : (M ++ [k]).slot? i = some (tableRef a)) (hread : h.read a = some t)
    (hkey : k.key? = some key) :
    LuaC.rawget ⟨M ++ [k], h⟩ i = some ⟨M ++ [(t.lookup key).getD .nil], h⟩ := by
  have htable : LuaC.table? ⟨M ++ [k], h⟩ i = some (a, t) := table?_eq hslot hread
  have htop : (M ++ [k]).slot? (-1) = some k := LuaStack.slot?_top M k
  have hpop : (M ++ [k]).pop 1 = M := LuaStack.pop_append M [k]
  simp only [LuaC.rawget, htable, htop, hpop, hkey, Option.bind_eq_bind, Option.bind_some]

theorem rawseti_run (hslot : (M ++ [v]).slot? i = some (tableRef a)) (hread : h.read a = some t)
    (n : Int) :
    LuaC.rawseti ⟨M ++ [v], h⟩ i n = some ⟨M, h.write a (t.assign (.integer n) v)⟩ := by
  have htable : LuaC.table? ⟨M ++ [v], h⟩ i = some (a, t) := table?_eq hslot hread
  have htop : (M ++ [v]).slot? (-1) = some v := LuaStack.slot?_top M v
  have hpop : (M ++ [v]).pop 1 = M := LuaStack.pop_append M [v]
  simp only [LuaC.rawseti, htable, htop, hpop, Option.bind_eq_bind, Option.bind_some]

/-- An assignment of a value that is not `nil`, read back. -/
theorem lookup_assign (hv : v.type ≠ .nil) (key' : TableKey) :
    (t.assign key v).lookup key' = if key' = key then some v else t.lookup key' := by
  rw [RawTable.assign, if_neg hv]
  by_cases hkey : key' = key
  · rw [if_pos hkey, hkey, AList.lookup_insert]
  · rw [if_neg hkey, AList.lookup_insert_ne hkey]

end Accesses

/-! ## Arrays -/

/-- The table holds the strings at the keys from `1` on, and nothing else. -/
def RawTable.IsArray (t : RawTable F) (names : List Str) : Prop :=
  ∀ k, t.lookup k =
    match k with
    | .integer i => if 0 < i then (names[(i - 1).toNat]?).map .string else none
    | _ => none

theorem RawTable.IsArray.lookup_succ {t : RawTable F} {names : List Str} (h : t.IsArray names)
    (n : Nat) : t.lookup (.integer (n + 1)) = (names[n]?).map .string := by
  have hn : ((n : Int) + 1 - 1).toNat = n := by omega
  rw [h (.integer (n + 1))]
  dsimp only
  rw [if_pos (by omega), hn]

/-- The length of an array. -/
theorem rawlen_array {t : RawTable F} {names : List Str} (h : t.IsArray names) :
    t.border = names.length := by
  have hle : names.length ≤ t.keys.length := by
    have hnodup : ((List.range names.length).map fun n : Nat => TableKey.integer (n + 1)).Nodup := by
      refine List.nodup_range.map ?_
      intro m n hmn
      have := TableKey.integer.inj hmn
      omega
    have hsub : ((List.range names.length).map fun n : Nat => TableKey.integer (n + 1)) ⊆ t.keys := by
      intro k hk
      obtain ⟨n, hn, rfl⟩ := List.mem_map.mp hk
      have hlt : n < names.length := List.mem_range.mp hn
      have hsome : (t.lookup (.integer (n + 1))).isSome := by
        rw [h.lookup_succ, List.getElem?_eq_getElem hlt]
        rfl
      exact AList.lookup_isSome.mp hsome
    simpa using (hnodup.subperm hsub).length_le
  have hfind : (List.range (t.keys.length + 1)).find?
      (fun n => (t.lookup (.integer (n + 1))).isNone) = some names.length := by
    rw [List.find?_range_eq_some]
    refine ⟨?_, ?_, ?_⟩
    · rw [h.lookup_succ, List.getElem?_eq_none (le_refl _)]
      rfl
    · exact List.mem_range.mpr (by omega)
    · intro n hn
      rw [h.lookup_succ, List.getElem?_eq_getElem hn]
      rfl
  rw [RawTable.border, hfind]
  rfl

/-- One more string at the end. -/
theorem RawTable.IsArray.snoc {t : RawTable F} {names : List Str} (h : t.IsArray names) (x : Str) :
    (t.assign (.integer (names.length + 1)) (.string x)).IsArray (names ++ [x]) := by
  intro k
  have hx : (Value.string x : HeapValue F).type ≠ .nil := by simp [Value.type]
  rw [lookup_assign hx]
  by_cases hk : k = .integer (names.length + 1)
  · have hn : ((names.length : Int) + 1 - 1).toNat = names.length := by omega
    subst hk
    rw [if_pos rfl]
    dsimp only
    rw [if_pos (by omega), hn, List.getElem?_concat_length]
    rfl
  · rw [if_neg hk, h k]
    cases k with
    | string s => rfl
    | other n => rfl
    | integer i =>
        dsimp only
        by_cases hi : 0 < i
        · have hne : i ≠ names.length + 1 := fun heq => hk (heq ▸ rfl)
          rw [if_pos hi, if_pos hi, List.getElem?_append]
          by_cases hlt : (i - 1).toNat < names.length
          · rw [if_pos hlt]
          · rw [if_neg hlt, List.getElem?_eq_none (by omega), List.getElem?_eq_none]
            rw [List.length_singleton]
            omega
        · rw [if_neg hi, if_neg hi]

theorem isArray_empty : (∅ : RawTable F).IsArray [] := by
  intro k
  rw [AList.lookup_empty]
  cases k with
  | string s => rfl
  | other n => rfl
  | integer i =>
      dsimp only
      split
      · rfl
      · rfl

end Testcase
