import LuaTestcase.Lua.Capi
import LuaTestcase.Signal.Lookup

/-!
# `testcase.signal`: `signames`

`signames_lua` builds one table that maps names to numbers and numbers to names.  Under a number
there is nothing, one name, or an array of names, and the loop turns one into the next.  It finds
the table at the absolute index 1 of its stack, where the first argument is if there is one.

* `signamesEntry_absent`, `_single`, `_array`, `_other` — one iteration, by what is found under the
  number, for any stack.
-/

namespace Testcase

variable {F : Type}

/-! ## `signames_lua` -/

/-- `lua_pushinteger(L, e->num)`. -/
def SignalEntry.number (e : SignalEntry) : HeapValue F := .integer e.num.toInt

/-- What an iteration does with the value it has found under the number, which is on top. -/
def inspectExisting (e : SignalEntry) (L : LuaC F) : Option (LuaC F) :=
  match L.type (-1) with
  | .nil =>
      -- the first occurrence: result[signum] = signame
      (((L.pop 1).push e.number).push (.string e.name)).rawset 1
  | .string => do
      -- the second one: the string becomes an array
      let L ← (L.newtable.pushvalue (-2)).rawseti (-2) 1
      let L ← (L.push (.string e.name)).rawseti (-2) 2
      let L ← ((L.push e.number).pushvalue (-2)).rawset 1
      some (L.pop 2)
  | .table => do
      -- a later one: the name is appended to the array
      let len ← L.rawlen (-1)
      let L ← (L.push (.string e.name)).rawseti (-2) (len + 1)
      some (L.pop 1)
  | _ => some (L.pop 1)

/-- One iteration. -/
def signamesEntry (L : LuaC F) (e : SignalEntry) : Option (LuaC F) := do
  let L ← ((L.push (.string e.name)).push e.number).rawset 1
  let L ← (L.push e.number).rawget 1
  inspectExisting e L

/-- The loop. -/
def signamesLoop (SIGNALS : List SignalEntry) (L : LuaC F) : Option (LuaC F) :=
  SIGNALS.foldlM signamesEntry L

/-- `signames(...)`: what is returned is on top of the stack. -/
def signames (SIGNALS : List SignalEntry) (args : List (HeapValue F)) (heap : Heap (RawTable F)) :
    Option (LuaC F) :=
  signamesLoop SIGNALS (LuaC.newtable ⟨args, heap⟩)

/-! ## One iteration -/

section Iteration

variable {M : LuaStack (HeapValue F)} {h : Heap (RawTable F)} {a : Nat} {t : RawTable F}
  (e : SignalEntry)

/-- The table, when the name was assigned. -/
def RawTable.named (t : RawTable F) (e : SignalEntry) : RawTable F :=
  t.assign (.string e.name) e.number

theorem number_type : (e.number : HeapValue F).type ≠ .nil := by simp [SignalEntry.number, Value.type]

theorem named_lookup (t : RawTable F) (k : TableKey) :
    (t.named e).lookup k = if k = .string e.name then some e.number else t.lookup k :=
  lookup_assign (number_type e) k

theorem named_integer (t : RawTable F) (i : Int) :
    (t.named e).lookup (.integer i) = t.lookup (.integer i) := by
  rw [named_lookup, if_neg (by simp)]

variable (hM : 0 < M.length) (hslot : M.slot? 1 = some (tableRef a)) (hread : h.read a = some t)

include hM hslot hread in
/-- Every iteration begins in the same way: it assigns the name and looks the number up. -/
theorem signamesEntry_begin :
    signamesEntry ⟨M, h⟩ e =
      inspectExisting e
        ⟨M ++ [(t.lookup (.integer e.num.toInt)).getD .nil], h.write a (t.named e)⟩ := by
  have hset : LuaC.rawset ⟨M ++ [.string e.name, e.number], h⟩ 1 =
      some ⟨M, h.write a (t.named e)⟩ := by
    refine rawset_run ?_ hread rfl
    rw [LuaStack.slot?_append (by decide) (by omega)]
    exact hslot
  have hget : LuaC.rawget ⟨M ++ [e.number], h.write a (t.named e)⟩ 1 =
      some ⟨M ++ [(t.lookup (.integer e.num.toInt)).getD .nil], h.write a (t.named e)⟩ := by
    rw [← named_integer e t]
    refine rawget_run ?_ (Heap.read_write_self (Heap.lt_size_of_read hread)) rfl
    rw [LuaStack.slot?_append (by decide) (by omega)]
    exact hslot
  simp only [signamesEntry, LuaC.push, List.append_assoc, List.singleton_append, hset, hget,
    Option.bind_eq_bind, Option.bind_some]

/-- The type of what is on top. -/
theorem type_top (v : HeapValue F) : LuaC.type ⟨M ++ [v], h⟩ (-1) = v.type := by
  rw [LuaC.type, LuaStack.slot?_top]
  rfl

include hM hslot hread in
theorem inspect_absent :
    inspectExisting e ⟨M ++ [.nil], h⟩ =
      some ⟨M, h.write a (t.assign (.integer e.num.toInt) (.string e.name))⟩ := by
  have hset : LuaC.rawset ⟨M ++ [e.number, .string e.name], h⟩ 1 =
      some ⟨M, h.write a (t.assign (.integer e.num.toInt) (.string e.name))⟩ := by
    refine rawset_run ?_ hread rfl
    rw [LuaStack.slot?_append (by decide) (by omega)]
    exact hslot
  have hpop : (M ++ [Value.nil]).pop 1 = M := LuaStack.pop_append M [_]
  rw [inspectExisting, type_top]
  simp only [Value.type, LuaC.pop, LuaC.push, hpop, List.append_assoc, List.singleton_append, hset]

/-- The array that two names become. -/
def pairArray (x y : Str) : RawTable F :=
  RawTable.assign (RawTable.assign ∅ (.integer 1) (.string x)) (.integer 2) (.string y)

theorem pairArray_isArray (x y : Str) : (pairArray x y : RawTable F).IsArray [x, y] :=
  (isArray_empty.snoc x).snoc y

include hM hslot hread in
theorem inspect_single (x : Str) :
    inspectExisting e ⟨M ++ [.string x], h⟩ =
      some ⟨M, (((h.alloc ∅).1.write h.size (RawTable.assign ∅ (.integer 1) (.string x))).write
        h.size (pairArray x e.name)).write a
          (t.assign (.integer e.num.toInt) (tableRef h.size))⟩ := by
  let arr := tableRef (F := F) h.size
  let h₁ := (h.alloc ∅).1
  let h₂ := h₁.write h.size (RawTable.assign ∅ (.integer 1) (.string x))
  let h₃ := h₂.write h.size (pairArray x e.name)
  have hlt : h.size < h₁.size := by simp [h₁]
  have halt : a < h.size := Heap.lt_size_of_read hread
  have hread₃ : h₃.read a = some t := by
    rw [Heap.read_write_of_ne halt.ne, Heap.read_write_of_ne halt.ne, Heap.read_alloc_of_lt halt,
      hread]
  have harr : ∀ v : HeapValue F, ((M ++ [.string x, arr]) ++ [v]).slot? (-2) = some arr := by
    intro v
    have hshape : (M ++ [.string x, arr]) ++ [v] = (M ++ [.string x]) ++ [arr, v] := by simp
    rw [hshape]
    exact LuaStack.slot?_below _ arr v
  -- the array is created, the old name pushed again and stored
  have hnew : (LuaC.newtable ⟨M ++ [.string x], h⟩).pushvalue (-2) =
      ⟨(M ++ [.string x, arr]) ++ [.string x], h₁⟩ := by
    show LuaC.pushvalue ⟨(M ++ [.string x]) ++ [arr], h₁⟩ (-2) = _
    rw [List.append_assoc, LuaC.pushvalue]
    simp only [List.singleton_append, LuaStack.slot?_below, Option.getD_some, LuaC.push]
  have hset₁ : LuaC.rawseti ⟨(M ++ [.string x, arr]) ++ [.string x], h₁⟩ (-2) 1 =
      some ⟨M ++ [.string x, arr], h₂⟩ :=
    rawseti_run (harr _) Heap.read_alloc_self 1
  -- the new name is stored
  have hset₂ : LuaC.rawseti ⟨(M ++ [.string x, arr]) ++ [.string e.name], h₂⟩ (-2) 2 =
      some ⟨M ++ [.string x, arr], h₃⟩ :=
    rawseti_run (harr _) (Heap.read_write_self hlt) 2
  -- the array takes the place of the string
  have hpush : LuaC.pushvalue ⟨(M ++ [.string x, arr]) ++ [e.number], h₃⟩ (-2) =
      ⟨(M ++ [.string x, arr]) ++ [e.number, arr], h₃⟩ := by
    rw [LuaC.pushvalue, harr, Option.getD_some, LuaC.push, List.append_assoc]
    rfl
  have hset₃ : LuaC.rawset ⟨(M ++ [.string x, arr]) ++ [e.number, arr], h₃⟩ 1 =
      some ⟨M ++ [.string x, arr],
        h₃.write a (t.assign (.integer e.num.toInt) arr)⟩ := by
    refine rawset_run ?_ hread₃ rfl
    rw [LuaStack.slot?_append (by decide) (by rw [List.length_append]; omega),
      LuaStack.slot?_append (by decide) (by omega)]
    exact hslot
  have hpop : (M ++ [.string x, arr]).pop 2 = M := LuaStack.pop_append M [_, _]
  rw [inspectExisting, type_top]
  simp only [Value.type, LuaC.push, hnew, hset₁, hset₂, hpush, hset₃, LuaC.pop, hpop,
    Option.bind_eq_bind, Option.bind_some]
  rfl

theorem inspect_array {b : Nat} {arr : RawTable F} (hb : h.read b = some arr) :
    inspectExisting e ⟨M ++ [tableRef b], h⟩ =
      some ⟨M, h.write b (arr.assign (.integer (arr.border + 1)) (.string e.name))⟩ := by
  have hlen : LuaC.rawlen ⟨M ++ [tableRef b], h⟩ (-1) = some arr.border := by
    have htable : LuaC.table? ⟨M ++ [tableRef b], h⟩ (-1) = some (b, arr) :=
      table?_eq (LuaStack.slot?_top M _) hb
    simp only [LuaC.rawlen, htable, Option.bind_eq_bind, Option.bind_some]
  have hset : LuaC.rawseti ⟨(M ++ [tableRef b]) ++ [.string e.name], h⟩ (-2) (arr.border + 1) =
      some ⟨M ++ [tableRef b],
        h.write b (arr.assign (.integer (arr.border + 1)) (.string e.name))⟩ := by
    refine rawseti_run ?_ hb _
    rw [List.append_assoc]
    exact LuaStack.slot?_below M _ _
  have hpop : (M ++ [tableRef b]).pop 1 = M := LuaStack.pop_append M [_]
  rw [inspectExisting, type_top]
  simp only [tableRef, Value.type, LuaC.push] at hlen hset hpop ⊢
  simp only [hlen, hset, hpop, LuaC.pop, Option.bind_eq_bind, Option.bind_some]

theorem inspect_other {v : HeapValue F} (hv : v.type ≠ .nil) (hs : v.type ≠ .string)
    (ht : v.type ≠ .table) : inspectExisting e ⟨M ++ [v], h⟩ = some ⟨M, h⟩ := by
  have hpop : (M ++ [v]).pop 1 = M := LuaStack.pop_append M [_]
  rw [inspectExisting, type_top]
  cases hty : v.type <;> simp_all [LuaC.pop]

end Iteration

end Testcase
