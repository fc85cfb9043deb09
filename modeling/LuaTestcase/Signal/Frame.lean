import LuaTestcase.Signal.Index

/-!
# `signames` with arguments

The loop writes to the table at index 1, which is the table that is returned only if there are no
arguments.  Otherwise it is the first argument: if that is a table, the caller's table is written
to, and the table that is returned stays empty (`Spared`); if it is none, the access is undefined.

* `signames_independent` — the whole index is returned and no other table changed if and only if
  there are no arguments, or no signals.
-/

namespace Testcase

variable {F : Type}

/-- A call of a C function: its arguments, and the tables there are.  No value refers to a table
that is not there. -/
structure TableCall (F : Type) where
  args : List (HeapValue F)
  heap : Heap (RawTable F)
  args_closed : ∀ a, tableRef a ∈ args → a < heap.size
  heap_closed : ∀ b t k a, heap.read b = some t → t.lookup k = some (tableRef a) → a < heap.size

/-- The call returns the index that it returns without arguments, and changes no table that was
there before. -/
def Independent (SIGNALS : List SignalEntry) (c : TableCall F) : Prop :=
  ∃ a L t, signames SIGNALS c.args c.heap = some L ∧ L.stack.slot? (-1) = some (tableRef a) ∧
    L.heap.read a = some t ∧ IsIndex L.heap t SIGNALS ∧
    ∀ b < c.heap.size, L.heap.read b = c.heap.read b

/-! ## The table that is returned stays empty -/

/-- The cell is an empty table, and no table refers to it. -/
structure Spared (r : Nat) (h : Heap (RawTable F)) : Prop where
  empty : h.read r = some ∅
  unknown : ∀ b t k, h.read b = some t → t.lookup k ≠ some (tableRef r)

section Spared

variable {r : Nat} {h : Heap (RawTable F)} {t : RawTable F}

theorem Spared.write (hs : Spared r h) {a : Nat} (ha : a ≠ r)
    (ht : ∀ k, t.lookup k ≠ some (tableRef r)) : Spared r (h.write a t) where
  empty := by rw [Heap.read_write_of_ne ha.symm, hs.empty]
  unknown b u k hu := by
    by_cases hb : b = a
    · subst hb
      by_cases hlt : b < h.size
      · rw [Heap.read_write_self hlt] at hu
        cases hu
        exact ht k
      · rw [read_of_size_le (by simpa using hlt)] at hu
        cases hu
    · rw [Heap.read_write_of_ne hb] at hu
      exact hs.unknown b u k hu

theorem Spared.alloc (hs : Spared r h) : Spared r (h.alloc ∅).1 where
  empty := by rw [Heap.read_alloc_of_lt (Heap.lt_size_of_read hs.empty), hs.empty]
  unknown b u k hu := by
    rcases lt_trichotomy b h.size with hlt | rfl | hgt
    · rw [Heap.read_alloc_of_lt hlt] at hu
      exact hs.unknown b u k hu
    · rw [Heap.read_alloc_self] at hu
      cases hu
      rw [AList.lookup_empty]
      simp
    · rw [read_of_size_le (by simp; omega)] at hu
      cases hu

/-- Nor does an assignment make it known. -/
theorem assign_unknown {k : TableKey} {v : HeapValue F} (hv : v.type ≠ .nil)
    (hne : v ≠ tableRef r) (ht : ∀ k, t.lookup k ≠ some (tableRef r)) (k' : TableKey) :
    (t.assign k v).lookup k' ≠ some (tableRef r) := by
  rw [lookup_assign hv]
  split_ifs
  · exact fun heq => hne (Option.some.inj heq)
  · exact ht k'

theorem assign_string_unknown {k : TableKey} (x : Str)
    (ht : ∀ k, t.lookup k ≠ some (tableRef r)) (k' : TableKey) :
    (t.assign k (.string x)).lookup k' ≠ some (tableRef r) :=
  assign_unknown (by simp [Value.type]) (by simp [tableRef]) ht k'

variable {M : LuaStack (HeapValue F)} {v : HeapValue F}

/-- An access to a slot without a table is undefined. -/
theorem signamesEntry_undefined (hM : 0 < M.length) (htable : LuaC.table? ⟨M, h⟩ 1 = none)
    (e : SignalEntry) : signamesEntry ⟨M, h⟩ e = none := by
  have hset : LuaC.table? ⟨(M ++ [.string e.name]) ++ [e.number], h⟩ 1 = none := by
    rw [← htable]
    refine table?_congr ?_ rfl
    show LuaStack.slot? ((M ++ [_]) ++ [_]) 1 = M.slot? 1
    rw [List.append_assoc, LuaStack.slot?_append (by decide) (by omega)]
  simp only [signamesEntry, LuaC.push, rawset_undefined hset, Option.bind_eq_bind, Option.bind_none]

theorem inspect_dangling {b : Nat} (hb : h.read b = none) (e : SignalEntry) :
    inspectExisting e ⟨M ++ [tableRef b], h⟩ = none := by
  have htable : LuaC.table? ⟨M ++ [tableRef b], h⟩ (-1) = none := by
    simp only [LuaC.table?, LuaStack.slot?_top, tableRef, HeapValue.address?, hb,
      Option.bind_eq_bind, Option.bind_some, Option.bind_none]
  have hlen : LuaC.rawlen ⟨M ++ [tableRef b], h⟩ (-1) = none := by
    simp only [LuaC.rawlen, htable, Option.bind_eq_bind, Option.bind_none]
  rw [inspectExisting, type_top]
  simp only [tableRef, Value.type] at hlen ⊢
  simp only [hlen, Option.bind_eq_bind, Option.bind_none]

/-- Nor does an array of two names, in a new cell. -/
theorem Spared.pair (hs : Spared r h) (x y : Str) :
    Spared r (((h.alloc ∅).1.write h.size (RawTable.assign ∅ (.integer 1) (.string x))).write
      h.size (pairArray x y)) := by
  have hne := (Heap.lt_size_of_read hs.empty).ne'
  have hempty : ∀ k, (∅ : RawTable F).lookup k ≠ some (tableRef r) := fun k => by
    rw [AList.lookup_empty]
    simp
  have hx : ∀ k, (RawTable.assign ∅ (.integer 1) (.string x)).lookup k ≠ some (tableRef r) :=
    assign_string_unknown x hempty
  exact (hs.alloc.write hne hx).write hne (assign_string_unknown y hx)

/-- Nor does what an iteration does with the value it has found. -/
theorem inspect_spared (hs : Spared r h) (hM : 0 < M.length) {a : Nat}
    (hslot : M.slot? 1 = some (tableRef a)) (hread : h.read a = some t) (ha : a ≠ r)
    (hv : v ≠ tableRef r) {e : SignalEntry} {L : LuaC F}
    (hrun : inspectExisting e ⟨M ++ [v], h⟩ = some L) : L.stack = M ∧ Spared r L.heap := by
  have ht : ∀ k, t.lookup k ≠ some (tableRef r) := fun k => hs.unknown a t k hread
  cases v with
  | nil =>
      rw [inspect_absent e hM hslot hread] at hrun
      cases hrun
      exact ⟨rfl, hs.write ha (assign_string_unknown e.name ht)⟩
  | string x =>
      rw [inspect_single e hM hslot hread] at hrun
      cases hrun
      have hne := (Heap.lt_size_of_read hs.empty).ne'
      refine ⟨rfl, (hs.pair x e.name).write ha ?_⟩
      refine assign_unknown (by simp [tableRef, Value.type]) ?_ ht
      simpa [tableRef] using hne
  | object u b =>
      by_cases hu : u = .table
      · subst hu
        change inspectExisting e ⟨M ++ [tableRef b], h⟩ = some L at hrun
        rcases hb : h.read b with _ | arr
        · rw [inspect_dangling hb] at hrun
          cases hrun
        · rw [inspect_array e hb] at hrun
          cases hrun
          refine ⟨rfl, hs.write (fun hbr => hv (hbr ▸ rfl)) ?_⟩
          exact assign_string_unknown e.name fun k => hs.unknown b arr k hb
      · rw [inspect_other e (by cases u <;> simp [Value.type]) (by cases u <;> simp [Value.type])
          (by cases u <;> simp_all [Value.type])] at hrun
        cases hrun
        exact ⟨rfl, hs⟩
  | _ =>
      rw [inspect_other e (by simp [Value.type]) (by simp [Value.type])
        (by simp [Value.type])] at hrun
      cases hrun
      exact ⟨rfl, hs⟩

/-- **One iteration**: the stack is the same, and the table is still spared. -/
theorem signamesEntry_spared (hs : Spared r h) (hM : 0 < M.length) (hslot : M.slot? 1 = some v)
    (hv : v ≠ tableRef r) {e : SignalEntry} {L : LuaC F}
    (hrun : signamesEntry ⟨M, h⟩ e = some L) : L.stack = M ∧ Spared r L.heap := by
  rcases htable : LuaC.table? ⟨M, h⟩ 1 with _ | ⟨a, t⟩
  · rw [signamesEntry_undefined hM htable] at hrun
    cases hrun
  · obtain ⟨ha, hread⟩ := table?_some htable
    have har : a ≠ r := by
      rintro rfl
      exact hv (Option.some.inj (hslot.symm.trans ha))
    have ht : ∀ k, t.lookup k ≠ some (tableRef r) := fun k => hs.unknown a t k hread
    have hnamed : ∀ k, (t.named e).lookup k ≠ some (tableRef r) :=
      assign_unknown (number_type e) (by simp [SignalEntry.number, tableRef]) ht
    have hfound : (t.lookup (.integer e.num.toInt)).getD .nil ≠ tableRef r := by
      intro heq
      rcases hlookup : t.lookup (.integer e.num.toInt) with _ | w
      · rw [hlookup] at heq
        cases heq
      · rw [hlookup] at heq
        exact ht _ (hlookup.trans (congrArg some heq))
    rw [signamesEntry_begin e hM ha hread] at hrun
    exact inspect_spared (hs.write har hnamed) hM ha
      (Heap.read_write_self (Heap.lt_size_of_read hread)) har hfound hrun

/-- **The loop.** -/
theorem signamesLoop_spared (hs : Spared r h) (hM : 0 < M.length) (hslot : M.slot? 1 = some v)
    (hv : v ≠ tableRef r) {SIGNALS : List SignalEntry} {L : LuaC F}
    (hrun : signamesLoop SIGNALS ⟨M, h⟩ = some L) : L.stack = M ∧ Spared r L.heap := by
  induction SIGNALS generalizing h with
  | nil =>
      cases hrun
      exact ⟨rfl, hs⟩
  | cons e rest ih =>
      rw [signamesLoop, List.foldlM_cons, Option.bind_eq_bind, Option.bind_eq_some_iff] at hrun
      obtain ⟨⟨M₁, h₁⟩, hentry, hrest⟩ := hrun
      obtain ⟨rfl, hs₁⟩ := signamesEntry_spared hs hM hslot hv hentry
      exact ih hs₁ hrest

end Spared

/-! ## Independence -/

/-- The new table is known to nobody. -/
theorem TableCall.spared (c : TableCall F) : Spared c.heap.size (c.heap.alloc ∅).1 where
  empty := Heap.read_alloc_self
  unknown b t k hb hk := by
    rcases Nat.lt_or_ge b c.heap.size with hlt | hge
    · rw [Heap.read_alloc_of_lt hlt] at hb
      exact absurd (c.heap_closed b t k _ hb hk) (lt_irrefl _)
    · have hsize := Heap.lt_size_of_read hb
      rw [Heap.size_alloc] at hsize
      obtain rfl : b = c.heap.size := by omega
      rw [Heap.read_alloc_self] at hb
      cases hb
      cases hk

/-- With arguments, an empty table is returned. -/
theorem signames_args {SIGNALS : List SignalEntry} {c : TableCall F} (hargs : c.args ≠ [])
    {L : LuaC F} (hrun : signames SIGNALS c.args c.heap = some L) :
    L.stack.slot? (-1) = some (tableRef c.heap.size) ∧ L.heap.read c.heap.size = some ∅ := by
  obtain ⟨v, more, hcons⟩ := List.exists_cons_of_ne_nil hargs
  have hv : v ≠ tableRef c.heap.size := by
    rintro rfl
    exact absurd (c.args_closed c.heap.size (by simp [hcons])) (lt_irrefl _)
  have hslot : LuaStack.slot? (c.args ++ [tableRef c.heap.size]) 1 = some v := by
    rw [hcons]
    rfl
  obtain ⟨hstack, hs⟩ := signamesLoop_spared c.spared (by simp) hslot hv hrun
  rw [hstack]
  exact ⟨LuaStack.slot?_top _ _, hs.empty⟩

/-- Without signals, so it is. -/
theorem signames_empty (c : TableCall F) : Independent [] c := by
  refine ⟨c.heap.size, _, ∅, rfl, LuaStack.slot?_top _ _, Heap.read_alloc_self, ?_, ?_⟩
  · exact ⟨fun _ => rfl, fun _ => .absent, fun _ => rfl⟩
  · intro b hlt
    exact Heap.read_alloc_of_lt hlt

/-- **Independence of the arguments**: the function does what it does without arguments if and only
if there are none, or there is no signal. -/
theorem signames_independent (SIGNALS : List SignalEntry) (c : TableCall F) :
    Independent SIGNALS c ↔ c.args = [] ∨ SIGNALS = [] := by
  constructor
  · rintro ⟨a, L, t, hrun, hret, hread, hindex, -⟩
    by_contra hcase
    obtain ⟨hargs, hsignals⟩ := not_or.mp hcase
    obtain ⟨hret', hread'⟩ := signames_args hargs hrun
    obtain rfl : a = c.heap.size := by simpa [tableRef] using hret.symm.trans hret'
    obtain rfl : t = ∅ := Option.some.inj (hread.symm.trans hread')
    obtain ⟨e, rest, rfl⟩ := List.exists_cons_of_ne_nil hsignals
    -- the name of the first entry is missing
    obtain ⟨n, hn⟩ := Option.isSome_iff_exists.mp
      (numberOf_isSome.mpr ⟨e, List.mem_cons_self, rfl⟩)
    have hlookup := hindex.strings e.name
    rw [hn] at hlookup
    cases hlookup
  · rintro (hargs | rfl)
    · obtain ⟨h, t, hrun, hb⟩ := signames_nil SIGNALS c.heap
      have hsame : signames SIGNALS c.args c.heap = signames SIGNALS [] c.heap := by rw [hargs]
      exact ⟨_, _, t, hsame.trans hrun, rfl, hb.read, hb.index, hb.frame⟩
    · exact signames_empty c

/-- The module table as the argument of a method call. -/
def methodCall : TableCall Unit where
  args := [tableRef 0]
  heap := ⟨[∅]⟩
  args_closed a ha := by
    obtain rfl : a = 0 := by simpa [tableRef] using ha
    exact Nat.one_pos
  heap_closed b t k a hb hk := by
    obtain rfl : b = 0 := by
      have := Heap.lt_size_of_read hb
      simp [Heap.size] at this
      exact this
    cases hb
    cases hk

/-- The signal is written to the module table, and the table that is returned is empty. -/
theorem method_call_dependent :
    ∃ L t, signames termOnly methodCall.args methodCall.heap = some L ∧
      L.stack.slot? (-1) = some (tableRef 1) ∧ L.heap.read 1 = some ∅ ∧
      L.heap.read 0 = some t ∧ t.lookup (.string "SIGTERM".toList) = some (.integer 15) ∧
      ¬Independent termOnly methodCall := by
  refine ⟨_, _, rfl, rfl, rfl, rfl, rfl, ?_⟩
  rintro ⟨a, L, t, hrun, hret, hread, hindex, -⟩
  cases hrun
  cases hret
  cases hread
  cases hindex.strings "SIGTERM".toList

end Testcase
