import Mathlib.Data.List.Induction
import LuaTestcase.Signal.Names

/-!
# The index that `signames` returns

`IsIndex h t SIGNALS` says what the table `t` is: it maps every name to its number and every number
to the names with it, and nothing else.  The names with a number are in the order of the list, and
they are represented by nothing, by a string or by an array, depending on how many there are
(`Listed`).

* `Building` — the invariant of the loop without arguments: the table is the index of the entries
  so far, its arrays are tables of their own, and no other table has changed.
* `signames_index` — without arguments the index of the whole list is returned.
-/

namespace Testcase

variable {F : Type}

/-! ## Indexes -/

/-- The names with a number, in order. -/
def namesWith (SIGNALS : List SignalEntry) (i : Int) : List Str :=
  (SIGNALS.filter fun e => e.num.toInt = i).map SignalEntry.name

/-- The number of a name: the last entry of the name counts. -/
def numberOf (SIGNALS : List SignalEntry) (x : Str) : Option Int :=
  (SIGNALS.reverse.find? fun e => e.name = x).map fun e => e.num.toInt

/-- The value stands for the names. -/
inductive Listed (h : Heap (RawTable F)) : Option (HeapValue F) → List Str → Prop where
  | absent : Listed h none []
  | single (x : Str) : Listed h (some (.string x)) [x]
  | array {b : Nat} {arr : RawTable F} {x y : Str} {rest : List Str} : h.read b = some arr →
      arr.IsArray (x :: y :: rest) → Listed h (some (tableRef b)) (x :: y :: rest)

structure IsIndex (h : Heap (RawTable F)) (t : RawTable F) (SIGNALS : List SignalEntry) : Prop where
  strings : ∀ x, t.lookup (.string x) = (numberOf SIGNALS x).map .integer
  integers : ∀ i, Listed h (t.lookup (.integer i)) (namesWith SIGNALS i)
  others : ∀ k, t.lookup (.other k) = none

theorem namesWith_snoc (done : List SignalEntry) (e : SignalEntry) (i : Int) :
    namesWith (done ++ [e]) i = namesWith done i ++ if e.num.toInt = i then [e.name] else [] := by
  rw [namesWith, List.filter_append, List.map_append, List.filter_singleton]
  by_cases h : e.num.toInt = i
  · simp [h, namesWith]
  · simp [h, namesWith]

theorem numberOf_snoc (done : List SignalEntry) (e : SignalEntry) (x : Str) :
    numberOf (done ++ [e]) x = if x = e.name then some e.num.toInt else numberOf done x := by
  rw [numberOf, List.reverse_append, List.reverse_singleton, List.singleton_append, List.find?_cons]
  by_cases h : x = e.name
  · simp [h]
  · rw [if_neg h]
    simp [Ne.symm h, numberOf]

/-- Listed values are kept if their arrays are. -/
theorem Listed.mono {h h' : Heap (RawTable F)} {v : Option (HeapValue F)} {names : List Str}
    (hl : Listed h v names)
    (hkeep : ∀ b arr, v = some (tableRef b) → h.read b = some arr → h'.read b = some arr) :
    Listed h' v names := by
  cases hl with
  | absent => exact .absent
  | single x => exact .single x
  | array hread harr => exact .array (hkeep _ _ rfl hread) harr

/-! ## The loop without arguments -/

/-- The table at the address of the next cell is the index of the entries so far. -/
structure Building (h₀ h : Heap (RawTable F)) (t : RawTable F) (done : List SignalEntry) : Prop where
  read : h.read h₀.size = some t
  index : IsIndex h t done
  /-- Two numbers do not share an array. -/
  apart : ∀ {i j : Int} {b : Nat}, t.lookup (.integer i) = some (tableRef b) →
    t.lookup (.integer j) = some (tableRef b) → i = j
  /-- The arrays were created behind the table. -/
  fresh : ∀ {i : Int} {b : Nat}, t.lookup (.integer i) = some (tableRef b) → h₀.size < b
  frame : ∀ b < h₀.size, h.read b = h₀.read b

section Step

variable {h₀ h h' : Heap (RawTable F)} {t t' : RawTable F} {done : List SignalEntry}
  {e : SignalEntry}

theorem named_string (t : RawTable F) (e : SignalEntry) (x : Str) :
    (t.named e).lookup (.string x) = if x = e.name then some e.number else t.lookup (.string x) := by
  rw [named_lookup]
  simp

theorem named_other (t : RawTable F) (e : SignalEntry) (k : Nat) :
    (t.named e).lookup (.other k) = t.lookup (.other k) := by
  rw [named_lookup, if_neg (by simp)]

/-- One more entry: the name has its number, one more name is listed under the number, and every
cell but the table and the array under the number is as it was. -/
theorem Building.step (hb : Building h₀ h t done) (hread : h'.read h₀.size = some t')
    (hstring : ∀ x, t'.lookup (.string x) = (t.named e).lookup (.string x))
    (hother : ∀ k, t'.lookup (.other k) = t.lookup (.other k))
    (hinteger : ∀ i, i ≠ e.num.toInt → t'.lookup (.integer i) = t.lookup (.integer i))
    (hlisted : Listed h' (t'.lookup (.integer e.num.toInt))
      (namesWith done e.num.toInt ++ [e.name]))
    (hown : ∀ b, t'.lookup (.integer e.num.toInt) = some (tableRef b) →
      h₀.size < b ∧ ∀ i, i ≠ e.num.toInt → t.lookup (.integer i) ≠ some (tableRef b))
    (hkeep : ∀ b c, b ≠ h₀.size → t.lookup (.integer e.num.toInt) ≠ some (tableRef b) →
      h.read b = some c → h'.read b = some c) :
    Building h₀ h' t' (done ++ [e]) where
  read := hread
  index := by
    refine ⟨?_, ?_, ?_⟩
    · intro x
      rw [hstring, named_string, numberOf_snoc, hb.index.strings]
      split
      · rfl
      · rfl
    · intro i
      rw [namesWith_snoc]
      by_cases hi : e.num.toInt = i
      · subst hi
        rw [if_pos rfl]
        exact hlisted
      · rw [if_neg hi, List.append_nil, hinteger i (Ne.symm hi)]
        refine (hb.index.integers i).mono ?_
        intro b arr hv harr
        refine hkeep b arr (hb.fresh hv).ne' ?_ harr
        intro hnum
        exact hi (hb.apart hnum hv)
    · intro k
      rw [hother, hb.index.others]
  apart {i j b} hi hj := by
    by_cases hin : i = e.num.toInt
    · by_cases hjn : j = e.num.toInt
      · rw [hin, hjn]
      · subst hin
        rw [hinteger j hjn] at hj
        exact absurd hj ((hown b hi).2 j hjn)
    · by_cases hjn : j = e.num.toInt
      · subst hjn
        rw [hinteger i hin] at hi
        exact absurd hi ((hown b hj).2 i hin)
      · rw [hinteger i hin] at hi
        rw [hinteger j hjn] at hj
        exact hb.apart hi hj
  fresh {i b} hi := by
    by_cases hin : i = e.num.toInt
    · subst hin
      exact (hown b hi).1
    · rw [hinteger i hin] at hi
      exact hb.fresh hi
  frame b hlt := by
    rw [← hb.frame b hlt]
    obtain ⟨c, hc⟩ : ∃ c, h.read b = some c := by
      rw [hb.frame b hlt]
      exact ⟨_, List.getElem?_eq_getElem hlt⟩
    rw [hc]
    refine hkeep b c hlt.ne ?_ hc
    intro hnum
    exact absurd (hb.fresh hnum) (by omega)

/-- What an assignment under the number leaves of the named table. -/
theorem numbered_lookup (t : RawTable F) (e : SignalEntry) {v : HeapValue F} (hv : v.type ≠ .nil)
    (k : TableKey) :
    ((t.named e).assign (.integer e.num.toInt) v).lookup k =
      if k = .integer e.num.toInt then some v else (t.named e).lookup k :=
  lookup_assign hv k

/-- A new value under the number. -/
theorem Building.step_assign (hb : Building h₀ h t done) {v : HeapValue F} (hv : v.type ≠ .nil)
    (hread : h'.read h₀.size = some ((t.named e).assign (.integer e.num.toInt) v))
    (hlisted : Listed h' (some v) (namesWith done e.num.toInt ++ [e.name]))
    (hown : ∀ b, v = tableRef b → h₀.size < b ∧ ∀ i, t.lookup (.integer i) ≠ some (tableRef b))
    (hkeep : ∀ b c, b ≠ h₀.size → h.read b = some c → h'.read b = some c) :
    Building h₀ h' ((t.named e).assign (.integer e.num.toInt) v) (done ++ [e]) := by
  have hnum := numbered_lookup t e hv (.integer e.num.toInt)
  rw [if_pos rfl] at hnum
  refine hb.step hread ?_ ?_ ?_ ?_ ?_ fun b c hne _ hc => hkeep b c hne hc
  · intro x
    rw [numbered_lookup t e hv, if_neg (by simp)]
  · intro k
    rw [numbered_lookup t e hv, if_neg (by simp), named_other]
  · intro i hi
    rw [numbered_lookup t e hv, if_neg (by simpa using hi), named_integer]
  · rw [hnum]
    exact hlisted
  · intro b hb
    rw [hnum] at hb
    obtain ⟨hlt, hne⟩ := hown b (Option.some.inj hb)
    exact ⟨hlt, fun i _ => hne i⟩

/-- An array of the table is in the heap. -/
theorem IsIndex.read_array (hi : IsIndex h t done) {i : Int} {b : Nat}
    (hb : t.lookup (.integer i) = some (tableRef b)) : b < h.size := by
  have hl := hi.integers i
  rw [hb] at hl
  generalize namesWith done i = names at hl
  cases hl with
  | array hread _ => exact Heap.lt_size_of_read hread

/-- **One iteration.** -/
theorem signamesEntry_building (hb : Building h₀ h t done) (e : SignalEntry) :
    ∃ h' t', signamesEntry ⟨[tableRef h₀.size], h⟩ e = some ⟨[tableRef h₀.size], h'⟩ ∧
      Building h₀ h' t' (done ++ [e]) := by
  have hlt := Heap.lt_size_of_read hb.read
  have hM : 0 < ([tableRef h₀.size] : LuaStack (HeapValue F)).length := Nat.one_pos
  have hslot : LuaStack.slot? ([tableRef h₀.size] : LuaStack (HeapValue F)) 1 =
      some (tableRef h₀.size) := rfl
  have hbegin := signamesEntry_begin e hM hslot hb.read
  have hnamed : (h.write h₀.size (t.named e)).read h₀.size = some (t.named e) :=
    Heap.read_write_self hlt
  have hsize : (h.write h₀.size (t.named e)).size = h.size := Heap.size_write
  have hkeep : ∀ b c, b ≠ h₀.size → h.read b = some c →
      (h.write h₀.size (t.named e)).read b = some c :=
    fun b c hne hc => (Heap.read_write_of_ne hne).trans hc
  have hlisted := hb.index.integers e.num.toInt
  generalize hv : t.lookup (.integer e.num.toInt) = v at hlisted hbegin
  generalize hnames : namesWith done e.num.toInt = names at hlisted
  cases hlisted with
  | absent =>
      rw [Option.getD_none, inspect_absent e hM hslot hnamed] at hbegin
      have hstring : (Value.string e.name : HeapValue F).type ≠ .nil := by simp [Value.type]
      refine ⟨_, _, hbegin, hb.step_assign hstring ?_ ?_ ?_ ?_⟩
      · exact Heap.read_write_self (by omega)
      · rw [hnames]
        exact .single e.name
      · intro b hne
        cases hne
      · intro b c hne hc
        rw [Heap.read_write_of_ne hne]
        exact hkeep b c hne hc
  | single x =>
      rw [Option.getD_some, inspect_single e hM hslot hnamed, hsize] at hbegin
      have hne : h.size ≠ h₀.size := by omega
      have htable : (tableRef h.size : HeapValue F).type ≠ .nil := by simp [tableRef, Value.type]
      refine ⟨_, _, hbegin, hb.step_assign htable ?_ ?_ ?_ ?_⟩
      · exact Heap.read_write_self (by simp; omega)
      · rw [hnames]
        refine .array ?_ (pairArray_isArray x e.name)
        rw [Heap.read_write_of_ne hne]
        exact Heap.read_write_self (by simp)
      · intro b hb'
        obtain rfl : h.size = b := by simpa [tableRef] using hb'
        exact ⟨hlt, fun i hi => absurd (hb.index.read_array hi) (lt_irrefl _)⟩
      · intro b c hne hc
        have hb' := Heap.lt_size_of_read hc
        rw [Heap.read_write_of_ne hne, Heap.read_write_of_ne (by omega),
          Heap.read_write_of_ne (by omega), Heap.read_alloc_of_lt (by omega)]
        exact hkeep b c hne hc
  | @array b arr x y rest hread harr =>
      have hne : b ≠ h₀.size := (hb.fresh hv).ne'
      rw [Option.getD_some, inspect_array e (hkeep b arr hne hread), rawlen_array harr] at hbegin
      have hlookup : (t.named e).lookup (.integer e.num.toInt) = some (tableRef b) := by
        rw [named_integer, hv]
      refine ⟨_, _, hbegin, hb.step ?_ (fun _ => rfl) (named_other t e)
        (fun i _ => named_integer e t i) ?_ ?_ ?_⟩
      · rw [Heap.read_write_of_ne hne.symm, hnamed]
      · rw [hlookup, hnames]
        refine .array (Heap.read_write_self ?_) (harr.snoc e.name)
        rw [hsize]
        exact Heap.lt_size_of_read hread
      · intro b' hb'
        obtain rfl : b = b' := by simpa [tableRef] using hlookup.symm.trans hb'
        exact ⟨hb.fresh hv, fun i hi hi' => hi (hb.apart hi' hv)⟩
      · intro b' c hb' hnum hc
        have hbb : b' ≠ b := by
          rintro rfl
          exact hnum hv
        rw [Heap.read_write_of_ne hbb]
        exact hkeep b' c hb' hc

end Step

/-- **The loop.** -/
theorem signamesLoop_building {h₀ h : Heap (RawTable F)} {t : RawTable F}
    {done : List SignalEntry} (hb : Building h₀ h t done) (rest : List SignalEntry) :
    ∃ h' t', signamesLoop rest ⟨[tableRef h₀.size], h⟩ = some ⟨[tableRef h₀.size], h'⟩ ∧
      Building h₀ h' t' (done ++ rest) := by
  induction rest generalizing h t done with
  | nil => exact ⟨h, t, rfl, by rwa [List.append_nil]⟩
  | cons e rest ih =>
      obtain ⟨h₁, t₁, hstep, hb₁⟩ := signamesEntry_building hb e
      obtain ⟨h', t', hloop, hb'⟩ := ih hb₁
      rw [List.append_assoc] at hb'
      refine ⟨h', t', ?_, hb'⟩
      rw [signamesLoop, List.foldlM_cons, hstep]
      exact hloop

/-- Without arguments, before the loop. -/
theorem building_newtable (h₀ : Heap (RawTable F)) : Building h₀ (h₀.alloc ∅).1 ∅ [] where
  read := Heap.read_alloc_self
  index := ⟨fun _ => rfl, fun _ => .absent, fun _ => rfl⟩
  apart hi := by cases hi
  fresh hi := by cases hi
  frame b hlt := Heap.read_alloc_of_lt hlt

/-- Without arguments, the whole function. -/
theorem signames_nil (SIGNALS : List SignalEntry) (h₀ : Heap (RawTable F)) :
    ∃ h t, signames SIGNALS [] h₀ = some ⟨[tableRef h₀.size], h⟩ ∧ Building h₀ h t SIGNALS :=
  signamesLoop_building (building_newtable h₀) SIGNALS

/-! ## The whole index -/

theorem mem_namesWith {SIGNALS : List SignalEntry} {i : Int} {x : Str} :
    x ∈ namesWith SIGNALS i ↔ ∃ e ∈ SIGNALS, e.num.toInt = i ∧ e.name = x := by
  simp [namesWith, and_assoc]

theorem numberOf_isSome {SIGNALS : List SignalEntry} {x : Str} :
    (numberOf SIGNALS x).isSome ↔ ∃ e ∈ SIGNALS, e.name = x := by
  simp [numberOf, List.find?_isSome]

/-- A name that occurs once. -/
theorem numberOf_eq {SIGNALS : List SignalEntry} (hnames : (SIGNALS.map SignalEntry.name).Nodup)
    {e : SignalEntry} (he : e ∈ SIGNALS) : numberOf SIGNALS e.name = some e.num.toInt := by
  rcases hfind : SIGNALS.reverse.find? (fun e' => e'.name = e.name) with _ | e'
  · have := List.find?_eq_none.mp hfind e (List.mem_reverse.mpr he)
    simp at this
  · have hname : e'.name = e.name := by simpa using List.find?_some hfind
    have hmem := List.mem_reverse.mp (List.mem_of_find?_eq_some hfind)
    rw [numberOf, hfind, List.inj_on_of_nodup_map hnames hmem he hname]
    rfl

/-- The first name with a number is the one that `tosigname` finds. -/
theorem tosigname_eq_head (SIGNALS : List SignalEntry) (num : Int32) :
    tosigname SIGNALS num.toInt64 = (namesWith SIGNALS num.toInt).head? := by
  have hnum : (fun e : SignalEntry => decide (e.num.toInt = num.toInt)) =
      fun e => decide (e.num = num) := by
    funext e
    exact decide_eq_decide.mpr Int32.toInt_inj
  rw [tosigname, Int32.toInt32_toInt64, lookupByNum, namesWith, hnum, List.head?_map,
    List.head?_filter]

/-- Something is listed if and only if there are names. -/
theorem Listed.isSome {h : Heap (RawTable F)} {v : Option (HeapValue F)} {names : List Str}
    (hl : Listed h v names) : v.isSome ↔ names ≠ [] := by
  cases hl with
  | absent => simp
  | single x => simp
  | array _ _ => simp

/-- What `signames` returns for a table of signals. -/
structure SignalIndex (SIGNALS : List SignalEntry) (h : Heap (RawTable F)) (t : RawTable F) :
    Prop where
  /-- The keys are the names and the numbers. -/
  keys : ∀ k, (t.lookup k).isSome ↔
    ∃ e ∈ SIGNALS, k = .string e.name ∨ k = .integer e.num.toInt
  /-- A name has its number. -/
  name : ∀ e ∈ SIGNALS, t.lookup (.string e.name) = some (.integer e.num.toInt)
  /-- A number has the one name with it, or the array of all names with it, in order. -/
  number : ∀ e ∈ SIGNALS, Listed h (t.lookup (.integer e.num.toInt)) (namesWith SIGNALS e.num.toInt)
  /-- Each name once. -/
  once : ∀ e ∈ SIGNALS, (namesWith SIGNALS e.num.toInt).Nodup
  /-- The first name is the one that `tosigname` returns. -/
  first : ∀ e ∈ SIGNALS,
    tosigname SIGNALS e.num.toInt64 = (namesWith SIGNALS e.num.toInt).head?
  /-- The number of a name is the one that `tosignum` returns, in any case. -/
  anyCase : Distinguished SIGNALS → ∀ e ∈ SIGNALS, ∀ s, lower s = lower e.name →
    (tosignum SIGNALS s).map (fun n => .integer n.toInt) = t.lookup (.string e.name)

/-- **`signames` is the index of the table of signals.** -/
theorem signames_index {SIGNALS : List SignalEntry}
    (hnames : (SIGNALS.map SignalEntry.name).Nodup) (heap : Heap (RawTable F)) :
    ∃ a L t, signames SIGNALS [] heap = some L ∧ L.stack.slot? (-1) = some (tableRef a) ∧
      L.heap.read a = some t ∧ SignalIndex SIGNALS L.heap t := by
  obtain ⟨h, t, hrun, hb⟩ := signames_nil SIGNALS heap
  refine ⟨heap.size, _, t, hrun, rfl, hb.read, ?_⟩
  have hname : ∀ e ∈ SIGNALS, t.lookup (.string e.name) = some (.integer e.num.toInt) := by
    intro e he
    rw [hb.index.strings, numberOf_eq hnames he]
    rfl
  refine ⟨?_, hname, fun e _ => hb.index.integers _, ?_, fun e _ => tosigname_eq_head _ _, ?_⟩
  · rintro (i | x | k)
    · rw [(hb.index.integers i).isSome]
      constructor
      · intro hne
        obtain ⟨x, hx⟩ := List.exists_mem_of_ne_nil _ hne
        obtain ⟨e, he, rfl, -⟩ := mem_namesWith.mp hx
        exact ⟨e, he, .inr rfl⟩
      · rintro ⟨e, he, hk | hk⟩
        · cases hk
        · have hi := (TableKey.integer.inj hk).symm
          exact List.ne_nil_of_mem (mem_namesWith.mpr ⟨e, he, hi, rfl⟩)
    · rw [hb.index.strings, Option.isSome_map, numberOf_isSome]
      constructor
      · rintro ⟨e, he, rfl⟩
        exact ⟨e, he, .inl rfl⟩
      · rintro ⟨e, he, hk | hk⟩
        · exact ⟨e, he, (TableKey.string.inj hk).symm⟩
        · cases hk
    · rw [hb.index.others]
      simp
  · intro e _
    exact hnames.sublist (List.filter_sublist.map _)
  · intro hcase e he s hs
    rw [tosignum, hcase.lookup he hs, hname e he, Option.map_some, Option.map_some,
      Int32.toInt_toInt64]

/-- A table with three names for one number, and another entry between them. -/
def aliases : List SignalEntry :=
  [⟨"SIGABRT".toList, 6, by decide⟩, ⟨"SIGHUP".toList, 1, by decide⟩,
    ⟨"SIGIOT".toList, 6, by decide⟩, ⟨"SIGLOST".toList, 6, by decide⟩]

theorem aliases_index :
    ∃ a L t, signames aliases [] (⟨[]⟩ : Heap (RawTable Unit)) = some L ∧
      L.stack.slot? (-1) = some (tableRef a) ∧ L.heap.read a = some t ∧
      SignalIndex aliases L.heap t :=
  signames_index (by decide) ⟨[]⟩

end Testcase
