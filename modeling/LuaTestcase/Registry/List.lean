import Mathlib.Algebra.GroupWithZero.Nat
import LuaTestcase.Registry.History

/-!
# What `getlist` returns

`getlist` spreads the map the registry represents over a list of items.  `Listing` says what that
list is, item by item and field by field, with nothing said about the enumeration order or the
sorting algorithm; `getlist_listing` proves it of every traversal.

The delicate point is that registered names and fixed fields share one Lua table.  Only the four
setup and teardown names are ever used as field names (`foldl_putTest`), and none of them is the
name of a fixed field, so neither side can overwrite the other (`ItemOf.fixed`, `ItemOf.other`).
-/

namespace Testcase

variable {F U : Type}

/-! ## One item -/

theorem strictWeak_cmpName : StrictWeak (cmpName : Item F → Item F → Bool) where
  asymm a b h := by
    simp only [cmpName, decide_eq_true_eq, decide_eq_false_iff_not, not_lt] at h ⊢
    exact h.le
  trans a b c hab hbc := by
    simp only [cmpName, decide_eq_false_iff_not, not_lt] at hab hbc ⊢
    exact hab.trans hbc

theorem strictWeak_cmpLineno : StrictWeak (cmpLineno : Test F → Test F → Bool) :=
  strictWeak_key Test.lineno

/-- The names of the fixed fields of an item. -/
def fixedNames : List Str :=
  ["name".toList, "basename".toList, "dirname".toList, "realpath".toList, "tests".toList]

/-- Outside the fixed names the table starts empty. -/
theorem fixedFields_other (src : Str) (stat : Entry F) {f : Str} (hf : f ∉ fixedNames) :
    (fixedFields src stat).lookup f = none := by
  simp only [fixedNames, List.mem_cons, List.not_mem_nil, or_false, not_or] at hf
  obtain ⟨h1, h2, h3, h4, h5⟩ := hf
  simp only [fixedFields, lookup_insert_if, if_neg h1, if_neg h2, if_neg h3, if_neg h4, if_neg h5]
  exact AList.lookup_empty f

/-- The fixed fields, read back. -/
theorem fixedFields_fixed (src : Str) (stat : Entry F) :
    (fixedFields src stat).lookup "name".toList = some (.string src) ∧
    (fixedFields src stat).lookup "basename".toList = some (.string stat.basename) ∧
    (fixedFields src stat).lookup "dirname".toList = some (.string stat.dirname) ∧
    (fixedFields src stat).lookup "realpath".toList = some (.string stat.realpath) ∧
    (fixedFields src stat).lookup "tests".toList = some .tests := by
  simp only [fixedFields, lookup_insert_if]
  refine ⟨?_, ?_, ?_, ?_, ?_⟩
  all_goals simp

/-- No fixed field has the name of a hook. -/
theorem fixedNames_not_hook : ∀ f ∈ fixedNames, f ∉ setupAndTeardown := by decide

/-- **The loop over the registered functions of a file.**  The array receives the functions under
ordinary names; the table changes at hook names only, and there it receives the hook. -/
theorem foldl_putTest : ∀ (l : List (Σ _ : Str, Test F))
    (acc : Table (Field F) × List (Test F)), (l.map Sigma.fst).Nodup →
    (l.foldl putTest acc).2
      = acc.2 ++ (l.filter fun kv => kv.1 ∉ setupAndTeardown).map Sigma.snd ∧
    (∀ f, f ∉ setupAndTeardown ∨ (∀ t, (⟨f, t⟩ : Σ _ : Str, Test F) ∉ l) →
      (l.foldl putTest acc).1.lookup f = acc.1.lookup f) ∧
    ∀ f t, f ∈ setupAndTeardown → (⟨f, t⟩ : Σ _ : Str, Test F) ∈ l →
      (l.foldl putTest acc).1.lookup f = some (.function t.func)
  | [], acc, _ => by simp
  | ⟨k, t⟩ :: l, acc, hnodup => by
      obtain ⟨hk, hl⟩ := List.nodup_cons.mp hnodup
      obtain ⟨harray, hkeep, hhook⟩ := foldl_putTest l (putTest acc ⟨k, t⟩) hl
      have hkl : ∀ t, (⟨k, t⟩ : Σ _ : Str, Test F) ∉ l := fun t ht =>
        hk (List.mem_map.mpr ⟨_, ht, rfl⟩)
      rw [List.foldl_cons]
      refine ⟨?_, fun f hf => ?_, fun f t' hf hmem => ?_⟩
      · rw [harray]
        by_cases hin : k ∈ setupAndTeardown
        · simp [putTest, hin]
        · simp [putTest, hin]
      · have hkeep' : (putTest acc ⟨k, t⟩).1.lookup f = acc.1.lookup f := by
          by_cases hin : k ∈ setupAndTeardown
          · have hfk : f ≠ k := by
              rintro rfl
              rcases hf with hf | hf
              · exact hf hin
              · exact hf t (by simp)
            rw [putTest, if_pos hin]
            exact AList.lookup_insert_ne hfk
          · rw [putTest, if_neg hin]
        rw [hkeep f (hf.imp id fun hf t' ht' => hf t' (by simp [ht'])), hkeep']
      · rcases List.mem_cons.mp hmem with heq | hmem
        · obtain ⟨rfl, rfl⟩ : f = k ∧ t' = t := by simpa using heq
          rw [hkeep f (Or.inr hkl), putTest, if_pos hf]
          exact AList.lookup_insert _
        · exact hhook f t' hf hmem

/-- The item of a file: its fixed fields, its hooks under their names, nothing else in the table;
every other registered function once in the array, by non-decreasing line. -/
structure ItemOf (reg : Registry F) (key : Str) (item : Item F) : Prop where
  fixed : ∃ entry, reg.lookup key = some entry ∧
    item.fields.lookup "name".toList = some (.string key) ∧
    item.fields.lookup "basename".toList = some (.string entry.basename) ∧
    item.fields.lookup "dirname".toList = some (.string entry.dirname) ∧
    item.fields.lookup "realpath".toList = some (.string entry.realpath) ∧
    item.fields.lookup "tests".toList = some .tests
  hooks : ∀ f ∈ setupAndTeardown,
    item.fields.lookup f = (registered reg key f).map fun t => .function t.func
  other : ∀ f, f ∉ setupAndTeardown → f ∉ fixedNames → item.fields.lookup f = none
  tests : ∀ t, t ∈ item.tests ↔ t.name ∉ setupAndTeardown ∧ registered reg key t.name = some t
  once : (item.tests.map Test.name).Nodup
  sorted : item.tests.Pairwise fun a b => a.lineno ≤ b.lineno

theorem ItemOf.name_eq {reg : Registry F} {key : Str} {item : Item F}
    (h : ItemOf reg key item) : item.name = key := by
  obtain ⟨_, _, hname, _⟩ := h.fixed
  rw [Item.name, hname]

/-- **The item `getlist` builds is the item of the file**, whatever the traversal. -/
theorem getitem_itemOf {reg : Registry F} {log : List (Registration F)}
    (hrep : Represents reg log) (o : Traversal) {key : Str} {entry : Entry F}
    (hentry : reg.lookup key = some entry) : ItemOf reg key (getitem o key entry) := by
  have hreg : ∀ n, registered reg key n = entry.tests.lookup n := fun n => by
    rw [registered, hentry, Option.bind_some]
  have hnodup := o.pairs_keys_nodup (some key) entry.tests
  have hpairs := fun n t => o.mem_pairs (some key) entry.tests (k := n) (v := t)
  obtain ⟨harray, hkeep, hhook⟩ := foldl_putTest _ (fixedFields key entry, []) hnodup
  have hsorts := o.sort_sorts (some key) cmpLineno
    ((o.pairs (some key) entry.tests).foldl putTest (fixedFields key entry, [])).2
    strictWeak_cmpLineno
  -- a value is stored under its own name, so the array has each name once
  have hname : ∀ n t, (⟨n, t⟩ : Σ _ : Str, Test F) ∈ o.pairs (some key) entry.tests →
      t.name = n := fun n t ht => hrep.name_eq (k := key) (by rw [hreg, (hpairs n t).mp ht])
  have hfixed : ∀ f ∈ fixedNames, (getitem o key entry).fields.lookup f
      = (fixedFields key entry).lookup f := fun f hf =>
    hkeep f (Or.inl (fixedNames_not_hook f hf))
  refine ⟨⟨entry, hentry, ?_⟩, fun f hf => ?_, fun f hf hf' => ?_, fun t => ?_, ?_, ?_⟩
  · obtain ⟨h1, h2, h3, h4, h5⟩ := fixedFields_fixed key entry
    rw [hfixed _ (by decide), hfixed _ (by decide), hfixed _ (by decide), hfixed _ (by decide),
      hfixed _ (by decide)]
    exact ⟨h1, h2, h3, h4, h5⟩
  · rw [hreg]
    rcases ht : entry.tests.lookup f with _ | t
    · have hnot : ∀ t, (⟨f, t⟩ : Σ _ : Str, Test F) ∉ o.pairs (some key) entry.tests := by
        intro t hmem
        rw [(hpairs f t).mp hmem] at ht
        cases ht
      have hlook := hkeep f (Or.inr hnot)
      rw [Option.map_none, ← fixedFields_other key entry
        (fun hfix => fixedNames_not_hook f hfix hf)]
      exact hlook
    · exact hhook f t hf ((hpairs f t).mpr ht)
  · have hlook := hkeep f (Or.inl hf)
    rw [← fixedFields_other key entry hf']
    exact hlook
  · have hmem : t ∈ (getitem o key entry).tests ↔
        ∃ n, (⟨n, t⟩ : Σ _ : Str, Test F) ∈ o.pairs (some key) entry.tests ∧
          n ∉ setupAndTeardown := by
      refine hsorts.perm.mem_iff.trans ?_
      rw [harray]
      simp
    rw [hmem, hreg]
    constructor
    · rintro ⟨n, hn, hhk⟩
      rw [hname n t hn]
      exact ⟨hhk, (hpairs n t).mp hn⟩
    · rintro ⟨hhk, hlook⟩
      exact ⟨t.name, (hpairs t.name t).mpr hlook, hhk⟩
  · refine (hsorts.perm.map Test.name).nodup_iff.mpr ?_
    have heq : ((o.pairs (some key) entry.tests).filter
        fun kv => kv.1 ∉ setupAndTeardown).map (Test.name ∘ Sigma.snd)
        = ((o.pairs (some key) entry.tests).filter
          fun kv => kv.1 ∉ setupAndTeardown).map Sigma.fst :=
      List.map_congr_left fun kv hkv => hname kv.1 kv.2 (List.mem_filter.mp hkv).1
    rw [harray, List.nil_append, List.map_map]
    rw [heq]
    exact hnodup.sublist ((List.filter_sublist).map Sigma.fst)
  · refine hsorts.sorted.imp fun h => ?_
    simpa [cmpLineno] using h

/-! ## The whole list -/

/-- What `getlist` returns: one item for every key, names strictly increasing, and the number of
elements of the arrays. -/
structure Listing (reg : Registry F) (items : List (Item F)) (count : Nat) : Prop where
  item : ∀ item ∈ items, ItemOf reg item.name item
  keys : ∀ k, (∃ item ∈ items, item.name = k) ↔ ∃ entry, reg.lookup k = some entry
  increasing : items.Pairwise fun a b => a.name < b.name
  count : count = (items.map fun item => item.tests.length).sum

/-- The loop of `getlist` over the registry. -/
theorem foldl_getlist (o : Traversal) (l : List (Σ _ : Str, Entry F))
    (acc : List (Item F) × Nat) :
    l.foldl (fun (acc : List (Item F) × Nat) kv =>
      let item := getitem o kv.1 kv.2
      (acc.1 ++ [item], acc.2 + item.tests.length)) acc
      = (acc.1 ++ l.map (fun kv => getitem o kv.1 kv.2),
        acc.2 + ((l.map fun kv => getitem o kv.1 kv.2).map fun item => item.tests.length).sum) := by
  induction l generalizing acc with
  | nil => simp
  | cons kv l ih =>
      rw [List.foldl_cons, ih]
      simp [Nat.add_assoc]

/-- The items before they are sorted. -/
def unsortedItems (o : Traversal) (reg : Registry F) : List (Item F) :=
  (o.pairs none reg).map fun kv => getitem o kv.1 kv.2

theorem getlist_eq (o : Traversal) (reg : Registry F) :
    getlist o reg = (o.sort none cmpName (unsortedItems o reg),
      ((unsortedItems o reg).map fun item => item.tests.length).sum) := by
  simp only [getlist, foldl_getlist, List.nil_append, Nat.zero_add]
  rfl

theorem mem_unsortedItems {o : Traversal} {reg : Registry F} {item : Item F} :
    item ∈ unsortedItems o reg ↔
      ∃ key entry, reg.lookup key = some entry ∧ item = getitem o key entry := by
  simp only [unsortedItems, List.mem_map]
  constructor
  · rintro ⟨⟨key, entry⟩, hmem, rfl⟩
    exact ⟨key, entry, (o.mem_pairs none reg).mp hmem, rfl⟩
  · rintro ⟨key, entry, hentry, rfl⟩
    exact ⟨⟨key, entry⟩, (o.mem_pairs none reg).mpr hentry, rfl⟩

/-- No two items have the same name. -/
theorem unsortedItems_names_nodup {reg : Registry F} {log : List (Registration F)}
    (hrep : Represents reg log) (o : Traversal) :
    ((unsortedItems o reg).map Item.name).Nodup := by
  have heq : (unsortedItems o reg).map Item.name = (o.pairs none reg).map Sigma.fst := by
    rw [unsortedItems, List.map_map]
    refine List.map_congr_left fun kv hkv => ?_
    exact (getitem_itemOf hrep o ((o.mem_pairs none reg).mp hkv)).name_eq
  rw [heq]
  exact o.pairs_keys_nodup none reg

/-- **`getlist` lists the registry**, whatever the enumeration order and the sorting algorithm. -/
theorem getlist_listing {reg : Registry F} {log : List (Registration F)}
    (hrep : Represents reg log) (o : Traversal) :
    Listing reg (getlist o reg).1 (getlist o reg).2 := by
  have hsorts := o.sort_sorts none cmpName (unsortedItems o reg) strictWeak_cmpName
  have hmem : ∀ item, item ∈ (getlist o reg).1 ↔ item ∈ unsortedItems o reg := fun item => by
    rw [getlist_eq]
    exact hsorts.perm.mem_iff
  refine ⟨fun item hitem => ?_, fun k => ?_, ?_, ?_⟩
  · obtain ⟨key, entry, hentry, rfl⟩ := mem_unsortedItems.mp ((hmem item).mp hitem)
    have hitem := getitem_itemOf hrep o hentry
    rw [hitem.name_eq]
    exact hitem
  · constructor
    · rintro ⟨item, hitem, rfl⟩
      obtain ⟨key, entry, hentry, rfl⟩ := mem_unsortedItems.mp ((hmem item).mp hitem)
      rw [(getitem_itemOf hrep o hentry).name_eq]
      exact ⟨entry, hentry⟩
    · rintro ⟨entry, hentry⟩
      exact ⟨getitem o k entry, (hmem _).mpr (mem_unsortedItems.mpr ⟨k, entry, hentry, rfl⟩),
        (getitem_itemOf hrep o hentry).name_eq⟩
  · -- sorted and without repetitions is strictly increasing
    have hnodup : ((getlist o reg).1.map Item.name).Nodup := by
      rw [getlist_eq]
      exact (hsorts.perm.map Item.name).nodup_iff.mpr (unsortedItems_names_nodup hrep o)
    have hne := List.pairwise_map.mp hnodup
    have hle : (getlist o reg).1.Pairwise fun a b => cmpName b a = false := by
      rw [getlist_eq]
      exact hsorts.sorted
    refine (hle.and hne).imp fun ⟨hab, hne⟩ => ?_
    simp only [cmpName, decide_eq_false_iff_not, not_lt] at hab
    exact lt_of_le_of_ne hab hne
  · rw [getlist_eq]
    exact ((hsorts.perm.map fun item => item.tests.length).sum_nat).symm

/-! ## Every history -/

/-- **The registry loses and invents nothing.**  After every sequence of operations: an add that
returns a message changes nothing; one that returns none registers exactly one function under a
free name and changes no other registration; the registrations are exactly the adds accepted
since the last clear; and `getlist` lists exactly these, for every traversal. -/
theorem registry_faithful (ops : List (Op F U)) :
    (∀ (host : Host F) (name func : Value F U) (err : Str),
      (add host (history ops).reg name func).2 = some err →
        (add host (history ops).reg name func).1 = (history ops).reg) ∧
    (∀ (host : Host F) (name func : Value F U), (add host (history ops).reg name func).2 = none →
      ∃ r, registrationOf host name func = some r ∧
        registered (history ops).reg r.key r.name = none ∧
        ∀ k n, registered (add host (history ops).reg name func).1 k n
          = if k = r.key ∧ n = r.name then some r.test else registered (history ops).reg k n) ∧
    (∀ k n t, registered (history ops).reg k n = some t ↔
      ∃ r ∈ (history ops).log, r.key = k ∧ r.name = n ∧ r.test = t) ∧
    ∀ o : Traversal, Listing (history ops).reg (getlist o (history ops).reg).1
        (getlist o (history ops).reg).2 ∧
      ∀ k, (∃ item ∈ (getlist o (history ops).reg).1, item.name = k) ↔
        ∃ r ∈ (history ops).log, r.key = k := by
  have hrep := history_represents ops
  refine ⟨fun host name func err h => add_error h, fun host name func h => ?_,
    hrep.registered_iff, fun o => ⟨getlist_listing hrep o, fun k => ?_⟩⟩
  · obtain ⟨r, hr, hfree, hreg, _⟩ := add_accepted h
    exact ⟨r, hr, hfree, hreg⟩
  · rw [(getlist_listing hrep o).keys, hrep.key_iff]

end Testcase
