import Mathlib.Data.List.AList
import LuaTestcase.Core.Sorting
import LuaTestcase.Lua.String

/-!
# Lua tables with string keys

A table that is used as a map from strings is an association list without repeated keys, which
is Mathlib's `AList`.  Its entries have an order in the model and none in Lua: `pairs` may
enumerate them in any order, a different one for every table and every program run, and
`table.sort` may be any correct algorithm, stable or not.  Both freedoms are collected in a
`Traversal`, so that "for every order `pairs` may choose and every sorting algorithm" is a
quantifier over traversals.  The address tells the tables of one run apart: two tables with equal
contents need not be enumerated alike.
-/

namespace Testcase

/-- A Lua table with string keys. -/
abbrev Table (V : Type) : Type := AList fun _ : Str => V

/-- How one run of the program enumerates tables and sorts arrays. -/
structure Traversal where
  pairs : {V : Type} → (address : Option Str) → Table V → List (Σ _ : Str, V)
  pairs_perm : ∀ {V : Type} (address : Option Str) (t : Table V), (pairs address t).Perm t.entries
  sort : {α : Type} → (address : Option Str) → (α → α → Bool) → List α → List α
  sort_sorts : ∀ {α : Type} (address : Option Str) (lt : α → α → Bool) (l : List α),
    StrictWeak lt → Sorts lt l (sort address lt l)

/-- Entries in the order of the model, sorted stably. -/
def Traversal.forward : Traversal where
  pairs _ t := t.entries
  pairs_perm _ _ := List.Perm.refl _
  sort _ lt l := sortBy lt l
  sort_sorts _ _ l hlt := sortBy_sorts hlt l

/-- Entries in the opposite order, sorted stably. -/
def Traversal.backward : Traversal where
  pairs _ t := t.entries.reverse
  pairs_perm _ t := List.reverse_perm t.entries
  sort _ lt l := sortBy lt l
  sort_sorts _ _ l hlt := sortBy_sorts hlt l

/-- An entry of a table is what is found under its key. -/
theorem mem_entries_iff {V : Type} {t : Table V} {k : Str} {v : V} :
    (⟨k, v⟩ : Σ _ : Str, V) ∈ t.entries ↔ t.lookup k = some v :=
  AList.mem_lookup_iff.symm

/-- An enumeration has every entry, each key once. -/
theorem Traversal.mem_pairs {V : Type} (o : Traversal) (address : Option Str) (t : Table V)
    {k : Str} {v : V} :
    (⟨k, v⟩ : Σ _ : Str, V) ∈ o.pairs address t ↔ t.lookup k = some v := by
  rw [(o.pairs_perm address t).mem_iff, mem_entries_iff]

theorem Traversal.pairs_keys_nodup {V : Type} (o : Traversal) (address : Option Str)
    (t : Table V) : ((o.pairs address t).map Sigma.fst).Nodup :=
  ((o.pairs_perm address t).map Sigma.fst).nodup_iff.mpr t.nodupKeys

/-- `t[k] = v`, read back. -/
theorem lookup_insert_if {V : Type} (t : Table V) (k k' : Str) (v : V) :
    (t.insert k v).lookup k' = if k' = k then some v else t.lookup k' := by
  by_cases h : k' = k
  · rw [if_pos h, h, AList.lookup_insert]
  · rw [if_neg h, AList.lookup_insert_ne h]

/-- Assigning field by field: each key of the list has its value afterwards, every other key is
as it was. -/
theorem foldl_insert_lookup {V : Type} (l : List (Σ _ : Str, V)) (t : Table V)
    (hl : (l.map Sigma.fst).Nodup) (k : Str) :
    (∀ v, (⟨k, v⟩ : Σ _ : Str, V) ∈ l →
      (l.foldl (fun (new : Table V) kv => new.insert kv.1 kv.2) t).lookup k = some v) ∧
    ((∀ v, (⟨k, v⟩ : Σ _ : Str, V) ∉ l) →
      (l.foldl (fun (new : Table V) kv => new.insert kv.1 kv.2) t).lookup k = t.lookup k) := by
  induction l generalizing t with
  | nil => simp
  | cons kv l ih =>
      obtain ⟨hkv, hl⟩ := List.nodup_cons.mp hl
      obtain ⟨hin, hout⟩ := ih (t.insert kv.1 kv.2) hl
      rw [List.foldl_cons]
      refine ⟨fun v hv => ?_, fun hnot => ?_⟩
      · rcases List.mem_cons.mp hv with rfl | hv
        · rw [hout fun v' hv' => hkv (List.mem_map.mpr ⟨_, hv', rfl⟩), AList.lookup_insert]
        · exact hin v hv
      · have hne : k ≠ kv.1 := by
          rintro rfl
          exact hnot kv.2 (by simp)
        rw [hout fun v hv => hnot v (List.mem_cons_of_mem _ hv), AList.lookup_insert_ne hne]

/-- A table copied field by field, in whatever order, is the same table. -/
theorem Traversal.lookup_copy {V : Type} (o : Traversal) (address : Option Str) (t : Table V)
    (k : Str) : ((o.pairs address t).foldl
      (fun (new : Table V) kv => new.insert kv.1 kv.2) ∅).lookup k = t.lookup k := by
  obtain ⟨hin, hout⟩ := foldl_insert_lookup (o.pairs address t) ∅ (o.pairs_keys_nodup address t) k
  rcases h : t.lookup k with _ | v
  · rw [hout fun v hv => ?_, AList.lookup_empty]
    rw [(o.mem_pairs address t).mp hv] at h
    cases h
  · exact hin v ((o.mem_pairs address t).mpr h)

end Testcase
