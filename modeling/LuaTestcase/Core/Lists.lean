import Mathlib.Data.List.Nodup
import Mathlib.Data.List.Perm.Basic

/-!
# First occurrences, and lists with equal images

A loop that remembers the keys it has seen, and keeps an element only if its key is new, keeps the
first occurrence of every key.  `firsts key l` is that list, said without the loop.

* `firsts_concat` — what the loop does with one more element.
* `firsts_keys_nodup`, `exists_mem_firsts` — the keys are pairwise different, and every key is still
  there.
* `exists_map_eq_map`, `mem_of_map_eq_map` — a list on which a partial function is defined is
  matched by the list of its values.
* `forall_or_first`, `first_unique`, `split_unique` — a list cut at the first element without a
  property, and at the only one that has it.
* `groups_perm` — a list, grouped by its keys.
* `piece_induction` — induction over the pieces between the separators of a list.
-/

namespace Testcase

section Firsts

variable {α κ : Type} [DecidableEq κ] {key : α → κ}

/-- The first occurrence of every key, in order. -/
def firsts (key : α → κ) : List α → List α
  | [] => []
  | a :: as => a :: (firsts key as).filter fun b => key b ≠ key a

theorem firsts_keys_nodup (l : List α) : ((firsts key l).map key).Nodup := by
  induction l with
  | nil => exact List.nodup_nil
  | cons a l ih =>
      rw [firsts, List.map_cons]
      refine List.nodup_cons.mpr ⟨?_, ih.sublist (List.filter_sublist.map key)⟩
      intro hmem
      obtain ⟨b, hb, hkey⟩ := List.mem_map.mp hmem
      exact of_decide_eq_true (List.mem_filter.mp hb).2 hkey

theorem mem_of_mem_firsts {l : List α} {a : α} (h : a ∈ firsts key l) : a ∈ l := by
  induction l with
  | nil => exact h
  | cons c l ih =>
      rcases List.mem_cons.mp h with rfl | h
      · exact List.mem_cons_self
      · exact List.mem_cons_of_mem _ (ih (List.mem_filter.mp h).1)

theorem exists_mem_firsts {l : List α} {a : α} (h : a ∈ l) : ∃ b ∈ firsts key l, key b = key a := by
  induction l with
  | nil => cases h
  | cons c l ih =>
      by_cases hkey : key a = key c
      · exact ⟨c, List.mem_cons_self, hkey.symm⟩
      · rcases List.mem_cons.mp h with rfl | h
        · exact absurd rfl hkey
        · obtain ⟨b, hb, hba⟩ := ih h
          refine ⟨b, List.mem_cons_of_mem _ (List.mem_filter.mpr ⟨hb, ?_⟩), hba⟩
          rw [hba]
          exact decide_eq_true hkey

/-- **One more element** is kept if its key is new. -/
theorem firsts_concat (l : List α) (a : α) :
    firsts key (l ++ [a]) = if key a ∈ l.map key then firsts key l else firsts key l ++ [a] := by
  induction l with
  | nil => simp [firsts]
  | cons c l ih =>
      rw [List.cons_append, firsts, firsts, ih]
      by_cases hc : key a = key c
      · have hin : key a ∈ (c :: l).map key := by simp [hc]
        rw [if_pos hin]
        split_ifs with hmem
        · rfl
        · rw [List.filter_append, List.filter_cons_of_neg (by simpa using hc), List.filter_nil,
            List.append_nil]
      · have hin : key a ∈ (c :: l).map key ↔ key a ∈ l.map key := by
          rw [List.map_cons, List.mem_cons, or_iff_right hc]
        simp only [hin]
        split_ifs with hmem
        · rfl
        · rw [List.filter_append, List.filter_cons_of_pos (by simpa using hc), List.filter_nil,
            List.cons_append]

end Firsts

/-! ## Equal images -/

section Images

variable {α β γ : Type} {f : α → γ} {g : β → γ} {l : List α} {m : List β}

/-- If every value of `f` on a list is one of `g`, the list of them is one of values of `g`. -/
theorem exists_map_eq_map (h : ∀ a ∈ l, ∃ b, f a = g b) : ∃ m : List β, l.map f = m.map g := by
  induction l with
  | nil => exact ⟨[], rfl⟩
  | cons a l ih =>
      obtain ⟨b, hb⟩ := h a (by simp)
      obtain ⟨m, hm⟩ := ih fun a' ha' => h a' (by simp [ha'])
      exact ⟨b :: m, by rw [List.map_cons, List.map_cons, hb, hm]⟩

theorem exists_of_map_eq_map (h : l.map f = m.map g) {a : α} (ha : a ∈ l) :
    ∃ b ∈ m, f a = g b := by
  have hmem : f a ∈ m.map g := by
    rw [← h]
    exact List.mem_map_of_mem ha
  obtain ⟨b, hb, heq⟩ := List.mem_map.mp hmem
  exact ⟨b, hb, heq.symm⟩

theorem mem_of_map_eq_map (hg : Function.Injective g) (h : l.map f = m.map g) {b : β} :
    b ∈ m ↔ ∃ a ∈ l, f a = g b := by
  rw [← List.mem_map_of_injective hg, ← h, List.mem_map]

/-- No value twice: two elements in a row have different values. -/
theorem nodup_map_iff : (l.map f).Nodup ↔ ∀ {a a' : α}, [a, a'].Sublist l → f a ≠ f a' := by
  rw [List.Nodup, List.pairwise_map, List.pairwise_iff_forall_sublist]

end Images

/-! ## Cutting at an element -/

section Cut

variable {α : Type} {P : α → Prop}

/-- All elements have the property, or there is a first one without it. -/
theorem forall_or_first (P : α → Prop) (l : List α) :
    (∀ a ∈ l, P a) ∨ ∃ pre a post, l = pre ++ a :: post ∧ (∀ b ∈ pre, P b) ∧ ¬ P a := by
  induction l with
  | nil => exact Or.inl (by simp)
  | cons a l ih =>
      by_cases ha : P a
      · rcases ih with hall | ⟨pre, b, post, rfl, hpre, hb⟩
        · exact Or.inl (by simpa [ha] using hall)
        · exact Or.inr ⟨a :: pre, b, post, rfl, by simpa [ha] using hpre, hb⟩
      · exact Or.inr ⟨[], a, l, rfl, by simp, ha⟩

/-- There is one way only to cut a list at the first element without the property. -/
theorem first_unique {pre pre' post post' : List α} {a a' : α}
    (h : pre ++ a :: post = pre' ++ a' :: post') (hpre : ∀ b ∈ pre, P b) (ha : ¬ P a)
    (hpre' : ∀ b ∈ pre', P b) (ha' : ¬ P a') : pre' = pre ∧ a' = a ∧ post' = post := by
  induction pre generalizing pre' with
  | nil =>
      cases pre' with
      | nil =>
          simp only [List.nil_append, List.cons.injEq] at h
          exact ⟨rfl, h.1.symm, h.2.symm⟩
      | cons b pre' =>
          simp only [List.nil_append, List.cons_append, List.cons.injEq] at h
          exact absurd (hpre' a (by simp [h.1])) ha
  | cons b pre ih =>
      cases pre' with
      | nil =>
          simp only [List.nil_append, List.cons_append, List.cons.injEq] at h
          exact absurd (hpre a' (by simp [h.1])) ha'
      | cons b' pre' =>
          simp only [List.cons_append, List.cons.injEq] at h
          obtain ⟨rfl, hrest⟩ := ih h.2 (fun x hx => hpre x (by simp [hx]))
            fun x hx => hpre' x (by simp [hx])
          exact ⟨by rw [h.1], hrest⟩

/-- A list can be cut in one way only at an element that has the property, if no other element of
the list has it. -/
theorem split_unique {pre pre' post post' : List α} {a a' : α}
    (h : pre ++ a :: post = pre' ++ a' :: post') (hpre : ∀ b ∈ pre, ¬ P b)
    (hpost : ∀ b ∈ post, ¬ P b) (ha' : P a') : pre' = pre ∧ a' = a ∧ post' = post := by
  induction pre generalizing pre' with
  | nil =>
      cases pre' with
      | nil =>
          simp only [List.nil_append, List.cons.injEq] at h
          exact ⟨rfl, h.1.symm, h.2.symm⟩
      | cons b pre' =>
          simp only [List.nil_append, List.cons_append, List.cons.injEq] at h
          exact absurd ha' (hpost a' (by simp [h.2]))
  | cons b pre ih =>
      cases pre' with
      | nil =>
          simp only [List.nil_append, List.cons_append, List.cons.injEq] at h
          exact absurd ha' (hpre a' (by simp [h.1]))
      | cons b' pre' =>
          simp only [List.cons_append, List.cons.injEq] at h
          obtain ⟨rfl, ha, hpost'⟩ := ih h.2 fun x hx => hpre x (by simp [hx])
          exact ⟨by rw [h.1], ha, hpost'⟩

end Cut

/-! ## Groups -/

section Groups

variable {α κ : Type} [DecidableEq κ] {key : α → κ}

/-- **Grouped by its keys** a list has the same elements, if every key is in the list of the keys
once. -/
theorem groups_perm {keys : List κ} (hkeys : keys.Nodup) {l : List α}
    (hl : ∀ a ∈ l, key a ∈ keys) :
    (keys.flatMap fun k => l.filter fun a => key a = k).Perm l := by
  induction keys generalizing l with
  | nil =>
      rw [List.eq_nil_iff_forall_not_mem.mpr fun a ha => List.not_mem_nil (hl a ha)]
      exact List.Perm.refl _
  | cons k keys ih =>
      obtain ⟨hk, hkeys⟩ := List.nodup_cons.mp hkeys
      -- the other groups are those of the elements with another key
      have hothers : (keys.flatMap fun k' => l.filter fun a => key a = k') =
          keys.flatMap fun k' => (l.filter fun a => !decide (key a = k)).filter
            fun a => key a = k' := by
        refine List.flatMap_congr fun k' hk' => ?_
        rw [List.filter_filter]
        refine List.filter_congr fun a _ => ?_
        have hne : k' ≠ k := fun h => hk (h ▸ hk')
        by_cases ha : key a = k'
        · simp [ha, hne]
        · simp [ha]
      have hrest : ∀ a ∈ l.filter (fun a => !decide (key a = k)), key a ∈ keys := by
        intro a ha
        obtain ⟨ha, hne⟩ := List.mem_filter.mp ha
        rcases List.mem_cons.mp (hl a ha) with h | h
        · simp [h] at hne
        · exact h
      rw [List.flatMap_cons, hothers]
      exact ((ih hkeys hrest).append_left _).trans (List.filter_append_perm _ l)

end Groups

/-! ## Pieces between separators -/

/-- Induction over a list, piece by piece: the last piece has no separator behind it. -/
theorem piece_induction {α : Type} (sep : α) {P : List α → Prop} (last : ∀ s, sep ∉ s → P s)
    (piece : ∀ p rest, sep ∉ p → P rest → P (p ++ sep :: rest)) (s : List α) : P s := by
  by_cases h : sep ∈ s
  · obtain ⟨p, rest, hs, hp⟩ := List.eq_append_cons_of_mem h
    have hlt : rest.length < s.length := by
      rw [hs, List.length_append, List.length_cons]
      omega
    rw [hs]
    exact piece p rest hp (piece_induction sep last piece rest)
  · exact last s h
termination_by s.length

end Testcase
