import LuaTestcase.Registry.List

/-!
# When the order of the tests is reproducible

`cmp_lineno` compares lines only, so two tests that start on one line come out in whatever order
`pairs` and the sorting algorithm leave them.  The list is the same for every traversal exactly
when no file has such a pair:

* `ItemOf.same` — without a tie, what `ItemOf` says of an item determines it.
* `getlist_same` — hence two traversals of a registry without ties give the same list.
* `tie_inverted` — with a tie, the forward and the backward enumeration, sorted by the same
  stable algorithm, invert it.
-/

namespace Testcase

variable {F U : Type}

/-- Two items that no reader can tell apart: the same field values and the same array. -/
structure Item.Same (a b : Item F) : Prop where
  fields : ∀ f, a.fields.lookup f = b.fields.lookup f
  tests : a.tests = b.tests

/-- Two lists of items that no reader can tell apart. -/
def SameList (a b : List (Item F)) : Prop := List.Forall₂ Item.Same a b

theorem SameList.tests_eq {a b : List (Item F)} (h : SameList a b) :
    a.map Item.tests = b.map Item.tests := by
  induction h with
  | nil => rfl
  | cons hxy _ ih => rw [List.map_cons, List.map_cons, hxy.tests, ih]

/-- In every file, the functions that are not hooks start on different lines. -/
def NoTies (reg : Registry F) : Prop :=
  ∀ key n m t u, registered reg key n = some t → registered reg key m = some u →
    n ∉ setupAndTeardown → m ∉ setupAndTeardown → t.lineno = u.lineno → n = m

section Determined

variable {reg : Registry F} {log : List (Registration F)}

/-- **Without a tie there is one item for a file.** -/
theorem ItemOf.same (hties : NoTies reg) {key : Str} {a b : Item F}
    (ha : ItemOf reg key a) (hb : ItemOf reg key b) : a.Same b := by
  refine ⟨fun f => ?_, ?_⟩
  · by_cases hhook : f ∈ setupAndTeardown
    · rw [ha.hooks f hhook, hb.hooks f hhook]
    · by_cases hfix : f ∈ fixedNames
      · obtain ⟨entry, hentry, ha1, ha2, ha3, ha4, ha5⟩ := ha.fixed
        obtain ⟨entry', hentry', hb1, hb2, hb3, hb4, hb5⟩ := hb.fixed
        obtain rfl : entry = entry' := Option.some.inj (hentry.symm.trans hentry')
        simp only [fixedNames, List.mem_cons, List.not_mem_nil, or_false] at hfix
        rcases hfix with rfl | rfl | rfl | rfl | rfl
        · rw [ha1, hb1]
        · rw [ha2, hb2]
        · rw [ha3, hb3]
        · rw [ha4, hb4]
        · rw [ha5, hb5]
      · rw [ha.other f hhook hfix, hb.other f hhook hfix]
  · have hperm : a.tests.Perm b.tests :=
      (List.perm_ext_iff_of_nodup (List.Nodup.of_map _ ha.once) (List.Nodup.of_map _ hb.once)).mpr
        fun t => (ha.tests t).trans (hb.tests t).symm
    refine hperm.eq_of_pairwise (fun t u ht hu htu hut => ?_) ha.sorted hb.sorted
    obtain ⟨hthook, ht⟩ := (ha.tests t).mp ht
    obtain ⟨huhook, hu⟩ := (hb.tests u).mp hu
    have hname := hties key t.name u.name t u ht hu hthook huhook (le_antisymm htu hut)
    rw [hname, hu] at ht
    exact (Option.some.inj ht).symm

/-- Two lists with the same names in order, and the same item for every name. -/
theorem sameList_of_names {a b : List (Item F)} (hnames : a.map Item.name = b.map Item.name)
    (hsame : ∀ x ∈ a, ∀ y ∈ b, x.name = y.name → x.Same y) : SameList a b := by
  induction a generalizing b with
  | nil =>
      obtain rfl : b = [] := by simpa using hnames.symm
      exact List.Forall₂.nil
  | cons x a ih =>
      cases b with
      | nil => simp at hnames
      | cons y b =>
          rw [List.map_cons, List.map_cons, List.cons.injEq] at hnames
          refine List.Forall₂.cons (hsame x (by simp) y (by simp) hnames.1) (ih hnames.2 ?_)
          intro x' hx' y' hy'
          exact hsame x' (by simp [hx']) y' (by simp [hy'])

/-- **Without ties the list does not depend on the traversal.** -/
theorem getlist_same (hrep : Represents reg log) (hties : NoTies reg) (o₁ o₂ : Traversal) :
    SameList (getlist o₁ reg).1 (getlist o₂ reg).1 := by
  have h₁ := getlist_listing hrep o₁
  have h₂ := getlist_listing hrep o₂
  -- the names are strictly increasing and the keys of the registry in both lists
  have hs₁ : ((getlist o₁ reg).1.map Item.name).Pairwise (· < ·) :=
    List.pairwise_map.mpr h₁.increasing
  have hs₂ : ((getlist o₂ reg).1.map Item.name).Pairwise (· < ·) :=
    List.pairwise_map.mpr h₂.increasing
  have hperm : ((getlist o₁ reg).1.map Item.name).Perm ((getlist o₂ reg).1.map Item.name) := by
    refine (List.perm_ext_iff_of_nodup (hs₁.imp fun h => h.ne) (hs₂.imp fun h => h.ne)).mpr ?_
    intro k
    rw [List.mem_map, List.mem_map, h₁.keys, h₂.keys]
  have hnames := hperm.eq_of_pairwise (fun _ _ _ _ hab hba => absurd hba (lt_asymm hab)) hs₁ hs₂
  refine sameList_of_names hnames fun x hx y hy hxy => ?_
  have hy' := h₂.item y hy
  rw [← hxy] at hy'
  exact (h₁.item x hx).same hties hy'

end Determined

/-! ## A tie -/

/-- The array of an item before it is sorted, for the forward enumeration. -/
def unsortedTests (entry : Entry F) : List (Test F) :=
  (entry.tests.entries.filter fun kv => kv.1 ∉ setupAndTeardown).map Sigma.snd

theorem getitem_forward_tests (key : Str) (entry : Entry F) :
    (getitem .forward key entry).tests = sortBy cmpLineno (unsortedTests entry) := by
  obtain ⟨harray, _, _⟩ := foldl_putTest _ (fixedFields key entry, []) entry.tests.nodupKeys
  show sortBy cmpLineno _ = _
  rw [show Traversal.forward.pairs (some key) entry.tests = entry.tests.entries from rfl, harray,
    List.nil_append]
  rfl

theorem getitem_backward_tests (key : Str) (entry : Entry F) :
    (getitem .backward key entry).tests = sortBy cmpLineno (unsortedTests entry).reverse := by
  have hnodup := Traversal.backward.pairs_keys_nodup (some key) entry.tests
  obtain ⟨harray, _, _⟩ := foldl_putTest _ (fixedFields key entry, []) hnodup
  show sortBy cmpLineno _ = _
  rw [harray, List.nil_append, unsortedTests, ← List.map_reverse, ← List.filter_reverse]
  rfl

/-- **A tie comes out one way forward and the other way backward.** -/
theorem tie_inverted {key : Str} {entry : Entry F} {t u : Test F}
    (hnodup : (getitem .forward key entry).tests.Nodup) (ht : t ∈ unsortedTests entry)
    (hu : u ∈ unsortedTests entry) (hline : t.lineno = u.lineno)
    (hsame : (getitem .forward key entry).tests = (getitem .backward key entry).tests) :
    t = u := by
  by_contra hne
  have hboth : ∀ a b : Test F, a.lineno = b.lineno → [a, b].Sublist (unsortedTests entry) →
      a = b := by
    intro a b hab hsub
    have hforward : [a, b].Sublist (getitem .forward key entry).tests := by
      rw [getitem_forward_tests]
      exact sortBy_keeps_ties (by simp [cmpLineno, hab]) hsub
    have hbackward : [b, a].Sublist (getitem .forward key entry).tests := by
      rw [hsame, getitem_backward_tests]
      exact sortBy_keeps_ties (by simp [cmpLineno, hab]) (by simpa using hsub.reverse)
    exact eq_of_pair_sublists hnodup hforward hbackward
  rcases pair_sublist_of_mem ht hu hne with hsub | hsub
  · exact hne (hboth t u hline hsub)
  · exact hne (hboth u t hline.symm hsub).symm

/-! ## Every history -/

/-- **The list is reproducible exactly when no file has two tests on one line**, for every
registry that adds and clears can build. -/
theorem getlist_reproducible (ops : List (Op F U)) :
    (∀ o₁ o₂ : Traversal, SameList (getlist o₁ (history ops).reg).1
        (getlist o₂ (history ops).reg).1) ↔
      NoTies (history ops).reg := by
  have hrep := history_represents ops
  refine ⟨fun h key n m t u ht hu hn hm hline => ?_, fun h o₁ o₂ => getlist_same hrep h o₁ o₂⟩
  obtain ⟨entry, hentry, htl⟩ := Option.bind_eq_some_iff.mp ht
  have hul : entry.tests.lookup m = some u := by
    rw [registered, hentry, Option.bind_some] at hu
    exact hu
  have hforward := getitem_itemOf hrep .forward hentry
  have hbackward := getitem_itemOf hrep .backward hentry
  have hmem : ∀ n t, entry.tests.lookup n = some t → n ∉ setupAndTeardown →
      t ∈ unsortedTests entry := fun n t ht hn =>
    List.mem_map.mpr ⟨⟨n, t⟩, List.mem_filter.mpr ⟨mem_entries_iff.mpr ht, by simpa using hn⟩, rfl⟩
  -- the items of this file stand against each other in the two lists
  have hsame : (getitem .forward key entry).tests = (getitem .backward key entry).tests := by
    have hitems := h .forward .backward
    have hin : getitem .forward key entry ∈ (getlist .forward (history ops).reg).1 := by
      rw [getlist_eq]
      exact (Traversal.forward.sort_sorts none cmpName _ strictWeak_cmpName).perm.mem_iff.mpr
        (mem_unsortedItems.mpr ⟨key, entry, hentry, rfl⟩)
    obtain ⟨i, hi, hget⟩ := List.getElem_of_mem hin
    have hlen := hitems.length_eq
    have hi' : i < (getlist .backward (history ops).reg).1.length := hlen ▸ hi
    have hsame := (List.forall₂_iff_get.mp hitems).2 i hi hi'
    simp only [List.get_eq_getElem, hget] at hsame
    -- it has the same name, so it is the item of the same file
    have hitem := (getlist_listing hrep .backward).item _ (List.getElem_mem hi')
    have hmem' := List.getElem_mem hi'
    generalize (getlist .backward (history ops).reg).1[i] = item at hsame hitem hmem'
    rw [getlist_eq] at hmem'
    obtain ⟨key', entry', hentry', rfl⟩ := mem_unsortedItems.mp
      ((Traversal.backward.sort_sorts none cmpName _ strictWeak_cmpName).perm.mem_iff.mp hmem')
    have hkey : key = key' := by
      obtain ⟨_, _, hname, _⟩ := hforward.fixed
      obtain ⟨_, _, hname', _⟩ := (getitem_itemOf hrep .backward hentry').fixed
      rw [hsame.fields, hname'] at hname
      simpa using hname.symm
    subst hkey
    obtain rfl : entry = entry' := Option.some.inj (hentry.symm.trans hentry')
    exact hsame.tests
  have htu := tie_inverted (List.Nodup.of_map _ hforward.once) (hmem n t htl hn) (hmem m u hul hm)
    hline hsame
  rw [← hrep.name_eq ht, ← hrep.name_eq hu, htu]

/-! ## Two tests from one line -/

/-- A source of two functions defined on one line, as a loop that registers cases makes them. -/
def oneLine : Host Bool where
  CWD := "/a".toList
  realpath p := .ok p
  stat _ _ := .ok .file
  readdir _ := ([], none)
  getinfo _ := ⟨"@/a/x_test.lua".toList, 3⟩
  tostring err := err.op

/-- The registry after both functions are registered. -/
def oneLineOps : List (Op Bool Unit) :=
  [.add oneLine (.string "test_1".toList) (.function true),
    .add oneLine (.string "test_2".toList) (.function false)]

/-- Both are accepted, and the two enumerations order them differently. -/
theorem oneLine_orders :
    (history oneLineOps).log.length = 2 ∧
    ¬ ∀ o₁ o₂ : Traversal, SameList (getlist o₁ (history oneLineOps).reg).1
      (getlist o₂ (history oneLineOps).reg).1 := by
  refine ⟨by decide, fun h => ?_⟩
  have htests := (h .forward .backward).tests_eq
  revert htests
  decide

end Testcase
