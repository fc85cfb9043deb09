import LuaTestcase.Core.Heap
import LuaTestcase.Runner.Account

/-!
# The selection and the tables it is made from

`select_testcases` copies a source field by field and replaces the field `tests` of the copy.
The test tables are shared with the given list, and so is every other table a field refers to;
whether the given list survives is a question about references, so here the same function is
translated over a heap of tables.

* `ListAt` — what a reference to a list of sources stands for.
* `selectTestcasesRef_spec` — **the heap-level function** leaves every table that existed as it
  was, and returns a reference to the chosen list.
* `run_chosen` — hence running with names is running the chosen list, and the given list is there
  afterwards as it was before.
-/

namespace Testcase

variable {W F U : Type}

/-! ## Tables -/

/-- A value in a source table. -/
inductive FieldRef (F : Type) where
  | string (s : Str)
  | function (f : F)
  | table (ref : Nat)

/-- A table: an array of references, a source, or a test. -/
inductive Cell (F : Type) where
  | array (refs : List Nat)
  | source (fields : Table (FieldRef F))
  | test (t : Test F)

/-- What a view of the heap shows at a reference to a test. -/
def TestAt (view : Nat → Option (Cell F)) (ref : Nat) (t : Test F) : Prop :=
  view ref = some (.test t)

/-- A hook of a source table. -/
def HookAt (fields : Table (FieldRef F)) (name : Str) (hook : Option F) : Prop :=
  match hook with
  | none => fields.lookup name = none
  | some f => fields.lookup name = some (.function f)

/-- The fields of a source table other than `tests`. -/
structure FieldsOf (fields : Table (FieldRef F)) (src : Source F) : Prop where
  name : fields.lookup "name".toList = some (.string src.name)
  dirname : fields.lookup "dirname".toList = some (.string src.dirname)
  beforeAll : HookAt fields Slot.beforeAll.name src.beforeAll
  afterAll : HookAt fields Slot.afterAll.name src.afterAll
  beforeEach : HookAt fields Slot.beforeEach.name src.beforeEach
  afterEach : HookAt fields Slot.afterEach.name src.afterEach

/-- What a view of the heap shows at a reference to a source. -/
def SourceAt (view : Nat → Option (Cell F)) (ref : Nat) (src : Source F) : Prop :=
  ∃ fields r refs, view ref = some (.source fields) ∧ FieldsOf fields src ∧
    fields.lookup "tests".toList = some (.table r) ∧ view r = some (.array refs) ∧
    List.Forall₂ (TestAt view) refs src.tests

/-- What a view of the heap shows at a reference to a list of sources. -/
def ListAt (view : Nat → Option (Cell F)) (ref : Nat) (list : List (Source F)) : Prop :=
  ∃ refs, view ref = some (.array refs) ∧ List.Forall₂ (SourceAt view) refs list

theorem TestAt.mono {view view' : Nat → Option (Cell F)} {ref : Nat} {t : Test F}
    (h : TestAt view ref t) (hview : Knows view view') : TestAt view' ref t := hview _ _ h

theorem SourceAt.mono {view view' : Nat → Option (Cell F)} {ref : Nat} {src : Source F}
    (h : SourceAt view ref src) (hview : Knows view view') : SourceAt view' ref src := by
  obtain ⟨fields, r, refs, href, hfields, htests, hr, hrefs⟩ := h
  exact ⟨fields, r, refs, hview _ _ href, hfields, htests, hview _ _ hr,
    hrefs.imp fun _ _ h => h.mono hview⟩

theorem ListAt.mono {view view' : Nat → Option (Cell F)} {ref : Nat} {list : List (Source F)}
    (h : ListAt view ref list) (hview : Knows view view') : ListAt view' ref list := by
  obtain ⟨refs, href, hrefs⟩ := h
  exact ⟨refs, hview _ _ href, hrefs.imp fun _ _ h => h.mono hview⟩

/-! ## `select_testcases` over references -/

/-- `a[#a + 1] = ref`. -/
def push (h : Heap (Cell F)) (a ref : Nat) : Option (Heap (Cell F)) :=
  match h.read a with
  | some (.array refs) => some (h.write a (.array (refs ++ [ref])))
  | _ => none

/-- One step of the loop over the tests of a source, with the table `tests` being filled. -/
def selectTestRef (tests : Nat) (acc : Heap (Cell F) × Table Nat × Table Bool) (ref : Nat) :
    Option (Heap (Cell F) × Table Nat × Table Bool) :=
  match acc.1.read ref with
  | some (.test test) =>
      match acc.2.1.lookup test.name with
      | none => some acc
      | some n =>
          (push acc.1 tests ref).map fun h =>
            (h, acc.2.1.insert test.name (n + 1), acc.2.2.insert test.name true)
  | _ => none

/-- The copy of a source: `newsrc[k] = v` for every field, and `newsrc.tests = tests`. -/
def copySource (o : Traversal) (h : Heap (Cell F)) (fields : Table (FieldRef F)) (tests : Nat) :
    Heap (Cell F) × Nat :=
  let (h, newsrc) := h.alloc (.source ∅)
  let copied := (o.pairs none fields).foldl
    (fun (new : Table (FieldRef F)) kv => new.insert kv.1 kv.2) ∅
  (h.write newsrc (.source (copied.insert "tests".toList (.table tests))), newsrc)

/-- One step of the loop over the sources, with the table `newlist` being filled. -/
def selectSourceRef (o : Traversal) (newlist : Nat) (acc : Heap (Cell F) × Table Nat)
    (src : Nat) : Option (Heap (Cell F) × Table Nat) := do
  let (h, tests) := acc.1.alloc (.array [])
  let .source fields ← h.read src | none
  let .table r ← fields.lookup "tests".toList | none
  let .array refs ← h.read r | none
  let (h, targets, _) ← refs.foldlM (selectTestRef tests) (h, acc.2, ∅)
  let .array kept ← h.read tests | none
  if 0 < kept.length then
    let (h, newsrc) := copySource o h fields tests
    let h ← push h newlist newsrc
    some (h, targets)
  else some (h, targets)

/-- `select_testcases(list, testcases)`: the heap, the new list and the hits. -/
def selectTestcasesRef (o : Traversal) (h : Heap (Cell F)) (list : Nat) (testcases : List Str) :
    Option (Heap (Cell F) × Nat × Table Nat) := do
  let .array srcs ← h.read list | none
  let (h, newlist) := h.alloc (.array [])
  let (h, targets) ← srcs.foldlM (selectSourceRef o newlist)
    (h, testcases.foldl (fun targets name => targets.insert name 0) ∅)
  some (h, newlist, targets)

/-! ## What it does -/

theorem push_array {h : Heap (Cell F)} {a ref : Nat} {refs : List Nat}
    (hread : h.read a = some (.array refs)) :
    push h a ref = some (h.write a (.array (refs ++ [ref]))) := by
  rw [push, hread]

/-- The loop over the tests of a source fills the table `tests` with the tests that
`selectTest` keeps, and writes nowhere else. -/
theorem foldlM_selectTestRef {view : Nat → Option (Cell F)} {tests : Nat} {refs : List Nat}
    {ts : List (Test F)} (hrefs : List.Forall₂ (TestAt view) refs ts) :
    ∀ (h : Heap (Cell F)) (targets : Table Nat) (found : Table Bool) (keptRefs : List Nat)
      (kept : List (Test F)), Knows view (h.without tests) →
      h.read tests = some (.array keptRefs) → List.Forall₂ (TestAt view) keptRefs kept →
      ∃ h' keptRefs', refs.foldlM (selectTestRef tests) (h, targets, found)
          = some (h', (ts.foldl selectTest (kept, targets, found)).2) ∧
        h'.size = h.size ∧ h'.without tests = h.without tests ∧
        h'.read tests = some (.array keptRefs') ∧
        List.Forall₂ (TestAt view) keptRefs' (ts.foldl selectTest (kept, targets, found)).1 := by
  induction hrefs with
  | nil =>
      intro h targets found keptRefs kept _ hread hkept
      exact ⟨h, keptRefs, rfl, rfl, rfl, hread, hkept⟩
  | @cons ref t refs ts href _ ih =>
      intro h targets found keptRefs kept hview hread hkept
      have hreadref : h.read ref = some (.test t) := knows_without _ _ (hview _ _ href)
      rcases hlook : targets.lookup t.name with _ | n
      · have hstep : selectTestRef tests (h, targets, found) ref = some (h, targets, found) := by
          simp only [selectTestRef, hreadref, hlook]
        have hpure : selectTest (kept, targets, found) t = (kept, targets, found) := by
          simp only [selectTest, hlook]
        rw [List.foldlM_cons, hstep, List.foldl_cons, hpure]
        exact ih h targets found keptRefs kept hview hread hkept
      · have hstep : selectTestRef tests (h, targets, found) ref
            = some (h.write tests (.array (keptRefs ++ [ref])),
              targets.insert t.name (n + 1), found.insert t.name true) := by
          simp only [selectTestRef, hreadref, hlook, push_array hread, Option.map_some]
        have hpure : selectTest (kept, targets, found) t
            = (kept ++ [t], targets.insert t.name (n + 1), found.insert t.name true) := by
          simp only [selectTest, hlook]
        rw [List.foldlM_cons, hstep, List.foldl_cons, hpure]
        have hview' : Knows view ((h.write tests (.array (keptRefs ++ [ref]))).without tests) := by
          rw [without_write]
          exact hview
        obtain ⟨h', keptRefs', hrun, hsize, hwithout, hread', hkept'⟩ :=
          ih _ (targets.insert t.name (n + 1)) (found.insert t.name true) _ _ hview'
            (Heap.read_write_self (Heap.lt_size_of_read hread))
            (List.rel_append hkept (.cons href .nil))
        refine ⟨h', keptRefs', hrun, hsize.trans Heap.size_write, ?_, hread', hkept'⟩
        rw [hwithout, without_write]

/-- The copy of a source has its fields, and the new table under `tests`. -/
theorem copied_fields (o : Traversal) {fields : Table (FieldRef F)} {src : Source F}
    (hfields : FieldsOf fields src) (tests : Nat) (kept : List (Test F)) :
    FieldsOf (((o.pairs none fields).foldl
      (fun (new : Table (FieldRef F)) kv => new.insert kv.1 kv.2) ∅).insert
        "tests".toList (.table tests)) { src with tests := kept } := by
  have hother : ∀ k, k ≠ "tests".toList → (((o.pairs none fields).foldl
      (fun (new : Table (FieldRef F)) kv => new.insert kv.1 kv.2) ∅).insert
        "tests".toList (.table tests)).lookup k = fields.lookup k := by
    intro k hk
    rw [AList.lookup_insert_ne hk, o.lookup_copy]
  have hhook : ∀ slot hook, slot ≠ "tests".toList → HookAt fields slot hook →
      HookAt (((o.pairs none fields).foldl
        (fun (new : Table (FieldRef F)) kv => new.insert kv.1 kv.2) ∅).insert
          "tests".toList (.table tests)) slot hook := by
    intro slot hook hslot h
    cases hook with
    | none => exact (hother slot hslot).trans h
    | some f => exact (hother slot hslot).trans h
  exact ⟨(hother _ (by decide)).trans hfields.name, (hother _ (by decide)).trans hfields.dirname,
    hhook _ _ (by decide) hfields.beforeAll, hhook _ _ (by decide) hfields.afterAll,
    hhook _ _ (by decide) hfields.beforeEach, hhook _ _ (by decide) hfields.afterEach⟩

/-- The copy of a source is a new cell, and nothing else changes. -/
theorem copySource_spec (o : Traversal) (h : Heap (Cell F)) (fields : Table (FieldRef F))
    (tests : Nat) : ∃ h' : Heap (Cell F), copySource o h fields tests = (h', h.size) ∧
      Knows h.read h'.read ∧ h'.size = h.size + 1 ∧
      h'.read h.size = some (.source (((o.pairs none fields).foldl
        (fun (new : Table (FieldRef F)) kv => new.insert kv.1 kv.2) ∅).insert
          "tests".toList (.table tests))) := by
  refine ⟨_, rfl, ?_, ?_, ?_⟩
  · intro a c hread
    have hlt := Heap.lt_size_of_read hread
    rw [Heap.read_write_of_ne (Nat.ne_of_lt hlt)]
    exact knows_alloc a c hread
  · exact Heap.size_write.trans Heap.size_alloc
  · exact Heap.read_write_self ((Nat.lt_succ_self _).trans_eq Heap.size_alloc.symm)

/-- What holds between two steps of the loop over the sources: what the view knows is still
there, and the table being filled holds the sources chosen so far. -/
structure Filling (view : Nat → Option (Cell F)) (newlist : Nat) (h : Heap (Cell F))
    (chosen : List (Source F)) : Prop where
  keeps : Knows view (h.without newlist)
  list : ∃ out, h.read newlist = some (.array out) ∧
    List.Forall₂ (SourceAt (h.without newlist)) out chosen

/-- **One source**: the step does to the tables what `chooseStep` does to the lists. -/
theorem selectSourceRef_spec {o : Traversal} {view : Nat → Option (Cell F)} {newlist : Nat}
    {h : Heap (Cell F)} {acc : List (Source F) × Table Nat} {ref : Nat} {src : Source F}
    (hfill : Filling view newlist h acc.1) (hsrc : SourceAt view ref src) :
    ∃ h', selectSourceRef o newlist (h, acc.2) ref = some (h', (chooseStep acc src).2) ∧
      Filling view newlist h' (chooseStep acc src).1 := by
  obtain ⟨out, hout, hsources⟩ := hfill.list
  obtain ⟨fields, r, refs, href, hfields, htests, hr, hrefs⟩ := hsrc
  have hn := Heap.lt_size_of_read hout
  -- the new table `tests` is above everything the heap shows
  obtain ⟨h₁, hh₁⟩ : ∃ h₁ : Heap (Cell F), (h.alloc (.array [])).1 = h₁ := ⟨_, rfl⟩
  have hkeep₁ : Knows h.read (h₁.without h.size) :=
    Knows.without (by rw [← hh₁]; exact knows_alloc) (read_of_size_le le_rfl)
  have hview₁ : Knows view (h₁.without h.size) :=
    (hfill.keeps.trans knows_without).trans hkeep₁
  have hread₁ : h₁.read h.size = some (.array []) := by
    rw [← hh₁]
    exact Heap.read_alloc_self
  obtain ⟨h₂, keptRefs, hrun, hsize₂, hwithout₂, hread₂, hkept⟩ :=
    foldlM_selectTestRef hrefs h₁ acc.2 ∅ [] [] hview₁ hread₁ .nil
  have hkeep₂ : Knows h.read h₂.read := by
    rw [hwithout₂.symm] at hkeep₁
    exact hkeep₁.trans knows_without
  have hview₂ : Knows view h₁.read := hview₁.trans knows_without
  have halloc : h.alloc (.array []) = (h₁, h.size) := Prod.ext hh₁ rfl
  have hlen := hkept.length_eq
  have hfresh : newlist < h₂.size := by
    rw [hsize₂, ← hh₁, Heap.size_alloc]
    omega
  by_cases hpos : 0 < keptRefs.length
  · obtain ⟨h₃, hcopy, hkeep₃, hsize₃, hread₃⟩ := copySource_spec o h₂ fields h.size
    have hout₃ : h₃.read newlist = some (.array out) := hkeep₃ _ _ (hkeep₂ _ _ hout)
    have hhide : Knows (h.without newlist) (h₃.without newlist) :=
      Knows.hide (hkeep₂.trans hkeep₃) newlist
    refine ⟨h₃.write newlist (.array (out ++ [h₂.size])), ?_, ?_, ?_⟩
    · simp only [selectSourceRef, halloc, hview₂ _ _ href, htests, hview₂ _ _ hr, hrun, hread₂,
        hcopy, push_array hout₃, Option.bind_eq_bind, Option.bind_some, if_pos hpos]
      rfl
    · rw [without_write]
      exact hfill.keeps.trans hhide
    · refine ⟨out ++ [h₂.size], Heap.read_write_self (Heap.lt_size_of_read hout₃), ?_⟩
      rw [without_write]
      have hchosen : (chooseStep acc src).1 = acc.1 ++
          [{ src with tests := (src.tests.foldl selectTest ([], acc.2, ∅)).1 }] := by
        rw [chooseStep]
        exact if_pos (hlen ▸ hpos)
      rw [hchosen]
      refine List.rel_append (hsources.imp fun _ _ h => h.mono hhide) (.cons ?_ .nil)
      refine ⟨_, h.size, keptRefs, ?_, copied_fields o hfields h.size _, AList.lookup_insert _, ?_,
        hkept.imp fun _ _ h => h.mono (hfill.keeps.trans hhide)⟩
      · rw [without_of_ne (Nat.ne_of_gt hfresh)]
        exact hread₃
      · rw [without_of_ne (Nat.ne_of_gt hn)]
        exact hkeep₃ _ _ hread₂
  · refine ⟨h₂, ?_, ?_, ?_⟩
    · simp only [selectSourceRef, halloc, hview₂ _ _ href, htests, hview₂ _ _ hr, hrun, hread₂,
        Option.bind_eq_bind, Option.bind_some, if_neg hpos]
      rfl
    · exact hfill.keeps.trans (Knows.hide hkeep₂ newlist)
    · have hchosen : (chooseStep acc src).1 = acc.1 := by
        rw [chooseStep]
        exact if_neg (hlen ▸ hpos)
      rw [hchosen]
      exact ⟨out, hkeep₂ _ _ hout,
        hsources.imp fun _ _ h => h.mono (Knows.hide hkeep₂ newlist)⟩

/-- The loop over the sources. -/
theorem foldlM_selectSourceRef (o : Traversal) {view : Nat → Option (Cell F)} {newlist : Nat}
    {refs : List Nat} {list : List (Source F)} (hrefs : List.Forall₂ (SourceAt view) refs list) :
    ∀ (h : Heap (Cell F)) (acc : List (Source F) × Table Nat), Filling view newlist h acc.1 →
      ∃ h', refs.foldlM (selectSourceRef o newlist) (h, acc.2)
          = some (h', (list.foldl chooseStep acc).2) ∧
        Filling view newlist h' (list.foldl chooseStep acc).1 := by
  induction hrefs with
  | nil => exact fun h acc hfill => ⟨h, rfl, hfill⟩
  | @cons ref src refs list hsrc _ ih =>
      intro h acc hfill
      obtain ⟨h', hstep, hfill'⟩ := selectSourceRef_spec hfill hsrc
      rw [List.foldlM_cons, hstep]
      exact ih h' (chooseStep acc src) hfill'

/-- **`select_testcases` reads the given tables and writes its own.**  Every cell that existed is
as it was, and the new list stands for the chosen sources. -/
theorem selectTestcasesRef_spec (o : Traversal) {h : Heap (Cell F)} {ref : Nat}
    {list : List (Source F)} (hlist : ListAt h.read ref list) (names : List Str) :
    ∃ h' newlist targets, selectTestcasesRef o h ref names = some (h', newlist, targets) ∧
      Knows h.read h'.read ∧ ListAt h'.read newlist (chooseAll list names) := by
  obtain ⟨refs, href, hrefs⟩ := hlist
  obtain ⟨h₁, hh₁⟩ : ∃ h₁ : Heap (Cell F), (h.alloc (.array [])).1 = h₁ := ⟨_, rfl⟩
  have halloc : h.alloc (.array []) = (h₁, h.size) := Prod.ext hh₁ rfl
  have hkeep₁ : Knows h.read (h₁.without h.size) :=
    Knows.without (by rw [← hh₁]; exact knows_alloc) (read_of_size_le le_rfl)
  have hread₁ : h₁.read h.size = some (.array []) := by
    rw [← hh₁]
    exact Heap.read_alloc_self
  obtain ⟨h', hrun, hfill⟩ := foldlM_selectSourceRef o hrefs h₁
    ([], names.foldl (fun targets name => targets.insert name 0) ∅)
    ⟨hkeep₁, [], hread₁, .nil⟩
  have hchosen := (foldl_chooseStep_targets list names).1
  rcases hres : list.foldl chooseStep
    ([], names.foldl (fun targets name => targets.insert name 0) ∅) with ⟨chosen, targets⟩
  rw [hres] at hrun hfill hchosen
  obtain ⟨out, hout, hsources⟩ := hfill.list
  refine ⟨h', h.size, targets, ?_, hfill.keeps.trans knows_without, out, hout, ?_⟩
  · simp only [selectTestcasesRef, href, halloc, hrun, Option.bind_eq_bind, Option.bind_some]
  · rw [← hchosen]
    exact hsources.imp fun _ _ h => h.mono knows_without

/-! ## Running with names -/

/-- **Running with names is running the chosen list.**  If every name occurs, the run is that of
the chosen list behind some printing: the same calls, the same result, the same world afterwards.
If some name does not occur, `run` returns `false` and nothing was done.  The selection leaves the
tables it is given as they were, so the given reference stands for the same list afterwards. -/
theorem run_chosen (env : Env W F U) (list : List (Source F)) (name : Str) (names : List Str)
    (p : Proc W) :
    ((∀ n ∈ name :: names, Occurs list n) → ∃ prints, OnlyPrints prints ∧
      run env list (some (name :: names)) p
        = ⟨prints ++ (run env (chooseAll list (name :: names)) none p).events,
          (run env (chooseAll list (name :: names)) none p).result,
          (run env (chooseAll list (name :: names)) none p).world⟩) ∧
    ((∃ n ∈ name :: names, ¬ Occurs list n) → ∃ prints err, OnlyPrints prints ∧
      run env list (some (name :: names)) p = ⟨prints, .ok (.refused err), p⟩) ∧
    ∀ (o : Traversal) (h : Heap (Cell F)) (ref : Nat), ListAt h.read ref list →
      ∃ h' newlist targets, selectTestcasesRef o h ref (name :: names)
          = some (h', newlist, targets) ∧
        ListAt h'.read newlist (chooseAll list (name :: names)) ∧
        (∀ a c, h.read a = some c → h'.read a = some c) ∧ ListAt h'.read ref list := by
  refine ⟨fun hall => ?_, fun hmiss => ?_, fun o h ref hlist => ?_⟩
  · rcases hp : p.doNotRun with _ | _
    · rw [run_all hp]
      exact run_selected env (by simp) hp hall
    · refine ⟨[], by simp [OnlyPrints], ?_⟩
      rw [run_blocked hp, run_blocked hp]
      rfl
  · rcases hp : p.doNotRun with _ | _
    · obtain ⟨prints, hprints, hrun⟩ := run_missing env (by simp) hp hmiss
      exact ⟨prints, _, hprints, hrun⟩
    · exact ⟨[], _, by simp [OnlyPrints], run_blocked hp⟩
  · obtain ⟨h', newlist, targets, hrun, hkeep, hchosen⟩ :=
      selectTestcasesRef_spec o hlist (name :: names)
    exact ⟨h', newlist, targets, hrun, hchosen, hkeep, hlist.mono hkeep⟩

end Testcase
