import Mathlib.Data.List.Induction
import LuaTestcase.Core.Pathname
import LuaTestcase.Registry.List

/-!
# When the registry keeps files apart

`REGISTRY` is keyed by the shortened name of a file, not by its real path, and shortening is not
injective: it takes `CWD ++ s` and `CWD ++ "/" ++ s` to the same name.  This is its only
collision among the pathnames `realpath` can return (`trimCwd_collision`), so

* `neverMixes_of_noCollision` — files no two of which are such a pair are kept apart;
* `noCollision_of_neverMixes` — a pair that is registered ends up in one item, or the tests of
  one file are rejected on account of the other's.

The file system is fixed throughout: with one that changes between two adds, "the real path of a
file" has no meaning.
-/

namespace Testcase

variable {F U : Type}

/-! ## The collision -/

/-- **Two canonical pathnames are shortened alike only if they differ by a slash behind `CWD`.** -/
theorem trimCwd_collision {CWD p q : Str} (hp : Canonical p) (hq : Canonical q)
    (h : trimCwd CWD p = trimCwd CWD q) :
    p = q ∨ ∃ s, (p = CWD ++ s ∧ q = CWD ++ '/' :: s) ∨ (q = CWD ++ s ∧ p = CWD ++ '/' :: s) := by
  -- a shortened name that is an absolute pathname again would come from two slashes in a row
  have habsurd : ∀ {p q : Str}, Canonical p → Canonical q → CWD <+: p → ¬ CWD <+: q →
      trimCwd CWD p ≠ trimCwd CWD q := by
    rintro p q hp hq ⟨u, rfl⟩ hno heq
    obtain ⟨q, rfl⟩ := hq.exists_cons
    rw [trimCwd_append, trimCwd_of_not_leading hno] at heq
    by_cases hu : u.head? = some '/'
    · obtain ⟨u, rfl⟩ := List.head?_eq_some_iff.mp hu
      rw [trimPrefix_slash] at heq
      rw [heq] at hp
      exact hp.not_double_slash CWD q rfl
    · rw [trimPrefix_slash_of_head hu] at heq
      rw [heq] at hu
      exact hu rfl
  by_cases hcp : CWD <+: p
  · by_cases hcq : CWD <+: q
    · obtain ⟨u, rfl⟩ := hcp
      obtain ⟨v, rfl⟩ := hcq
      rw [trimCwd_append, trimCwd_append] at h
      by_cases hu : u.head? = some '/'
      · obtain ⟨u, rfl⟩ := List.head?_eq_some_iff.mp hu
        rw [trimPrefix_slash] at h
        by_cases hv : v.head? = some '/'
        · obtain ⟨v, rfl⟩ := List.head?_eq_some_iff.mp hv
          rw [trimPrefix_slash] at h
          exact Or.inl (by rw [h])
        · rw [trimPrefix_slash_of_head hv] at h
          exact Or.inr ⟨v, Or.inr ⟨rfl, by rw [h]⟩⟩
      · rw [trimPrefix_slash_of_head hu] at h
        by_cases hv : v.head? = some '/'
        · obtain ⟨v, rfl⟩ := List.head?_eq_some_iff.mp hv
          rw [trimPrefix_slash] at h
          exact Or.inr ⟨u, Or.inl ⟨rfl, by rw [h]⟩⟩
        · rw [trimPrefix_slash_of_head hv] at h
          exact Or.inl (by rw [h])
    · exact absurd h (habsurd hp hq hcp hcq)
  · by_cases hcq : CWD <+: q
    · exact absurd h.symm (habsurd hq hp hcq hcp)
    · rw [trimCwd_of_not_leading hcp, trimCwd_of_not_leading hcq] at h
      exact Or.inl h

/-- The two pathnames of a collision. -/
theorem trimCwd_append_slash {CWD s : Str} (hs : s.head? ≠ some '/') :
    trimCwd CWD (CWD ++ '/' :: s) = trimCwd CWD (CWD ++ s) := by
  rw [trimCwd_append, trimCwd_append, trimPrefix_slash, trimPrefix_slash_of_head hs]

/-! ## A sequence of adds -/

/-- The registry after a sequence of calls of `add` from an empty one. -/
def addAll (host : Host F) (adds : List (Value F U × Value F U)) : History F :=
  history (adds.map fun a => .add host a.1 a.2)

/-- An item holds a registered function: as the hook of that name, or in its array. -/
def Item.Holds (item : Item F) (r : Registration F) : Prop :=
  if r.name ∈ setupAndTeardown then item.fields.lookup r.name = some (.function r.func)
  else r.test ∈ item.tests

/-- The registry keeps the files apart: accepted functions share an item exactly if their files
have the same real path; a function is rejected only because one of that name was accepted from
the same file; and an item records the real path and the directory of all it holds. -/
structure NeverMixes (host : Host F) (adds : List (Value F U × Value F U)) : Prop where
  together : ∀ o : Traversal, ∀ r₁ ∈ (addAll host adds).log, ∀ r₂ ∈ (addAll host adds).log,
    (∃ item ∈ (getlist o (addAll host adds).reg).1, item.Holds r₁ ∧ item.Holds r₂) ↔
      r₁.info.realpath = r₂.info.realpath
  rejected : ∀ earlier a, earlier ++ [a] <+: adds → ∀ r, registrationOf host a.1 a.2 = some r →
    ∀ err, (add host (addAll host earlier).reg a.1 a.2).2 = some err →
      ∃ r' ∈ (addAll host earlier).log, r'.name = r.name ∧ r'.info.realpath = r.info.realpath
  recorded : ∀ o : Traversal, ∀ item ∈ (getlist o (addAll host adds).reg).1,
    ∀ r ∈ (addAll host adds).log, item.Holds r →
      item.fields.lookup "realpath".toList = some (.string r.info.realpath) ∧
      item.fields.lookup "dirname".toList = some (.string r.info.dirname)

/-- No two of the files are spelled alike but for a slash behind `CWD`. -/
def NoCollision (host : Host F) (adds : List (Value F U × Value F U)) : Prop :=
  ∀ a ∈ adds, ∀ b ∈ adds, ∀ r r', registrationOf host a.1 a.2 = some r →
    registrationOf host b.1 b.2 = some r' →
    ¬ ∃ s, r.info.realpath = host.CWD ++ s ∧ r'.info.realpath = host.CWD ++ '/' :: s

theorem addAll_concat (host : Host F) (adds : List (Value F U × Value F U))
    (a : Value F U × Value F U) :
    addAll host (adds ++ [a]) = (addAll host adds).step (.add host a.1 a.2) := by
  rw [addAll, addAll, history, history, List.map_append, List.foldl_append]
  rfl

theorem addAll_represents (host : Host F) (adds : List (Value F U × Value F U)) :
    Represents (addAll host adds).reg (addAll host adds).log := history_represents _

/-- What a registration records follows from the function alone. -/
theorem registrationOf_spec {host : Host F} {name func : Value F U} {r : Registration F}
    (h : registrationOf host name func = some r) :
    getstat host.toOs (trimPrefix (host.getinfo r.func).source ['@']) = .ok r.info ∧
    r.lineno = (host.getinfo r.func).linedefined := by
  cases name with
  | string n =>
      cases func with
      | function f =>
          simp only [registrationOf] at h
          rcases hstat : getstat host.toOs (trimPrefix (host.getinfo f).source ['@'])
            with err | stat
          · simp [hstat] at h
          · simp only [hstat, Option.some.injEq] at h
            subst h
            exact ⟨hstat, rfl⟩
      | _ => simp [registrationOf] at h
  | _ => simp [registrationOf] at h

/-- What `getstat` finds out is derived from a real path. -/
theorem getstat_ok {os : Os} {pathname : Str} {stat : PathInfo}
    (h : getstat os pathname = .ok stat) :
    os.realpath pathname = .ok stat.realpath ∧ stat = pathInfo os.CWD stat.realpath := by
  rcases hreal : os.realpath pathname with err | rpath
  · simp [getstat, hreal] at h
  · rcases hstat : os.stat rpath false with err | ty
    · simp [getstat, hreal, hstat] at h
    · simp only [getstat, hreal, hstat, Except.ok.injEq] at h
      subst h
      exact ⟨rfl, rfl⟩

/-- The key of a registration is its real path, shortened. -/
theorem registrationOf_key {host : Host F} {name func : Value F U} {r : Registration F}
    (h : registrationOf host name func = some r) :
    r.key = trimCwd host.CWD r.info.realpath := by
  obtain ⟨_, hinfo⟩ := getstat_ok (registrationOf_spec h).1
  rw [Registration.key, hinfo]
  rfl

/-- What the log holds was attempted. -/
theorem mem_log_addAll {host : Host F} {adds : List (Value F U × Value F U)}
    {r : Registration F} (hr : r ∈ (addAll host adds).log) :
    ∃ a ∈ adds, registrationOf host a.1 a.2 = some r := by
  induction adds using List.reverseRecOn with
  | nil => simp [addAll, history] at hr
  | append_singleton adds a ih =>
      rw [addAll_concat] at hr
      have hold : r ∈ (addAll host adds).log →
          ∃ b ∈ adds ++ [a], registrationOf host b.1 b.2 = some r := by
        intro hr
        obtain ⟨b, hb, heq⟩ := ih hr
        exact ⟨b, by simp [hb], heq⟩
      simp only [History.step] at hr
      split at hr
      · rename_i r' _ hr'
        rcases List.mem_append.mp hr with hr | hr
        · exact hold hr
        · rw [List.mem_singleton.mp hr]
          exact ⟨a, by simp, hr'⟩
      · exact hold hr

/-- The log only grows. -/
theorem log_addAll_mono {host : Host F} {adds earlier : List (Value F U × Value F U)}
    (h : earlier <+: adds) : ∀ r ∈ (addAll host earlier).log, r ∈ (addAll host adds).log := by
  obtain ⟨later, rfl⟩ := h
  induction later using List.reverseRecOn with
  | nil => exact fun r hr => by simpa using hr
  | append_singleton later a ih =>
      intro r hr
      rw [← List.append_assoc, addAll_concat]
      simp only [History.step]
      split
      · exact List.mem_append_left _ (ih r hr)
      · exact ih r hr

/-- **An add that got to the table is rejected only because its name is taken there.** -/
theorem add_rejected {host : Host F} {reg : Registry F} {name func : Value F U}
    {r : Registration F} {err : Str} (hr : registrationOf host name func = some r)
    (herr : (add host reg name func).2 = some err) : ∃ t, registered reg r.key r.name = some t := by
  cases name with
  | string n =>
      cases func with
      | function f =>
          rcases hstat : getstat host.toOs (trimPrefix (host.getinfo f).source ['@'])
            with e | stat
          · simp [registrationOf, hstat] at hr
          · simp only [registrationOf, hstat, Option.some.injEq] at hr
            subst hr
            have hadd : add (U := U) host reg (.string n) (.function f)
                = addTo reg stat n f (host.getinfo f).linedefined := by simp [add, hstat]
            rw [hadd] at herr
            rcases addTo_cases reg stat n f (host.getinfo f).linedefined with
              ⟨entry, test, hentry, htest, _⟩ | ⟨_, heq⟩
            · exact ⟨test, by simp [registered, Registration.key, hentry, htest]⟩
            · rw [heq] at herr
              simp at herr
      | _ => simp [registrationOf] at hr
  | _ => simp [registrationOf] at hr

/-- Two registrations of one function are of one file. -/
theorem info_eq_of_func_eq {host : Host F} {adds : List (Value F U × Value F U)}
    {r r' : Registration F} (hr : r ∈ (addAll host adds).log) (hr' : r' ∈ (addAll host adds).log)
    (hfunc : r.func = r'.func) : r.info = r'.info := by
  obtain ⟨a, _, ha⟩ := mem_log_addAll hr
  obtain ⟨b, _, hb⟩ := mem_log_addAll hr'
  have hstat := (registrationOf_spec ha).1
  rw [hfunc, (registrationOf_spec hb).1] at hstat
  exact (Except.ok.inj hstat).symm

/-- **An item holds exactly the registrations under its name.** -/
theorem holds_iff {host : Host F} {adds : List (Value F U × Value F U)} {o : Traversal}
    {item : Item F} (hitem : item ∈ (getlist o (addAll host adds).reg).1) {r : Registration F}
    (hr : r ∈ (addAll host adds).log) : item.Holds r ↔ item.name = r.key := by
  have hrep := addAll_represents host adds
  have hof := (getlist_listing hrep o).item item hitem
  constructor
  · intro h
    -- whatever stands there is registered under the item's name, and it is the same function
    obtain ⟨t, ht, hfunc⟩ : ∃ t, registered (addAll host adds).reg item.name r.name = some t ∧
        t.func = r.func := by
      by_cases hhook : r.name ∈ setupAndTeardown
      · rw [Item.Holds, if_pos hhook, hof.hooks r.name hhook] at h
        obtain ⟨t, ht, heq⟩ := Option.map_eq_some_iff.mp h
        exact ⟨t, ht, by simpa using heq⟩
      · rw [Item.Holds, if_neg hhook] at h
        exact ⟨r.test, ((hof.tests r.test).mp h).2, rfl⟩
    obtain ⟨r', hr', hkey, _, rfl⟩ := (hrep.registered_iff _ _ _).mp ht
    rw [← hkey, Registration.key, Registration.key, info_eq_of_func_eq hr' hr hfunc]
  · intro h
    have hreg := (hrep.registered_iff item.name r.name r.test).mpr ⟨r, hr, h.symm, rfl, rfl⟩
    by_cases hhook : r.name ∈ setupAndTeardown
    · rw [Item.Holds, if_pos hhook, hof.hooks r.name hhook, hreg]
      rfl
    · rw [Item.Holds, if_neg hhook]
      exact (hof.tests r.test).mpr ⟨hhook, hreg⟩

/-- Accepted functions share an item exactly if their shortened names are equal. -/
theorem together_iff_key {host : Host F} {adds : List (Value F U × Value F U)} (o : Traversal)
    {r₁ r₂ : Registration F} (h₁ : r₁ ∈ (addAll host adds).log)
    (h₂ : r₂ ∈ (addAll host adds).log) :
    (∃ item ∈ (getlist o (addAll host adds).reg).1, item.Holds r₁ ∧ item.Holds r₂) ↔
      r₁.key = r₂.key := by
  have hrep := addAll_represents host adds
  constructor
  · rintro ⟨item, hitem, hhold₁, hhold₂⟩
    rw [← (holds_iff hitem h₁).mp hhold₁, ← (holds_iff hitem h₂).mp hhold₂]
  · intro hkey
    obtain ⟨item, hitem, hname⟩ := ((getlist_listing hrep o).keys r₁.key).mpr
      ((hrep.key_iff r₁.key).mpr ⟨r₁, h₁, rfl⟩)
    exact ⟨item, hitem, (holds_iff hitem h₁).mpr hname,
      (holds_iff hitem h₂).mpr (hname.trans hkey)⟩

section Apart

variable {host : Host F} {adds : List (Value F U × Value F U)}

/-- Without a collision, equal shortened names come from equal real paths. -/
theorem NoCollision.realpath_eq (h : NoCollision host adds)
    (hreal : ∀ p q, host.realpath p = .ok q → Canonical q) {a b : Value F U × Value F U}
    (ha : a ∈ adds) (hb : b ∈ adds) {r r' : Registration F}
    (hr : registrationOf host a.1 a.2 = some r) (hr' : registrationOf host b.1 b.2 = some r')
    (hkey : r.key = r'.key) : r.info.realpath = r'.info.realpath := by
  have hp := hreal _ _ (getstat_ok (registrationOf_spec hr).1).1
  have hq := hreal _ _ (getstat_ok (registrationOf_spec hr').1).1
  rw [registrationOf_key hr, registrationOf_key hr'] at hkey
  rcases trimCwd_collision hp hq hkey with heq | ⟨s, ⟨hs, hs'⟩ | ⟨hs, hs'⟩⟩
  · exact heq
  · exact absurd ⟨s, hs, hs'⟩ (h a ha b hb r r' hr hr')
  · exact absurd ⟨s, hs, hs'⟩ (h b hb a ha r' r hr' hr)

/-- **Files without a collision are kept apart.** -/
theorem neverMixes_of_noCollision (hreal : ∀ p q, host.realpath p = .ok q → Canonical q)
    (h : NoCollision host adds) : NeverMixes host adds := by
  have hrep := addAll_represents host adds
  refine ⟨fun o r₁ h₁ r₂ h₂ => ?_, fun earlier a hpre r hr err herr => ?_,
    fun o item hitem r hr hhold => ?_⟩
  · obtain ⟨a, ha, hra⟩ := mem_log_addAll h₁
    obtain ⟨b, hb, hrb⟩ := mem_log_addAll h₂
    rw [together_iff_key o h₁ h₂]
    refine ⟨fun hkey => h.realpath_eq hreal ha hb hra hrb hkey, fun hpath => ?_⟩
    rw [registrationOf_key hra, registrationOf_key hrb, hpath]
  · obtain ⟨t, ht⟩ := add_rejected hr herr
    obtain ⟨r', hr', hkey, hname, _⟩ :=
      ((addAll_represents host earlier).registered_iff _ _ _).mp ht
    obtain ⟨b, hb, hrb⟩ := mem_log_addAll hr'
    have hb' : b ∈ adds := hpre.subset (by simp [hb])
    exact ⟨r', hr', hname, h.realpath_eq hreal hb' (hpre.subset (by simp)) hrb hr hkey⟩
  · have hname := (holds_iff hitem hr).mp hhold
    obtain ⟨entry, hentry, _, _, hdir, hpath, _⟩ :=
      ((getlist_listing hrep o).item item hitem).fixed
    obtain ⟨r', hr', hkey, hinfo⟩ := hrep.entry_info _ entry hentry
    obtain ⟨a, ha, hra⟩ := mem_log_addAll hr
    obtain ⟨b, hb, hrb⟩ := mem_log_addAll hr'
    have hsame := h.realpath_eq hreal hb ha hrb hra (hkey.trans hname)
    -- the entry is that of the first registration, which is of the same file
    have hinfo' : entry.info = r.info := by
      rw [hinfo, (getstat_ok (registrationOf_spec hrb).1).2, hsame,
        ← (getstat_ok (registrationOf_spec hra).1).2]
    rw [hpath, hdir, ← hinfo']
    exact ⟨rfl, rfl⟩

/-- If rejections are always justified, every file that resolves has an accepted function. -/
theorem NeverMixes.exists_accepted (h : NeverMixes host adds) {a : Value F U × Value F U}
    (ha : a ∈ adds) {r : Registration F} (hr : registrationOf host a.1 a.2 = some r) :
    ∃ r' ∈ (addAll host adds).log, r'.info.realpath = r.info.realpath := by
  obtain ⟨earlier, later, rfl⟩ := List.append_of_mem ha
  have hpre : earlier ++ [a] <+: earlier ++ a :: later := ⟨later, by simp⟩
  rcases hadd : (add host (addAll host earlier).reg a.1 a.2).2 with _ | err
  · refine ⟨r, log_addAll_mono hpre r ?_, rfl⟩
    rw [addAll_concat]
    simp only [History.step, hadd, hr]
    simp
  · obtain ⟨r', hr', _, hpath⟩ := h.rejected earlier a hpre r hr err hadd
    exact ⟨r', log_addAll_mono ((List.prefix_append _ _).trans hpre) r' hr', hpath⟩

/-- **A collision mixes two files.** -/
theorem noCollision_of_neverMixes (hreal : ∀ p q, host.realpath p = .ok q → Canonical q)
    (h : NeverMixes host adds) : NoCollision host adds := by
  rintro a ha b hb r r' hr hr' ⟨s, hs, hs'⟩
  have hcanonical := hreal _ _ (getstat_ok (registrationOf_spec hr').1).1
  have hhead : s.head? ≠ some '/' := by
    intro hhead
    obtain ⟨u, rfl⟩ := List.head?_eq_some_iff.mp hhead
    exact hcanonical.not_double_slash host.CWD u hs'
  obtain ⟨r₁, h₁, hpath₁⟩ := h.exists_accepted ha hr
  obtain ⟨r₂, h₂, hpath₂⟩ := h.exists_accepted hb hr'
  obtain ⟨_, _, hra⟩ := mem_log_addAll h₁
  obtain ⟨_, _, hrb⟩ := mem_log_addAll h₂
  have hkey : r₁.key = r₂.key := by
    rw [registrationOf_key hra, registrationOf_key hrb, hpath₁, hpath₂, hs, hs',
      trimCwd_append_slash hhead]
  have hsame := (h.together .forward r₁ h₁ r₂ h₂).mp
    ((together_iff_key .forward h₁ h₂).mpr hkey)
  rw [hpath₁, hpath₂, hs, hs'] at hsame
  have hlen := congrArg List.length hsame
  simp at hlen

end Apart

/-- **The registry keeps files apart exactly when no two of them are spelled alike but for a
slash behind the working directory**, for every sequence of adds. -/
theorem registry_never_mixes (host : Host F)
    (hreal : ∀ p q, host.realpath p = .ok q → Canonical q)
    (adds : List (Value F U × Value F U)) : NeverMixes host adds ↔ NoCollision host adds :=
  ⟨noCollision_of_neverMixes hreal, neverMixes_of_noCollision hreal⟩

/-! ### Two files, with the working directory `/a` -/

/-- `true` is defined in `/a/b/x_test.lua`, `false` in the file given. -/
def twoFiles (other : Str) : Host Bool where
  CWD := "/a".toList
  realpath p := if p = "/a/b/x_test.lua".toList ∨ p = other then .ok p else .error ⟨ENOENT, []⟩
  stat _ _ := .ok .file
  readdir _ := ([], none)
  getinfo f := ⟨'@' :: if f then "/a/b/x_test.lua".toList else other, 1⟩
  tostring err := err.op

/-- Both functions are registered, under different names. -/
def twoAdds : List (Value Bool Unit × Value Bool Unit) :=
  [(.string "test_1".toList, .function true), (.string "test_2".toList, .function false)]

theorem twoFiles_canonical {other : Str} (h : Canonical other) :
    ∀ p q, (twoFiles other).realpath p = .ok q → Canonical q := by
  intro p q hq
  simp only [twoFiles] at hq
  split_ifs at hq with hp
  obtain rfl := Except.ok.inj hq
  rcases hp with rfl | rfl
  · exact ⟨["a".toList, "b".toList, "x_test.lua".toList], by decide, by decide⟩
  · exact h

/-- `/a/b/x_test.lua` and `/a/y_test.lua` are kept apart. -/
theorem twoFiles_apart : NeverMixes (twoFiles "/a/y_test.lua".toList) twoAdds := by
  have hcanonical : Canonical "/a/y_test.lua".toList :=
    ⟨["a".toList, "y_test.lua".toList], by decide, by decide⟩
  refine (registry_never_mixes _ (twoFiles_canonical hcanonical) twoAdds).mpr ?_
  rintro a ha b hb r r' hr hr' ⟨s, hs, hs'⟩
  -- the first pathname determines `s`, and then the second one is another pathname
  have hdrop : s = r.info.realpath.drop 2 := by
    rw [hs]
    rfl
  rw [hdrop] at hs'
  simp only [twoAdds, List.mem_cons, List.not_mem_nil, or_false] at ha hb
  rcases ha with rfl | rfl <;> rcases hb with rfl | rfl <;>
    obtain rfl := Option.some.inj hr <;> obtain rfl := Option.some.inj hr' <;>
    exact absurd hs' (by decide)

/-- `/a/b/x_test.lua` and `/ab/x_test.lua` end up in one item. -/
theorem twoFiles_mixed :
    Canonical "/ab/x_test.lua".toList ∧
    ¬ NeverMixes (twoFiles "/ab/x_test.lua".toList) twoAdds := by
  have hcanonical : Canonical "/ab/x_test.lua".toList :=
    ⟨["ab".toList, "x_test.lua".toList], by decide, by decide⟩
  refine ⟨hcanonical, fun h => ?_⟩
  have hnone := noCollision_of_neverMixes (twoFiles_canonical hcanonical) h
  refine hnone (.string "test_2".toList, .function false) (by simp [twoAdds])
    (.string "test_1".toList, .function true) (by simp [twoAdds]) _ _ rfl rfl
    ⟨"b/x_test.lua".toList, by decide, by decide⟩

end Testcase
