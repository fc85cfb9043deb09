import LuaTestcase.Registry.Def

/-!
# What the registry stands for

The two-level table of `lib/registry.lua` represents a finite map: from a source key and a name to
a function with its line.  `registered` reads that map off the table, and the history of a run
says what it ought to contain — the adds accepted since the last `clear`, in order
(`History.log`).

* `add_error` — an add that returns a message leaves the whole table as it was.
* `add_accepted` — an add that returns none extends the map at one point that was free, and
  touches neither the map elsewhere nor what is recorded of files already known.
* `history_represents` — hence the table and the log agree after every sequence of operations.
-/

namespace Testcase

variable {F U : Type}

/-! ## The map and the log -/

/-- An accepted or attempted registration: what was found out about the file, and the test. -/
structure Registration (F : Type) where
  info : PathInfo
  name : Str
  func : F
  lineno : Int

namespace Registration

/-- The key of `REGISTRY` the registration goes under. -/
def key (r : Registration F) : Str := r.info.pathname

/-- The value stored under the name. -/
def test (r : Registration F) : Test F := ⟨r.name, r.func, r.lineno⟩

end Registration

/-- The registration `add(name, func)` attempts, unless it fails before it gets to the table. -/
def registrationOf (host : Host F) : Value F U → Value F U → Option (Registration F)
  | .string name, .function func =>
      match getstat host.toOs (trimPrefix (host.getinfo func).source ['@']) with
      | .error _ => none
      | .ok stat => some ⟨stat, name, func, (host.getinfo func).linedefined⟩
  | _, _ => none

/-- What is registered under a key and a name. -/
def registered (reg : Registry F) (key name : Str) : Option (Test F) :=
  (reg.lookup key).bind fun entry => entry.tests.lookup name

/-- What an entry records of its file. -/
def Entry.info (entry : Entry F) : PathInfo :=
  ⟨entry.realpath, entry.basename, entry.pathname, entry.dirname⟩

/-- The operations of the module that change it. -/
inductive Op (F U : Type) where
  | add (host : Host F) (name func : Value F U)
  | clear

/-- The table, and the adds accepted since the last `clear`. -/
structure History (F : Type) where
  reg : Registry F
  log : List (Registration F)

/-- One operation.  The log is extended exactly when `add` returns no message. -/
def History.step (h : History F) : Op F U → History F
  | .clear => ⟨clear, []⟩
  | .add host name func =>
      ⟨(add host h.reg name func).1,
        match (add host h.reg name func).2, registrationOf host name func with
        | none, some r => h.log ++ [r]
        | _, _ => h.log⟩

/-- The state after a sequence of operations from the empty registry. -/
def history (ops : List (Op F U)) : History F := ops.foldl History.step ⟨∅, []⟩

/-! ## One `add` -/

/-- **An add that returns a message changes nothing.** -/
theorem add_error {host : Host F} {reg : Registry F} {name func : Value F U} {err : Str}
    (h : (add host reg name func).2 = some err) : (add host reg name func).1 = reg := by
  cases name with
  | string n =>
      cases func with
      | function f =>
          rcases hs : getstat host.toOs (trimPrefix (host.getinfo f).source ['@']) with e | stat
          · simp [add, hs]
          · have hadd : add (U := U) host reg (.string n) (.function f)
                = addTo reg stat n f (host.getinfo f).linedefined := by simp [add, hs]
            rw [hadd] at h ⊢
            rcases addTo_cases reg stat n f (host.getinfo f).linedefined with
              ⟨entry, test, _, _, heq⟩ | ⟨_, heq⟩
            · rw [heq]
            · rw [heq] at h
              simp at h
      | _ => simp [add]
  | _ => simp [add]

/-- The entry `add` works on is the recorded one, or a new one for a file not recorded yet. -/
theorem entryOf_spec (reg : Registry F) (stat : PathInfo) :
    (∀ k, k ≠ stat.pathname → (entryOf reg stat).1.lookup k = reg.lookup k) ∧
    (∀ n, (entryOf reg stat).2.tests.lookup n = registered reg stat.pathname n) ∧
    (entryOf reg stat).2.info = ((reg.lookup stat.pathname).map Entry.info).getD stat := by
  rcases hreg : reg.lookup stat.pathname with _ | entry
  · refine ⟨fun k hk => ?_, fun n => ?_, ?_⟩
    · simp only [entryOf, hreg]
      exact AList.lookup_insert_ne hk
    · simp only [entryOf, hreg, registered, Option.bind_none]
      exact AList.lookup_empty n
    · simp only [entryOf, hreg]
      rfl
  · refine ⟨fun k _ => ?_, fun n => ?_, ?_⟩
    · simp only [entryOf, hreg]
    · simp only [entryOf, hreg, registered, Option.bind_some]
    · simp only [entryOf, hreg]
      rfl

/-- **An add that returns no message registers one function under a free name**, and changes
nothing else: neither another registration nor what is recorded of a file already known. -/
theorem add_accepted {host : Host F} {reg : Registry F} {name func : Value F U}
    (h : (add host reg name func).2 = none) :
    ∃ r, registrationOf host name func = some r ∧ registered reg r.key r.name = none ∧
      (∀ k n, registered (add host reg name func).1 k n
        = if k = r.key ∧ n = r.name then some r.test else registered reg k n) ∧
      ∀ k, ((add host reg name func).1.lookup k).map Entry.info
        = if k = r.key then some (((reg.lookup k).map Entry.info).getD r.info)
          else (reg.lookup k).map Entry.info := by
  obtain ⟨n, f, stat, rfl, rfl, hstat, hadd⟩ := add_ok_cases h
  refine ⟨⟨stat, n, f, (host.getinfo f).linedefined⟩, by simp [registrationOf, hstat], ?_⟩
  obtain ⟨hother, htests, hinfo⟩ := entryOf_spec reg stat
  rw [hadd] at h ⊢
  rcases addTo_cases reg stat n f (host.getinfo f).linedefined with
    ⟨entry, test, _, _, heq⟩ | ⟨hfree, heq⟩
  · rw [heq] at h
    simp at h
  · rw [heq]
    rw [htests] at hfree
    refine ⟨hfree, fun k m => ?_, fun k => ?_⟩
    · by_cases hk : k = stat.pathname
      · subst hk
        simp only [registered, AList.lookup_insert, Option.bind_some, Entry.setTest,
          lookup_insert_if, Registration.key, Registration.test, true_and]
        rw [htests]
        rfl
      · rw [if_neg (fun hkm => hk hkm.1), registered, AList.lookup_insert_ne hk, hother k hk]
        rfl
    · by_cases hk : k = stat.pathname
      · subst hk
        rw [AList.lookup_insert, Registration.key, if_pos rfl, ← hinfo]
        rfl
      · rw [AList.lookup_insert_ne hk, hother k hk, Registration.key, if_neg hk]

/-! ## Every sequence of operations -/

/-- The table holds exactly what the log says, and what it records of a file was found out by an
add of that file. -/
structure Represents (reg : Registry F) (log : List (Registration F)) : Prop where
  registered_iff : ∀ k n t, registered reg k n = some t ↔
    ∃ r ∈ log, r.key = k ∧ r.name = n ∧ r.test = t
  entry_info : ∀ k entry, reg.lookup k = some entry → ∃ r ∈ log, r.key = k ∧ entry.info = r.info
  distinct : log.Pairwise fun a b => ¬ (a.key = b.key ∧ a.name = b.name)

theorem represents_empty : Represents (F := F) ∅ [] where
  registered_iff k n t := by
    have hnone : registered (F := F) ∅ k n = none := by
      rw [registered, AList.lookup_empty, Option.bind_none]
    simp [hnone]
  entry_info k entry h := by
    rw [AList.lookup_empty] at h
    cases h
  distinct := List.Pairwise.nil

/-- **One operation keeps the table and the log in agreement.** -/
theorem History.step_represents {h : History F} (hrep : Represents h.reg h.log) (op : Op F U) :
    Represents (h.step op).reg (h.step op).log := by
  cases op with
  | clear => exact represents_empty
  | add host name func =>
      rcases hres : (add host h.reg name func).2 with _ | err
      · obtain ⟨r, hr, hfree, hreg, hinfo⟩ := add_accepted hres
        simp only [History.step, hres, hr]
        refine ⟨fun k n t => ?_, fun k entry hentry => ?_, ?_⟩
        · rw [hreg]
          by_cases hkn : k = r.key ∧ n = r.name
          · obtain ⟨rfl, rfl⟩ := hkn
            rw [if_pos ⟨rfl, rfl⟩, Option.some.injEq]
            constructor
            · rintro rfl
              exact ⟨r, by simp, rfl, rfl, rfl⟩
            · rintro ⟨r', hmem, hk, hn, rfl⟩
              rcases List.mem_append.mp hmem with hmem | hmem
              · -- an earlier registration of the same name would have occupied it
                have := (hrep.registered_iff r.key r.name r'.test).mpr ⟨r', hmem, hk, hn, rfl⟩
                rw [hfree] at this
                cases this
              · rw [List.mem_singleton.mp hmem]
          · rw [if_neg hkn, hrep.registered_iff]
            constructor
            · rintro ⟨r', hmem, hk, hn, ht⟩
              exact ⟨r', by simp [hmem], hk, hn, ht⟩
            · rintro ⟨r', hmem, hk, hn, ht⟩
              rcases List.mem_append.mp hmem with hmem | hmem
              · exact ⟨r', hmem, hk, hn, ht⟩
              · rw [List.mem_singleton.mp hmem] at hk hn
                exact absurd ⟨hk.symm, hn.symm⟩ hkn
        · have hk := hinfo k
          rw [hentry, Option.map_some] at hk
          by_cases hkey : k = r.key
          · rw [if_pos hkey, Option.some.injEq] at hk
            rcases hold : h.reg.lookup k with _ | old
            · rw [hold] at hk
              exact ⟨r, by simp, hkey.symm, hk⟩
            · rw [hold] at hk
              obtain ⟨r', hmem, hk', hinfo'⟩ := hrep.entry_info k old hold
              exact ⟨r', by simp [hmem], hk', hk.trans hinfo'⟩
          · rw [if_neg hkey] at hk
            rcases hold : h.reg.lookup k with _ | old
            · rw [hold] at hk
              cases hk
            · rw [hold, Option.map_some, Option.some.injEq] at hk
              obtain ⟨r', hmem, hk', hinfo'⟩ := hrep.entry_info k old hold
              exact ⟨r', by simp [hmem], hk', hk.trans hinfo'⟩
        · refine List.pairwise_append.mpr ⟨hrep.distinct, List.pairwise_singleton _ _, ?_⟩
          rintro a ha b hb ⟨hk, hn⟩
          rw [List.mem_singleton.mp hb] at hk hn
          have := (hrep.registered_iff r.key r.name a.test).mpr ⟨a, ha, hk, hn, rfl⟩
          rw [hfree] at this
          cases this
      · simp only [History.step, hres, add_error hres]
        exact hrep

/-- **The table and the log agree after every sequence of operations.** -/
theorem history_represents (ops : List (Op F U)) :
    Represents (history ops).reg (history ops).log := by
  have hrun : ∀ (ops : List (Op F U)) (h : History F), Represents h.reg h.log →
      Represents (ops.foldl History.step h).reg (ops.foldl History.step h).log := by
    intro ops
    induction ops with
    | nil => exact fun h hrep => hrep
    | cons op ops ih => exact fun h hrep => ih (h.step op) (History.step_represents hrep op)
  exact hrun ops ⟨∅, []⟩ represents_empty

namespace Represents

variable {reg : Registry F} {log : List (Registration F)}

/-- A test is stored under its own name. -/
theorem name_eq (h : Represents reg log) {k n : Str} {t : Test F}
    (ht : registered reg k n = some t) : t.name = n := by
  obtain ⟨r, _, _, hn, rfl⟩ := (h.registered_iff k n t).mp ht
  exact hn

/-- The keys of the table are the keys of the log. -/
theorem key_iff (h : Represents reg log) (k : Str) :
    (∃ entry, reg.lookup k = some entry) ↔ ∃ r ∈ log, r.key = k := by
  constructor
  · rintro ⟨entry, hentry⟩
    obtain ⟨r, hmem, hk, _⟩ := h.entry_info k entry hentry
    exact ⟨r, hmem, hk⟩
  · rintro ⟨r, hmem, rfl⟩
    have hr := (h.registered_iff r.key r.name r.test).mpr ⟨r, hmem, rfl, rfl, rfl⟩
    obtain ⟨entry, hentry, _⟩ := Option.bind_eq_some_iff.mp hr
    exact ⟨entry, hentry⟩

end Represents

end Testcase
