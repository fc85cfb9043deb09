import LuaTestcase.Filesystem.Readdir

/-!
# What `readdir` does with a directory

Two results about the loop over the entries.

* `readdir_stack` — the result of the callback stays on the stack when it is `nil`, so every entry
  takes one more slot, and the stack is not bounded.
* `readdir_faithful` — the callback is called on the names in order, as `Visits` says; what comes
  out depends on where it stopped and how the stream ended, and on nothing that was left in `errno`.

`readdir_refines` connects the function with the abstract loop `readdirEach` that `walkdir` is
modelled with.
-/

namespace Testcase

variable {σ F U : Type} {calls : NameFunction σ F U} {f : F}

/-! ## The height of the stack -/

/-- The callback returns `nil` for all of the names. -/
def AllNil (calls : NameFunction σ F U) (f : F) : σ → List Str → Prop
  | _, [] => True
  | w, name :: rest =>
      (calls f w name).result = .ok .nil ∧ AllNil calls f (calls f w name).world rest

/-- The height grows by one for every entry. -/
theorem entryLoop_stack (errorNew : Value F U → Value F U) (ending : StreamEnd)
    {s : ReaddirState σ F U} (h : s.Ready f) {entries : List Dirent}
    (hnil : AllNil calls f s.world (entries.map Dirent.d_name)) :
    (entryLoop calls errorNew ending entries s).heads =
        s.heads ++ List.range' s.stack.length entries.length ∧
      (entryLoop calls errorNew ending entries s).slots =
        max s.slots (s.stack.length + entries.length + 1) := by
  induction entries generalizing s with
  | nil =>
      rw [entryLoop_end h]
      exact ⟨(List.append_nil _).symm, rfl⟩
  | cons entry rest ih =>
      rw [entryLoop_nil h hnil.1]
      obtain ⟨hheads, hslots⟩ := ih (h.behind entry.d_name (calls f s.world entry.d_name)) hnil.2
      have hlen : (s.stack ++ [Value.nil]).length = s.stack.length + 1 := by simp
      refine ⟨?_, ?_⟩
      · rw [hheads]
        show (s.heads ++ [s.stack.length]) ++ List.range' (s.stack ++ [_]).length rest.length = _
        rw [hlen, List.append_assoc, List.singleton_append, List.length_cons, List.range'_succ]
      · rw [hslots]
        show max (max s.slots (s.stack.length + 2)) ((s.stack ++ [_]).length + rest.length + 1) = _
        rw [hlen, List.length_cons]
        omega

/-- The height at the head of the loop is the same in every iteration, and no more slots are used
than are guaranteed. -/
def ReaddirState.Bounded (s : ReaddirState σ F U) : Prop :=
  (∀ height ∈ s.heads, ∀ height' ∈ s.heads, height = height') ∧ s.slots ≤ LUA_MINSTACK

/-- The stack of a whole call. -/
theorem readdirLua_stack (errorNew : Value F U → Value F U)
    {opendir : Str → Except Errno DirStream} {path : Str} {dir : DirStream}
    (hopen : opendir path = .ok dir) {world : σ} (hnil : AllNil calls f world dir.names)
    (more : List (Value F U)) :
    (readdirLua calls errorNew opendir path f more world).heads =
        List.range' 2 dir.entries.length ∧
      (readdirLua calls errorNew opendir path f more world).slots = dir.entries.length + 3 := by
  rw [readdirLua_eq hopen]
  obtain ⟨hheads, hslots⟩ := entryLoop_stack errorNew dir.ending
    (ready_opened path f world) hnil
  refine ⟨hheads, ?_⟩
  rw [hslots]
  show max 2 (2 + dir.entries.length + 1) = _
  omega

/-- **The stack is bounded for a directory of at most one entry only**: `n` entries take `n + 3`
slots. -/
theorem readdir_stack (errorNew : Value F U → Value F U) {opendir : Str → Except Errno DirStream}
    {path : Str} {dir : DirStream} (hopen : opendir path = .ok dir) {world : σ}
    (hnil : AllNil calls f world dir.names) (more : List (Value F U)) :
    ((readdirLua calls errorNew opendir path f more world).Bounded ↔ dir.entries.length ≤ 1) ∧
      (readdirLua calls errorNew opendir path f more world).slots = dir.entries.length + 3 := by
  obtain ⟨hheads, hslots⟩ := readdirLua_stack errorNew hopen hnil more
  refine ⟨?_, hslots⟩
  rw [ReaddirState.Bounded, hheads, hslots]
  constructor
  · rintro ⟨hsame, -⟩
    by_contra hlt
    have := hsame 2 (List.mem_range'_1.mpr (by omega)) 3 (List.mem_range'_1.mpr (by omega))
    omega
  · intro hle
    refine ⟨?_, by rw [LUA_MINSTACK]; omega⟩
    intro height hheight height' hheight'
    rw [List.mem_range'_1] at hheight hheight'
    omega

/-- A directory with the given number of entries. -/
def plainDir (n : Nat) : DirStream :=
  ⟨(List.range n).map fun i => ⟨List.replicate (i + 1) 'a', 0⟩, .normal⟩

def opensPlain (n : Nat) (_ : Str) : Except Errno DirStream := .ok (plainDir n)

/-- A callback that returns nothing. -/
def returnsNothing : NameFunction Unit Unit Unit := fun _ w _ => ⟨w, .ok .nil, 0⟩

theorem returnsNothing_nil (names : List Str) : AllNil returnsNothing () () names := by
  induction names with
  | nil => trivial
  | cons name rest ih => exact ⟨rfl, ih⟩

/-- With two entries, as an empty directory has, the height changes; with one it does not. -/
theorem empty_directory_stack :
    (readdirLua returnsNothing id (opensPlain 1) [] () [] ()).Bounded ∧
      ¬(readdirLua returnsNothing id (opensPlain 2) [] () [] ()).Bounded ∧
      (readdirLua returnsNothing id (opensPlain 2) [] () [] ()).slots = 5 := by
  have hopen : ∀ n, opensPlain n [] = .ok (plainDir n) := fun _ => rfl
  have hone := readdir_stack id (hopen 1) (returnsNothing_nil _) []
  have htwo := readdir_stack id (hopen 2) (returnsNothing_nil _) []
  exact ⟨hone.1.mpr (by decide), fun h => absurd (htwo.1.mp h) (by decide), htwo.2⟩

/-- Twenty entries: the height is another one in every iteration, and 23 slots are used. -/
theorem twenty_entries :
    AllNil returnsNothing () () (plainDir 20).names ∧
      ¬ (readdirLua returnsNothing id (opensPlain 20) [] () [] ()).Bounded ∧
      (readdirLua returnsNothing id (opensPlain 20) [] () [] ()).slots = 23 := by
  have hopen : opensPlain 20 [] = .ok (plainDir 20) := rfl
  obtain ⟨-, hslots⟩ := readdirLua_stack id hopen (returnsNothing_nil _) []
  refine ⟨returnsNothing_nil _, ?_, hslots⟩
  rintro ⟨-, hle⟩
  rw [hslots] at hle
  exact absurd hle (by decide)

/-! ## What is called, and what is returned -/

/-- Where the loop stops: an error was raised, a value returned, or all names were called on. -/
inductive Stopped (F U : Type) where
  | raised (v : Value F U)
  | returned (v : Value F U)
  | all

/-- `Visits calls f w names called w' stop`: from the world `w`, the callback is called on the names
`called`, in order, up to and including the first one for which it raises an error or returns a
value that is not `nil`. -/
inductive Visits (calls : NameFunction σ F U) (f : F) :
    σ → List Str → List Str → σ → Stopped F U → Prop where
  | all (w : σ) : Visits calls f w [] [] w .all
  | raised {w : σ} {name : Str} {rest : List Str} {v : Value F U} :
      (calls f w name).result = .error v →
      Visits calls f w (name :: rest) [name] (calls f w name).world (.raised v)
  | returned {w : σ} {name : Str} {rest : List Str} {v : Value F U} :
      (calls f w name).result = .ok v → v ≠ .nil →
      Visits calls f w (name :: rest) [name] (calls f w name).world (.returned v)
  | next {w w' : σ} {name : Str} {rest called : List Str} {stop : Stopped F U} :
      (calls f w name).result = .ok .nil →
      Visits calls f (calls f w name).world rest called w' stop →
      Visits calls f w (name :: rest) (name :: called) w' stop

/-- What is returned: the error, wrapped; the value; or how the stream ended. -/
def Stopped.result (errorNew : Value F U → Value F U) (ending : StreamEnd) :
    Stopped F U → Value F U
  | raised v => errorNew v
  | returned v => v
  | all => ending.result

theorem exists_visits (calls : NameFunction σ F U) (f : F) (w : σ) (names : List Str) :
    ∃ called w' stop, Visits calls f w names called w' stop := by
  induction names generalizing w with
  | nil => exact ⟨[], w, .all, .all w⟩
  | cons name rest ih =>
      rcases hresult : (calls f w name).result with v | v
      · exact ⟨[name], _, .raised v, .raised hresult⟩
      · by_cases hv : v = .nil
        · subst hv
          obtain ⟨called, w', stop, h⟩ := ih (calls f w name).world
          exact ⟨name :: called, w', stop, .next hresult h⟩
        · exact ⟨[name], _, .returned v, .returned hresult hv⟩

/-- The loop does what the callback makes it do. -/
theorem entryLoop_visits (errorNew : Value F U → Value F U) (ending : StreamEnd)
    {s : ReaddirState σ F U} (h : s.Ready f) {entries : List Dirent} {called : List Str} {w' : σ}
    {stop : Stopped F U}
    (hvisits : Visits calls f s.world (entries.map Dirent.d_name) called w' stop) :
    (entryLoop calls errorNew ending entries s).log =
        s.log ++ called.map .called ++ [.closed] ∧
      (entryLoop calls errorNew ending entries s).world = w' ∧
      (entryLoop calls errorNew ending entries s).returned =
        some (stop.result errorNew ending) := by
  induction entries generalizing s called with
  | nil =>
      cases hvisits
      rw [entryLoop_end h, returned_push]
      exact ⟨by rw [List.map_nil, List.append_nil]; rfl, rfl, rfl⟩
  | cons entry rest ih =>
      cases hvisits with
      | raised hv =>
          rw [entryLoop_raised h hv, returned_push]
          exact ⟨rfl, rfl, rfl⟩
      | returned hv hne =>
          rw [entryLoop_returned h hv hne]
          exact ⟨rfl, rfl, behind_returned entry.d_name (calls f s.world entry.d_name) _⟩
      | next hv hrest =>
          rw [entryLoop_nil h hv]
          obtain ⟨hlog, hworld, hret⟩ :=
            ih (h.behind entry.d_name (calls f s.world entry.d_name)) hrest
          refine ⟨?_, hworld, hret⟩
          rw [hlog]
          show (s.log ++ [.called entry.d_name]) ++ _ ++ _ = _
          simp only [List.map_cons, List.append_assoc, List.cons_append, List.nil_append]

/-- **`readdir` iterates faithfully**: the callback is called as `Visits` says, the stream is closed
once and behind the last call, and what is returned is the error, wrapped, the value, `nil` for a
stream that ended normally, or the read error. -/
theorem readdir_faithful (calls : NameFunction σ F U) (errorNew : Value F U → Value F U)
    {opendir : Str → Except Errno DirStream} {path : Str} {dir : DirStream}
    (hopen : opendir path = .ok dir) (f : F) (more : List (Value F U)) (world : σ) :
    ∃ called world' stop, Visits calls f world dir.names called world' stop ∧
      (readdirLua calls errorNew opendir path f more world).log =
        called.map .called ++ [.closed] ∧
      (readdirLua calls errorNew opendir path f more world).world = world' ∧
      (readdirLua calls errorNew opendir path f more world).returned =
        some (stop.result errorNew dir.ending) := by
  obtain ⟨called, world', stop, hvisits⟩ := exists_visits calls f world dir.names
  rw [readdirLua_eq hopen]
  exact ⟨called, world', stop, hvisits,
    entryLoop_visits errorNew dir.ending (ready_opened path f world) hvisits⟩

/-- A stream with a read error behind two entries. -/
def brokenDir : DirStream := ⟨[⟨['a'], 0⟩, ⟨['b'], 3⟩], .error ⟨5, by decide⟩⟩

def opensBroken (_ : Str) : Except Errno DirStream := .ok brokenDir

/-- A callback that counts its calls and leaves something in `errno`. -/
def countsCalls : NameFunction Nat Unit Unit := fun _ w _ => ⟨w + 1, .ok .nil, 9⟩

theorem brokenDir_faithful :
    ∃ called world' stop, Visits countsCalls () 0 brokenDir.names called world' stop ∧
      (readdirLua countsCalls id opensBroken [] () [] 0).log = called.map .called ++ [.closed] ∧
      (readdirLua countsCalls id opensBroken [] () [] 0).world = world' ∧
      (readdirLua countsCalls id opensBroken [] () [] 0).returned =
        some (stop.result id brokenDir.ending) := by
  have hopen : opensBroken [] = .ok brokenDir := rfl
  exact readdir_faithful countsCalls id hopen () [] 0

/-! ## The abstract loop -/

/-- A callback that raises no error and returns `nil` or an error object, as a function. -/
def Returns (calls : NameFunction σ F U) (f : F) (callback : σ → Str → σ × Option SysError) :
    Prop :=
  ∀ w name, (calls f w name).world = (callback w name).1 ∧
    (calls f w name).result =
      .ok (match (callback w name).2 with
        | none => .nil
        | some err => .error err)

/-- The error in a result. -/
def Stopped.err? : Stopped F U → Option SysError
  | returned (.error err) => some err
  | _ => none

theorem readdirEach_visits {callback : σ → Str → σ × Option SysError}
    (hcalls : Returns calls f callback) {w w' : σ} {names called : List Str} {stop : Stopped F U}
    (h : Visits calls f w names called w' stop) :
    readdirEach callback names w = (w', stop.err?) ∧
      (stop = .all ∨ ∃ err, stop = .returned (.error err)) := by
  induction h with
  | all w => exact ⟨rfl, .inl rfl⟩
  | @raised w name rest v hv =>
      rw [(hcalls w name).2] at hv
      cases hv
  | @returned w name rest v hv hne =>
      obtain ⟨hworld, hresult⟩ := hcalls w name
      rw [hresult] at hv
      rcases hcall : callback w name with ⟨w', _ | err⟩
      · rw [hcall] at hv
        cases hv
        exact absurd rfl hne
      · rw [hcall] at hv hworld
        cases hv
        rw [readdirEach, hcall, hworld]
        exact ⟨rfl, .inr ⟨err, rfl⟩⟩
  | @next w w' name rest called stop hv hrest ih =>
      obtain ⟨hworld, hresult⟩ := hcalls w name
      rw [hresult] at hv
      rcases hcall : callback w name with ⟨w₁, _ | err⟩
      · rw [hcall] at hworld
        have hworld : (calls f w name).world = w₁ := hworld
        rw [readdirEach, hcall]
        rw [hworld] at ih
        exact ih
      · rw [hcall] at hv
        cases hv

/-- What `walkdir` gets from `readdir` is what the abstract loop gives it, or how the stream
ended. -/
theorem readdir_refines (errorNew : Value F U → Value F U)
    {opendir : Str → Except Errno DirStream} {path : Str} {dir : DirStream}
    {callback : σ → Str → σ × Option SysError} (hopen : opendir path = .ok dir)
    (hcalls : Returns calls f callback) (more : List (Value F U)) (world : σ) :
    (readdirLua calls errorNew opendir path f more world).world =
        (readdirEach callback dir.names world).1 ∧
      (readdirLua calls errorNew opendir path f more world).returned =
        some (match (readdirEach callback dir.names world).2 with
          | some err => .error err
          | none => dir.ending.result) := by
  obtain ⟨called, world', stop, hvisits⟩ := exists_visits calls f world dir.names
  obtain ⟨-, hworld, hret⟩ :=
    entryLoop_visits errorNew dir.ending (ready_opened path f world) hvisits
  obtain ⟨heach, hstop⟩ := readdirEach_visits hcalls hvisits
  rw [readdirLua_eq hopen, heach]
  refine ⟨hworld, hret.trans ?_⟩
  rcases hstop with rfl | ⟨err, rfl⟩
  · rfl
  · rfl

end Testcase
