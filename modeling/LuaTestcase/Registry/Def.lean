import LuaTestcase.Filesystem.Def
import LuaTestcase.Lua.Table

/-!
# `testcase.registry`

`lib/registry.lua`: the two-level table `REGISTRY` with `add`, `clear` and `getlist`.  The state
is passed explicitly; `add` returns the state it leaves behind together with the message it
returns, so that a mutation on an error path would show.

An item of the list `getlist` returns is a Lua table in which user-chosen names and fixed field
names meet, and it is modelled as one: `Item.fields` is the table, `Item.tests` the array its
field `tests` refers to.  That a registered name cannot overwrite a fixed field is then something
to prove.
-/

namespace Testcase

variable {F U : Type}

/-- What `add` sees of the outside: the system, the debug information of functions, and the text
of error objects. -/
structure Host (F : Type) extends Os where
  getinfo : F → FuncInfo
  tostring : SysError → Str

/-- A registered function under its name. -/
structure Test (F : Type) where
  name : Str
  func : F
  lineno : Int
deriving DecidableEq

/-- An entry of `REGISTRY`. -/
structure Entry (F : Type) where
  dirname : Str
  basename : Str
  pathname : Str
  realpath : Str
  tests : Table (Test F)

/-- `REGISTRY`. -/
abbrev Registry (F : Type) : Type := Table (Entry F)

/-- The keys of `SETUP_AND_TEARDOWN`. -/
def setupAndTeardown : List Str :=
  ["before_all".toList, "after_all".toList, "before_each".toList, "after_each".toList]

/-! ## `add` and `clear` -/

/-- The table `add` creates for a file that has none yet. -/
def newEntry (stat : PathInfo) : Entry F where
  dirname := stat.dirname
  basename := stat.basename
  pathname := stat.pathname
  realpath := stat.realpath
  tests := ∅

/-- `'testcase <%s:%d> already defined at lineno:%d'`. -/
def alreadyDefined (name : Str) (lineno lineno' : Int) : Str :=
  "testcase <".toList ++ name ++ ":".toList ++ (toString lineno).toList ++
    "> already defined at lineno:".toList ++ (toString lineno').toList

/-- `REGISTRY[stat.pathname]`, created first if it is not there: the state and the entry. -/
def entryOf (reg : Registry F) (stat : PathInfo) : Registry F × Entry F :=
  match reg.lookup stat.pathname with
  | none => (reg.insert stat.pathname (newEntry stat), newEntry stat)
  | some entry => (reg, entry)

/-- `tests[name] = test`. -/
def Entry.setTest (entry : Entry F) (name : Str) (test : Test F) : Entry F :=
  { entry with tests := entry.tests.insert name test }

/-- The part of `add` behind the lookup of the file. -/
def addTo (reg : Registry F) (stat : PathInfo) (name : Str) (func : F) (lineno : Int) :
    Registry F × Option Str :=
  let (reg', entry) := entryOf reg stat
  match entry.tests.lookup name with
  | some test => (reg', some (alreadyDefined name lineno test.lineno))
  | none =>
      (reg'.insert stat.pathname (entry.setTest name ⟨name, func, lineno⟩), none)

/-- `add(name, func)`: the state it leaves behind and the message it returns, if any. -/
def add (host : Host F) (reg : Registry F) (name func : Value F U) : Registry F × Option Str :=
  match name, func with
  | .string name, .function func =>
      let info := host.getinfo func
      match getstat host.toOs (trimPrefix info.source ['@']) with
      | .error err =>
          (reg, some ("failed to get fileinfo ".toList ++ (err.map host.tostring).getD []))
      | .ok stat => addTo reg stat name func info.linedefined
  | .string _, v =>
      (reg, some ("invalid argument #2 (function expected, got ".toList ++ v.type.name ++ [')']))
  | v, _ =>
      (reg, some ("invalid argument #1 (string expected, got ".toList ++ v.type.name ++ [')']))

/-- `clear()`. -/
def clear : Registry F := ∅

/-! ## `getlist` -/

/-- The values in an item's table. -/
inductive Field (F : Type) where
  | string (s : Str)
  | function (f : F)
  | tests

/-- An item of the list: its table, and the array the field `tests` refers to. -/
structure Item (F : Type) where
  fields : Table (Field F)
  tests : List (Test F)

/-- `item.name`, as `cmp_name` reads it. -/
def Item.name (item : Item F) : Str :=
  match item.fields.lookup "name".toList with
  | some (.string s) => s
  | _ => []

/-- `cmp_name`. -/
def cmpName (a b : Item F) : Bool := decide (a.name < b.name)

/-- `cmp_lineno`. -/
def cmpLineno (a b : Test F) : Bool := decide (a.lineno < b.lineno)

/-- The fixed fields of an item, set before the registered functions are looked at. -/
def fixedFields (src : Str) (stat : Entry F) : Table (Field F) :=
  (((((∅ : Table (Field F)).insert "name".toList (.string src)).insert
    "basename".toList (.string stat.basename)).insert
    "dirname".toList (.string stat.dirname)).insert
    "realpath".toList (.string stat.realpath)).insert
    "tests".toList .tests

/-- One step of the loop over `stat.tests`. -/
def putTest (acc : Table (Field F) × List (Test F)) (kv : Σ _ : Str, Test F) :
    Table (Field F) × List (Test F) :=
  if kv.1 ∈ setupAndTeardown then (acc.1.insert kv.1 (.function kv.2.func), acc.2)
  else (acc.1, acc.2 ++ [kv.2])

/-- The item `getlist` builds for one entry. -/
def getitem (o : Traversal) (src : Str) (stat : Entry F) : Item F :=
  let acc := (o.pairs (some src) stat.tests).foldl putTest (fixedFields src stat, [])
  ⟨acc.1, o.sort (some src) cmpLineno acc.2⟩

/-- `getlist()`: the list and the number of tests. -/
def getlist (o : Traversal) (reg : Registry F) : List (Item F) × Nat :=
  let acc := (o.pairs none reg).foldl (fun (acc : List (Item F) × Nat) kv =>
    let item := getitem o kv.1 kv.2
    (acc.1 ++ [item], acc.2 + item.tests.length)) ([], 0)
  (o.sort none cmpName acc.1, acc.2)

/-! ## Reading the definitions -/

/-- `add` without an error went through to the table. -/
theorem add_ok_cases {host : Host F} {reg : Registry F} {name func : Value F U}
    (h : (add host reg name func).2 = none) :
    ∃ n f stat, name = .string n ∧ func = .function f ∧
      getstat host.toOs (trimPrefix (host.getinfo f).source ['@']) = .ok stat ∧
      add host reg name func = addTo reg stat n f (host.getinfo f).linedefined := by
  cases name with
  | string n =>
      cases func with
      | function f =>
          rcases hs : getstat host.toOs (trimPrefix (host.getinfo f).source ['@']) with err | stat
          · simp [add, hs] at h
          · exact ⟨n, f, stat, rfl, rfl, hs, by simp [add, hs]⟩
      | _ => simp [add] at h
  | _ => simp [add] at h

/-- What the part of `add` behind the lookup does: it rejects a name that is taken and changes
nothing, or it puts the name into the entry of the file, a new one if there was none. -/
theorem addTo_cases (reg : Registry F) (stat : PathInfo) (name : Str) (func : F) (lineno : Int) :
    (∃ entry test, reg.lookup stat.pathname = some entry ∧ entry.tests.lookup name = some test ∧
      addTo reg stat name func lineno = (reg, some (alreadyDefined name lineno test.lineno))) ∨
    ((entryOf reg stat).2.tests.lookup name = none ∧
      addTo reg stat name func lineno = ((entryOf reg stat).1.insert stat.pathname
        ((entryOf reg stat).2.setTest name ⟨name, func, lineno⟩), none)) := by
  rcases hreg : reg.lookup stat.pathname with _ | entry
  · refine Or.inr ⟨?_, ?_⟩
    · simp only [entryOf, hreg]
      exact AList.lookup_empty name
    · simp only [addTo, entryOf, hreg]
      rfl
  · rcases htest : entry.tests.lookup name with _ | test
    · exact Or.inr ⟨by simp [entryOf, hreg, htest], by simp [addTo, entryOf, hreg, htest]⟩
    · exact Or.inl ⟨entry, test, rfl, htest, by simp [addTo, entryOf, hreg, htest]⟩

end Testcase
