import LuaTestcase.Core.Effect
import LuaTestcase.Registry.Def

/-!
# `testcase.runner`

`lib/runner.lua` as actions over an abstract world.  Everything the runner cannot see is in `Env`:
what `getcwd`, `chdir`, `getpid` and the timer do to the world, and what the code of the user does
to it: a test or hook function in a protected call, the finalizers that a garbage collection runs,
and the `__tostring` of a value that is printed.  Such code is an arbitrary map of worlds, so it may
change directory, fork, or fail with any value, and behave differently each time it is called.

A run leaves its events behind: the calls it made, what it was answered, and what it printed.  It
may stop early, because something was raised out of it or because it exited the process.

The finalizers are run where `call` collects garbage; that the collector may run them at other
times, too, is left out.
-/

namespace Testcase

variable {W F U : Type}

/-! ## Sources -/

/-- An element of the list `run` is given, as far as the runner reads it. -/
structure Source (F : Type) where
  name : Str
  dirname : Str
  beforeAll : Option F
  afterAll : Option F
  beforeEach : Option F
  afterEach : Option F
  tests : List (Test F)

/-- What a function is called as. -/
inductive Slot where
  | beforeAll
  | beforeEach
  | test (name : Str)
  | afterEach
  | afterAll
deriving DecidableEq

/-- The name that is printed and recorded. -/
def Slot.name : Slot → Str
  | beforeAll => "before_all".toList
  | beforeEach => "before_each".toList
  | test name => name
  | afterEach => "after_each".toList
  | afterAll => "after_all".toList

/-- The function under a hook name in the table of an item. -/
def Item.hook (item : Item F) (name : Str) : Option F :=
  match item.fields.lookup name with
  | some (.function f) => some f
  | _ => none

/-- A string field of an item. -/
def Item.string (item : Item F) (field : Str) : Str :=
  match item.fields.lookup field with
  | some (.string s) => s
  | _ => []

/-- An item of `getlist`, as the runner reads it. -/
def Item.source (item : Item F) : Source F where
  name := item.string "name".toList
  dirname := item.string "dirname".toList
  beforeAll := item.hook Slot.beforeAll.name
  afterAll := item.hook Slot.afterAll.name
  beforeEach := item.hook Slot.beforeEach.name
  afterEach := item.hook Slot.afterEach.name
  tests := item.tests

/-! ## The outside -/

/-- The printers of the modules: `print` ends a line, `printf` does not, `printCode` indents. -/
inductive Printer where
  | print
  | printf
  | printCode
deriving DecidableEq

/-- A printer, and what it is called with. -/
abbrev Printed (F U : Type) : Type := Printer × List (Value F U)

/-- `assert`: what it raises for its arguments, if anything.  Nothing else is known of it, since
`lib/eval.lua` replaces it by that of another module. -/
structure Assert (F U : Type) where
  raises : List (Value F U) → Option (Value F U)
  raises_eq_none : ∀ v vs, raises (v :: vs) = none ↔ v.truthy = true

/-- What the `assert` of Lua raises. -/
def builtinRaises (args : List (Value F U)) : Option (Value F U) :=
  if (args.headD .nil).truthy then none
  else some (args.tail.headD (.string "assertion failed!".toList))

theorem builtinRaises_eq_none (v : Value F U) (vs : List (Value F U)) :
    builtinRaises (v :: vs) = none ↔ v.truthy = true := by
  rw [builtinRaises, List.headD_cons]
  split_ifs with h
  · exact iff_of_true rfl h
  · exact iff_of_false not_false h

/-- The `assert` of Lua. -/
def Assert.builtin : Assert F U where
  raises := builtinRaises
  raises_eq_none := builtinRaises_eq_none

/-- What a protected call of a function comes to: how the function ended, and the outputs of it
that reached the hook.  An output that cannot be converted to a string is `none`: it is not
printed. -/
structure Reply (F U : Type) where
  result : Except (Value F U) Unit
  outputs : List (Option (List (Value F U)))

/-- What the runner calls.  `getcwd` is `none` if `pwd` prints nothing; `collect` is a full garbage
collection, with the finalizers that it runs and what they raise; `start` and `stop` are those of
the timer, and `stop` yields the elapsed time, unless the clock failed, and the format to print it
with; `tostring` is the `__tostring` of a table or userdata, and what it raises. -/
structure Env (W F U : Type) where
  CWD : Str
  PID : Int
  getcwd : W → Option Str
  chdir : Str → W → Except SysError W
  getpid : W → Int
  collect : W → Option (Value F U) × W
  start : W → W
  stop : W → (Option U × Str) × W
  xpcall : F → W → Reply F U × W
  tostring : U → W → Option (Value F U) × W
  assert : Assert F U

/-- The process: the world, and the flag `DO_NOT_RUN`. -/
structure Proc (W : Type) where
  world : W
  doNotRun : Bool

/-- Change the world only. -/
def Proc.update (f : W → W) (p : Proc W) : Proc W := { p with world := f p.world }

/-- How a run stops early. -/
inductive Halt (F U : Type) where
  | exit (code : Int)
  | raise (v : Value F U)

/-- A protected call of a function, with the worlds around it. -/
structure Call (W F U : Type) where
  slot : Slot
  func : F
  before : W
  result : Except (Value F U) Unit
  outputs : List (Option (List (Value F U)))
  after : W

/-- The places the runner changes directory at: back to `CWD` before a source, into the directory
of the source, back after a call, and to `CWD` at the end. -/
inductive Move where
  | reset
  | enter
  | restore
  | leave
deriving DecidableEq

/-- What a run leaves behind: what it did, and what it was answered. -/
inductive Event (W F U : Type) where
  | getcwd (cwd : Option Str)
  | collect (raised : Option (Value F U))
  | call (c : Call W F U)
  | getpid (pid : Int)
  | chdir (move : Move) (pathname : Str) (err : Option SysError)
  | tostring (u : U) (raised : Option (Value F U))
  | print (printer : Printer) (args : List (Value F U))

/-- An action of the runner. -/
abbrev Run (W F U α : Type) : Type := Act (Proc W) (Event W F U) (Halt F U) α

section Outside

variable {E α : Type}

/-- A call that changes the world only. -/
def outside (f : W → α × W) : Act (Proc W) E (Halt F U) α :=
  Act.perform fun p => ((f p.world).1, p.update fun _ => (f p.world).2)

/-- Raise it, if there is something to raise. -/
def raising (raised : Option (Value F U)) : Act (Proc W) E (Halt F U) Unit :=
  raised.elim (pure ()) fun v => Act.halt (.raise v)

/-- The table or userdata of a value, whose `__tostring` converts it. -/
def Value.convertible : Value F U → Option U
  | .object .table u => some u
  | .object .userdata u => some u
  | _ => none

/-- What is to be converted among the arguments of a printer. -/
def conversions (args : List (Value F U)) : List U := args.filterMap Value.convertible

/-- `tostring` of a table or userdata. -/
def convert (env : Env W F U) (told : U → Option (Value F U) → E) (u : U) :
    Act (Proc W) E (Halt F U) Unit := do
  let raised ← outside (env.tostring u)
  Act.emit (told u raised)
  raising raised

/-- Call a printer: the arguments are converted to strings before anything is written. -/
def printing (env : Env W F U) (told : U → Option (Value F U) → E)
    (written : Printer → List (Value F U) → E) (printer : Printer) (args : List (Value F U)) :
    Act (Proc W) E (Halt F U) Unit := do
  Act.forEach (fun _ => convert env told) (conversions args) ()
  Act.emit (written printer args)

end Outside

/-- `printer(...)`. -/
def say (env : Env W F U) (printer : Printer) (args : List (Value F U)) : Run W F U Unit :=
  printing env .tostring .print printer args

/-- `fs.chdir(pathname)`, at one of the places the runner calls it. -/
def chdir (env : Env W F U) (move : Move) (pathname : Option Str) :
    Run W F U (Option SysError) := do
  let w ← Act.reads Proc.world
  match env.chdir (pathname.getD env.CWD) w with
  | .error err => do
      Act.emit (.chdir move (pathname.getD env.CWD) (some err))
      pure (some err)
  | .ok w' => do
      Act.modify (Proc.update fun _ => w')
      Act.emit (.chdir move (pathname.getD env.CWD) none)
      pure none

/-- `assert(...)`. -/
def assert (env : Env W F U) (args : List (Value F U)) : Run W F U Unit :=
  raising (env.assert.raises args)

/-- `local err = chdir(pathname)` and `assert(not err, err)`. -/
def assertChdir (env : Env W F U) (move : Move) (pathname : Option Str) : Run W F U Unit := do
  let err ← chdir env move pathname
  assert env [.boolean err.isNone, err.elim .nil .error]

/-- `assert(getcwd())`. -/
def assertCwd (env : Env W F U) : Run W F U Str := do
  let cwd ← Act.reads fun p => env.getcwd p.world
  Act.emit (.getcwd cwd)
  assert env [cwd.elim .nil .string]
  -- `nil` was not accepted
  pure (cwd.getD [])

/-- `collectgarbage('collect')`. -/
def collectgarbage (env : Env W F U) : Run W F U Unit := do
  let raised ← outside env.collect
  Act.emit (.collect raised)
  raising raised

/-! ## Calls -/

/-- What the start function of `iohook.hook` prints. -/
def Slot.hookStart : Slot → Printed F U
  | test _ => (.print, [.string "  ".toList])
  | slot => (.print, [.string "- ".toList, .string slot.name])

/-- What its end function prints. -/
def Slot.hookEnd : Slot → List (Printed F U)
  | test _ => [(.printf, [.string "  ".toList])]
  | _ => []

/-- Printed while a function runs: `hook_startfn` before its first output, and `hookfn`. -/
def hookedOutputs (slot : Slot) (outputs : List (Option (List (Value F U)))) :
    List (Printed F U) :=
  if outputs.isEmpty then []
  else slot.hookStart :: outputs.filterMap fun output => output.map (.printCode, ·)

/-- Printed by `iohook.unhook()`: `hook_endfn` behind the outputs. -/
def unhooked (slot : Slot) (outputs : List (Option (List (Value F U)))) : List (Printed F U) :=
  if outputs.isEmpty then [] else slot.hookEnd

/-- The part of `call` between `iohook.hook` and `iohook.unhook`. -/
def callHooked (env : Env W F U) (slot : Slot) (func : F) :
    Run W F U (Except (Value F U) Unit × Option U × Str) := do
  Act.modify (Proc.update env.start)
  let before ← Act.reads Proc.world
  let (reply, after) := env.xpcall func before
  Act.emit (.call ⟨slot, func, before, reply.result, reply.outputs, after⟩)
  Act.write ((hookedOutputs slot reply.outputs).map fun line => .print line.1 line.2)
  let (stopped, w) := env.stop after
  Act.modify (Proc.update fun _ => w)
  Act.write ((unhooked slot reply.outputs).map fun line => .print line.1 line.2)
  pure (reply.result, stopped)

/-- `if getpid() ~= PID then exit() end`: a process that was forked in the function ends here. -/
def exitForked (env : Env W F U) : Run W F U Unit := do
  let w ← Act.reads Proc.world
  Act.emit (.getpid (env.getpid w))
  if env.getpid w ≠ env.PID then Act.halt (.exit 0) else pure ()

/-- `call(t, func, hookfn, hook_startfn, hook_endfn)`; the slot gives the functions of the hook,
and is what the call is recorded as. -/
def call (env : Env W F U) (slot : Slot) (func : F) :
    Run W F U (Except (Value F U) Unit × Option U × Str) := do
  let cwd ← assertCwd env
  collectgarbage env
  let res ← callHooked env slot func
  exitForked env
  assertChdir env .restore (some cwd)
  pure res

/-- The elapsed time as a value: a number, or `nil` if the clock failed. -/
def elapsedValue : Option U → Value F U
  | none => .nil
  | some u => .object .float u

/-- `ok and 'ok' or 'fail'`. -/
def okOrFail : Except (Value F U) Unit → Str
  | .ok _ => "ok".toList
  | .error _ => "fail".toList

/-- `run_test(t, name, func)`. -/
def runTest (env : Env W F U) (name : Str) (func : F) :
    Run W F U (Except (Value F U) Unit) := do
  say env .printf [.string "- %s ... ".toList, .string name]
  let (res, elapsed, fmt) ← call env (.test name) func
  say env .printf [.string ("%s (".toList ++ fmt ++ [')']), .string (okOrFail res),
    elapsedValue elapsed]
  match res with
  | .ok () => do
      say env .printf [.string "\n".toList]
      pure (.ok ())
  | .error err => do
      say env .printf [.string "  \n".toList]
      say env .printCode [err]
      pure (.error err)

/-- `run_setup_teadown(t, name, func)`; an error that is `nil` or `false` is not returned. -/
def runSetupTeadown (env : Env W F U) (slot : Slot) (func : F) :
    Run W F U (Except (Value F U) Unit) := do
  let (res, _) ← call env slot func
  match res with
  | .ok () => pure (.ok ())
  | .error err =>
      if err.truthy then do
        say env .print [.string "  failed to call ".toList, .string slot.name]
        say env .printCode [err]
        pure (.error err)
      else pure (.error .nil)

/-! ## Files -/

/-- An element of the list of errors of a file. -/
structure Record (F U : Type) where
  name : Str
  error : Value F U

/-- A hook, if it is defined, with the record it is answered for if it fails. -/
def callHook (env : Env W F U) (slot : Slot) (hook : Option F) :
    Run W F U (Option (Record F U)) :=
  match hook with
  | none => pure none
  | some func => do
      match ← runSetupTeadown env slot func with
      | .ok () => pure none
      | .error err => pure (some ⟨slot.name, err⟩)

/-- What the outcome of a test adds to the number of successes and the errors. -/
def countTest (name : Str) (acc : Nat × List (Record F U)) :
    Except (Value F U) Unit → Nat × List (Record F U)
  | .ok () => (acc.1 + 1, acc.2)
  | .error err => (acc.1, acc.2 ++ [⟨name, err⟩])

/-- The loop of `run_file` over the tests; a failing `before_each` or `after_each` leaves it. -/
def eachTest (env : Env W F U) (src : Source F) :
    List (Test F) → Nat × List (Record F U) → Run W F U (Nat × List (Record F U))
  | [], acc => pure acc
  | test :: tests, acc => do
      match ← callHook env .beforeEach src.beforeEach with
      | some err => pure (acc.1, acc.2 ++ [err])
      | none => do
          let res ← runTest env test.name test.func
          let acc := countTest test.name acc res
          match ← callHook env .afterEach src.afterEach with
          | some err => pure (acc.1, acc.2 ++ [err])
          | none => eachTest env src tests acc

/-- `string.rep('-', 80)`. -/
def HR : Str := List.replicate 80 '-'

/-- `run_file(t, src)`. -/
def runFile (env : Env W F U) (src : Source F) : Run W F U (Nat × List (Record F U)) := do
  let ntest := src.tests.length
  say env .print [.string []]
  say env .print [.string HR]
  say env .print [.string "%s: %d test cases".toList, .string src.name, .integer ntest]
  say env .print [.string HR]
  match ← callHook env .beforeAll src.beforeAll with
  | some err => pure (0, [err])
  | none => do
      let (nsuccess, errs) ← eachTest env src src.tests (0, [])
      let err ← callHook env .afterAll src.afterAll
      let errs := errs ++ err.toList
      say env .print [.string "\n%d successes, %d failures".toList, .integer nsuccess,
        .integer (ntest - nsuccess)]
      pure (nsuccess, errs)

/-! ## Selection -/

/-- One step of the loop over the tests of a source: the tests kept, the hits of each name, and
the names found in this source. -/
def selectTest (acc : List (Test F) × Table Nat × Table Bool) (test : Test F) :
    List (Test F) × Table Nat × Table Bool :=
  match acc.2.1.lookup test.name with
  | none => acc
  | some n => (acc.1 ++ [test], acc.2.1.insert test.name (n + 1), acc.2.2.insert test.name true)

/-- The report of the names not found in a source. -/
def reportNotFound (env : Env W F U) (testcases : List Str) (found : Table Bool)
    (name : Str) : Run W F U Unit :=
  Act.forEach (fun _ testcase =>
    if found.lookup testcase = none then
      say env .print [.string "testcase %q not found in %s".toList, .string testcase,
        .string name]
    else pure ()) testcases ()

/-- One step of the loop over the sources. -/
def selectSource (env : Env W F U) (testcases : List Str)
    (acc : List (Source F) × Table Nat) (src : Source F) :
    Run W F U (List (Source F) × Table Nat) := do
  let (tests, targets, found) := src.tests.foldl selectTest ([], acc.2, ∅)
  reportNotFound env testcases found src.name
  if 0 < tests.length then pure (acc.1 ++ [{ src with tests := tests }], targets)
  else pure (acc.1, targets)

/-- `select_testcases(list, testcases)`. -/
def selectTestcases (env : Env W F U) (list : List (Source F)) (testcases : List Str) :
    Run W F U (List (Source F) × Table Nat) :=
  Act.forEach (selectSource env testcases) list
    ([], testcases.foldl (fun targets name => targets.insert name 0) ∅)

/-- The report of the names not found in any source. -/
def reportMissing (env : Env W F U) (targets : Table Nat) (testcases : List Str) :
    Run W F U Bool :=
  Act.forEach (fun notfound name =>
    if targets.lookup name = some 0 then do
      say env .print [.string "testcase %q not found in any test file".toList, .string name]
      pure true
    else pure notfound) testcases false

/-! ## `run` -/

/-- `block()`. -/
def block : Run W F U Unit := Act.modify fun p => { p with doNotRun := true }

/-- `unblock()`. -/
def unblock : Run W F U Unit := Act.modify fun p => { p with doNotRun := false }

/-- An element of the table of errors. -/
structure FileErrors (F U : Type) where
  name : Str
  errors : List (Record F U)

/-- The table of errors, with its field `count`. -/
structure Errors (F U : Type) where
  files : List (FileErrors F U)
  count : Nat

/-- The local variables of `run`. -/
structure Totals (F U : Type) where
  ntest : Nat
  nsuccess : Nat
  errors : List (FileErrors F U)
  nerrors : Nat

/-- What `run` returns: `false` with a message, or `true` with the numbers and the errors. -/
inductive RunResult (F U : Type) where
  | refused (err : Str)
  | ran (nsuccess : Nat) (nfailures : Int) (errors : Errors F U)

/-- What a file adds to the totals. -/
def Totals.add (acc : Totals F U) (src : Source F) (n : Nat) (errs : List (Record F U)) :
    Totals F U where
  ntest := acc.ntest + src.tests.length
  nsuccess := acc.nsuccess + n
  errors := if 0 < errs.length then acc.errors ++ [⟨src.name, errs⟩] else acc.errors
  nerrors := if 0 < errs.length then acc.nerrors + errs.length else acc.nerrors

/-- One step of the loop over the sources. -/
def runSource (env : Env W F U) (acc : Totals F U) (src : Source F) :
    Run W F U (Totals F U) := do
  assertChdir env .reset none
  assertChdir env .enter (some src.dirname)
  let (n, errs) ← runFile env src
  pure (acc.add src n errs)

/-- The part of `run` behind the selection. -/
def runList (env : Env W F U) (list : List (Source F)) : Run W F U (RunResult F U) := do
  let acc ← Act.forEach (runSource env) list ⟨0, 0, [], 0⟩
  let _ ← chdir env .leave none
  say env .print [.string []]
  say env .print [.string HR]
  say env .print [.string []]
  pure (.ran acc.nsuccess (acc.ntest - acc.nsuccess) ⟨acc.errors, acc.nerrors⟩)

/-- `run(list, testcases)`. -/
def run (env : Env W F U) (list : List (Source F)) (testcases : Option (List Str)) :
    Run W F U (RunResult F U) := do
  let blocked ← Act.reads Proc.doNotRun
  if blocked then pure (.refused "cannot run test cases while blocking".toList)
  else match testcases with
    | none => runList env list
    | some [] => runList env list
    | some names => do
        let (newlist, targets) ← selectTestcases env list names
        let notfound ← reportMissing env targets names
        if notfound then pure (.refused "specified testcases not found".toList)
        else runList env newlist

end Testcase
