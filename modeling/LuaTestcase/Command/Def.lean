import LuaTestcase.Command.Getopts
import LuaTestcase.Runner.Select

/-!
# `bin/testcase.lua`

The command, over the world and the process of the runner.  What it calls besides the runner and
the registry is in `Command`: the search for files, the loading of one, and the library for code
coverage.  Loading a file runs code of the user, so it is an arbitrary map of worlds that succeeds
or fails with any value, and the registry it fills is read off the world.

A run of the command leaves behind what it printed, with the conversions this took, the files it
loaded, and the events of the runner.  It returns, exits with a code, or dies of an error that is
raised out of it.
-/

namespace Testcase

variable {W F U : Type}

/-! ## The outside -/

/-- What the command calls.  `requireLuacov` is `pcall(require, 'luacov')`; `getfiles` returns
`nil` for a pathname that does not exist. -/
structure Command (W F U : Type) extends Env W F U where
  requireLuacov : W → Except (Value F U) Unit × W
  realpath : Str → W → Except SysError Str
  getfiles : Str → Option Str → W → Except SysError (Option (List Str))
  eval : Str → W → Except (Value F U) Unit × W
  traversal : Traversal
  registry : W → Registry F
  date : W → Str
  total : W → U × Str

/-- What the command leaves behind. -/
inductive CommandEvent (W F U : Type) where
  | tostring (u : U) (raised : Option (Value F U))
  | print (printer : Printer) (args : List (Value F U))
  | load (filename : Str) (result : Except (Value F U) Unit)
  | run (e : Event W F U)

/-- An action of the command. -/
abbrev Task (W F U α : Type) : Type := Act (Proc W) (CommandEvent W F U) (Halt F U) α

section Task

variable {α : Type}

/-- An action of the runner. -/
def runner (m : Run W F U α) : Task W F U α := Act.mapEvents .run m

/-- `printer(...)`, as in the runner. -/
def display (cmd : Command W F U) (printer : Printer) (args : List (Value F U)) :
    Task W F U Unit :=
  printing cmd.toEnv .tostring .print printer args

/-- `exit(code, msg, ...)`. -/
def exit (cmd : Command W F U) (code : Int) (msg : List (Value F U)) : Task W F U α :=
  match msg with
  | [] => Act.halt (.exit code)
  | _ :: _ => do
      display cmd .print msg
      Act.halt (.exit code)

end Task

/-! ## Options and files -/

/-- `USAGE`. -/
def USAGE : Str := ("testcase - a small helper tool to run the test files\n\n" ++
  "Usage:\n" ++
  "  testcase [--help] [--coverage] [--checkall] [--testcase=<name>[,...]] <pathname>...\n\n" ++
  "Options:\n" ++
  "  --help               show this help message and exit\n" ++
  "  --coverage           do code coverage analysis with `luacov`\n" ++
  "  --checkall           any file with a `.lua` extension will be evaluated as a test file\n" ++
  "  --testcase=<name>    run only the named test case; accepts comma-separated names\n").toList

/-- `check_opts()`. -/
def checkOpts (cmd : Command W F U) (arg : List Str) : Task W F U Options :=
  match getopts arg with
  | .error err => exit cmd (-1) [.string err]
  | .ok opts =>
      if opts.help then exit cmd 0 [.string USAGE]
      else if opts.args = [] then exit cmd (-1) [.string USAGE]
      else if opts.coverage then do
        match ← outside cmd.requireLuacov with
        | .error loaderr =>
            exit cmd (-1) [.string "failed to load luacov module: %s".toList, loaderr]
        | .ok () => pure opts
      else pure opts

/-- `check_pathname(pathname)`. -/
def checkPathname (cmd : Command W F U) (pathname : Str) : Task W F U Str := do
  match ← Act.reads fun p => cmd.realpath pathname p.world with
  | .error err =>
      if err.type ≠ ENOENT then
        exit cmd (-1) [.string "failed to resolve path %q: %s".toList, .string pathname,
          .error err]
      else exit cmd (-1) [.string "failed to resolve path %q".toList, .string pathname]
  | .ok path => pure path

/-- One step of the loop of `get_pathnames`; the state is `pathnames` and `seen`. -/
def getPathname (cmd : Command W F U) (acc : List Str × Table Bool) (pathname : Str) :
    Task W F U (List Str × Table Bool) := do
  let path ← checkPathname cmd pathname
  if acc.2.lookup path = some true then
    exit cmd (-1) [.string "duplicate pathname %q".toList, .string pathname]
  else pure (acc.1 ++ [path], acc.2.insert path true)

/-- `get_pathnames(opts)`. -/
def getPathnames (cmd : Command W F U) (opts : Options) : Task W F U (List Str) := do
  let acc ← Act.forEach (getPathname cmd) opts.args ([], ∅)
  pure acc.1

/-- `opts.checkall and '.lua' or nil`. -/
def Options.suffix (opts : Options) : Option Str :=
  if opts.checkall then some ".lua".toList else none

/-- One step of the inner loop of `get_files`; the state is `files` and `seen`. -/
def getFile (cmd : Command W F U) (acc : List Str × Table Bool) (filename : Str) :
    Task W F U (List Str × Table Bool) := do
  let path ← checkPathname cmd filename
  if acc.2.lookup path = some true then pure acc
  else pure (acc.1 ++ [filename], acc.2.insert path true)

/-- One step of the outer loop.  Without a list `ipairs` raises an error. -/
def getFilesOf (cmd : Command W F U) (suffix : Option Str) (acc : List Str × Table Bool)
    (pathname : Str) : Task W F U (List Str × Table Bool) := do
  match ← Act.reads fun p => cmd.getfiles pathname suffix p.world with
  | .error err =>
      exit cmd (-1) [.string "failed to get test files from %q: %s".toList, .string pathname,
        .error err]
  | .ok none =>
      Act.halt (.raise (.string
        "bad argument #1 to 'for iterator' (table expected, got nil)".toList))
  | .ok (some list) => Act.forEach (getFile cmd) list acc

/-- `get_files(opts)`. -/
def getFiles (cmd : Command W F U) (opts : Options) : Task W F U (List Str) := do
  let pathnames ← getPathnames cmd opts
  let acc ← Act.forEach (getFilesOf cmd opts.suffix) pathnames ([], ∅)
  pure acc.1

/-! ## Loading -/

/-- `eval(filename)`. -/
def load (cmd : Command W F U) (filename : Str) : Task W F U (Except (Value F U) Unit) := do
  let res ← outside (cmd.eval filename)
  Act.emit (.load filename res)
  pure res

/-- One step of the loop of `loadfiles`. -/
def loadfile (cmd : Command W F U) (errfiles : List (Str × Value F U)) (filename : Str) :
    Task W F U (List (Str × Value F U)) := do
  match ← load cmd filename with
  | .error err => pure (errfiles ++ [(filename, err)])
  | .ok () => pure errfiles

/-- `loadfiles(files)`. -/
def loadfiles (cmd : Command W F U) (files : List Str) : Task W F U (List (Str × Value F U)) :=
  Act.forEach (loadfile cmd) files []

/-- `report_load_errors(errfiles)`. -/
def reportLoadErrors (cmd : Command W F U) (errfiles : List (Str × Value F U)) :
    Task W F U Unit :=
  if errfiles = [] then pure ()
  else do
    display cmd .print [.string "#### %d test files failed to load\n".toList,
      .integer errfiles.length]
    Act.forEach (fun _ v => do
      display cmd .print [.string "- %s".toList, .string v.1]
      display cmd .printCode [.string "%s".toList, v.2]
      display cmd .print [.string []]) errfiles ()
    display cmd .print [.string "\n".toList]

/-! ## The main block -/

/-- `registry.getlist()`, as the command and the runner read it. -/
def sourceList (cmd : Command W F U) (w : W) : List (Source F) × Nat :=
  let (list, ntest) := getlist cmd.traversal (cmd.registry w)
  (list.map Item.source, ntest)

/-- `string.rep('=', 80)`. -/
def HEADLINE : Str := List.replicate 80 '='

/-- What is printed before the run. -/
def printInfo (cmd : Command W F U) (list : List (Source F)) (ntest : Nat) :
    Task W F U Unit := do
  display cmd .print [.string []]
  let date ← Act.reads fun p => cmd.date p.world
  display cmd .print [.string "Test on %s".toList, .string date]
  display cmd .print [.string HEADLINE, .string "\n".toList]
  display cmd .print [.string "Total: %d test cases in %d files.\n".toList, .integer ntest,
    .integer list.length]
  Act.forEach (fun _ src => display cmd .print [.string "- ".toList, .string src.name,
    .string " has `".toList, .integer src.tests.length, .string "` test cases".toList]) list ()

/-- What is printed of the errors of the run. -/
def printErrors (cmd : Command W F U) (errors : Errors F U) : Task W F U Unit :=
  if 0 < errors.files.length then do
    Act.forEach (fun _ v => do
      display cmd .print [.string "#### %d testcases in %s failed\n".toList,
        .integer (v : FileErrors F U).errors.length, .string v.name]
      Act.forEach (fun _ verr => do
        display cmd .print [.string "- %s".toList, .string (verr : Record F U).name]
        display cmd .printCode [.string "%s".toList, verr.error]
        display cmd .print [.string []]) v.errors ()) errors.files ()
    display cmd .print [.string []]
  else pure ()

/-- What is done with the result of the run. -/
def finish (cmd : Command W F U) (errfiles : List (Str × Value F U)) (res : RunResult F U) :
    Task W F U Unit :=
  match res with
  | .refused err => exit cmd (-1) [.string "failed to runner.run(): ".toList, .string err]
  | .ran nsuccess nfailure errors => do
      let (total, fmt) ← Act.reads fun p => cmd.total p.world
      display cmd .print [.string (("### Total: %d successes, %d failures, " ++
        "%d load failures (").toList ++ fmt ++ [')']), .integer nsuccess, .integer nfailure,
        .integer errfiles.length, .object .float total, .string "\n".toList]
      printErrors cmd errors
      (if 0 < errfiles.length then reportLoadErrors cmd errfiles else pure ())
      if 0 < nfailure ∨ 0 < errors.count ∨ 0 < errfiles.length then exit cmd (-1) []
      else pure ()

/-- The main block, behind the loading. -/
def testSources (cmd : Command W F U) (opts : Options) (errfiles : List (Str × Value F U)) :
    Task W F U Unit := do
  let (list, ntest) ← Act.reads fun p => sourceList cmd p.world
  printInfo cmd list ntest
  if 0 < errfiles.length ∧ list.length = 0 then do
    display cmd .print [.string []]
    reportLoadErrors cmd errfiles
    exit cmd (-1) []
  else do
    runner unblock
    let res ← runner (run cmd.toEnv list (some opts.testcase))
    finish cmd errfiles res

/-- The main block. -/
def main (cmd : Command W F U) (arg : List Str) : Task W F U Unit := do
  let opts ← checkOpts cmd arg
  let files ← getFiles cmd opts
  runner block
  let errfiles ← loadfiles cmd files
  testSources cmd opts errfiles

/-! ## The status of the process -/

/-- The exit status: that of `exit` is the code modulo 256, and the interpreter exits with 1 when
an error is raised out of the main chunk. -/
def exitStatus : Except (Halt F U) Unit → Int
  | .ok () => 0
  | .error (.exit code) => code % 256
  | .error (.raise _) => 1

/-- The process ends with success. -/
def Succeeds (res : Except (Halt F U) Unit) : Prop := exitStatus res = 0

end Testcase
