import LuaTestcase.Core.Machine
import LuaTestcase.Runner.Def

/-!
# The processes of a test

A function that the runner calls may fork, and so may its children.  All of them are in the middle
of the same protected call, and each goes on behind it as `call` says.  The processes take turns
in any order; in each, the collector may finalize a process object at any time.

`os.exit` is replaced by a function that keeps its arguments and raises an error, so a call of it
that is not caught ends the protected call (`lib/exit.lua`, `src/xpcall.c`).

What a function does is a `Script`: a state, and for each state what is done next.  A pid that is
waited for is free again, but the process keeps its place in the list.  Signals other than
`SIGKILL` and the stopping and continuing of children are left out.
-/

namespace Testcase

/-! ## `os.exit` -/

/-- An argument that `os.exit` accepts; a `numeral` is a float or a string, with its text and the
integer it is converted to. -/
inductive ExitArg where
  | nil
  | boolean (b : Bool)
  | integer (n : Int)
  | numeral (text : Str) (n : Int)
deriving DecidableEq

/-- `tostring(v)`. -/
def ExitArg.tostring : ExitArg → Str
  | nil => "nil".toList
  | boolean true => "true".toList
  | boolean false => "false".toList
  | integer n => (toString n).toList
  | numeral text _ => text

/-- The exit status that a call of `os.exit` asks for. -/
def askedStatus : List ExitArg → Int
  | [] => 0
  | .nil :: _ => 0
  | .boolean true :: _ => 0
  | .boolean false :: _ => 1
  | .integer n :: _ => n % 256
  | .numeral _ n :: _ => n % 256

/-- `dummy_exit(...)`: what `EXIT_ARGS` becomes, and the message that is raised; `ipairs` ends in
front of a `nil`, and `error` puts the position of the caller in front. -/
def dummyExit (position : Str) (args : List ExitArg) : List ExitArg × Str :=
  (args, position ++ List.intercalate [' ']
    ("OS_EXIT".toList :: (args.takeWhile (· != .nil)).map ExitArg.tostring))

/-! ## Processes -/

/-- What `fork` returns: the process object in the child or in the parent, or an error. -/
inductive Forked where
  | child
  | parent (pid : Int)
  | failed
deriving DecidableEq

/-- How a process ends. -/
inductive End where
  | exited (status : Int)
  | signalled (signal : Nat)
deriving DecidableEq

/-- What `proc:wait()` does: it raises an error, for the process itself; there is no such child; or
it returns how the child ended. -/
inductive Waited where
  | own
  | noChild
  | ended (e : End)
deriving DecidableEq

/-- What a function does next.  A call of `os.exit` may be caught, and then the function goes on;
`input` is anything that is read from outside. -/
inductive Doing (S : Type) where
  | done (res : Except Str Unit)
  | exit (position : Str) (args : List ExitArg) (caught : Option S)
  | fork (next : Forked → S)
  | wait (pid : Int) (next : Waited → S)
  | input (next : Int → S)

/-- A function, and what the message handler makes of an error. -/
structure Script (S : Type) where
  start : S
  doing : S → Doing S
  traceback : Str → Str

/-- Where a process is: in the function; behind the protected call; back in the runner; ended. -/
inductive Phase (S : Type) where
  | running (s : S)
  | called (res : Except Str Unit)
  | back (res : Except Str Unit)
  | ended (e : End)

/-- A process, with its copy of `EXIT_ARGS` and the pids in its process objects. -/
structure Process (S : Type) where
  pid : Int
  parent : Option Nat
  phase : Phase S
  exitArgs : List ExitArg
  objects : List Int
  reaped : Bool

/-- The processes, in the order in which they were forked. -/
abbrev Family (S : Type) : Type := List (Process S)

/-- A turn: a process does its next step, where the kernel may have to choose a pid or an input;
the collector finalizes an object of a process; or a process is killed from outside. -/
inductive Turn where
  | run (i : Nat) (answer : Int)
  | collect (i : Nat) (pid : Int)
  | kill (i : Nat)

/-- What is observed: a call of `os.exit` that is not caught, and a child that was waited for. -/
inductive ProcessEvent where
  | exit (i : Nat) (args : List ExitArg)
  | waited (i j : Nat) (e : End)
deriving DecidableEq

section Turns

variable {S : Type}

/-- How the process ended, if it did. -/
def Process.end? (p : Process S) : Option End :=
  match p.phase with
  | .ended e => some e
  | _ => none

/-- No process has the pid, except for such as were waited for. -/
def Family.fresh (fam : Family S) (pid : Int) : Bool :=
  1 < pid && fam.all fun p => p.reaped || p.pid != pid

/-- The process is the child of process `i` that has the pid and was not waited for. -/
def Process.isChild (i : Nat) (pid : Int) (p : Process S) : Bool :=
  p.parent == some i && p.pid == pid && !p.reaped

/-- `SIGKILL`. -/
def SIGKILL : Nat := 9

/-- Where `call` was called from: a process with the pid, in which the function ended so. -/
def processEnv (PID pid : Int) (res : Except Str Unit) : Env Unit Unit Unit where
  CWD := []
  PID := PID
  getcwd _ := some []
  chdir _ w := .ok w
  getpid _ := pid
  start w := w
  stop w := ((none, []), w)
  collect w := (none, w)
  xpcall _ w := (⟨res.mapError .string, []⟩, w)
  tostring _ w := (none, w)
  assert := Assert.builtin

/-- What `call` does behind the protected call. -/
def leave (PID pid : Int) (res : Except Str Unit) : Phase S :=
  match (call (processEnv PID pid res) .beforeAll () ⟨(), false⟩).result with
  | .ok _ => .back res
  | .error (.exit code) => .ended (.exited (code % 256))
  | .error (.raise _) => .ended (.exited 1)

/-- `fork()`. -/
def fork (fam : Family S) (i : Nat) (p : Process S) (next : Forked → S) (pid : Int) : Family S :=
  if fam.fresh pid then
    fam.set i { p with phase := .running (next (.parent pid)), objects := pid :: p.objects } ++
      [{ pid := pid, parent := some i, phase := .running (next .child), exitArgs := p.exitArgs,
         objects := 0 :: p.objects, reaped := false }]
  else fam.set i { p with phase := .running (next .failed) }

/-- `proc:wait()`, with the pid in the object; it blocks while the child runs. -/
def wait (fam : Family S) (i : Nat) (p : Process S) (pid : Int) (next : Waited → S) :
    Family S × List ProcessEvent :=
  if pid = 0 then (fam.set i { p with phase := .running (next .own) }, [])
  else if pid < 1 then (fam.set i { p with phase := .running (next .noChild) }, [])
  else
    match fam.findIdx? (Process.isChild i pid) with
    | none => (fam.set i { p with phase := .running (next .noChild) }, [])
    | some j =>
        match fam[j]? with
        | none => (fam, [])
        | some q =>
            match q.end? with
            | none => (fam, [])
            | some e =>
                ((fam.set j { q with reaped := true }).set i { p with
                  phase := .running (next (.ended e)), objects := p.objects.replace pid (-pid) },
                  [.waited i j e])

/-- `gc_lua`, with the pid in the object. -/
def gc (fam : Family S) (i : Nat) (p : Process S) (pid : Int) : Family S :=
  if pid = 0 then fam.set i { p with phase := .ended (.exited 0) }
  else
    let fam := fam.set i { p with objects := p.objects.erase pid }
    if 1 < pid then
      match fam.findIdx? (Process.isChild i pid) with
      | none => fam
      | some j =>
          match fam[j]? with
          | some q =>
              fam.set j { q with
                phase := .ended (q.end?.getD (.signalled SIGKILL)), reaped := true }
          | none => fam
    else fam

/-- The next step of a process. -/
def proceed (PID : Int) (script : Script S) (fam : Family S) (i : Nat) (p : Process S)
    (answer : Int) : Family S × List ProcessEvent :=
  match p.phase with
  | .ended _ => (fam, [])
  | .back _ => (fam, [])
  | .called res => (fam.set i { p with phase := leave PID p.pid res }, [])
  | .running s =>
      match script.doing s with
      | .done res =>
          (fam.set i { p with phase := .called (res.mapError script.traceback) }, [])
      | .exit position args caught =>
          match caught with
          | some s => (fam.set i { p with
              phase := .running s, exitArgs := (dummyExit position args).1 }, [])
          | none => (fam.set i { p with
              phase := .called (.error (script.traceback (dummyExit position args).2))
              exitArgs := (dummyExit position args).1 }, [.exit i args])
      | .fork next => (fork fam i p next answer, [])
      | .wait pid next => wait fam i p pid next
      | .input next => (fam.set i { p with phase := .running (next answer) }, [])

/-- A turn.  What is not possible does not happen. -/
def processes (PID : Int) (script : Script S) : Machine (Family S) Turn ProcessEvent :=
  fun fam turn =>
    match turn with
    | .run i answer =>
        match fam[i]? with
        | some p => proceed PID script fam i p answer
        | none => (fam, [])
    | .collect i pid =>
        match fam[i]? with
        | some p =>
            if pid ∈ p.objects ∧ p.end? = none then (gc fam i p pid, []) else (fam, [])
        | none => (fam, [])
    | .kill i =>
        match fam[i]? with
        | some p =>
            if p.end? = none then (fam.set i { p with phase := .ended (.signalled SIGKILL) }, [])
            else (fam, [])
        | none => (fam, [])

/-- The runner calls the function. -/
def Family.start (PID : Int) (script : Script S) (exitArgs : List ExitArg) (objects : List Int) :
    Family S :=
  [{ pid := PID, parent := none, phase := .running script.start, exitArgs := exitArgs,
     objects := objects, reaped := false }]

end Turns

end Testcase
