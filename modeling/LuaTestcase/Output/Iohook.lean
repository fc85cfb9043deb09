import LuaTestcase.Core.Machine
import LuaTestcase.Lua.Value

/-!
# `testcase.iohook`

`lib/iohook.lua` as a machine.  Its state are the module's local variables and the three globals
it replaces; its calls are the functions it exports and the outputs of the program, which go
through whatever the globals hold at that time or through a writer of the module that was saved
earlier.  The callbacks neither raise nor output anything, so a call of one is an event.
-/

namespace Testcase

variable {F U : Type}

/-- What `print`, `io.stdout` and `io.stderr` can hold: the three values captured when the module
was loaded, and the two writers of the module. -/
inductive Writer where
  | print
  | stdout
  | stderr
  | printout
  | stdwriter
deriving DecidableEq

/-- A callback: one of the default functions, which do nothing, or a function of the caller. -/
inductive Callback (F : Type) where
  | default
  | user (f : F)
deriving DecidableEq

/-- The local variables of the module, and the globals `_G.print`, `_G.io.stdout` and
`_G.io.stderr`. -/
structure IoHook (F : Type) where
  onStartfn : Callback F
  onHookfn : Callback F
  onEndfn : Callback F
  isBlocked : Bool
  isHooked : Bool
  print : Writer
  stdout : Writer
  stderr : Writer

/-- The state when the module has been loaded. -/
def IoHook.loaded : IoHook F where
  onStartfn := .default
  onHookfn := .default
  onEndfn := .default
  isBlocked := false
  isHooked := false
  print := .print
  stdout := .stdout
  stderr := .stderr

/-- What is observed: calls of the callbacks, outputs that the captured writers got, and errors
raised by the module. -/
inductive HookEvent (F U : Type) where
  | start (f : F)
  | hook (f : F) (args : List (Value F U))
  | finish (f : F)
  | passed (w : Writer) (args : List (Value F U))
  | raised (msg : Str)

/-- Calling a callback. -/
def Callback.called (event : F → HookEvent F U) : Callback F → List (HookEvent F U)
  | default => []
  | user f => [event f]

/-- `printout(...)`. -/
def printout (st : IoHook F) (args : List (Value F U)) : IoHook F × List (HookEvent F U) :=
  if st.isBlocked then (st, [])
  else if ¬ st.isHooked then
    ({ st with isHooked := true },
      st.onStartfn.called .start ++ st.onHookfn.called (.hook · args))
  else (st, st.onHookfn.called (.hook · args))

/-- A write through what a global holds, or held when it was saved; `stdwriter:write(...)` calls
`printout`. -/
def Writer.write (st : IoHook F) (args : List (Value F U)) :
    Writer → IoHook F × List (HookEvent F U)
  | .printout => Testcase.printout st args
  | .stdwriter => Testcase.printout st args
  | w => (st, [.passed w args])

/-- `fn or default`, and the type of the result if it is not a function. -/
def callbackOf (fn : Value F U) : Except LuaType (Callback F) :=
  match fn with
  | .nil => .ok .default
  | .boolean false => .ok .default
  | .function f => .ok (.user f)
  | v => .error v.type

/-- The error for an argument that is not a function. -/
def notFunction (arg : Str) (ty : LuaType) : Str :=
  "invalid argument #".toList ++ arg ++ " (function expected, got ".toList ++ ty.name ++ [')']

/-- `hook(hookfn, startfn, endfn)`. -/
def hook (st : IoHook F) (hookfn startfn endfn : Value F U) :
    IoHook F × List (HookEvent F U) :=
  match callbackOf hookfn, callbackOf startfn, callbackOf endfn with
  | .error ty, _, _ => (st, [.raised (notFunction ['1'] ty)])
  | .ok _, .error ty, _ => (st, [.raised (notFunction ['2'] ty)])
  | .ok _, .ok _, .error ty => (st, [.raised (notFunction ['3'] ty)])
  | .ok onHookfn, .ok onStartfn, .ok onEndfn =>
      ({ st with
          onHookfn := onHookfn
          onStartfn := onStartfn
          onEndfn := onEndfn
          isHooked := false
          stderr := .stdwriter
          stdout := .stdwriter
          print := .printout }, [])

/-- `unhook()`. -/
def unhook (st : IoHook F) : IoHook F × List (HookEvent F U) :=
  ({ st with
      stderr := .stderr
      stdout := .stdout
      print := .print
      isHooked := false
      onHookfn := .default
      onStartfn := .default
      onEndfn := .default },
    if st.isHooked then st.onEndfn.called .finish else [])

/-- What a program can do: call the functions of the module, and output something through one of
the globals or through a saved writer of the module. -/
inductive HookOp (F U : Type) where
  | hook (hookfn startfn endfn : Value F U)
  | unhook
  | block
  | unblock
  | print (args : List (Value F U))
  | stdout (args : List (Value F U))
  | stderr (args : List (Value F U))
  | savedPrint (args : List (Value F U))
  | savedWriter (args : List (Value F U))

/-- The module, driven by a program. -/
def iohook : Machine (IoHook F) (HookOp F U) (HookEvent F U) := fun st op =>
  match op with
  | .hook hookfn startfn endfn => hook st hookfn startfn endfn
  | .unhook => unhook st
  | .block => ({ st with isBlocked := true }, [])
  | .unblock => ({ st with isBlocked := false }, [])
  | .print args => st.print.write st args
  | .stdout args => st.stdout.write st args
  | .stderr args => st.stderr.write st args
  | .savedPrint args => Writer.printout.write st args
  | .savedWriter args => Writer.stdwriter.write st args

end Testcase
