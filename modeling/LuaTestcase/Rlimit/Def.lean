import LuaTestcase.Core.Kernel
import LuaTestcase.Lua.Arguments

/-!
# `testcase.rlimit`

`rlimit_lua` of `src/rlimit.c` as a dialogue with the operating system.  A limit is an unsigned
number of 64 bits, one of which stands for infinity; a Lua integer is signed, and there `-1` does.

* `rlimitLua` — the function.
* `LimitKernel` — a kernel, which refuses limits or applies them, as they are or clamped.
-/

namespace Testcase

/-! ## System calls -/

/-- `struct rlimit`. -/
structure RLimit where
  cur : UInt64
  max : UInt64
deriving DecidableEq

inductive LimitCall where
  | getrlimit (resource : Int32)
  | setrlimit (resource : Int32) (rl : RLimit)
deriving DecidableEq

/-- The value a call returns, `errno`, and what `getrlimit` stores. -/
structure LimitReply where
  ret : Int
  errno : Nat
  rl : RLimit
deriving DecidableEq

/-- What a platform defines: infinity, and the resources that it has. -/
structure LimitPlatform where
  RLIM_INFINITY : UInt64
  constant : Str → Option Int32

def ENOSYS : Nat := 38

def RESOURCE_NAMES : List Str :=
  ["as".toList, "core".toList, "cpu".toList, "data".toList, "fsize".toList, "locks".toList,
    "memlock".toList, "msgqueue".toList, "nice".toList, "nofile".toList, "nproc".toList,
    "rss".toList, "rtprio".toList, "rttime".toList, "sigpending".toList, "stack".toList]

/-! ## The function -/

/-- What the function does in the end: it raises an error; `nil` with an error object; a table. -/
inductive LimitResult where
  | raised (e : CError)
  | failed (errno : Nat) (op msg : Str)
  | table (resource : Str) (cur max : Int64)
deriving DecidableEq

/-- `cur` or `max` of the returned table. -/
def LimitPlatform.reported (P : LimitPlatform) (limit : UInt64) : Int64 :=
  if limit = P.RLIM_INFINITY then -1 else limit.toInt64

section Function

variable {F U : Type} (P : LimitPlatform) (lib : CLib F U) (args : List (Value F U))

/-- `check_rtype`: the name, and the resource unless the platform has none. -/
def checkRtype : Except CError (Str × Option Int32) :=
  match checkoption lib args 1 none RESOURCE_NAMES with
  | .error e => .error e
  | .ok opt =>
      let name := RESOURCE_NAMES.getD opt []
      .ok (name, P.constant name)

/-- `getlimit`; what it returns early is the error. -/
def getlimit (resource : Int32) (resname : Str) :
    Dialogue LimitCall LimitReply (Except LimitResult RLimit) := do
  let r ← .query (.getrlimit resource)
  if r.ret ≠ 0 then
    let msg := "failed to getrlimit for resource '".toList ++ resname ++ "'".toList
    pure (.error (.failed r.errno "getrlimit".toList msg))
  else pure (.ok r.rl)

/-- `check_limit`: the limit, if it is specified. -/
def checkLimit (idx : Nat) (resname field : Str) : Except CError (Option UInt64) :=
  if isnoneornil args idx then .ok none
  else
    match checkinteger lib args idx with
    | .error e => .error e
    | .ok v =>
        if v < -1 then
          let msg := "invalid ".toList ++ field ++ " for resource '".toList ++ resname ++
            "': expected -1 (infinity) or a non-negative integer, got ".toList ++
            (toString v.toInt).toList
          .error (.argerror idx msg)
        else if v = -1 then .ok (some P.RLIM_INFINITY)
        else .ok (some v.toUInt64)

/-- The arguments of `setlimit`; C does not say which one is checked first. -/
def checkLimits (resname : Str) : Except CError (Option UInt64 × Option UInt64) := do
  let cur ← checkLimit P lib args 2 resname "cur".toList
  let max ← checkLimit P lib args 3 resname "max".toList
  pure (cur, max)

/-- `setlimit`; what it returns early is the error. -/
def setlimit (resource : Int32) (resname : Str) (rl : RLimit) :
    Dialogue LimitCall LimitReply (Except LimitResult RLimit) :=
  match checkLimits P lib args resname with
  | .error e => pure (.error (.raised e))
  | .ok (none, none) =>
      pure (.error (.raised (.error "either cur or max must be specified".toList)))
  | .ok (cur, max) =>
      let newrl : RLimit := ⟨cur.getD rl.cur, max.getD rl.max⟩
      if newrl.cur ≠ rl.cur ∨ newrl.max ≠ rl.max then do
        let r ← .query (.setrlimit resource newrl)
        if r.ret ≠ 0 then
          let msg := "failed to setrlimit for resource '".toList ++ resname ++ "'".toList
          pure (.error (.failed r.errno "setrlimit".toList msg))
        else getlimit resource resname
      else getlimit resource resname

/-- The returned table. -/
def limitTable (resname : Str) (rl : RLimit) : LimitResult :=
  .table resname (P.reported rl.cur) (P.reported rl.max)

/-- `rlimit_lua`. -/
def rlimitLua : Dialogue LimitCall LimitReply LimitResult :=
  match checkRtype P lib args with
  | .error e => pure (.raised e)
  | .ok (resname, none) =>
      let msg := "resource '".toList ++ resname ++ "' is not supported on this platform".toList
      pure (.failed ENOSYS "getrlimit".toList msg)
  | .ok (resname, some resource) => do
      match ← getlimit resource resname with
      | .error early => pure early
      | .ok rl =>
          if 1 < args.length then
            match ← setlimit P lib args resource resname rl with
            | .error early => pure early
            | .ok rl => pure (limitTable P resname rl)
          else pure (limitTable P resname rl)

end Function

/-! ## Kernels -/

/-- A kernel: whether it answers `getrlimit` for a resource, and what it does with the current and
the requested limits, which it refuses or applies, as they are or clamped. -/
structure LimitKernel where
  gets : Int32 → Option Nat
  sets : Int32 → RLimit → RLimit → Except Nat RLimit

/-- The limits of all resources. -/
abbrev Limits : Type := Int32 → RLimit

/-- What the kernel replies, and the limits afterwards. -/
def LimitKernel.reply (K : LimitKernel) (s : Limits) : LimitCall → Limits × LimitReply
  | .getrlimit resource =>
      match K.gets resource with
      | none => (s, ⟨0, 0, s resource⟩)
      | some errno => (s, ⟨-1, errno, ⟨0, 0⟩⟩)
  | .setrlimit resource rl =>
      match K.sets resource (s resource) rl with
      | .ok applied => (Function.update s resource applied, ⟨0, 0, ⟨0, 0⟩⟩)
      | .error errno => (s, ⟨-1, errno, ⟨0, 0⟩⟩)

/-- A call of the function. -/
def LimitKernel.rlimit {F U : Type} (K : LimitKernel) (P : LimitPlatform) (lib : CLib F U)
    (args : List (Value F U)) (s : Limits) :
    Dialogue.Served Limits LimitCall LimitReply LimitResult :=
  (rlimitLua P lib args).serve K.reply s

end Testcase
