import LuaTestcase.Core.Kernel
import LuaTestcase.Lua.Arguments

/-!
# `testcase.socketpair`

The socket objects of `src/socketpair.c`.  An object holds a descriptor, which is `-1` when `close`
has closed it, and its methods are dialogues with the operating system.

* `SocketMethod.run` — the methods and the finalizer, on the value of `*sock`.
* `newLua` — how two objects are made.
-/

namespace Testcase

/-! ## System calls -/

/-- The options of a socket that are used. -/
inductive SockOpt where
  | SO_RCVBUF
  | SO_SNDBUF
deriving DecidableEq

inductive ShutHow where
  | SHUT_RD
  | SHUT_WR
  | SHUT_RDWR
deriving DecidableEq

/-- A system call on a descriptor; of the status flags only `O_NONBLOCK` is looked at. -/
inductive SocketCall where
  | write (msg : Str)
  | read (size : Nat)
  | shutdown (how : ShutHow)
  | close
  | getsockopt (opt : SockOpt)
  | setsockopt (opt : SockOpt) (size : Int32)
  | getfl
  | setfl (flags : UInt32)
deriving DecidableEq

/-- A system call: the descriptor and what is done with it. -/
structure OnSocket where
  fd : Int32
  call : SocketCall
deriving DecidableEq

/-- The value a call returns, `errno`, what `read` has read and what `getsockopt` stores. -/
structure SocketReply where
  ret : Int
  errno : Nat
  buf : Str
  optval : Int32
deriving DecidableEq

def EWOULDBLOCK : Nat := 11

def O_NONBLOCK : UInt32 := 2048

/-! ## The methods -/

/-- What a method stores in `*sock`, if anything, and what it does in the end. -/
structure SocketReturn (F U : Type) where
  stored : Option Int32
  result : CResult F U

section Methods

variable {F U : Type} (lib : CLib F U) (sock : Int32) (args : List (Value F U))

/-- A dialogue with the operating system. -/
abbrev SocketDialogue (R : Type) : Type := Dialogue OnSocket SocketReply R

/-- `nil` and a message. -/
def nilMessage (errno : Nat) : CResult F U :=
  .returned [.nil, .string (lib.strerror errno)]

/-- `nil`, `nil` and `true` if the call would block, or `nil` and a message. -/
def againOrMessage (errno : Nat) : CResult F U :=
  if errno = EWOULDBLOCK then .returned [.nil, .nil, .boolean true] else nilMessage lib errno

/-- `write_lua`. -/
def writeLua : SocketDialogue (CResult F U) :=
  checked (checkstring lib args 2) fun msg => do
    let r ← .query ⟨sock, .write msg⟩
    if r.ret = -1 then pure (againOrMessage lib r.errno) else pure (.returned [.integer r.ret])

/-- `read_lua`. -/
def readLua : SocketDialogue (CResult F U) := do
  let r ← .query ⟨sock, .read 4096⟩
  if r.ret = -1 then pure (againOrMessage lib r.errno)
  else if r.ret = 0 then pure (.returned [.nil])
  else pure (.returned [.string r.buf])

/-- `do_shutdown(L, how)`. -/
def doShutdown (how : ShutHow) : SocketDialogue (CResult F U) := do
  let r ← .query ⟨sock, .shutdown how⟩
  if r.ret = 0 then pure (.returned [.boolean true])
  else pure (.returned [.boolean false, .string (lib.strerror r.errno)])

/-- The arguments of `sockbuf`: the new size, if there is one. -/
def checkBufsize : Except CError (Option Int32) :=
  if 1 < args.length then
    match checkinteger lib args 2 with
    | .error e => .error e
    | .ok n => .ok (some n.toInt32)
  else .ok none

/-- `sockbuf(L, sockopt)`. -/
def sockbuf (sockopt : SockOpt) : SocketDialogue (CResult F U) :=
  checked (checkBufsize lib args) fun newsize => do
    let r ← .query ⟨sock, .getsockopt sockopt⟩
    if r.ret = -1 then pure (nilMessage lib r.errno)
    else
      match newsize with
      | none => pure (.returned [.integer r.optval.toInt])
      | some size => do
          let r' ← .query ⟨sock, .setsockopt sockopt size⟩
          if r'.ret = -1 then pure (nilMessage lib r'.errno)
          else pure (.returned [.integer r.optval.toInt])

/-- `sendbuf_lua`. -/
def sendbufLua : SocketDialogue (CResult F U) := sockbuf lib sock args .SO_RCVBUF

/-- `recvbuf_lua`. -/
def recvbufLua : SocketDialogue (CResult F U) := sockbuf lib sock args .SO_RCVBUF

/-- The arguments of `nonblock_lua`: the new flag, if there is one. -/
def checkEnabled : Except CError (Option Bool) :=
  if 1 < args.length then
    match argument args 2 with
    | some (.boolean b) => .ok (some b)
    | _ => .error (.typeerror 2 "boolean".toList)
  else .ok none

/-- `nonblock_lua`. -/
def nonblockLua : SocketDialogue (CResult F U) :=
  checked (checkEnabled args) fun enabled => do
    let r ← .query ⟨sock, .getfl⟩
    if r.ret = -1 then pure (nilMessage lib r.errno)
    else
      let flags := UInt32.ofInt r.ret
      let old : Bool := flags &&& O_NONBLOCK ≠ 0
      match enabled with
      | none => pure (.returned [.boolean old])
      | some b => do
          let flags := if b then flags ||| O_NONBLOCK else flags &&& ~~~O_NONBLOCK
          let r' ← .query ⟨sock, .setfl flags⟩
          if r'.ret = -1 then pure (nilMessage lib r'.errno)
          else pure (.returned [.boolean old])

/-- `close_lua`. -/
def socketClose : SocketDialogue (SocketReturn F U) :=
  if sock ≠ -1 then do
    let _ ← .query ⟨sock, .close⟩
    pure ⟨some (-1), .returned []⟩
  else pure ⟨none, .returned []⟩

/-- `gc_lua`. -/
def socketGc : SocketDialogue (SocketReturn F U) :=
  if sock ≠ -1 then do
    let _ ← .query ⟨sock, .close⟩
    pure ⟨none, .returned []⟩
  else pure ⟨none, .returned []⟩

/-- The methods, and the finalizer. -/
inductive SocketMethod where
  | write
  | read
  | shutwr
  | shutrd
  | shutdown
  | close
  | sendbuf
  | recvbuf
  | nonblock
  | fd
  | tostring
  | gc
deriving DecidableEq

/-- A method that stores nothing. -/
def storesNothing (d : SocketDialogue (CResult F U)) : SocketDialogue (SocketReturn F U) := do
  let r ← d
  pure ⟨none, r⟩

/-- A method, on the value of `*sock`; what `tostring_lua` returns is a string with an address. -/
def SocketMethod.run : SocketMethod → SocketDialogue (SocketReturn F U)
  | write => storesNothing (writeLua lib sock args)
  | read => storesNothing (readLua lib sock)
  | shutwr => storesNothing (doShutdown lib sock .SHUT_WR)
  | shutrd => storesNothing (doShutdown lib sock .SHUT_RD)
  | shutdown => storesNothing (doShutdown lib sock .SHUT_RDWR)
  | close => socketClose sock
  | sendbuf => storesNothing (sendbufLua lib sock args)
  | recvbuf => storesNothing (recvbufLua lib sock args)
  | nonblock => storesNothing (nonblockLua lib sock args)
  | fd => pure ⟨none, .returned [.integer sock.toInt]⟩
  | tostring => pure ⟨none, .returned [.string "testcase.socketpair".toList]⟩
  | gc => socketGc sock

end Methods

/-! ## New objects -/

inductive NewCall where
  | socketpair
  | setfl (fd : Descriptor) (flags : UInt32)

/-- What `socketpair` has made, or its `errno`; other replies are not looked at. -/
structure NewReply where
  pair : Except Nat (Descriptor × Descriptor)

/-- What `new_lua` does in the end: `nil` and a message; the two objects. -/
inductive NewResult where
  | raised (e : CError)
  | failed (errno : Nat)
  | objects (sock2 sock1 : Descriptor)

/-- `new_lua`. -/
def newLua {F U : Type} (args : List (Value F U)) : Dialogue NewCall NewReply NewResult :=
  let nonblock : Except CError Bool :=
    match argument args 1 with
    | none => .ok false
    | some (.boolean b) => .ok b
    | some _ => .error (.typeerror 1 "boolean".toList)
  match nonblock with
  | .error e => pure (.raised e)
  | .ok nonblock => do
      let r ← .query .socketpair
      match r.pair with
      | .error errno => pure (.failed errno)
      | .ok (fd0, fd1) =>
          if nonblock then do
            let _ ← .query (.setfl fd0 O_NONBLOCK)
            let _ ← .query (.setfl fd1 O_NONBLOCK)
            pure (.objects fd1 fd0)
          else pure (.objects fd1 fd0)

end Testcase
