import LuaTestcase.Core.Dialogue
import LuaTestcase.Process.Def

/-!
# Process objects and the kernel

The functions of `src/fork.c` as dialogues with the kernel: what they ask are system calls.  One
process calls them, on its process objects, one after another, and between any two system calls
anything may happen to the processes of the system: the kernel hands out again the pid of a process
that was reaped.  A system call may fail at any time.

What a function does with the reply to its last system call is one step with the reply.  The object
that the `k`-th fork returned is the `k`-th object, and the table marks the child of that fork
with `k`.

* `waitLua`, `gcLua`, `forkLua` — the functions, on the value of `*p`.
* `ProcessTable.reply` — what the kernel does for a system call.
* `forker` — a process that calls the functions, among all others.
-/

namespace Testcase

/-! ## System calls -/

/-- `wstatus`: the process ended, with or without a core dump, was stopped, or continued. -/
inductive WaitStatus where
  | ended (e : End) (coredump : Bool)
  | stopped (sig : Nat)
  | continued
deriving DecidableEq

inductive WaitOption where
  | nohang
  | untraced
  | continued
deriving DecidableEq

inductive Syscall where
  | fork
  | waitpid (pid : Int) (options : List WaitOption)
  | kill (pid : Int) (sig : Nat)
  | exit (status : Nat)
deriving DecidableEq

/-- The value a system call returns, `errno`, and what `waitpid` stores. -/
structure SysReply where
  ret : Int
  errno : Nat
  wstatus : WaitStatus
deriving DecidableEq

def ECHILD : Nat := 10

def EAGAIN : Nat := 11

def ESRCH : Nat := 3

/-- A system call that failed; `wstatus` is still `0`. -/
def SysReply.failed (errno : Nat) : SysReply := ⟨-1, errno, .ended (.exited 0) false⟩

/-- A system call that stored no status. -/
def SysReply.returned (ret : Int) : SysReply := ⟨ret, 0, .ended (.exited 0) false⟩

/-! ## `src/fork.c` -/

/-- What a function returns: it raises an error; `nil` with a message and an `errno`; two `nil` and
`true`; a table; the process object; nothing. -/
inductive ProcResult where
  | raised (msg : Str)
  | failed (errno : Nat)
  | again
  | table (pid : Int) (status : WaitStatus)
  | object
  | nothing
deriving DecidableEq

/-- The fields of the table beside `pid`, where `none` is `true`. -/
def WaitStatus.fields : WaitStatus → List (Str × Option Int)
  | ended (.exited status) _ => [("exit".toList, some status)]
  | ended (.signalled sig) coredump =>
      ("sigterm".toList, some sig) :: if coredump then [("coredump".toList, none)] else []
  | stopped sig => [("sigstop".toList, some sig)]
  | continued => [("sigcont".toList, none)]

/-- The result reports that the child ended: its table has the field `exit` or `sigterm`. -/
def ProcResult.reportsEnd : ProcResult → Bool
  | table _ status =>
      status.fields.any fun f => f.1 = "exit".toList || f.1 = "sigterm".toList
  | _ => false

theorem reportsEnd_table {pid : Int} {status : WaitStatus} :
    (ProcResult.table pid status).reportsEnd = true ↔ ∃ e coredump, status = .ended e coredump := by
  cases status with
  | ended e coredump =>
      refine iff_of_true ?_ ⟨e, coredump, rfl⟩
      cases e with
      | exited status => rfl
      | signalled sig => rfl
  | stopped sig =>
      have h : (ProcResult.table pid (.stopped sig)).reportsEnd = false := rfl
      simp [h]
  | continued =>
      have h : (ProcResult.table pid .continued).reportsEnd = false := rfl
      simp [h]

/-- What is stored in `*p`, if anything, and what is returned. -/
structure ProcReturn where
  stored : Option Int
  result : ProcResult
deriving DecidableEq

/-- What `wait_lua` does with the reply. -/
def waited (pid : Int) (r : SysReply) : ProcReturn :=
  if r.ret = -1 then ⟨none, .failed r.errno⟩
  else
    match r.wstatus with
    | .ended e coredump => ⟨some (-pid), .table pid (.ended e coredump)⟩
    | .stopped sig => ⟨none, .table pid (.stopped sig)⟩
    | .continued => ⟨none, .table pid .continued⟩

/-- `wait_lua`. -/
def waitLua (pid : Int) : Dialogue Syscall SysReply ProcReturn :=
  if pid = 0 then
    pure ⟨none, .raised "cannot wait for self-process to terminate".toList⟩
  else if pid < 1 then pure ⟨none, .failed ECHILD⟩
  else do
    let r ← .query (.waitpid pid [.untraced, .continued])
    pure (waited pid r)

/-- The end of `gc_lua`. -/
def gcDone : Dialogue Syscall SysReply ProcReturn := pure ⟨none, .nothing⟩

/-- `gc_lua`, behind `kill`. -/
def gcKilled (pid : Int) (r : SysReply) : Dialogue Syscall SysReply ProcReturn :=
  if r.ret = 0 then do
    let _ ← .query (.waitpid pid [])
    gcDone
  else gcDone

/-- `gc_lua`, behind the first `waitpid`. -/
def gcProbed (pid : Int) (r : SysReply) : Dialogue Syscall SysReply ProcReturn :=
  if r.ret = 0 then do
    let r ← .query (.kill pid SIGKILL)
    gcKilled pid r
  else gcDone

/-- `gc_lua`. -/
def gcLua (pid : Int) : Dialogue Syscall SysReply ProcReturn :=
  if pid = 0 then do
    let _ ← .query (.exit 0)
    gcDone
  else if 1 < pid then do
    let r ← .query (.waitpid pid [.nohang])
    gcProbed pid r
  else gcDone

/-- What `fork_lua` does with the reply, in the parent. -/
def forked (r : SysReply) : ProcReturn :=
  if r.ret = -1 then
    if r.errno = EAGAIN then ⟨none, .again⟩ else ⟨none, .failed r.errno⟩
  else ⟨some r.ret, .object⟩

/-- `fork_lua`. -/
def forkLua : Dialogue Syscall SysReply ProcReturn := do
  let r ← .query .fork
  pure (forked r)

theorem waitLua_pos {pid : Int} (h : 0 < pid) :
    waitLua pid = .ask (.waitpid pid [.untraced, .continued]) fun r => .done (waited pid r) := by
  rw [waitLua, if_neg (by omega), if_neg (by omega)]
  rfl

/-- Without a child `wait_lua` asks nothing and stores nothing. -/
theorem waitLua_nonpos {pid : Int} (h : pid ≤ 0) :
    ∃ r, waitLua pid = .done ⟨none, r⟩ ∧ ∀ pid' status, r ≠ .table pid' status := by
  rw [waitLua]
  by_cases h0 : pid = 0
  · rw [if_pos h0]
    exact ⟨_, rfl, by simp⟩
  · rw [if_neg h0, if_pos (by omega)]
    exact ⟨_, rfl, by simp⟩

theorem gcLua_zero : gcLua 0 = .ask (.exit 0) fun _ => gcDone := rfl

theorem gcLua_child {pid : Int} (h : 1 < pid) :
    gcLua pid = .ask (.waitpid pid [.nohang]) (gcProbed pid) := by
  rw [gcLua, if_neg (by omega), if_pos h]
  rfl

theorem gcLua_other {pid : Int} (h0 : pid ≠ 0) (h : ¬ 1 < pid) : gcLua pid = gcDone := by
  rw [gcLua, if_neg h0, if_neg h]

/-! ## The table of processes -/

inductive RunState where
  | running
  | stopped (sig : Nat)
  | zombie (e : End) (coredump : Bool)
deriving DecidableEq

/-- A process that was not reaped.  If `fork` is `some k`, it is the child of the fork that returned
the `k`-th object. -/
structure KernelProcess where
  pid : Int
  fork : Option Nat
  state : RunState
deriving DecidableEq

abbrev ProcessTable : Type := List KernelProcess

namespace ProcessTable

/-- The process that has the pid. -/
def process? (t : ProcessTable) (pid : Int) : Option KernelProcess := t.find? (·.pid == pid)

/-- No process has the pid. -/
def unused (t : ProcessTable) (pid : Int) : Bool := 0 < pid && t.all (·.pid != pid)

/-- The process is gone, and its pid free. -/
def reap (t : ProcessTable) (pid : Int) : ProcessTable := t.filter (·.pid != pid)

/-- A process that has not ended runs, is stopped or ends. -/
def change (t : ProcessTable) (pid : Int) (state : RunState) : ProcessTable :=
  t.map fun q =>
    match q.state with
    | .zombie _ _ => q
    | _ => if q.pid = pid then { q with state := state } else q

/-- A process that the process did not fork is gone. -/
def vanish (t : ProcessTable) (pid : Int) : ProcessTable :=
  t.filter fun q => !(q.pid == pid && q.fork.isNone)

/-- `waitpid`.  `news` tells whether there is a stop or a continuation to report.  There is no reply
as long as it blocks. -/
def waitpid (t : ProcessTable) (pid : Int) (options : List WaitOption) (news : Bool) :
    Option (SysReply × ProcessTable) :=
  match t.process? pid with
  | some ⟨_, some _, state⟩ =>
      match state with
      | .zombie e coredump => some (⟨pid, 0, .ended e coredump⟩, t.reap pid)
      | .stopped sig =>
          if .untraced ∈ options ∧ news then some (⟨pid, 0, .stopped sig⟩, t)
          else if .nohang ∈ options then some (.returned 0, t)
          else none
      | .running =>
          if .continued ∈ options ∧ news then some (⟨pid, 0, .continued⟩, t)
          else if .nohang ∈ options then some (.returned 0, t)
          else none
  | _ => some (.failed ECHILD, t)

end ProcessTable

/-- What the kernel may choose: that the call fails, the pid of a new process, and whether
`waitpid` has news to report. -/
inductive KernelChoice where
  | fails (errno : Nat)
  | pid (pid : Int)
  | news (news : Bool)
deriving DecidableEq

/-- The reply to a system call, and the table afterwards.  The process that a fork creates is marked
with `k`.  A signal that was sent takes effect later. -/
def ProcessTable.reply (t : ProcessTable) (k : Nat) :
    Syscall → KernelChoice → Option (SysReply × ProcessTable)
  | .exit _, _ => none
  | _, .fails errno => some (.failed errno, t)
  | .fork, .pid pid =>
      if t.unused pid then some (.returned pid, t ++ [⟨pid, some k, .running⟩]) else none
  | .waitpid pid options, .news news => t.waitpid pid options news
  | .kill pid _, .news _ =>
      match t.process? pid with
      | some _ => some (.returned 0, t)
      | none => some (.failed ESRCH, t)
  | _, _ => none

/-! ## A process that forks -/

/-- A process object. -/
structure ProcObject where
  p : Int
  collected : Bool
deriving DecidableEq

/-- Who makes a system call: `fork`, or a method of the `k`-th object. -/
inductive ProcCaller where
  | fork
  | wait (k : Nat)
  | gc (k : Nat)
deriving DecidableEq

/-- The object that a caller works on. -/
def ProcCaller.object? : ProcCaller → Option Nat
  | fork => none
  | wait k => some k
  | gc k => some k

/-- A call in progress. -/
structure ProcJob where
  caller : ProcCaller
  rest : Dialogue Syscall SysReply ProcReturn

/-- The table of the kernel, the objects of the process and what it is doing. -/
structure Forker where
  table : ProcessTable
  objects : List ProcObject
  job : Option ProcJob

/-- Objects for itself, and no children. -/
def Forker.start (n : Nat) : Forker := ⟨[], List.replicate n ⟨0, false⟩, none⟩

/-- A call, a reply of the kernel, or something that happens to a process. -/
inductive ForkerTurn where
  | call (caller : ProcCaller)
  | reply (choice : KernelChoice)
  | change (pid : Int) (state : RunState)
  | appear (pid : Int)
  | vanish (pid : Int)
deriving DecidableEq

/-- A system call, with the process that had the pid; and a function that returned. -/
inductive ForkerEvent where
  | asked (caller : ProcCaller) (call : Syscall) (found : Option KernelProcess)
  | returned (caller : ProcCaller) (result : ProcResult)
deriving DecidableEq

/-- The pid a system call is about. -/
def Syscall.target? : Syscall → Option Int
  | fork => none
  | waitpid pid _ => some pid
  | kill pid _ => some pid
  | exit _ => none

/-- The objects, when a function has returned. -/
def ProcCaller.store (objects : List ProcObject) (stored : Option Int) :
    ProcCaller → List ProcObject
  | fork =>
      match stored with
      | some pid => objects ++ [⟨pid, false⟩]
      | none => objects
  | wait k =>
      match stored with
      | some pid => objects.modify k fun o => { o with p := pid }
      | none => objects
  | gc _ => objects

/-- A function that has nothing more to ask returns. -/
def Forker.settle (s : Forker) : Forker × List ForkerEvent :=
  match s.job with
  | some ⟨caller, .done r⟩ =>
      ({ s with objects := caller.store s.objects r.stored, job := none },
        [.returned caller r.result])
  | _ => (s, [])

/-- A call of the program.  An object is collected once, and not used any more. -/
def Forker.call (s : Forker) : ProcCaller → Forker × List ForkerEvent
  | .fork => { s with job := some ⟨.fork, forkLua⟩ }.settle
  | .wait k =>
      match s.objects[k]? with
      | some ⟨p, false⟩ => { s with job := some ⟨.wait k, waitLua p⟩ }.settle
      | _ => (s, [])
  | .gc k =>
      match s.objects[k]? with
      | some ⟨p, false⟩ =>
          { s with
            objects := s.objects.set k ⟨p, true⟩
            job := some ⟨.gc k, gcLua p⟩ }.settle
      | _ => (s, [])

/-- The machine.  What is not possible does not happen. -/
def forker : Machine Forker ForkerTurn ForkerEvent := fun s turn =>
  match turn with
  | .call caller =>
      match s.job with
      | none => s.call caller
      | some _ => (s, [])
  | .reply choice =>
      match s.job with
      | some ⟨caller, .ask q next⟩ =>
          match s.table.reply s.objects.length q choice with
          | some (r, t) =>
              let (s', es) := { s with table := t, job := some ⟨caller, next r⟩ }.settle
              (s', .asked caller q (q.target?.bind s.table.process?) :: es)
          | none => (s, [])
      | _ => (s, [])
  | .change pid state => ({ s with table := s.table.change pid state }, [])
  | .appear pid =>
      if s.table.unused pid then ({ s with table := s.table ++ [⟨pid, none, .running⟩] }, [])
      else (s, [])
  | .vanish pid => ({ s with table := s.table.vanish pid }, [])

end Testcase
