import LuaTestcase.Filesystem.Def
import LuaTestcase.Lua.Stack

/-!
# `testcase.readdir`

`readdir_lua` of `src/readdir.c` on its Lua stack.  The end of a directory and a read error look
alike: `readdir` returns no entry, and only `errno` tells them apart.  The callback is any function:
it changes a world of which nothing is known, returns a value or raises an error, and leaves
anything in `errno`.  A successful `closedir` leaves `errno` alone.

* `readdirLua` — the function, which keeps a record of its stack.
* `entryLoop_raised`, `entryLoop_returned`, `entryLoop_nil` — one iteration, by what the callback
  does.
-/

namespace Testcase

/-! ## Directory streams -/

/-- What `errno` is after a failure. -/
structure Errno where
  val : Nat
  pos : 0 < val

/-- An entry, and what reading it leaves in `errno`. -/
structure Dirent where
  d_name : Str
  errno : Nat

inductive StreamEnd where
  | normal
  | error (e : Errno)

/-- What `readdir` returns, call after call. -/
structure DirStream where
  entries : List Dirent
  ending : StreamEnd

def DirStream.names (dir : DirStream) : List Str := dir.entries.map Dirent.d_name

/-! ## The callback -/

variable {σ F U : Type}

/-- A call of the callback: the world and `errno` afterwards, and the error it raised or the first
value it returned, which is `nil` if there is none. -/
structure Called (σ F U : Type) where
  world : σ
  result : Except (Value F U) (Value F U)
  errno : Nat

/-- What a function does in a world when it is called on a name. -/
abbrev NameFunction (σ F U : Type) : Type := F → σ → Str → Called σ F U

/-! ## `readdir_lua` -/

inductive ReaddirEvent where
  | called (name : Str)
  | closed
deriving DecidableEq

/-- The stack and `errno`, the world, and what is observed.  `slots` is the greatest number of slots
in use so far, `heads` are the heights of the stack at the head of the loop. -/
structure ReaddirState (σ F U : Type) where
  stack : LuaStack (Value F U)
  slots : Nat
  heads : List Nat
  errno : Nat
  world : σ
  log : List ReaddirEvent

namespace ReaddirState

def push (s : ReaddirState σ F U) (v : Value F U) : ReaddirState σ F U :=
  { s with stack := s.stack ++ [v], slots := max s.slots (s.stack.length + 1) }

/-- `lua_pushvalue(L, i)`. -/
def pushvalue (s : ReaddirState σ F U) (i : Int) : ReaddirState σ F U :=
  s.push ((s.stack.slot? i).getD .nil)

/-- `lua_type(L, -1)`. -/
def topType (s : ReaddirState σ F U) : LuaType := ((s.stack.slot? (-1)).getD .nil).type

/-- `closedir(dir)`. -/
def closedir (s : ReaddirState σ F U) : ReaddirState σ F U :=
  { s with log := s.log ++ [.closed] }

/-- `lua_pcall(L, 1, 1, 0)` of a function on a name; it returns whether there was no error. -/
def pcall (calls : NameFunction σ F U) (s : ReaddirState σ F U) : ReaddirState σ F U × Bool :=
  match s.stack.slot? (-2), s.stack.slot? (-1) with
  | some (.function f), some (.string name) =>
      let c := calls f s.world name
      let s : ReaddirState σ F U := { s with
        stack := s.stack.pop 2
        errno := c.errno
        world := c.world
        log := s.log ++ [.called name] }
      match c.result with
      | .error v => (s.push v, false)
      | .ok v => (s.push v, true)
  | _, _ => (s, false)

/-- `lua_errno_new(L, errno, "readdir")`. -/
def pushErrno (s : ReaddirState σ F U) : ReaddirState σ F U :=
  s.push (.error ⟨s.errno, "readdir".toList⟩)

/-- `lua_error_new(L, -1)`, where `errorNew` wraps a value. -/
def pushError (errorNew : Value F U → Value F U) (s : ReaddirState σ F U) : ReaddirState σ F U :=
  s.push (errorNew ((s.stack.slot? (-1)).getD .nil))

end ReaddirState

/-- The loop over the entries that are left, and what follows it. -/
def entryLoop (calls : NameFunction σ F U) (errorNew : Value F U → Value F U) (ending : StreamEnd) :
    List Dirent → ReaddirState σ F U → ReaddirState σ F U
  | [], s =>
      let s :=
        match ending with
        | .normal => s
        | .error e => { s with errno := e.val }
      let s := s.closedir
      if s.errno ≠ 0 then s.pushErrno else s.push .nil
  | entry :: rest, s =>
      let s : ReaddirState σ F U :=
        { s with errno := entry.errno, heads := s.heads ++ [s.stack.gettop] }
      let s := s.pushvalue 2
      let s := s.push (.string entry.d_name)
      let (s, ok) := s.pcall calls
      if ok = false then (s.closedir).pushError errorNew
      else if 2 < s.stack.gettop ∧ s.topType ≠ .nil then s.closedir
      else entryLoop calls errorNew ending rest { s with errno := 0 }

/-- `readdir_lua`, with a pathname and a function and more arguments, which are dropped.  The slots
are counted from then on. -/
def readdirLua (calls : NameFunction σ F U) (errorNew : Value F U → Value F U)
    (opendir : Str → Except Errno DirStream) (path : Str) (f : F) (more : List (Value F U))
    (world : σ) : ReaddirState σ F U :=
  let stack := LuaStack.settop .nil (.string path :: .function f :: more) 2
  match opendir path with
  | .error e => (ReaddirState.mk stack 2 [] e.val world []).pushErrno
  | .ok dir => entryLoop calls errorNew dir.ending dir.entries ⟨stack, 2, [], 0, world, []⟩

/-- `return 1`. -/
def ReaddirState.returned (s : ReaddirState σ F U) : Option (Value F U) := s.stack.slot? (-1)

@[simp] theorem returned_push (s : ReaddirState σ F U) (v : Value F U) :
    (s.push v).returned = some v :=
  LuaStack.slot?_top _ _

theorem type_eq_nil {v : Value F U} : v.type = .nil ↔ v = .nil := by
  rcases v with _ | b | n | s | f | e | ⟨_ | _ | _ | _, u⟩ <;> simp [Value.type]

/-! ## One iteration -/

/-- What holds at the head of the loop: the function is in its slot, and `errno` is `0`. -/
structure ReaddirState.Ready (f : F) (s : ReaddirState σ F U) : Prop where
  height : 2 ≤ s.stack.length
  function : s.stack.slot? 2 = some (.function f)
  errno : s.errno = 0

/-- The state behind the call of the callback, which left a value on the stack. -/
def ReaddirState.behind (s : ReaddirState σ F U) (name : Str) (c : Called σ F U) (v : Value F U) :
    ReaddirState σ F U where
  stack := s.stack ++ [v]
  slots := max s.slots (s.stack.length + 2)
  heads := s.heads ++ [s.stack.length]
  errno := c.errno
  world := c.world
  log := s.log ++ [.called name]

section Iteration

variable {calls : NameFunction σ F U} {errorNew : Value F U → Value F U} {ending : StreamEnd}
  {f : F} {s : ReaddirState σ F U} {entry : Dirent} {rest : List Dirent} {v : Value F U}

theorem ReaddirState.Ready.behind (h : s.Ready f) (name : Str) (c : Called σ F U) :
    ({ s.behind name c v with errno := 0 } : ReaddirState σ F U).Ready f := by
  have hlen := h.height
  refine ⟨?_, ?_, rfl⟩
  · show 2 ≤ (s.stack ++ [v]).length
    rw [List.length_append]
    omega
  · show (s.stack ++ [v]).slot? 2 = _
    rw [LuaStack.slot?_append (by decide) (by omega)]
    exact h.function

/-- What is on the stack when the callback is called. -/
def ReaddirState.entered (s : ReaddirState σ F U) (entry : Dirent) : ReaddirState σ F U :=
  (({ s with errno := entry.errno, heads := s.heads ++ [s.stack.gettop] } :
    ReaddirState σ F U).pushvalue 2).push (.string entry.d_name)

theorem entered_stack (entry : Dirent) (h : s.Ready f) :
    (s.entered entry).stack = s.stack ++ [.function f, .string entry.d_name] := by
  show (s.stack ++ [(s.stack.slot? 2).getD .nil]) ++ [.string entry.d_name] = _
  rw [h.function, List.append_assoc]
  rfl

theorem entered_slots : (s.entered entry).slots = max s.slots (s.stack.length + 2) := by
  show max (max s.slots (s.stack.length + 1)) ((s.stack ++ [_]).length + 1) = _
  rw [List.length_append, List.length_singleton]
  omega

/-- The call takes the two values off again and leaves one. -/
theorem pcall_entered (calls : NameFunction σ F U) (entry : Dirent) (h : s.Ready f) :
    (s.entered entry).pcall calls =
      match (calls f s.world entry.d_name).result with
      | .error v => (s.behind entry.d_name (calls f s.world entry.d_name) v, false)
      | .ok v => (s.behind entry.d_name (calls f s.world entry.d_name) v, true) := by
  have hstack := entered_stack entry h
  have hbelow : (s.entered entry).stack.slot? (-2) = some (.function f) := by
    rw [hstack, LuaStack.slot?_below]
  have htop : (s.entered entry).stack.slot? (-1) = some (.string entry.d_name) := by
    rw [hstack, List.append_cons, LuaStack.slot?_top]
  have hpop : (s.entered entry).stack.pop 2 = s.stack := by
    rw [hstack]
    exact LuaStack.pop_append s.stack [_, _]
  have hslots : max (s.entered entry).slots (s.stack.length + 1) =
      max s.slots (s.stack.length + 2) := by
    rw [entered_slots]
    omega
  simp only [ReaddirState.pcall, hbelow, htop, hpop]
  rcases hresult : (calls f (s.entered entry).world entry.d_name).result with v | v
  · have hresult : (calls f s.world entry.d_name).result = .error v := hresult
    rw [hresult]
    simp only [ReaddirState.push, hslots]
    rfl
  · have hresult : (calls f s.world entry.d_name).result = .ok v := hresult
    rw [hresult]
    simp only [ReaddirState.push, hslots]
    rfl

theorem behind_returned (name : Str) (c : Called σ F U) (v : Value F U) :
    (s.behind name c v).returned = some v :=
  LuaStack.slot?_top _ _

theorem behind_top (name : Str) (c : Called σ F U) (v : Value F U) :
    (s.behind name c v).topType = v.type := by
  rw [ReaddirState.topType, ← ReaddirState.returned, behind_returned]
  rfl

/-- `errno` when the stream has ended. -/
def StreamEnd.errno : StreamEnd → Nat
  | normal => 0
  | error e => e.val

/-- What is returned when the stream has ended. -/
def StreamEnd.result : StreamEnd → Value F U
  | normal => .nil
  | error e => .error ⟨e.val, "readdir".toList⟩

/-- Behind the last entry. -/
theorem entryLoop_end (h : s.Ready f) :
    entryLoop calls errorNew ending [] s =
      ({ s with errno := ending.errno } : ReaddirState σ F U).closedir.push ending.result := by
  cases ending with
  | normal =>
      have hs : ({ s with errno := StreamEnd.normal.errno } : ReaddirState σ F U) = s := by
        rw [StreamEnd.errno, ← h.errno]
      rw [hs]
      exact if_neg (fun hne => hne h.errno)
  | error e => exact if_pos (Nat.ne_of_gt e.pos)

/-- One iteration. -/
theorem entryLoop_cons (entry : Dirent) (rest : List Dirent) (s : ReaddirState σ F U) :
    entryLoop calls errorNew ending (entry :: rest) s =
      if ((s.entered entry).pcall calls).2 = false then
        ((s.entered entry).pcall calls).1.closedir.pushError errorNew
      else if 2 < ((s.entered entry).pcall calls).1.stack.gettop ∧
          ((s.entered entry).pcall calls).1.topType ≠ .nil then
        ((s.entered entry).pcall calls).1.closedir
      else
        entryLoop calls errorNew ending rest
          { ((s.entered entry).pcall calls).1 with errno := 0 } := rfl

/-- The callback raises an error. -/
theorem entryLoop_raised (h : s.Ready f)
    (hv : (calls f s.world entry.d_name).result = .error v) :
    entryLoop calls errorNew ending (entry :: rest) s =
      (s.behind entry.d_name (calls f s.world entry.d_name) v).closedir.push (errorNew v) := by
  have hcall := pcall_entered calls entry h
  rw [hv] at hcall
  rw [entryLoop_cons, hcall, if_pos rfl, ReaddirState.pushError]
  have htop : (s.behind entry.d_name (calls f s.world entry.d_name) v).stack.slot? (-1) = some v :=
    behind_returned entry.d_name (calls f s.world entry.d_name) v
  rw [ReaddirState.closedir, htop]
  rfl

/-- The callback returns a value that is not `nil`. -/
theorem entryLoop_returned (h : s.Ready f)
    (hv : (calls f s.world entry.d_name).result = .ok v) (hnil : v ≠ .nil) :
    entryLoop calls errorNew ending (entry :: rest) s =
      (s.behind entry.d_name (calls f s.world entry.d_name) v).closedir := by
  have hcall := pcall_entered calls entry h
  rw [hv] at hcall
  have hlen := h.height
  have htop : 2 < (s.behind entry.d_name (calls f s.world entry.d_name) v).stack.gettop := by
    show 2 < (s.stack ++ [v]).length
    rw [List.length_append, List.length_singleton]
    omega
  have htype : (s.behind entry.d_name (calls f s.world entry.d_name) v).topType ≠ .nil := by
    rw [behind_top]
    exact fun ht => hnil (type_eq_nil.mp ht)
  rw [entryLoop_cons, hcall, if_neg (by simp), if_pos ⟨htop, htype⟩]

/-- The callback returns `nil`: it stays on the stack. -/
theorem entryLoop_nil (h : s.Ready f) (hv : (calls f s.world entry.d_name).result = .ok .nil) :
    entryLoop calls errorNew ending (entry :: rest) s =
      entryLoop calls errorNew ending rest
        { s.behind entry.d_name (calls f s.world entry.d_name) .nil with errno := 0 } := by
  have hcall := pcall_entered calls entry h
  rw [hv] at hcall
  rw [entryLoop_cons, hcall, if_neg (by simp), if_neg]
  rintro ⟨-, hne⟩
  rw [behind_top] at hne
  exact hne rfl

end Iteration

/-- The state when the directory has been opened. -/
def ReaddirState.opened (path : Str) (f : F) (world : σ) : ReaddirState σ F U :=
  ⟨[.string path, .function f], 2, [], 0, world, []⟩

theorem ready_opened (path : Str) (f : F) (world : σ) :
    (ReaddirState.opened path f world : ReaddirState σ F U).Ready f :=
  ⟨le_refl 2, rfl, rfl⟩

theorem readdirLua_eq {calls : NameFunction σ F U} {errorNew : Value F U → Value F U}
    {opendir : Str → Except Errno DirStream} {path : Str} {dir : DirStream}
    (h : opendir path = .ok dir) (f : F) (more : List (Value F U)) (world : σ) :
    readdirLua calls errorNew opendir path f more world =
      entryLoop calls errorNew dir.ending dir.entries (.opened path f world) := by
  have hstack : LuaStack.settop (.nil : Value F U) ([.string path, .function f] ++ more) 2 =
      [.string path, .function f] := LuaStack.settop_of_le
  rw [readdirLua, h]
  show entryLoop _ _ _ _
    ⟨LuaStack.settop .nil ([.string path, .function f] ++ more) 2, _, _, _, _, _⟩ = _
  rw [hstack]
  rfl

end Testcase
