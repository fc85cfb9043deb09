import LuaTestcase.Core.Inodes
import LuaTestcase.Core.Kernel
import LuaTestcase.Filesystem.Def
import LuaTestcase.Lua.Arguments

/-!
# `testcase.fstat` and `testcase.stat`

`src/fstat.c` opens the file and asks for the status of the descriptor, `src/stat.c` asks for the
status of the path.  What they make of it is the same text in both, and one definition here.

* `fstatLua`, `statLua` — the functions, as dialogues with the operating system.
* `StatKernel` — the system, with files of which some are symbolic links.
-/

namespace Testcase

/-! ## The status of a file -/

/-- `struct stat`. -/
structure StatBuf where
  st_dev : UInt64
  st_ino : UInt64
  st_mode : UInt32
  st_nlink : UInt64
  st_uid : UInt32
  st_gid : UInt32
  st_rdev : UInt64
  st_size : Int64
  st_blksize : Int64
  st_blocks : Int64
  st_atime : Int64
  st_mtime : Int64
  st_ctime : Int64
deriving DecidableEq

/-- `{0}`. -/
def StatBuf.zero : StatBuf := ⟨0, 0, 0, 0, 0, 0, 0, 0, 0, 0, 0, 0, 0⟩

def S_IFMT : UInt32 := 61440

/-- `S_IFREG`, `S_IFDIR`, `S_IFLNK`, `S_IFCHR`, `S_IFBLK`, `S_IFSOCK` and `S_IFIFO`. -/
def FileType.bits : FileType → UInt32
  | file => 32768
  | directory => 16384
  | symlink => 40960
  | characterDevice => 8192
  | blockDevice => 24576
  | socket => 49152
  | fifo => 4096

/-- The string of the field `type`. -/
def FileType.name : FileType → Str
  | file => "file".toList
  | directory => "directory".toList
  | symlink => "symlink".toList
  | characterDevice => "character_device".toList
  | blockDevice => "block_device".toList
  | socket => "socket".toList
  | fifo => "fifo".toList

/-- `switch (buf.st_mode & S_IFMT)`. -/
def fileType (st_mode : UInt32) : Option FileType :=
  [.file, .directory, .symlink, .characterDevice, .blockDevice, .socket, .fifo].find?
    fun type : FileType => st_mode &&& S_IFMT = type.bits

/-- `snprintf(perm, sizeof(perm), "%#o", st_mode & 01777)`. -/
def perm (st_mode : UInt32) : Str :=
  let bits := (st_mode &&& 1023).toNat
  if bits = 0 then ['0'] else '0' :: Nat.toDigits 8 bits

section Functions

variable {F U : Type}

/-- The fields that are set, in order. -/
def statTable (buf : StatBuf) : List (Str × Value F U) :=
  [("dev".toList, .integer buf.st_dev.toInt64.toInt),
    ("ino".toList, .integer buf.st_ino.toInt64.toInt),
    ("mode".toList, .integer buf.st_mode.toNat),
    ("nlink".toList, .integer buf.st_nlink.toInt64.toInt),
    ("uid".toList, .integer buf.st_uid.toNat),
    ("gid".toList, .integer buf.st_gid.toNat),
    ("rdev".toList, .integer buf.st_rdev.toInt64.toInt),
    ("size".toList, .integer buf.st_size.toInt),
    ("blksize".toList, .integer buf.st_blksize.toInt),
    ("blocks".toList, .integer buf.st_blocks.toInt),
    ("atime".toList, .integer buf.st_atime.toInt),
    ("mtime".toList, .integer buf.st_mtime.toInt),
    ("ctime".toList, .integer buf.st_ctime.toInt),
    ("perm".toList, .string (perm buf.st_mode))] ++
  match fileType buf.st_mode with
  | some type => [("type".toList, .string type.name)]
  | none => []

/-! ## The functions -/

def O_RDONLY : UInt32 := 0

def O_CLOEXEC : UInt32 := 524288

def O_NOFOLLOW : UInt32 := 131072

inductive StatCall where
  | open (path : Str) (flags : UInt32)
  | fstat (fd : Int32)
  | close (fd : Int32)
  | stat (path : Str)
  | lstat (path : Str)

/-- The value a call returns, `errno`, and what is stored in `buf`. -/
structure StatReply where
  ret : Int32
  errno : Nat
  buf : StatBuf

/-- What a function does in the end: it raises an error; `nil` with an error object; a table. -/
inductive StatResult (F U : Type) where
  | raised (e : CError)
  | failed (err : SysError)
  | table (fields : List (Str × Value F U))

variable (lib : CLib F U) (args : List (Value F U))

/-- The arguments of both: the path, and whether a link at its end is followed. -/
def checkStatArgs : Except CError (Str × Bool) :=
  match checkstring lib args 1 with
  | .error e => .error e
  | .ok path =>
      if isnoneornil args 2 then .ok (path, true)
      else
        match argument args 2 with
        | some (.boolean followsymlinks) => .ok (path, followsymlinks)
        | _ => .error (.typeerror 2 "boolean".toList)

/-- `fstat_lua`. -/
def fstatLua : Dialogue StatCall StatReply (StatResult F U) :=
  match checkStatArgs lib args with
  | .error e => pure (.raised e)
  | .ok (path, followsymlinks) => do
      let flgs := O_RDONLY ||| O_CLOEXEC
      let flgs := if followsymlinks then flgs else flgs ||| O_NOFOLLOW
      let opened ← .query (.open (cstr path) flgs)
      if opened.ret = -1 then pure (.failed ⟨opened.errno, "fstat".toList⟩)
      else do
        let r ← .query (.fstat opened.ret)
        let closed ← .query (.close opened.ret)
        -- `errno` is read after `close`, which may have set it
        let errno := if closed.ret = -1 then closed.errno else r.errno
        if r.ret = -1 then pure (.failed ⟨errno, "fstat".toList⟩)
        else pure (.table (statTable r.buf))

/-- `stat_lua`. -/
def statLua : Dialogue StatCall StatReply (StatResult F U) :=
  match checkStatArgs lib args with
  | .error e => pure (.raised e)
  | .ok (path, followsymlinks) => do
      let r ← .query (if followsymlinks then .stat (cstr path) else .lstat (cstr path))
      if r.ret = -1 then pure (.failed ⟨r.errno, "stat".toList⟩)
      else pure (.table (statTable r.buf))

end Functions

/-! ## File systems -/

/-- The `errno` of a pathname that denotes nothing. -/
def PathError.errno : PathError → Nat
  | noent => ENOENT
  | notdir => 20
  | acces => 13
  | loop => 40

/-- What becomes of opening a file for reading: a FIFO waits for a writer. -/
inductive Opening where
  | opens
  | fails (errno : Nat)
  | blocks
deriving DecidableEq

/-- Files with their status, and how they are opened for reading. -/
structure FileSystem (I : Type) extends Inodes I where
  status : I → StatBuf
  opening : I → Opening
  symlink_bits : ∀ i, (node i).isSymlink = true ↔ fileType (status i).st_mode = some .symlink
  blocking_type : ∀ i, opening i = .blocks →
    fileType (status i).st_mode ≠ some .file ∧ fileType (status i).st_mode ≠ some .directory

/-- A file system, and the number that the next descriptor gets. -/
structure StatKernel (I : Type) where
  fs : FileSystem I
  fd : Descriptor

/-- The descriptors that are open, with their files. -/
abbrev OpenFiles (I : Type) : Type := Int32 → Option I

section FileSystems

variable {I : Type}

/-- The answer of a call that fails. -/
def StatReply.error (errno : Nat) : StatReply := ⟨-1, errno, .zero⟩

/-- What `open(path, flags)` finds, for reading. -/
def FileSystem.openFile (fs : FileSystem I) (path : Str) (flags : UInt32) : Except Nat I :=
  match fs.resolve (flags &&& O_NOFOLLOW = 0) path with
  | .error e => .error e.errno
  | .ok i => if (fs.node i).isSymlink then .error PathError.loop.errno else .ok i

/-- `stat(path)` and `lstat(path)`. -/
def FileSystem.statPath (fs : FileSystem I) (follow : Bool) (path : Str) : StatReply :=
  match fs.resolve follow path with
  | .error e => .error e.errno
  | .ok i => ⟨0, 0, fs.status i⟩

/-- `none`: the call does not return. -/
def StatKernel.reply (K : StatKernel I) (files : OpenFiles I) :
    StatCall → Option (OpenFiles I × StatReply)
  | .open path flags =>
      match K.fs.openFile path flags with
      | .error errno => some (files, .error errno)
      | .ok i =>
          match K.fs.opening i with
          | .opens => some (Function.update files K.fd.num (some i), ⟨K.fd.num, 0, .zero⟩)
          | .fails errno => some (files, .error errno)
          | .blocks => none
  | .fstat fd =>
      match files fd with
      | none => some (files, .error 9)
      | some i => some (files, ⟨0, 0, K.fs.status i⟩)
  | .close fd =>
      match files fd with
      | none => some (files, .error 9)
      | some _ => some (Function.update files fd none, ⟨0, 0, .zero⟩)
  | .stat path => some (files, K.fs.statPath true path)
  | .lstat path => some (files, K.fs.statPath false path)

end FileSystems

end Testcase
