import Mathlib.Data.List.Sort
import LuaTestcase.Lua.Value
import LuaTestcase.Trim

/-!
# `testcase.filesystem`

`lib/filesystem.lua` over an operating system given by the four calls the module makes.  The
working directory `CWD` is captured when the module is loaded and never changes afterwards, so it
is a field of the system rather than of a state.

The recursion of `walkdir` follows directories and is not bounded by anything in the code — a
symbolic link back to an ancestor is followed again and again until a system call fails — so the
model takes the depth as fuel.  `none` means that the fuel ran out and nothing is known about the
call; it is never an outcome of the code.
-/

namespace Testcase

/-- The values of `info.type` that `stat` can set. -/
inductive FileType where
  | file
  | directory
  | symlink
  | characterDevice
  | blockDevice
  | socket
  | fifo
deriving DecidableEq, Repr

/-- The system as `lib/filesystem.lua` sees it.  `readdir` gives the names the callback is called
with, in stream order, and the error the stream ended with if it did not end normally (an
unreadable directory is an empty stream that ends with the error). -/
structure Os where
  CWD : Str
  realpath : Str → Except SysError Str
  stat : Str → (followsymlinks : Bool) → Except SysError FileType
  readdir : Str → List Str × Option SysError

/-- `trim_cwd(pathname)`. -/
def trimCwd (CWD pathname : Str) : Str :=
  if sub pathname 1 CWD.length = CWD then trimPrefix (trimPrefix pathname CWD) ['/']
  else pathname

/-! ## `walkdir` -/

/-- The two tables the callback of `walkdir` appends to. -/
structure Scan where
  files : List Str
  dirs : List Str

/-- `find(entry, '^%.')`. -/
def isDotfile (entry : Str) : Bool := entry.head? == some '.'

/-- `sub(name, -#suffix) == suffix`. -/
def hasSuffix (name suffix : Str) : Bool := sub name (-suffix.length) (-1) == suffix

/-- The callback `walkdir` passes to `readdir`, with what it returns. -/
def onEntry (os : Os) (pathname suffix : Str) (scan : Scan) (entry : Str) :
    Scan × Option SysError :=
  if isDotfile entry then (scan, none)
  else
    let fullname := pathname ++ '/' :: entry
    match os.stat fullname true with
    | .error err => if err.type ≠ ENOENT then (scan, some err) else (scan, none)
    | .ok .directory => ({ scan with dirs := scan.dirs ++ [fullname] }, none)
    | .ok .file =>
        if hasSuffix entry suffix then
          ({ scan with files := scan.files ++ [trimCwd os.CWD fullname] }, none)
        else (scan, none)
    | .ok _ => (scan, none)

/-- The loop of `readdir`: the callback is called on the names in order, up to the first one it
returns a value for. -/
def readdirEach {σ : Type} (callback : σ → Str → σ × Option SysError) :
    List Str → σ → σ × Option SysError
  | [], s => (s, none)
  | entry :: rest, s =>
      match callback s entry with
      | (s', some err) => (s', some err)
      | (s', none) => readdirEach callback rest s'

/-- `readdir(pathname, callback)` with the callback of `walkdir`. -/
def scanDir (os : Os) (pathname suffix : Str) (files : List Str) : Scan × Option SysError :=
  match readdirEach (onEntry os pathname suffix) (os.readdir pathname).1 ⟨files, []⟩ with
  | (scan, some err) => (scan, some err)
  | (scan, none) => (scan, (os.readdir pathname).2)

/-- The loop of `walkdir` over the directories it found, up to the first error. -/
def eachDir (walk : List Str → Str → Option (List Str × Option SysError)) :
    List Str → List Str → Option (List Str × Option SysError)
  | [], files => some (files, none)
  | dir :: dirs, files =>
      match walk files dir with
      | none => none
      | some (files', some err) => some (files', some err)
      | some (files', none) => eachDir walk dirs files'

/-- `walkdir(files, pathname, suffix)`: the table `files` afterwards and the error returned. -/
def walkdir (os : Os) (suffix : Str) : Nat → List Str → Str → Option (List Str × Option SysError)
  | 0, _, _ => none
  | fuel + 1, files, pathname =>
      match scanDir os pathname suffix files with
      | (scan, some err) => some (scan.files, some err)
      | (scan, none) => eachDir (walkdir os suffix fuel) scan.dirs scan.files

/-! ## `getfiles`, `getstat` -/

/-- What `getfiles` returns: a table, `nil`, or `nil` and an error. -/
inductive FileList where
  | files (names : List Str)
  | notFound
  | failed (err : SysError)
deriving DecidableEq, Repr

/-- `table.sort` on strings.  The order is total, so every sorting algorithm has this result. -/
def sortNames (names : List Str) : List Str := names.insertionSort (· ≤ ·)

/-- The suffix `getfiles` looks for when it is given none. -/
def defaultSuffix : Str := "_test.lua".toList

/-- `getfiles(pathname, suffix)`. -/
def getfiles (os : Os) (fuel : Nat) (pathname : Str) (suffix : Option Str) : Option FileList :=
  match os.stat pathname true with
  | .error err => some (if err.type = ENOENT then .notFound else .failed err)
  | .ok .file => some (.files [trimCwd os.CWD pathname])
  | .ok .directory =>
      match walkdir os (suffix.getD defaultSuffix) fuel [] (trimSuffix pathname ['/']) with
      | none => none
      | some (_, some err) => some (.failed err)
      | some (files, none) => some (.files (sortNames files))
  | .ok _ => some (.files (sortNames []))

/-- `match(rpath, '([^/]+)/*$')`: the last run of bytes other than slashes. -/
def matchBasename (rpath : Str) : Option Str :=
  match (rpath.reverse.dropWhile (· = '/')).takeWhile (· ≠ '/') with
  | [] => none
  | c :: cs => some (c :: cs).reverse

/-- `match(pathname, '^(.+)/[^/]*$')`: what stands before the last slash, unless it is empty. -/
def matchDirname (pathname : Str) : Option Str :=
  match pathname.reverse.dropWhile (· ≠ '/') with
  | _ :: c :: cs => some (c :: cs).reverse
  | _ => none

/-- The fields `getstat` adds to the table `stat` returns. -/
structure PathInfo where
  realpath : Str
  basename : Str
  pathname : Str
  dirname : Str
deriving DecidableEq, Repr

/-- What `getstat` puts into its table for a file with real path `rpath`. -/
def pathInfo (CWD rpath : Str) : PathInfo where
  realpath := rpath
  basename := (matchBasename rpath).getD ['.']
  pathname := trimCwd CWD rpath
  dirname := (matchDirname (trimCwd CWD rpath)).getD
    (if sub (trimCwd CWD rpath) 1 1 = ['/'] then ['/'] else ['.'])

/-- `getstat(pathname)`: the table, or the error that comes with `nil` (`none` when `nil` comes
alone, which is how a missing file is reported). -/
def getstat (os : Os) (pathname : Str) : Except (Option SysError) PathInfo :=
  match os.realpath pathname with
  | .error err => .error (if err.type = ENOENT then none else some err)
  | .ok rpath =>
      match os.stat rpath false with
      | .error err => .error (some err)
      | .ok _ => .ok (pathInfo os.CWD rpath)

/-! ## What `trim_cwd` does to a string -/

/-- Behind a leading `CWD`, one leading slash goes as well. -/
@[simp] theorem trimCwd_append (CWD s : Str) : trimCwd CWD (CWD ++ s) = trimPrefix s ['/'] := by
  rw [trimCwd, if_pos ((sub_one_eq_iff _ _).mpr (List.prefix_append CWD s)), trimPrefix_append]

/-- Without a leading `CWD` the pathname is kept. -/
theorem trimCwd_of_not_leading {CWD pathname : Str} (h : ¬ CWD <+: pathname) :
    trimCwd CWD pathname = pathname := by
  rw [trimCwd, if_neg (fun h' => h ((sub_one_eq_iff _ _).mp h'))]

/-- A shortened name is no longer than the pathname. -/
theorem trimCwd_length_le (CWD pathname : Str) :
    (trimCwd CWD pathname).length ≤ pathname.length := by
  rw [trimCwd]
  split_ifs with hpre
  · exact (trimPrefix_length_le _ _).trans (trimPrefix_length_le _ _)
  · exact Nat.le_refl _

@[simp] theorem trimPrefix_slash (s : Str) : trimPrefix ('/' :: s) ['/'] = s :=
  trimPrefix_append ['/'] s

/-- A string that starts with no slash loses none. -/
theorem trimPrefix_slash_of_head {s : Str} (h : s.head? ≠ some '/') :
    trimPrefix s ['/'] = s := by
  refine trimPrefix_of_not_leading ?_
  rintro ⟨t, rfl⟩
  simp at h

end Testcase
