import LuaTestcase.Filesystem.Stat

/-!
# `fstat` and `stat` on one file

Both functions are called with a path and a value for `followsymlinks`.  `stat` asks for the status
of the path, and `fstat` opens it first: with `O_NOFOLLOW`, a path that ends at a symbolic link is
not opened, and opening a FIFO waits until it is written to.

* `statResult_eq`, `fstatResult_eq` — **what the functions return**.
* `stats_agree` — **they agree on a file that can be read** unless it is a link that is not to be
  followed, or one to a file that makes `open` wait.
-/

namespace Testcase

/-- The second argument: omitted, `nil`, or a boolean. -/
inductive FollowArg where
  | omitted
  | nil
  | boolean (b : Bool)

section Agreement

variable {F U I : Type}

def FollowArg.args : FollowArg → List (Value F U)
  | omitted => []
  | nil => [.nil]
  | boolean b => [.boolean b]

/-- Links are followed by default. -/
def FollowArg.follows : FollowArg → Bool
  | boolean b => b
  | _ => true

variable (lib : CLib F U) (K : StatKernel I) (files : OpenFiles I) (path : Str) (opt : FollowArg)

/-- `testcase.fstat(path, followsymlinks)`; `none` if it does not return. -/
def fstatResult : Option (StatResult F U) :=
  ((fstatLua lib (.string path :: opt.args)).await K.reply files).map (·.result)

/-- `testcase.stat(path, followsymlinks)`. -/
def statResult : Option (StatResult F U) :=
  ((statLua lib (.string path :: opt.args)).await K.reply files).map (·.result)

theorem checkStatArgs_eq :
    checkStatArgs lib (.string path :: opt.args) = .ok (path, opt.follows) := by
  cases opt with
  | omitted => rfl
  | nil => rfl
  | boolean b => rfl

/-! ## What the functions return -/

/-- What `stat_lua` returns. -/
theorem statResult_eq :
    statResult lib K files path opt = some
      (match K.fs.resolve opt.follows (cstr path) with
      | .error e => .failed ⟨e.errno, "stat".toList⟩
      | .ok i => .table (statTable (K.fs.status i))) := by
  have hreply : K.reply files (if opt.follows then .stat (cstr path) else .lstat (cstr path)) =
      some (files, K.fs.statPath opt.follows (cstr path)) := by
    cases opt.follows with
    | true => rfl
    | false => rfl
  rw [statResult, statLua, checkStatArgs_eq]
  rw [FileSystem.statPath] at hreply
  cases hpath : K.fs.resolve opt.follows (cstr path) with
  | error e =>
      rw [hpath] at hreply
      exact congrArg (Option.map Dialogue.Served.result) (Dialogue.await_query hreply)
  | ok i =>
      rw [hpath] at hreply
      exact congrArg (Option.map Dialogue.Served.result) (Dialogue.await_query hreply)

/-- The flags of `open`. -/
def openFlags (follow : Bool) : UInt32 :=
  if follow then O_RDONLY ||| O_CLOEXEC else O_RDONLY ||| O_CLOEXEC ||| O_NOFOLLOW

theorem nofollow_flag (follow : Bool) :
    decide (openFlags follow &&& O_NOFOLLOW = 0) = follow := by
  cases follow with
  | true => decide
  | false => decide

variable {lib K files path opt}

theorem openFile_error {follow : Bool} {e : PathError}
    (h : K.fs.resolve follow path = .error e) :
    K.fs.openFile path (openFlags follow) = .error e.errno := by
  rw [FileSystem.openFile, nofollow_flag, h]

theorem openFile_link {follow : Bool} {i : I} (h : K.fs.resolve follow path = .ok i)
    (hlink : (K.fs.node i).isSymlink = true) :
    K.fs.openFile path (openFlags follow) = .error PathError.loop.errno := by
  simp only [FileSystem.openFile, nofollow_flag, h, hlink, if_pos]

theorem openFile_ok {follow : Bool} {i : I} (h : K.fs.resolve follow path = .ok i)
    (hlink : (K.fs.node i).isSymlink = false) :
    K.fs.openFile path (openFlags follow) = .ok i := by
  simp only [FileSystem.openFile, nofollow_flag, h, hlink]
  rfl

/-- The answers of `open`. -/
theorem open_error {flags : UInt32} {errno : Nat}
    (h : K.fs.openFile path flags = .error errno) :
    K.reply files (.open path flags) = some (files, .error errno) := by
  simp only [StatKernel.reply, h]

theorem open_fails {flags : UInt32} {i : I} {errno : Nat} (h : K.fs.openFile path flags = .ok i)
    (hopening : K.fs.opening i = .fails errno) :
    K.reply files (.open path flags) = some (files, .error errno) := by
  simp only [StatKernel.reply, h, hopening]

theorem open_opens {flags : UInt32} {i : I} (h : K.fs.openFile path flags = .ok i)
    (hopening : K.fs.opening i = .opens) :
    K.reply files (.open path flags) =
      some (Function.update files K.fd.num (some i), ⟨K.fd.num, 0, .zero⟩) := by
  simp only [StatKernel.reply, h, hopening]

theorem open_blocks {flags : UInt32} {i : I} (h : K.fs.openFile path flags = .ok i)
    (hopening : K.fs.opening i = .blocks) :
    K.reply files (.open path flags) = none := by
  simp only [StatKernel.reply, h, hopening]

/-- `fstat_lua` if `open` fails. -/
theorem fstatLua_failed (args : List (Value F U)) {follow : Bool} {errno : Nat}
    (hargs : checkStatArgs lib args = .ok (path, follow))
    (hopen : K.reply files (.open (cstr path) (openFlags follow)) = some (files, .error errno)) :
    (fstatLua lib args).await K.reply files =
      some ⟨files, [(.open (cstr path) (openFlags follow), .error errno)],
        .failed ⟨errno, "fstat".toList⟩⟩ := by
  rw [fstatLua, hargs]
  exact Dialogue.await_query hopen

/-- `fstat_lua` if `open` waits. -/
theorem fstatLua_waits (args : List (Value F U)) {follow : Bool}
    (hargs : checkStatArgs lib args = .ok (path, follow))
    (hopen : K.reply files (.open (cstr path) (openFlags follow)) = none) :
    (fstatLua lib args).await K.reply files = none := by
  rw [fstatLua, hargs]
  exact Dialogue.await_query_none hopen

theorem fstat_reply {fd : Int32} {i : I} (h : files fd = some i) :
    K.reply files (.fstat fd) = some (files, ⟨0, 0, K.fs.status i⟩) := by
  rw [StatKernel.reply, h]

theorem close_reply {fd : Int32} {i : I} (h : files fd = some i) :
    K.reply files (.close fd) = some (Function.update files fd none, ⟨0, 0, .zero⟩) := by
  rw [StatKernel.reply, h]

/-- `fstat_lua` if `open` opens a file. -/
theorem fstatLua_opened (args : List (Value F U)) {follow : Bool} {i : I}
    (hargs : checkStatArgs lib args = .ok (path, follow))
    (hopen : K.reply files (.open (cstr path) (openFlags follow)) =
      some (Function.update files K.fd.num (some i), ⟨K.fd.num, 0, .zero⟩)) :
    (fstatLua lib args).await K.reply files =
      some ⟨Function.update files K.fd.num none,
        [(.open (cstr path) (openFlags follow), ⟨K.fd.num, 0, .zero⟩),
          (.fstat K.fd.num, ⟨0, 0, K.fs.status i⟩), (.close K.fd.num, ⟨0, 0, .zero⟩)],
        .table (statTable (K.fs.status i))⟩ := by
  have hfile : Function.update files K.fd.num (some i) K.fd.num = some i :=
    Function.update_self K.fd.num (some i) files
  have hstatus := fstat_reply (K := K) hfile
  have hclose := close_reply (K := K) hfile
  rw [Function.update_idem] at hclose
  rw [fstatLua, hargs]
  show (Dialogue.query (StatCall.open (cstr path) (openFlags follow)) >>= _).await K.reply files = _
  rw [Dialogue.await_query hopen, if_neg K.fd.ne_closed, Dialogue.await_query hstatus,
    Dialogue.await_query hclose]
  rfl

/-- What `fstat_lua` returns. -/
theorem fstatResult_eq :
    fstatResult lib K files path opt =
      match K.fs.resolve opt.follows (cstr path) with
      | .error e => some (.failed ⟨e.errno, "fstat".toList⟩)
      | .ok i =>
          if (K.fs.node i).isSymlink then some (.failed ⟨PathError.loop.errno, "fstat".toList⟩)
          else
            match K.fs.opening i with
            | .opens => some (.table (statTable (K.fs.status i)))
            | .fails errno => some (.failed ⟨errno, "fstat".toList⟩)
            | .blocks => none := by
  have hargs := checkStatArgs_eq lib path opt
  have hfailed : ∀ errno, K.reply files (.open (cstr path) (openFlags opt.follows)) =
      some (files, .error errno) →
      fstatResult lib K files path opt = some (.failed ⟨errno, "fstat".toList⟩) := by
    intro errno hopen
    rw [fstatResult, fstatLua_failed _ hargs hopen]
    rfl
  cases hpath : K.fs.resolve opt.follows (cstr path) with
  | error e => exact hfailed _ (open_error (openFile_error hpath))
  | ok i =>
      cases hlink : (K.fs.node i).isSymlink with
      | true =>
          simp only [hlink, if_true]
          exact hfailed _ (open_error (openFile_link hpath hlink))
      | false =>
          have hfile := openFile_ok hpath hlink
          simp only [hlink, Bool.false_eq_true, if_false]
          cases hopening : K.fs.opening i with
          | opens =>
              rw [fstatResult, fstatLua_opened _ hargs (open_opens hfile hopening)]
              rfl
          | fails errno => exact hfailed _ (open_fails hfile hopening)
          | blocks =>
              rw [fstatResult, fstatLua_waits _ hargs (open_blocks hfile hopening)]
              rfl

/-- `fstat_lua` leaves no descriptor open, whatever its arguments. -/
theorem fstatLua_closes (args : List (Value F U)) (hfree : files K.fd.num = none)
    {out : Dialogue.Served (OpenFiles I) StatCall StatReply (StatResult F U)}
    (h : (fstatLua lib args).await K.reply files = some out) : out.state = files := by
  cases hargs : checkStatArgs lib args with
  | error e =>
      rw [fstatLua, hargs] at h
      rw [← Option.some.inj h]
  | ok checked =>
      obtain ⟨path, follow⟩ := checked
      have hfailed : ∀ errno, K.reply files (.open (cstr path) (openFlags follow)) =
          some (files, .error errno) → out.state = files := by
        intro errno hopen
        rw [fstatLua_failed args hargs hopen] at h
        rw [← Option.some.inj h]
      cases hfile : K.fs.openFile (cstr path) (openFlags follow) with
      | error errno => exact hfailed errno (open_error hfile)
      | ok i =>
          cases hopening : K.fs.opening i with
          | opens =>
              rw [fstatLua_opened args hargs (open_opens hfile hopening)] at h
              rw [← Option.some.inj h, ← hfree, Function.update_eq_self]
          | fails errno => exact hfailed errno (open_fails hfile hopening)
          | blocks =>
              rw [fstatLua_waits args hargs (open_blocks hfile hopening)] at h
              cases h

/-! ## Agreement -/

/-- The path ends at a symbolic link. -/
def FileSystem.EndsAtLink (fs : FileSystem I) (path : Str) : Prop :=
  ∃ i, fs.resolve false path = .ok i ∧ (fs.node i).isSymlink = true

/-- Followed to its end, the path denotes a file that makes `open` wait: a FIFO without a writer. -/
def FileSystem.WaitsForWriter (fs : FileSystem I) (path : Str) : Prop :=
  ∃ i, fs.resolve true path = .ok i ∧ fs.opening i = .blocks

/-- Opening the file for reading does not fail. -/
def FileSystem.CanBeRead (fs : FileSystem I) (i : I) : Prop :=
  ∀ errno, fs.opening i ≠ .fails errno

/-- A regular file or a directory that can be read, or a link to anything that can. -/
def FileSystem.Readable (fs : FileSystem I) (path : Str) : Prop :=
  ∃ i, fs.resolve false path = .ok i ∧
    ((fileType (fs.status i).st_mode = some .file ∨
        fileType (fs.status i).st_mode = some .directory) ∧ fs.CanBeRead i ∨
      (fs.node i).isSymlink = true ∧ ∃ j, fs.resolve true path = .ok j ∧ fs.CanBeRead j)

/-- Both functions succeed with the same table: it is about the file that the path denotes, and
where links are not followed, about the link. -/
def Agree (lib : CLib F U) (K : StatKernel I) (files : OpenFiles I) (path : Str)
    (opt : FollowArg) : Prop :=
  ∃ i, K.fs.resolve opt.follows (cstr path) = .ok i ∧
    fstatResult lib K files path opt = some (.table (statTable (K.fs.status i))) ∧
    statResult lib K files path opt = some (.table (statTable (K.fs.status i)))

/-- What opening a file without an error does. -/
theorem FileSystem.CanBeRead.opens_or_blocks {fs : FileSystem I} {i : I} (h : fs.CanBeRead i) :
    fs.opening i = .opens ∨ fs.opening i = .blocks := by
  cases hopening : fs.opening i with
  | opens => exact .inl rfl
  | fails errno => exact absurd hopening (h errno)
  | blocks => exact .inr rfl

/-- On a file that is no link, they agree if and only if it is opened. -/
theorem agree_iff_opens {i : I} (hpath : K.fs.resolve opt.follows (cstr path) = .ok i)
    (hlink : (K.fs.node i).isSymlink = false) :
    Agree lib K files path opt ↔ K.fs.opening i = .opens := by
  have hfstat := @fstatResult_eq F U I lib K files path opt
  simp only [hpath, hlink, Bool.false_eq_true, if_false] at hfstat
  constructor
  · rintro ⟨j, -, htable, -⟩
    rw [hfstat] at htable
    cases hopening : K.fs.opening i with
    | opens => rfl
    | fails errno => simp [hopening] at htable
    | blocks => simp [hopening] at htable
  · intro hopening
    refine ⟨i, hpath, ?_, ?_⟩
    · rw [hfstat, hopening]
    · simp only [statResult_eq, hpath]

/-- On a link that is not followed they do not agree. -/
theorem not_agree_link {i : I} (hpath : K.fs.resolve opt.follows (cstr path) = .ok i)
    (hlink : (K.fs.node i).isSymlink = true) : ¬Agree lib K files path opt := by
  rintro ⟨j, -, htable, -⟩
  simp [fstatResult_eq, hpath, hlink] at htable

/-- **The functions agree** on a file that can be read, if and only if it is not a link that is not
to be followed, nor what makes `open` wait where links are followed. -/
theorem stats_agree (lib : CLib F U) (K : StatKernel I) (files : OpenFiles I) (path : Str)
    (opt : FollowArg) (h : K.fs.Readable (cstr path)) :
    Agree lib K files path opt ↔
      ¬(K.fs.EndsAtLink (cstr path) ∧ opt.follows = false) ∧
        ¬(K.fs.WaitsForWriter (cstr path) ∧ opt.follows = true) := by
  obtain ⟨i, hi, ⟨htype, hread⟩ | ⟨hlink, j, hj, hread⟩⟩ := h
  · have hlink : (K.fs.node i).isSymlink = false := by
      by_contra hne
      rw [(K.fs.symlink_bits i).mp (by simpa using hne)] at htype
      simp at htype
    have htrue : K.fs.resolve true (cstr path) = .ok i := Inodes.resolve_follow hi hlink
    have hpath : K.fs.resolve opt.follows (cstr path) = .ok i := by
      cases opt.follows with
      | false => exact hi
      | true => exact htrue
    have hnowait : K.fs.opening i ≠ .blocks := fun hblocks =>
      htype.elim (K.fs.blocking_type i hblocks).1 (K.fs.blocking_type i hblocks).2
    rw [agree_iff_opens hpath hlink]
    refine iff_of_true (hread.opens_or_blocks.resolve_right hnowait) ⟨?_, ?_⟩
    · rintro ⟨⟨k, hk, hklink⟩, -⟩
      obtain rfl := Except.ok.inj (hi.symm.trans hk)
      rw [hlink] at hklink
      cases hklink
    · rintro ⟨⟨k, hk, hblocks⟩, -⟩
      obtain rfl := Except.ok.inj (htrue.symm.trans hk)
      exact hnowait hblocks
  · cases hfollows : opt.follows with
    | true =>
        have hpath : K.fs.resolve opt.follows (cstr path) = .ok j := by rw [hfollows, hj]
        rw [agree_iff_opens hpath (Inodes.resolve_true_not_link hj)]
        constructor
        · refine fun hopens => ⟨?_, ?_⟩
          · rintro ⟨-, hfalse⟩
            cases hfalse
          · rintro ⟨⟨k, hk, hblocks⟩, -⟩
            obtain rfl := Except.ok.inj (hj.symm.trans hk)
            rw [hopens] at hblocks
            cases hblocks
        · rintro ⟨-, hnowait⟩
          exact hread.opens_or_blocks.resolve_right fun hblocks => hnowait ⟨⟨j, hj, hblocks⟩, rfl⟩
    | false =>
        have hpath : K.fs.resolve opt.follows (cstr path) = .ok i := by rw [hfollows, hi]
        refine iff_of_false (not_agree_link hpath hlink) ?_
        exact fun hcond => hcond.1 ⟨⟨i, hi, hlink⟩, rfl⟩

end Agreement

/-! ## Files and links -/

/-- A directory with a file `f`, a link `l` to it, a FIFO `p` and a link `q` to that. -/
inductive LinkedFile where
  | directory
  | f
  | l
  | p
  | q

namespace LinkedFile

def node : LinkedFile → FileNode LinkedFile
  | directory => .directory fun name =>
      if name = ['f'] then some f
      else if name = ['l'] then some l
      else if name = ['p'] then some p
      else if name = ['q'] then some q
      else none
  | f => .other
  | l => .symlink ['f']
  | p => .other
  | q => .symlink ['p']

def status : LinkedFile → StatBuf
  | directory => { StatBuf.zero with st_mode := 16877 }
  | f => { StatBuf.zero with st_mode := 33188, st_size := 5 }
  | l => { StatBuf.zero with st_mode := 41471, st_size := 1 }
  | p => { StatBuf.zero with st_mode := 4516 }
  | q => { StatBuf.zero with st_mode := 41471, st_size := 1 }

/-- Nobody writes to the FIFO. -/
def opening : LinkedFile → Opening
  | p => .blocks
  | _ => .opens

theorem symlink_bits (i : LinkedFile) :
    i.node.isSymlink = true ↔ fileType i.status.st_mode = some .symlink := by
  cases i <;> decide

theorem blocking_type (i : LinkedFile) (h : i.opening = .blocks) :
    fileType i.status.st_mode ≠ some .file ∧ fileType i.status.st_mode ≠ some .directory := by
  cases i with
  | p => decide
  | _ => cases h

end LinkedFile

def linkedFiles : FileSystem LinkedFile where
  node := LinkedFile.node
  searchable _ := true
  root := .directory
  cwd := .directory
  root_file := rfl
  cwd_file := rfl
  status := LinkedFile.status
  opening := LinkedFile.opening
  symlink_bits := LinkedFile.symlink_bits
  blocking_type := LinkedFile.blocking_type

theorem three_nonneg : (0 : Int32) ≤ 3 := by decide

/-- The system with these files, that hands out the descriptor 3. -/
def linkedKernel : StatKernel LinkedFile := ⟨linkedFiles, ⟨3, three_nonneg⟩⟩

theorem linkedFiles_file (follow : Bool) : linkedFiles.resolve follow ['f'] = .ok .f := by
  cases follow <;> rfl

theorem linkedFiles_link : linkedFiles.resolve false ['l'] = .ok .l := rfl

theorem linkedFiles_target : linkedFiles.resolve true ['l'] = .ok .f := rfl

theorem linkedFiles_fifo : linkedFiles.resolve false ['q'] = .ok .q ∧
    linkedFiles.resolve true ['q'] = .ok .p := ⟨rfl, rfl⟩

theorem linkedFiles_read (i : LinkedFile) : linkedFiles.CanBeRead i := by
  intro errno h
  cases i with
  | p => cases h
  | _ => cases h

/-- They agree on the file, and on the link to it if it is followed; `fstat` waits for the FIFO. -/
theorem stats_agree_file :
    Agree plainC linkedKernel (fun _ => none) ['f'] (.boolean false) ∧
      Agree plainC linkedKernel (fun _ => none) ['l'] .omitted ∧
      ¬Agree plainC linkedKernel (fun _ => none) ['l'] (.boolean false) ∧
      ¬Agree plainC linkedKernel (fun _ => none) ['q'] .nil := by
  have hfile : linkedFiles.Readable (cstr ['f']) :=
    ⟨.f, linkedFiles_file false, .inl ⟨.inl rfl, linkedFiles_read .f⟩⟩
  have hlink : linkedFiles.Readable (cstr ['l']) :=
    ⟨.l, linkedFiles_link, .inr ⟨rfl, .f, linkedFiles_target, linkedFiles_read .f⟩⟩
  have hfifo : linkedFiles.Readable (cstr ['q']) :=
    ⟨.q, linkedFiles_fifo.1, .inr ⟨rfl, .p, linkedFiles_fifo.2, linkedFiles_read .p⟩⟩
  refine ⟨(stats_agree plainC linkedKernel (fun _ => none) ['f'] (.boolean false) hfile).mpr ?_,
    (stats_agree plainC linkedKernel (fun _ => none) ['l'] .omitted hlink).mpr ?_,
    fun hagree => ?_, fun hagree => ?_⟩
  · constructor
    · rintro ⟨⟨i, hi, hsymlink⟩, -⟩
      obtain rfl := Except.ok.inj ((linkedFiles_file false).symm.trans hi)
      cases hsymlink
    · rintro ⟨-, hfalse⟩
      cases hfalse
  · constructor
    · rintro ⟨-, hfalse⟩
      cases hfalse
    · rintro ⟨⟨i, hi, hblocks⟩, -⟩
      obtain rfl := Except.ok.inj (linkedFiles_target.symm.trans hi)
      cases hblocks
  · exact ((stats_agree plainC linkedKernel (fun _ => none) ['l'] (.boolean false) hlink).mp
      hagree).1 ⟨⟨.l, linkedFiles_link, rfl⟩, rfl⟩
  · exact ((stats_agree plainC linkedKernel (fun _ => none) ['q'] .nil hfifo).mp
      hagree).2 ⟨⟨.p, linkedFiles_fifo.2, rfl⟩, rfl⟩

/-- The link, not followed, cannot be opened. -/
theorem fstat_fails_on_link :
    linkedFiles.Readable (cstr ['l']) ∧
      fstatResult plainC linkedKernel (fun _ => none) ['l'] (.boolean false) =
        some (.failed ⟨40, "fstat".toList⟩) ∧
      statResult plainC linkedKernel (fun _ => none) ['l'] (.boolean false) =
        some (.table (statTable (linkedFiles.status .l))) ∧
      ¬Agree plainC linkedKernel (fun _ => none) ['l'] (.boolean false) := by
  refine ⟨⟨.l, linkedFiles_link, .inr ⟨rfl, .f, linkedFiles_target, linkedFiles_read .f⟩⟩, ?_, ?_,
    not_agree_link linkedFiles_link rfl⟩
  · rw [fstatResult_eq]
    rfl
  · rw [statResult_eq]
    rfl

end Testcase
