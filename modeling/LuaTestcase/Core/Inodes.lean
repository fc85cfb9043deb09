import LuaTestcase.Core.Pathname

/-!
# Symbolic links in pathname resolution

Resolution over files of which some are symbolic links.  A link in the middle of a pathname is
always followed, and one at its end only if that is wanted.  A pathname that is resolved without
following the last link denotes what the pathname is about, and one that is resolved with it never
denotes a link.

* `Inodes.resolve` — resolution, with a limit to the number of links.
* `resolve_follow` — **what is not a link is found either way**.
* `resolve_true_not_link` — **a pathname that is followed to its end does not denote a link**.
-/

namespace Testcase

/-- What resolution sees of a file. -/
inductive FileNode (I : Type) where
  | directory (entries : List Char → Option I)
  | symlink (target : List Char)
  | other

def FileNode.isSymlink {I : Type} : FileNode I → Bool
  | symlink _ => true
  | _ => false

inductive PathError where
  | noent
  | notdir
  | acces
  | loop
deriving DecidableEq

/-- Files under the numbers `I`. -/
structure Inodes (I : Type) where
  node : I → FileNode I
  searchable : I → Bool
  root : I
  cwd : I
  root_file : (node root).isSymlink = false
  cwd_file : (node cwd).isSymlink = false

/-- Where a walk along names stops: at a file; at a link that is to be followed, with the directory
the link is in, what it says, and the names that are left. -/
inductive PathStop (I : Type) where
  | file (i : I)
  | link (dir : I) (target : List Char) (rest : List (List Char))

namespace Inodes

variable {I : Type} (T : Inodes I)

/-- Look a name up in a directory. -/
def lookup (dir : I) (name : List Char) : Except PathError I :=
  match T.node dir with
  | .directory entries =>
      if T.searchable dir then
        match entries name with
        | some i => .ok i
        | none => .error .noent
      else .error .acces
  | _ => .error .notdir

/-- Walk along names, up to a link that is to be followed. -/
def advance (follow : Bool) : I → List (List Char) → Except PathError (PathStop I)
  | dir, [] => .ok (.file dir)
  | dir, name :: rest =>
      match T.lookup dir name with
      | .error e => .error e
      | .ok i =>
          match T.node i with
          | .symlink target =>
              if rest = [] ∧ follow = false then .ok (.file i) else .ok (.link dir target rest)
          | _ => advance follow i rest

/-- Where a pathname starts; the empty one denotes nothing. -/
def start (dir : I) : List Char → Except PathError I
  | [] => .error .noent
  | c :: _ => .ok (if c = '/' then T.root else dir)

/-- The names of a pathname; one that ends with a slash is about a directory. -/
def names (path : List Char) : List (List Char) :=
  components path ++ if path.getLast? = some '/' then [['.']] else []

/-- Walk along names and links, of which so many may be followed. -/
def walkLinks (follow : Bool) : Nat → I → List (List Char) → Except PathError I
  | links, dir, ns =>
      match T.advance follow dir ns with
      | .error e => .error e
      | .ok (.file i) => .ok i
      | .ok (.link dir target rest) =>
          match links with
          | 0 => .error .loop
          | links + 1 =>
              match T.start dir target with
              | .error e => .error e
              | .ok dir => walkLinks follow links dir (names target ++ rest)

/-- What a pathname denotes. -/
def resolve (follow : Bool) (path : List Char) : Except PathError I :=
  match T.start T.cwd path with
  | .error e => .error e
  | .ok dir => T.walkLinks follow 40 dir (names path)

/-! ## With and without the last link -/

variable {T} {follow : Bool} {dir i : I} {ns : List (List Char)}

/-- A walk stops in a directory that is no link, and if links are followed, at no link either. -/
def StopsAtFile (T : Inodes I) (follow : Bool) : PathStop I → Prop
  | .file i => follow = true → (T.node i).isSymlink = false
  | .link dir _ _ => (T.node dir).isSymlink = false

theorem advance_cons (T : Inodes I) (follow : Bool) (dir : I) (name : List Char)
    (rest : List (List Char)) :
    T.advance follow dir (name :: rest) =
      match T.lookup dir name with
      | .error e => .error e
      | .ok i =>
          match T.node i with
          | .symlink target =>
              if rest = [] ∧ follow = false then .ok (.file i) else .ok (.link dir target rest)
          | _ => T.advance follow i rest := rfl

theorem advance_stop {stop : PathStop I} (hdir : (T.node dir).isSymlink = false)
    (h : T.advance follow dir ns = .ok stop) : StopsAtFile T follow stop := by
  induction ns generalizing dir with
  | nil =>
      obtain rfl := Except.ok.inj h
      exact fun _ => hdir
  | cons name rest ih =>
      rw [advance_cons] at h
      cases hlookup : T.lookup dir name with
      | error e => simp [hlookup] at h
      | ok i =>
          cases hnode : T.node i with
          | symlink target =>
              simp only [hlookup, hnode] at h
              split at h
              · rename_i hlast
                obtain rfl := Except.ok.inj h
                exact fun htrue => absurd (hlast.2.symm.trans htrue) (by decide)
              · obtain rfl := Except.ok.inj h
                exact hdir
          | directory entries =>
              simp only [hlookup, hnode] at h
              exact ih (by rw [hnode]; rfl) h
          | other =>
              simp only [hlookup, hnode] at h
              exact ih (by rw [hnode]; rfl) h

/-- Following the last link makes a difference only where the walk ends at a link. -/
theorem advance_follow {stop : PathStop I} (h : T.advance false dir ns = .ok stop)
    (hstop : ∀ i, stop = .file i → (T.node i).isSymlink = false) :
    T.advance true dir ns = .ok stop := by
  induction ns generalizing dir with
  | nil => exact h
  | cons name rest ih =>
      rw [advance_cons] at h ⊢
      cases hlookup : T.lookup dir name with
      | error e => simp [hlookup] at h
      | ok i =>
          cases hnode : T.node i with
          | symlink target =>
              simp only [hlookup, hnode] at h ⊢
              rw [if_neg (by simp)]
              split at h
              · obtain rfl := Except.ok.inj h
                have hi := hstop i rfl
                rw [hnode] at hi
                cases hi
              · exact h
          | directory entries =>
              simp only [hlookup, hnode] at h ⊢
              exact ih h
          | other =>
              simp only [hlookup, hnode] at h ⊢
              exact ih h

theorem start_file (hdir : (T.node dir).isSymlink = false) {path : List Char}
    (h : T.start dir path = .ok i) : (T.node i).isSymlink = false := by
  cases path with
  | nil => cases h
  | cons c path =>
      obtain rfl := Except.ok.inj h
      split
      · exact T.root_file
      · exact hdir

theorem walkLinks_file {links : Nat} (h : T.advance follow dir ns = .ok (.file i)) :
    T.walkLinks follow links dir ns = .ok i := by
  rw [walkLinks]
  simp only [h]

/-- A walk that arrives ends without another link, or follows one and goes on. -/
theorem walkLinks_cases {links : Nat} (h : T.walkLinks follow links dir ns = .ok i) :
    T.advance follow dir ns = .ok (.file i) ∨
    ∃ n d target rest e, links = n + 1 ∧ T.advance follow dir ns = .ok (.link d target rest) ∧
      T.start d target = .ok e ∧ T.walkLinks follow n e (names target ++ rest) = .ok i := by
  rw [walkLinks] at h
  cases hstop : T.advance follow dir ns with
  | error e => simp [hstop] at h
  | ok stop =>
      cases stop with
      | file j =>
          obtain rfl : j = i := by simpa [hstop] using h
          exact .inl rfl
      | link d target rest =>
          cases links with
          | zero => simp [hstop] at h
          | succ n =>
              cases hstart : T.start d target with
              | error e => simp [hstop, hstart] at h
              | ok e =>
                  simp only [hstop, hstart] at h
                  exact .inr ⟨n, d, target, rest, e, rfl, rfl, hstart, h⟩

theorem walkLinks_follow {links : Nat} (h : T.walkLinks false links dir ns = .ok i)
    (hi : (T.node i).isSymlink = false) : T.walkLinks true links dir ns = .ok i := by
  induction links generalizing dir ns with
  | zero =>
      rcases walkLinks_cases h with hfile | ⟨_, _, _, _, _, hzero, -⟩
      · refine walkLinks_file (advance_follow hfile ?_)
        rintro j ⟨⟩
        exact hi
      · cases hzero
  | succ links ih =>
      rcases walkLinks_cases h with hfile | ⟨_, d, target, rest, e, ⟨⟩, hlink, hstart, hrest⟩
      · refine walkLinks_file (advance_follow hfile ?_)
        rintro j ⟨⟩
        exact hi
      · have htrue := advance_follow hlink fun j hj => by cases hj
        rw [walkLinks]
        simp only [htrue, hstart]
        exact ih hrest

theorem walkLinks_true_not_link {links : Nat} (hdir : (T.node dir).isSymlink = false)
    (h : T.walkLinks true links dir ns = .ok i) : (T.node i).isSymlink = false := by
  induction links generalizing dir ns with
  | zero =>
      rcases walkLinks_cases h with hfile | ⟨_, _, _, _, _, hzero, -⟩
      · exact advance_stop hdir hfile rfl
      · cases hzero
  | succ links ih =>
      rcases walkLinks_cases h with hfile | ⟨_, d, target, rest, e, ⟨⟩, hlink, hstart, hrest⟩
      · exact advance_stop hdir hfile rfl
      · exact ih (start_file (advance_stop hdir hlink) hstart) hrest

/-- **What is not a link is found either way.** -/
theorem resolve_follow {path : List Char} (h : T.resolve false path = .ok i)
    (hi : (T.node i).isSymlink = false) : T.resolve true path = .ok i := by
  rw [resolve] at h ⊢
  cases hstart : T.start T.cwd path with
  | error e => simp [hstart] at h
  | ok dir =>
      simp only [hstart] at h ⊢
      exact walkLinks_follow h hi

/-- **A pathname that is followed to its end does not denote a link.** -/
theorem resolve_true_not_link {path : List Char} (h : T.resolve true path = .ok i) :
    (T.node i).isSymlink = false := by
  rw [resolve] at h
  cases hstart : T.start T.cwd path with
  | error e => simp [hstart] at h
  | ok dir =>
      simp only [hstart] at h
      exact walkLinks_true_not_link (start_file T.cwd_file hstart) h

end Inodes

end Testcase
