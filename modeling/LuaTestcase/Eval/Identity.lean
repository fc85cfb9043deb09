import LuaTestcase.Eval.Lines
import LuaTestcase.Registry.Def

/-!
# The file a test function is registered for

`eval` loads a file in one of two ways, and the functions of the chunk report the source that way
recorded.  `registry.add` recovers a filename from it by removing one leading `@`.

* `eval_returns` — `eval` does not run out of fuel.
* `registered_file` — **when the recovered filename is the one that was given to `eval`**.
-/

namespace Testcase

variable {W B F U : Type}

/-- The filename that `add` recovers from the debug information of a function. -/
def Host.sourceFile (host : Host F) (func : F) : Str :=
  trimPrefix (host.getinfo func).source ['@']

/-- `add`, behind the recovery of the filename. -/
def addFile (host : Host F) (reg : Registry F) (filename name : Str) (func : F) :
    Registry F × Option Str :=
  match getstat host.toOs filename with
  | .error err => (reg, some ("failed to get fileinfo ".toList ++ (err.map host.tostring).getD []))
  | .ok stat => addTo reg stat name func (host.getinfo func).linedefined

theorem add_eq_addFile (host : Host F) (reg : Registry F) (name : Str) (func : F) :
    add host reg (.string name : Value F U) (.function func)
      = addFile host reg (host.sourceFile func) name func := rfl

/-- `eval` returns, whatever the file contains. -/
theorem eval_returns (lua : Loader W B F U) (filename : Str) (w : W) :
    ∃ res, eval lua filename w = some res := by
  have hchunk : ∃ res, loadChunk lua filename w = some res := by
    rw [loadChunk]
    split_ifs
    · exact ⟨_, rfl⟩
    · rcases lua.readfile filename w with err | s
      · exact ⟨_, rfl⟩
      · simp only [parseInlineopt_eq, Option.map_some]
        exact ⟨_, rfl⟩
  obtain ⟨res, hres⟩ := hchunk
  rw [eval, hres]
  exact ⟨_, rfl⟩

/-- What the functions of a chunk report, for the two ways in which the chunk is loaded. -/
theorem loadChunk_source {lua : Loader W B F U} {filename : Str} {w : W} {c : Chunk B}
    (h : loadChunk lua filename w = some (.ok (some c))) :
    if hasSuffix filename testSuffix then c.source = '@' :: filename else c.source = filename := by
  rw [loadChunk] at h
  by_cases hsuffix : sub filename (-testSuffix.length) (-1) = testSuffix
  · rw [if_pos hsuffix, Option.some.injEq, Loader.loadfile] at h
    rw [if_pos (by simpa [hasSuffix] using hsuffix)]
    rcases hfile : lua.compilefile filename w with err | body
    · rw [hfile] at h
      cases h
    · rw [hfile] at h
      cases h
      rfl
  · rw [if_neg hsuffix] at h
    rw [if_neg (by simpa [hasSuffix] using hsuffix)]
    rcases hread : lua.readfile filename w with err | s
    · rw [hread] at h
      cases h
    · simp only [hread, parseInlineopt_eq, Option.map_some, Option.some.injEq] at h
      generalize checkLines _ _ >>= rewrite s = res at h
      rcases res with err | _ | t
      · cases h
      · cases h
      · simp only [Loader.load] at h
        rcases hload : lua.compile t with err | body
        · rw [hload] at h
          cases h
        · rw [hload] at h
          cases h
          rfl

/-- Only a leading `@` is removed. -/
theorem trimPrefix_at_eq_self_iff (s : Str) : trimPrefix s ['@'] = s ↔ s.head? ≠ some '@' := by
  constructor
  · intro heq hhead
    obtain ⟨t, rfl⟩ := List.head?_eq_some_iff.mp hhead
    have hlen := congrArg List.length (heq.symm.trans (trimPrefix_append ['@'] t))
    simp at hlen
  · intro hhead
    refine trimPrefix_of_not_leading ?_
    rintro ⟨t, rfl⟩
    simp at hhead

/-- **A test function keeps the file it was loaded from**, on both ways of loading, unless the file
is loaded as rewritten text and its name starts with `@`: exactly then `add` recovers the name that
was given to `eval`, and then it registers the function under the stat of that name. -/
theorem registered_file (lua : Loader W B F U) (filename : Str) (w : W) (c : Chunk B)
    (h : loadChunk lua filename w = some (.ok (some c))) (host : Host F) (func : F)
    (hfunc : (host.getinfo func).source = c.source) :
    (host.sourceFile func = filename ↔
      hasSuffix filename testSuffix = true ∨ filename.head? ≠ some '@') ∧
    (hasSuffix filename testSuffix = true ∨ filename.head? ≠ some '@' →
      ∀ (reg : Registry F) (name : Str), add host reg (.string name : Value F U) (.function func)
        = addFile host reg filename name func) := by
  have hiff : host.sourceFile func = filename ↔
      hasSuffix filename testSuffix = true ∨ filename.head? ≠ some '@' := by
    have hsource := loadChunk_source h
    rw [Host.sourceFile, hfunc]
    by_cases hsuffix : hasSuffix filename testSuffix = true
    · rw [if_pos hsuffix] at hsource
      refine iff_of_true ?_ (Or.inl hsuffix)
      rw [hsource]
      exact trimPrefix_append ['@'] filename
    · rw [if_neg hsuffix] at hsource
      rw [hsource, trimPrefix_at_eq_self_iff, or_iff_right hsuffix]
  refine ⟨hiff, fun hcond reg name => ?_⟩
  rw [add_eq_addFile, hiff.mpr hcond]

/-! ### A file that enables its inline tests -/

/-- A Lua in which every file has the same text, and functions are their debug information. -/
def sameText : Loader Unit Str FuncInfo Unit where
  readfile _ _ := .ok "--lua-testcase:true\nlocal testcase=\x7b\x7d".toList
  compilefile filename _ := .ok filename
  compile s := .ok s
  inlineError _ := .nil
  xpcall _ w := (.ok (), w)

/-- All files are in the current directory. -/
def oneDirectory : Host FuncInfo where
  CWD := "/a".toList
  realpath pathname := .ok ("/a/".toList ++ pathname)
  stat _ _ := .ok .file
  readdir _ := ([], none)
  getinfo := id
  tostring err := err.op

/-- The chunk of a file of that Lua. -/
def sameChunk (filename : Str) : Chunk Str :=
  ⟨filename, "--lua-testcase:true\nlocal testcase = require('testcase')".toList⟩

theorem sameText_loadChunk :
    loadChunk sameText "x.lua".toList () = some (.ok (some (sameChunk "x.lua".toList))) ∧
      loadChunk sameText "@x.lua".toList () = some (.ok (some (sameChunk "@x.lua".toList))) :=
  ⟨rfl, rfl⟩

/-- A function of `x.lua` is registered for that file. -/
theorem plainName_registered :
    oneDirectory.sourceFile ⟨"x.lua".toList, 1⟩ = "x.lua".toList :=
  (registered_file sameText "x.lua".toList () (sameChunk "x.lua".toList) sameText_loadChunk.1
    oneDirectory ⟨"x.lua".toList, 1⟩ rfl).1.mpr (Or.inr (by decide))

/-- A function of `@x.lua` is registered for another file. -/
theorem atName_misattributed :
    loadChunk sameText "@x.lua".toList () = some (.ok (some (sameChunk "@x.lua".toList))) ∧
      (oneDirectory.getinfo ⟨"@x.lua".toList, 1⟩).source = (sameChunk "@x.lua".toList).source ∧
      oneDirectory.sourceFile ⟨"@x.lua".toList, 1⟩ = "x.lua".toList :=
  ⟨sameText_loadChunk.2, rfl, by decide⟩

end Testcase
