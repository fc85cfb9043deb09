import LuaTestcase.Command.Verdict
import LuaTestcase.Registry.NeverMixes
import LuaTestcase.Runner.Defined

/-!
# From the definition of a test to its call

The chunks of the test files fill the registry by their assignments, `getlist` makes a list of it,
and the runner calls what is on the list.  Between the three nothing is lost and nothing is called
twice: in a command that succeeds, the functions that are called are those that were assigned.

* `Chunks` — a command that loads a file by running its chunk.
* `loadAll_represents` — what is registered behind the loading.
* `defined_called` — **what a command that succeeds has called**, from the assignments of the files.
-/

namespace Testcase

open Dialogue

variable {W F U : Type}

/-! ## Loading the chunks -/

/-- The command loads a file by running its chunk, and only chunks change the registry. -/
structure Chunks (cmd : Command W F U) where
  chunk : Str → W → FileChunk F U
  result : ∀ filename w, (cmd.eval filename w).1 =
    ((chunk filename w).serve register (cmd.registry w)).result
  state : ∀ filename w, cmd.registry (cmd.eval filename w).2 =
    ((chunk filename w).serve register (cmd.registry w)).state
  luacov : ∀ w, cmd.registry (cmd.requireLuacov w).2 = cmd.registry w

section Loading

variable {cmd : Command W F U} (ch : Chunks cmd)

/-- Files that all loaded. -/
theorem loadAll_ok {files : List Str} {w : W}
    (h : ∀ l ∈ (cmd.loadAll files w).1, l.2 = .ok ()) :
    (cmd.loadAll files w).1 = files.map fun filename => (filename, .ok ()) := by
  conv_rhs => rw [← loadAll_files cmd files w, List.map_map]
  conv_lhs => rw [← List.map_id (cmd.loadAll files w).1]
  exact List.map_congr_left fun l hl => Prod.ext rfl (h l hl)

/-- What the files assign, one after the other. -/
def Chunks.assigned : List Str → W → Assignments F U
  | [], _ => []
  | filename :: files, w =>
      ((ch.chunk filename w).serve register (cmd.registry w)).log ++
        Chunks.assigned files (cmd.eval filename w).2

theorem loadAll_represents (files : List Str) {w : W} {log : List (Registration F)}
    (hrep : Represents (cmd.registry w) log) :
    Represents (cmd.registry (cmd.loadAll files w).2) (log ++ accepted (ch.assigned files w)) := by
  induction files generalizing w log with
  | nil => simpa [Chunks.assigned, accepted, Command.loadAll] using hrep
  | cons filename files ih =>
      have hfile := serve_represents hrep (ch.chunk filename w)
      rw [← ch.state] at hfile
      have hrest := ih hfile
      rw [List.append_assoc, ← accepted_append] at hrest
      exact hrest

end Loading

/-! ## The calls -/

/-- **What a command that succeeds has called.**  From an empty registry it loaded the files that
`get_files` collected, each of them.  The list of sources has what the files assigned without an
error, file by file; the plan of this list was called, each function with success; and so every test
that was assigned, if its name is asked for, was called exactly once, and no other. -/
theorem defined_called (cmd : Command W F U) (ch : Chunks cmd)
    (hpid : ∀ w, cmd.getpid w = cmd.PID) (arg : List Str)
    (hhelp : ∀ s ∈ arg, optionName s ≠ some "--help".toList)
    (hpath : ∃ s ∈ arg, optionName s = none) (p : Proc W) (hempty : cmd.registry p.world = ∅)
    (hok : Succeeds (main cmd arg p).result) :
    ∃ opts files list, getopts arg = .ok opts ∧
      getFiles cmd opts (p.update fun _ => cmd.optsWorld opts p.world) =
        ⟨[], .ok files, p.update fun _ => cmd.optsWorld opts p.world⟩ ∧
      loads (main cmd arg p).events = files.map (fun filename => (filename, .ok ())) ∧
      Defines (accepted (ch.assigned files (cmd.optsWorld opts p.world))) list ∧
      calls (runEvents (main cmd arg p).events) =
        planDone (ranList list (some opts.testcase)) ∧
      (testsCalled (calls (runEvents (main cmd arg p).events))).Perm
        (((accepted (ch.assigned files (cmd.optsWorld opts p.world))).filter
          (Registration.isRun opts.testcase)).map Registration.target) := by
  rcases checkOpts_cases cmd p hhelp hpath with ⟨opts, haccepted, hopts⟩ | ⟨_, hfails⟩
  · rcases getFiles_cases cmd opts (p.update fun _ => cmd.optsWorld opts p.world) with
      ⟨paths, lists, hcollected, hfiles⟩ | ⟨_, hrefuses⟩
    · obtain ⟨hloaded, _, _, hcalls⟩ := (main_verdict cmd hpid hopts hfiles).mp hok
      have hregistry : cmd.registry (cmd.optsWorld opts p.world) = ∅ := by
        rw [Command.optsWorld]
        split_ifs
        · rw [ch.luacov, hempty]
        · exact hempty
      have hrep : Represents (cmd.registry (cmd.optsWorld opts p.world)) [] := by
        rw [hregistry]
        exact represents_empty
      have hdef := getlist_defines
        (loadAll_represents ch (cmd.files opts p.world lists) hrep) cmd.traversal
      rw [List.nil_append] at hdef
      refine ⟨opts, cmd.files opts p.world lists, _, haccepted.1, hfiles, ?_, hdef, hcalls, ?_⟩
      · rw [main_run hopts hfiles, loads_append, loads_append, loads_load,
          (testSources_noLoad cmd _ _).loads, List.append_nil]
        exact loadAll_ok hloaded
      · rw [hcalls]
        exact hdef.called_perm opts.testcase
    · refine absurd hok (FailsAt.not_succeeds ?_)
      rw [main]
      exact Act.StopsAt.behind hopts (Act.StopsAt.bind hrefuses.failsAt)
  · refine absurd hok (FailsAt.not_succeeds ?_)
    rw [main]
    exact Act.StopsAt.bind hfails

/-! ### A test that is assigned twice -/

/-- The second assignment raises an error, and the chunk catches it. -/
def assignTwice : FileChunk Bool Unit :=
  let test : Assignment Bool Unit := ⟨twoFiles "/a/y_test.lua".toList, .string "test_1".toList,
    .function true, "t/x_test.lua:2: ".toList⟩
  .ask test fun _ => .ask test fun _ => .done (.ok ())

/-- The file `t/x_test.lua` does so, and `t/y_test.lua` assigns nothing. -/
def chunkOf (filename : Str) : FileChunk Bool Unit :=
  if filename = "t/x_test.lua".toList then assignTwice else .done (.ok ())

/-- The command that loads them; its world is the registry. -/
def assigning : Command (Registry Bool) Bool Unit where
  CWD := "/a".toList
  PID := 1
  getcwd _ := some "/a".toList
  chdir _ w := .ok w
  getpid _ := 1
  start w := w
  stop w := ((none, "clock".toList), w)
  collect w := (none, w)
  xpcall f w := (⟨if f then .ok () else .error .nil, []⟩, w)
  tostring _ w := (none, w)
  assert := Assert.builtin
  requireLuacov w := (.ok (), w)
  realpath name _ := overlapping.realpath name ()
  getfiles path suffix _ := overlapping.getfiles path suffix ()
  eval filename w :=
    (((chunkOf filename).serve register w).result, ((chunkOf filename).serve register w).state)
  traversal := Traversal.forward
  registry w := w
  date _ := []
  total _ := ((), "clock".toList)

def assigningChunks : Chunks assigning where
  chunk filename _ := chunkOf filename
  result _ _ := rfl
  state _ _ := rfl
  luacov _ := rfl

/-- It is called once. -/
theorem assigning_called :
    (∃ opts files list, getopts ["t".toList] = .ok opts ∧
      getFiles assigning opts ⟨assigning.optsWorld opts ∅, false⟩ =
        ⟨[], .ok files, ⟨assigning.optsWorld opts ∅, false⟩⟩ ∧
      loads (main assigning ["t".toList] ⟨∅, false⟩).events =
        files.map (fun filename => (filename, .ok ())) ∧
      Defines (accepted (assigningChunks.assigned files (assigning.optsWorld opts ∅))) list ∧
      calls (runEvents (main assigning ["t".toList] ⟨∅, false⟩).events) =
        planDone (ranList list (some opts.testcase)) ∧
      (testsCalled (calls (runEvents (main assigning ["t".toList] ⟨∅, false⟩).events))).Perm
        (((accepted (assigningChunks.assigned files (assigning.optsWorld opts ∅))).filter
          (Registration.isRun opts.testcase)).map Registration.target)) ∧
    testsCalled (calls (runEvents (main assigning ["t".toList] ⟨∅, false⟩).events)) =
      [(.test "test_1".toList, true)] := by
  refine ⟨defined_called assigning assigningChunks (fun _ => rfl) ["t".toList] (by decide)
    ⟨"t".toList, by simp, rfl⟩ ⟨∅, false⟩ rfl rfl, rfl⟩

end Testcase
