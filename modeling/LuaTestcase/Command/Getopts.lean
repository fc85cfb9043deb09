import LuaTestcase.Lua.Table

/-!
# `testcase.getopts`

The options of the command, `lib/getopts.lua`.  An argument that begins with a dash is an option,
the others are pathnames; the name of an option is what stands before the first `=`, and a name
the program does not know is ignored.

* `getopts_args`, `getopts_help` — which arguments become pathnames, and when help is asked for.
-/

namespace Testcase

/-- The options: the fields, and the array part. -/
structure Options where
  help : Bool
  coverage : Bool
  checkall : Bool
  testcase : List Str
  args : List Str

/-- The message for a value without a name. -/
def noNames : Str := "option \"--testcase\" requires one or more test case names".toList

/-- The loop of `parse_testcase`, from an offset on: `rest` is `sub(value, offset)`. -/
def parseNames (names : List Str) (seen : Table Bool) (rest : Str) : Except Str (List Str) :=
  let name := rest.takeWhile (· ≠ ',')
  if name = [] then .error noNames
  else
    let new := seen.lookup name = none
    let names := if new then names ++ [name] else names
    let seen := if new then seen.insert name true else seen
    match h : rest.dropWhile (· ≠ ',') with
    | [] => .ok names
    | _ :: rest' => parseNames names seen rest'
termination_by rest.length
decreasing_by
  have hlen := (List.dropWhile_sublist (fun c => decide (c ≠ ',')) (l := rest)).length_le
  rw [h, List.length_cons] at hlen
  omega

/-- `parse_testcase(value)`. -/
def parseTestcase (value : Str) : Except Str (List Str) :=
  if value = [] then .error noNames else parseNames [] ∅ value

/-- `match(s, '^([^=]*)=?(.*)$')`: what stands before the first `=`, and what behind. -/
def splitOption (s : Str) : Str × Str :=
  (s.takeWhile (· ≠ '='), (s.dropWhile (· ≠ '=')).drop 1)

/-- One step of the loop of `getopts`; the state is `opts` and `has_testcase`. -/
def getopt (acc : Options × Bool) (s : Str) : Except Str (Options × Bool) :=
  if sub s 1 1 = ['-'] then
    let (k, v) := splitOption s
    if k = "--help".toList then .ok ({ acc.1 with help := true }, acc.2)
    else if k = "--coverage".toList then .ok ({ acc.1 with coverage := true }, acc.2)
    else if k = "--checkall".toList then .ok ({ acc.1 with checkall := true }, acc.2)
    else if k = "--testcase".toList then
      if acc.2 then
        .error "option \"--testcase\" must not be specified more than once".toList
      else
        match parseTestcase v with
        | .error err => .error err
        | .ok names => .ok ({ acc.1 with testcase := names }, true)
    else .ok acc
  else .ok ({ acc.1 with args := acc.1.args ++ [s] }, acc.2)

/-- `getopts(arg)`. -/
def getopts (arg : List Str) : Except Str Options :=
  match arg.foldlM getopt (⟨false, false, false, [], []⟩, false) with
  | .error err => .error err
  | .ok acc => .ok acc.1

/-- The names of `--testcase`. -/
theorem getopt_testcase {acc : Options × Bool} {s : Str} {names : List Str}
    (hdash : sub s 1 1 = ['-']) (hk : (splitOption s).1 = "--testcase".toList)
    (hacc : acc.2 = false) (hnames : parseTestcase (splitOption s).2 = .ok names) :
    getopt acc s = .ok ({ acc.1 with testcase := names }, true) := by
  simp only [getopt, if_pos hdash, hk, hacc, hnames]
  rfl

/-! ## Pathnames and help -/

/-- The name of an option, and none of a pathname. -/
def optionName (s : Str) : Option Str :=
  if sub s 1 1 = ['-'] then some (splitOption s).1 else none

/-- What one argument does to the pathnames and to `help`. -/
theorem getopt_cases {acc acc' : Options × Bool} {s : Str} (h : getopt acc s = .ok acc') :
    acc'.1.args = (if optionName s = none then acc.1.args ++ [s] else acc.1.args) ∧
    (acc'.1.help = true ↔ acc.1.help = true ∨ optionName s = some "--help".toList) := by
  by_cases hdash : sub s 1 1 = ['-']
  · have hname : optionName s = some (splitOption s).1 := if_pos hdash
    simp only [getopt, if_pos hdash] at h
    simp only [hname, reduceCtorEq, if_false, Option.some.injEq]
    split_ifs at h with hhelp hcoverage hcheckall htestcase
    · cases h
      exact ⟨rfl, iff_of_true rfl (Or.inr hhelp)⟩
    · cases h
      exact ⟨rfl, (or_iff_left hhelp).symm⟩
    · cases h
      exact ⟨rfl, (or_iff_left hhelp).symm⟩
    · rcases hnames : parseTestcase (splitOption s).2 with err | names
      · rw [hnames] at h
        cases h
      · rw [hnames] at h
        cases h
        exact ⟨rfl, (or_iff_left hhelp).symm⟩
    · cases h
      exact ⟨rfl, (or_iff_left hhelp).symm⟩
  · have hname : optionName s = none := if_neg hdash
    simp only [getopt, if_neg hdash] at h
    cases h
    simp [hname]

/-- **Which arguments are pathnames, and when help is asked for.** -/
theorem foldlM_getopt {arg : List Str} {acc acc' : Options × Bool}
    (h : arg.foldlM getopt acc = .ok acc') :
    acc'.1.args = acc.1.args ++ arg.filter (fun s => optionName s = none) ∧
    (acc'.1.help = true ↔ acc.1.help = true ∨ ∃ s ∈ arg, optionName s = some "--help".toList) := by
  induction arg generalizing acc with
  | nil =>
      cases h
      simp
  | cons s arg ih =>
      rw [List.foldlM_cons] at h
      rcases hs : getopt acc s with err | acc₁
      · rw [hs] at h
        cases h
      · rw [hs] at h
        obtain ⟨hargs, hhelp⟩ := getopt_cases hs
        obtain ⟨hargs', hhelp'⟩ := ih h
        refine ⟨?_, ?_⟩
        · rw [hargs', hargs]
          split_ifs with hnone
          · rw [List.filter_cons_of_pos (by simpa using hnone), List.append_assoc,
              List.singleton_append]
          · rw [List.filter_cons_of_neg (by simpa using hnone)]
        · rw [hhelp', hhelp, List.exists_mem_cons_iff, or_assoc]

theorem getopts_args {arg : List Str} {opts : Options} (h : getopts arg = .ok opts) :
    opts.args = arg.filter fun s => optionName s = none := by
  unfold getopts at h
  rcases hfold : arg.foldlM getopt (⟨false, false, false, [], []⟩, false) with err | acc
  · rw [hfold] at h
    cases h
  · rw [hfold] at h
    cases h
    exact (foldlM_getopt hfold).1

theorem getopts_help {arg : List Str} {opts : Options} (h : getopts arg = .ok opts) :
    opts.help = true ↔ ∃ s ∈ arg, optionName s = some "--help".toList := by
  unfold getopts at h
  rcases hfold : arg.foldlM getopt (⟨false, false, false, [], []⟩, false) with err | acc
  · rw [hfold] at h
    cases h
  · rw [hfold] at h
    cases h
    rw [(foldlM_getopt hfold).2]
    simp

end Testcase
