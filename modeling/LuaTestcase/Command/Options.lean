import LuaTestcase.Command.Getopts
import LuaTestcase.Core.Lists
import LuaTestcase.Lua.Format
import LuaTestcase.Lua.Pattern

/-!
# The meaning of the command line

What `getopts` makes of its arguments, said without its loops.  Options and pathnames do not
depend on each other, an option is known by what stands before the first `=`, and the names of
`--testcase` are what stands between the commas, each taken once.

* `splitOption_match`, `scanNames_eq` — the pattern and the loop over positions of `lib/getopts.lua`
  do what `splitOption` and `parseTestcase` say.
* `parseTestcase_eq` — **the names of a value**.
* `getopts_eq` — **the result**, from the options and from the pathnames.
* `getopts_meaning` — when it fails, and what it returns otherwise.
-/

namespace Testcase

/-! ## Positions and patterns -/

/-- `'^([^=]*)=?(.*)$'`, without its anchors. -/
def OPTION : Pattern := [⟨(· ≠ '='), .star⟩, ⟨(· == '='), .opt⟩, ⟨fun _ => true, .star⟩]

/-- A star at the end takes everything. -/
theorem matchItems_rest (s : Str) :
    matchItems List.isEmpty [⟨fun _ => true, .star⟩] s = some [s] := by
  have hstop : ∀ c rest, (fun _ : Char => true) c = true →
      matchItems List.isEmpty [] (c :: rest) = none := fun c rest _ => rfl
  show (maxExpand (fun _ => true) (matchItems List.isEmpty []) s).map (fun r => r.1 :: r.2) = _
  rw [maxExpand_eq hstop]
  have hdrop : s.dropWhile (fun _ => true) = [] := List.dropWhile_eq_nil_iff.mpr (by simp)
  have htake : s.takeWhile (fun _ => true) = s := List.takeWhile_eq_self_iff.mpr (by simp)
  rw [hdrop, htake]
  rfl

/-- **The match**: its first and its last segment are the captures. -/
theorem splitOption_match (s : Str) : ∃ eq, matchItems List.isEmpty OPTION s
    = some [(splitOption s).1, eq, (splitOption s).2] := by
  have hbehind : ∃ eq, matchItems List.isEmpty [⟨(· == '='), .opt⟩, ⟨fun _ => true, .star⟩]
      (s.dropWhile (· ≠ '=')) = some [eq, (s.dropWhile (· ≠ '=')).drop 1] := by
    show ∃ eq, (optExpand (· == '=') (matchItems List.isEmpty [⟨fun _ => true, .star⟩])
      (s.dropWhile (· ≠ '='))).map (fun r => r.1 :: r.2) = _
    rcases ht : s.dropWhile (· ≠ '=') with _ | ⟨c, t⟩
    · exact ⟨[], by simp [optExpand, matchItems_rest]⟩
    · have hc : c = '=' := by
        have hhead := List.head?_dropWhile_not (fun c => decide (c ≠ '=')) s
        rw [ht] at hhead
        simpa using hhead
      exact ⟨['='], by simp [optExpand, single, matchItems_rest, hc]⟩
  obtain ⟨eq, hbehind⟩ := hbehind
  refine ⟨eq, ?_⟩
  show (maxExpand (· ≠ '=') (matchItems List.isEmpty
    [⟨(· == '='), .opt⟩, ⟨fun _ => true, .star⟩]) s).map (fun r => r.1 :: r.2) = _
  rw [maxExpand_of_some hbehind]
  rfl

/-- The loop of `parse_testcase` over positions in the value; `none` if the fuel runs out. -/
def scanNames (value : Str) : Nat → List Str → Table Bool → Nat → Option (Except Str (List Str))
  | 0, _, _, _ => none
  | fuel + 1, names, seen, offset =>
      let comma := (find value (literal [',']) offset).map Prod.fst
      let name := sub value offset (match comma with | some comma => comma - 1 | none => -1)
      if name = [] then some (.error noNames)
      else
        let new := seen.lookup name = none
        let names := if new then names ++ [name] else names
        let seen := if new then seen.insert name true else seen
        match comma with
        | none => some (.ok names)
        | some comma => scanNames value fuel names seen (comma + 1)

theorem findHead_comma (s : Str) :
    findHead s (literal [',']) = if s.head? = some ',' then some 1 else none := by
  cases s with
  | nil => rfl
  | cons c s =>
      by_cases hc : c = ','
      · subst hc
        rfl
      · simp [findHead, literal, matchItems, PatternItem.expand, single, hc]

/-- The next comma. -/
theorem find_comma {name : Str} (h : ',' ∉ name) (rest : Str) (pos : Nat) :
    findFrom (literal [',']) (name ++ ',' :: rest) pos
      = some (pos + name.length, pos + name.length) := by
  have hskip : ∀ t, t ≠ [] → t <:+ name → findHead (t ++ ',' :: rest) (literal [',']) = none := by
    intro t hne ht
    obtain ⟨c, t', rfl⟩ := List.exists_cons_of_ne_nil hne
    have hc : c ≠ ',' := fun hc => h (ht.subset (by simp [hc]))
    rw [findHead_comma, if_neg (by simpa using hc)]
  have hhead : findHead (',' :: rest) (literal [',']) = some 1 := by rw [findHead_comma]; rfl
  rw [findFrom_skip hskip, findFrom_head hhead]
  rfl

theorem find_comma_none {name : Str} (h : ',' ∉ name) (pos : Nat) :
    findFrom (literal [',']) name pos = none := by
  refine findFrom_none (fun t ht => ?_) pos
  rw [findHead_comma, if_neg]
  exact fun hhead => h (ht.subset (List.mem_of_mem_head? hhead))

/-! ## The names of a value -/

/-- One turn of the loop. -/
theorem parseNames_step {name rest : Str} (names : List Str) (seen : Table Bool)
    (hname : rest.takeWhile (· ≠ ',') = name) : parseNames names seen rest =
      if name = [] then .error noNames
      else match rest.dropWhile (· ≠ ',') with
        | [] => .ok (if seen.lookup name = none then names ++ [name] else names)
        | _ :: rest' =>
          parseNames (if seen.lookup name = none then names ++ [name] else names)
            (if seen.lookup name = none then seen.insert name true else seen) rest' := by
  rw [parseNames]
  dsimp only
  rw [hname]
  split_ifs with hnil hnew
  · rfl
  · split
    · rename_i hrest
      rw [hrest]
    · rename_i hrest
      rw [hrest]
  · split
    · rename_i hrest
      rw [hrest]
    · rename_i hrest
      rw [hrest]

/-- The last name. -/
theorem parseNames_last {name : Str} (h : ',' ∉ name) (names : List Str) (seen : Table Bool) :
    parseNames names seen name = if name = [] then .error noNames
      else .ok (if seen.lookup name = none then names ++ [name] else names) := by
  have hall : ∀ c ∈ name, decide (c ≠ ',') = true := fun c hc =>
    decide_eq_true fun heq => h (heq ▸ hc)
  rw [parseNames_step names seen (List.takeWhile_eq_self_iff.mpr hall),
    List.dropWhile_eq_nil_iff.mpr hall]

/-- A name in front of a comma. -/
theorem parseNames_comma {name : Str} (h : ',' ∉ name) (rest : Str) (names : List Str)
    (seen : Table Bool) :
    parseNames names seen (name ++ ',' :: rest) = if name = [] then .error noNames
      else parseNames (if seen.lookup name = none then names ++ [name] else names)
        (if seen.lookup name = none then seen.insert name true else seen) rest := by
  have hall : ∀ c ∈ name, decide (c ≠ ',') = true := fun c hc =>
    decide_eq_true fun heq => h (heq ▸ hc)
  have htake : (name ++ ',' :: rest).takeWhile (· ≠ ',') = name := by
    rw [List.takeWhile_append_of_pos hall]
    simp
  have hdrop : (name ++ ',' :: rest).dropWhile (· ≠ ',') = ',' :: rest := by
    rw [List.dropWhile_append_of_pos hall]
    simp
  rw [parseNames_step names seen htake, hdrop]

/-- One turn of the loop over positions. -/
theorem scanNames_step {value name : Str} {offset : Nat} (comma : Option Nat) (fuel : Nat)
    (names : List Str) (seen : Table Bool)
    (hname : sub value offset (match comma with | some comma => comma - 1 | none => -1) = name)
    (hcomma : (find value (literal [',']) offset).map Prod.fst = comma) :
    scanNames value (fuel + 1) names seen offset = if name = [] then some (.error noNames)
      else match comma with
        | none => some (.ok (if seen.lookup name = none then names ++ [name] else names))
        | some comma =>
          scanNames value fuel (if seen.lookup name = none then names ++ [name] else names)
            (if seen.lookup name = none then seen.insert name true else seen) (comma + 1) := by
  subst hcomma hname
  rw [scanNames]

/-- **The loop over positions** is the loop of `parseNames`. -/
theorem scanNames_eq (value rest : Str) {fuel offset : Nat} (names : List Str) (seen : Table Bool)
    (hoffset : 1 ≤ offset) (hrest : value.drop (offset - 1) = rest) (hfuel : rest.length < fuel) :
    scanNames value fuel names seen offset = some (parseNames names seen rest) := by
  have hcast : ((offset : Nat) : Int) = ((offset - 1 : Nat) : Int) + 1 := by omega
  induction rest using piece_induction ',' generalizing fuel offset names seen with
  | last name h =>
      obtain ⟨fuel, rfl⟩ := Nat.exists_eq_succ_of_ne_zero (show fuel ≠ 0 by omega)
      have hfind : find value (literal [',']) offset = none := by
        rw [find, hrest, find_comma_none h]
      have hsub : sub value offset (-1) = name := by rw [hcast, sub_from, hrest]
      have hcomma : (find value (literal [',']) offset).map Prod.fst = none := by rw [hfind]; rfl
      rw [scanNames_step none fuel names seen hsub hcomma, parseNames_last h]
      split_ifs <;> rfl
  | piece name rest h ih =>
      obtain ⟨fuel, rfl⟩ := Nat.exists_eq_succ_of_ne_zero (show fuel ≠ 0 by omega)
      have hfind : find value (literal [',']) offset
          = some (offset + name.length, offset + name.length) := by
        rw [find, hrest, find_comma h]
      have hstop : ((offset + name.length : Nat) : Int) - 1
          = ((offset - 1 + name.length : Nat) : Int) := by omega
      have hsub : sub value offset ((offset + name.length : Nat) - 1) = name := by
        rw [hstop, hcast, sub_range, hrest, Nat.add_sub_cancel_left, List.take_left]
      have hdrop : value.drop (offset + name.length + 1 - 1) = rest := by
        have hsplit : offset + name.length + 1 - 1 = offset - 1 + (name.length + 1) := by omega
        rw [hsplit, ← List.drop_drop, hrest, ← List.drop_drop, List.drop_left]
        rfl
      have hlen : rest.length < fuel := by
        simp only [List.length_append, List.length_cons] at hfuel
        omega
      have hcomma : (find value (literal [',']) offset).map Prod.fst
          = some (offset + name.length) := by
        rw [hfind]
        rfl
      rw [scanNames_step (some (offset + name.length)) fuel names seen hsub hcomma,
        parseNames_comma h]
      split_ifs
      · rfl
      · exact ih _ _ (by omega) hdrop hlen (by omega)
      · exact ih _ _ (by omega) hdrop hlen (by omega)

/-- `parse_testcase` as it stands. -/
theorem parseTestcase_scan (value : Str) : (if value = [] then some (.error noNames)
      else scanNames value (value.length + 1) [] ∅ 1) = some (parseTestcase value) := by
  rw [parseTestcase]
  split_ifs
  · rfl
  · exact scanNames_eq value value [] ∅ (Nat.le_refl 1) rfl (Nat.lt_succ_self _)

/-- The table knows the names that were seen. -/
def Sees (seen : Table Bool) (done : List Str) : Prop :=
  ∀ name, seen.lookup name = none ↔ name ∉ done

theorem Sees.insert {seen : Table Bool} {done : List Str} (h : Sees seen done) (name : Str) :
    Sees (if seen.lookup name = none then seen.insert name true else seen) (done ++ [name]) := by
  intro name'
  split_ifs with hnew
  · rw [lookup_insert_if]
    split_ifs with heq
    · simp [heq]
    · rw [h name']
      simp [heq]
  · have hold : name ∈ done := by
      by_contra hout
      exact hnew ((h name).mpr hout)
    rw [h name', List.mem_append, List.mem_singleton, not_or]
    refine ⟨fun hout => ⟨hout, ?_⟩, fun hout => hout.1⟩
    rintro rfl
    exact hout hold

/-- Where the names stand that were seen, a new one is put behind them. -/
theorem Sees.names {seen : Table Bool} {done : List Str} (h : Sees seen done) (name : Str) :
    (if seen.lookup name = none then firsts id done ++ [name] else firsts id done)
      = firsts id (done ++ [name]) := by
  have hmem : id name ∈ done.map id ↔ ¬ seen.lookup name = none := by
    rw [h name, List.map_id, not_not, id]
  rw [firsts_concat]
  split_ifs with hnew hin hin
  · exact absurd hnew (hmem.mp hin)
  · rfl
  · rfl
  · exact absurd (hmem.mpr hnew) hin

/-- The loop, behind the names that were seen. -/
theorem parseNames_eq {seen : Table Bool} {done : List Str} (h : Sees seen done) (rest : Str) :
    parseNames (firsts id done) seen rest = if [] ∈ rest.splitOn ',' then .error noNames
      else .ok (firsts id (done ++ rest.splitOn ',')) := by
  induction rest using piece_induction ',' generalizing seen done with
  | last name hname =>
      rw [parseNames_last hname, List.splitOn_eq_singleton hname, h.names]
      simp only [List.mem_singleton]
      by_cases hnil : name = []
      · rw [if_pos hnil, if_pos hnil.symm]
      · rw [if_neg hnil, if_neg (Ne.symm hnil)]
  | piece name rest hname ih =>
      rw [parseNames_comma hname, h.names, ih (h.insert name), List.splitOn_append_cons_self,
        List.splitOn_eq_singleton hname, List.append_assoc]
      simp only [List.singleton_append, List.mem_cons]
      by_cases hnil : name = []
      · rw [if_pos hnil, if_pos (Or.inl hnil.symm)]
      · rw [if_neg hnil]
        simp [Ne.symm hnil]

/-- **The names of a value**: what stands between the commas, each once. -/
theorem parseTestcase_eq (value : Str) :
    parseTestcase value = if [] ∈ value.splitOn ',' then .error noNames
      else .ok (firsts id (value.splitOn ',')) := by
  have hempty : Sees (∅ : Table Bool) [] := by simp [Sees]
  rw [parseTestcase]
  split_ifs with hnil hin hin
  · rfl
  · subst hnil
    simp at hin
  · exact (parseNames_eq hempty value).trans (if_pos hin)
  · exact (parseNames_eq hempty value).trans (if_neg hin)

/-! ## The result -/

/-- `--testcase`. -/
def TESTCASE : Str := "--testcase".toList

/-- The message for a second `--testcase`. -/
def onlyOnce : Str := "option \"--testcase\" must not be specified more than once".toList

/-- The arguments with this name of an option. -/
def given (name : Str) (arg : List Str) : List Str := arg.filter fun s => optionName s = some name

/-- Some argument has this name of an option. -/
def flag (name : Str) (arg : List Str) : Bool := arg.any fun s => optionName s = some name

/-- The arguments that are pathnames. -/
def positionals (arg : List Str) : List Str := arg.filter fun s => optionName s = none

/-- What stands behind the first `=`. -/
def valueOf (s : Str) : Str := (splitOption s).2

/-- Options, and those of further arguments. -/
def Options.extend (opts : Options) (arg : List Str) (names : List Str) : Options where
  help := opts.help || flag "--help".toList arg
  coverage := opts.coverage || flag "--coverage".toList arg
  checkall := opts.checkall || flag "--checkall".toList arg
  testcase := names
  args := opts.args ++ positionals arg

/-- No options. -/
def Options.unset : Options := ⟨false, false, false, [], []⟩

theorem extend_nil (opts : Options) : opts.extend [] opts.testcase = opts := by
  simp [Options.extend, flag, positionals]

/-- An argument other than `--testcase`. -/
theorem getopt_other {s : Str} (h : optionName s ≠ some TESTCASE) (acc : Options × Bool) :
    ∃ opts, getopt acc s = .ok (opts, acc.2) ∧ opts.testcase = acc.1.testcase ∧
      ∀ arg names, opts.extend arg names = acc.1.extend (s :: arg) names := by
  have hflag : ∀ name arg, flag name (s :: arg)
      = (decide (optionName s = some name) || flag name arg) := fun name arg => List.any_cons
  by_cases hdash : sub s 1 1 = ['-']
  · have hname : optionName s = some (splitOption s).1 := if_pos hdash
    have hpositionals : ∀ arg, positionals (s :: arg) = positionals arg := fun arg =>
      List.filter_cons_of_neg (by simp [hname])
    have hother : ¬ (splitOption s).1 = "--testcase".toList := fun hk => h (by rw [hname, hk]; rfl)
    simp only [getopt, if_pos hdash, if_neg hother]
    split_ifs with hhelp hcoverage hcheckall
    · refine ⟨_, rfl, rfl, fun arg names => ?_⟩
      simp [Options.extend, hflag, hpositionals, hname, hhelp]
    · refine ⟨_, rfl, rfl, fun arg names => ?_⟩
      simp [Options.extend, hflag, hpositionals, hname, hcoverage]
    · refine ⟨_, rfl, rfl, fun arg names => ?_⟩
      simp [Options.extend, hflag, hpositionals, hname, hcheckall]
    · refine ⟨_, rfl, rfl, fun arg names => ?_⟩
      simp only [Options.extend, hflag, hpositionals, hname, Option.some.injEq, hhelp, hcoverage,
        hcheckall, decide_false, Bool.false_or]
  · have hname : optionName s = none := if_neg hdash
    refine ⟨_, if_neg hdash, rfl, fun arg names => ?_⟩
    simp [Options.extend, hflag, positionals, hname]

/-- A `--testcase`. -/
theorem getopt_names {s : Str} (h : optionName s = some TESTCASE) (acc : Options × Bool) :
    getopt acc s = if acc.2 then .error onlyOnce
      else match parseTestcase (valueOf s) with
        | .error err => .error err
        | .ok names => .ok ({ acc.1 with testcase := names }, true) := by
  rw [optionName] at h
  split_ifs at h with hdash
  have hk : (splitOption s).1 = TESTCASE := Option.some.inj h
  simp only [getopt, if_pos hdash, hk]
  rfl

/-- **All arguments**, behind options that were read. -/
theorem foldlM_getopt_eq (arg : List Str) (acc : Options × Bool) :
    arg.foldlM getopt acc = match given TESTCASE arg with
      | [] => .ok (acc.1.extend arg acc.1.testcase, acc.2)
      | s :: more =>
        if acc.2 then .error onlyOnce
        else match parseTestcase (valueOf s) with
          | .error err => .error err
          | .ok names =>
            if more = [] then .ok (acc.1.extend arg names, true) else .error onlyOnce := by
  induction arg generalizing acc with
  | nil =>
      simp only [given, List.filter_nil, extend_nil]
      rfl
  | cons s arg ih =>
      rw [List.foldlM_cons]
      by_cases hs : optionName s = some TESTCASE
      · have hgiven : given TESTCASE (s :: arg) = s :: given TESTCASE arg :=
          List.filter_cons_of_pos (by simpa using hs)
        have hextend : ∀ opts : Options, ∀ names, opts.extend (s :: arg) names
            = { opts with testcase := names }.extend arg names := by
          intro opts names
          have hflag : ∀ name, name ≠ TESTCASE → flag name (s :: arg) = flag name arg := by
            intro name hne
            rw [flag, List.any_cons, hs]
            simp [Ne.symm hne, flag]
          have hpositionals : positionals (s :: arg) = positionals arg :=
            List.filter_cons_of_neg (by simp [hs])
          simp only [Options.extend, hpositionals, hflag "--help".toList (by decide),
            hflag "--coverage".toList (by decide), hflag "--checkall".toList (by decide)]
        rw [getopt_names hs, hgiven]
        by_cases hacc : acc.2 = true
        · simp [hacc]
        · simp only [if_neg hacc]
          cases parseTestcase (valueOf s) with
          | error err => rfl
          | ok names =>
              rw [ok_bind, ih]
              simp only [hextend]
              cases given TESTCASE arg with
              | nil => rfl
              | cons s' more => rfl
      · have hgiven : given TESTCASE (s :: arg) = given TESTCASE arg :=
          List.filter_cons_of_neg (by simpa using hs)
        obtain ⟨opts, hopt, hnames, hextend⟩ := getopt_other hs acc
        rw [hopt, ok_bind, ih, hgiven]
        simp only [hnames, hextend]

/-- **The result**: it depends on the options and on the pathnames. -/
theorem getopts_eq (arg : List Str) :
    getopts arg = match given TESTCASE arg with
      | [] => .ok (Options.unset.extend arg [])
      | s :: more =>
        match parseTestcase (valueOf s) with
        | .error err => .error err
        | .ok names =>
          if more = [] then .ok (Options.unset.extend arg names) else .error onlyOnce := by
  rw [getopts, foldlM_getopt_eq]
  cases given TESTCASE arg with
  | nil => rfl
  | cons s more =>
      simp only [Bool.false_eq_true, if_false]
      cases parseTestcase (valueOf s) with
      | error err => rfl
      | ok names =>
          simp only
          split_ifs <;> rfl

/-! ## The meaning -/

/-- What is refused: `--testcase` more than once, or with a value that lacks a name. -/
def Refused (arg : List Str) : Prop :=
  1 < (given TESTCASE arg).length ∨
    ∃ s, given TESTCASE arg = [s] ∧ [] ∈ (valueOf s).splitOn ','

/-- What the options say. -/
structure Meaning (arg : List Str) (opts : Options) : Prop where
  args : opts.args = arg.filter fun s => optionName s = none
  help : opts.help = true ↔ ∃ s ∈ arg, optionName s = some "--help".toList
  coverage : opts.coverage = true ↔ ∃ s ∈ arg, optionName s = some "--coverage".toList
  checkall : opts.checkall = true ↔ ∃ s ∈ arg, optionName s = some "--checkall".toList
  without : given TESTCASE arg = [] → opts.testcase = []
  testcase : ∀ s, given TESTCASE arg = [s] →
    opts.testcase = firsts id ((valueOf s).splitOn ',')

/-- The same options in the same order, and the same pathnames in the same order. -/
def Interleaved (arg arg' : List Str) : Prop :=
  (arg.filter fun s => optionName s ≠ none) = (arg'.filter fun s => optionName s ≠ none) ∧
    positionals arg = positionals arg'

theorem flag_iff (name : Str) (arg : List Str) :
    flag name arg = true ↔ ∃ s ∈ arg, optionName s = some name := by
  simp [flag]

theorem extend_meaning {arg names : List Str} (hnone : given TESTCASE arg = [] → names = [])
    (hsome : ∀ s, given TESTCASE arg = [s] → names = firsts id ((valueOf s).splitOn ',')) :
    Meaning arg (Options.unset.extend arg names) where
  args := rfl
  help := flag_iff _ arg
  coverage := flag_iff _ arg
  checkall := flag_iff _ arg
  without := hnone
  testcase := hsome

theorem getopts_refused (arg : List Str) : (∃ err, getopts arg = .error err) ↔ Refused arg := by
  rw [getopts_eq, Refused]
  rcases given TESTCASE arg with _ | ⟨s, more⟩
  · simp
  · simp only [parseTestcase_eq]
    by_cases hin : [] ∈ (valueOf s).splitOn ','
    · simp only [if_pos hin, List.length_cons, List.cons.injEq]
      cases more with
      | nil => simpa using hin
      | cons s' more => simp
    · simp only [if_neg hin, List.length_cons, List.cons.injEq]
      cases more with
      | nil => simpa using hin
      | cons s' more => simp

theorem getopts_returns {arg : List Str} {opts : Options} (h : getopts arg = .ok opts) :
    Meaning arg opts := by
  rw [getopts_eq] at h
  rcases hgiven : given TESTCASE arg with _ | ⟨s, more⟩
  · rw [hgiven] at h
    obtain rfl := Except.ok.inj h
    exact extend_meaning (fun _ => rfl) fun s hs => by simp [hgiven] at hs
  · rw [hgiven] at h
    simp only [parseTestcase_eq] at h
    split_ifs at h with hin hmore
    obtain rfl := Except.ok.inj h
    refine extend_meaning (fun hnil => by simp [hgiven] at hnil) fun s' hs' => ?_
    rw [hgiven] at hs'
    rw [(List.cons.inj hs').1]

/-- The order of options and pathnames among each other does not matter. -/
theorem getopts_interleaved {arg arg' : List Str} (h : Interleaved arg arg') :
    getopts arg = getopts arg' := by
  obtain ⟨hoptions, hpositionals⟩ := h
  have hgiven : ∀ name, given name arg = given name arg' := by
    intro name
    have hfilter : ∀ l : List Str, given name l
        = (l.filter fun s => optionName s ≠ none).filter fun s => optionName s = some name := by
      intro l
      rw [given, List.filter_filter]
      refine List.filter_congr fun s _ => ?_
      cases optionName s <;> simp
    rw [hfilter, hfilter, hoptions]
  have hflag : ∀ name, flag name arg = flag name arg' := by
    intro name
    have hsome : ∀ l, flag name l = (given name l).any fun _ => true := by
      intro l
      rw [given, List.any_filter, flag]
      simp
    rw [hsome, hsome, hgiven]
  have hextend : ∀ names, Options.unset.extend arg names = Options.unset.extend arg' names := by
    intro names
    simp only [Options.extend, hflag, hpositionals]
  rw [getopts_eq, getopts_eq, hgiven]
  simp only [hextend]

/-- `--testcase=` and the names with commas between them. -/
def testcaseArg (names : List Str) : Str := "--testcase=".toList ++ List.intercalate [','] names

theorem testcaseArg_value (names : List Str) :
    optionName (testcaseArg names) = some TESTCASE ∧
      valueOf (testcaseArg names) = List.intercalate [','] names := by
  refine ⟨?_, rfl⟩
  have hdash : sub (testcaseArg names) 1 1 = ['-'] := sub_one (testcaseArg names) 1
  rw [optionName, if_pos hdash]
  rfl

/-- Different names are all first occurrences. -/
theorem firsts_of_nodup {l : List Str} (h : l.Nodup) : firsts id l = l := by
  induction l with
  | nil => rfl
  | cons a l ih =>
      obtain ⟨ha, hl⟩ := List.nodup_cons.mp h
      rw [firsts, ih hl, List.filter_eq_self.mpr]
      intro b hb
      refine decide_eq_true ?_
      rintro rfl
      exact ha hb

/-- Names that are passed are read back. -/
theorem getopts_names {arg names : List Str} (hne : names ≠ []) (hnodup : names.Nodup)
    (hnames : ∀ name ∈ names, name ≠ [] ∧ ',' ∉ name)
    (hgiven : given TESTCASE arg = [testcaseArg names]) :
    ∃ opts, getopts arg = .ok opts ∧ opts.testcase = names := by
  have hsplit : (valueOf (testcaseArg names)).splitOn ',' = names := by
    rw [(testcaseArg_value names).2]
    exact List.splitOn_intercalate ',' (fun name hname => (hnames name hname).2) hne
  have hfull : [] ∉ names := fun hin => (hnames [] hin).1 rfl
  refine ⟨Options.unset.extend arg names, ?_, rfl⟩
  rw [getopts_eq, hgiven]
  simp only [parseTestcase_eq, hsplit, if_neg hfull, firsts_of_nodup hnodup, if_true]

/-- **The meaning of the command line**: when it is refused, what the options say otherwise, that
it does not matter how options and pathnames are interleaved, and that names which are passed are
read back. -/
theorem getopts_meaning (arg : List Str) :
    ((∃ err, getopts arg = .error err) ↔ Refused arg) ∧
    (∀ opts, getopts arg = .ok opts → Meaning arg opts) ∧
    (∀ arg', Interleaved arg arg' → getopts arg = getopts arg') ∧
    (∀ names, names ≠ [] → names.Nodup → (∀ name ∈ names, name ≠ [] ∧ ',' ∉ name) →
      given TESTCASE arg = [testcaseArg names] →
      ∃ opts, getopts arg = .ok opts ∧ opts.testcase = names) := by
  refine ⟨getopts_refused arg, fun opts h => getopts_returns h, fun arg' h => ?_, ?_⟩
  · exact getopts_interleaved h
  · exact fun names hne hnodup hnames hgiven => getopts_names hne hnodup hnames hgiven

end Testcase
