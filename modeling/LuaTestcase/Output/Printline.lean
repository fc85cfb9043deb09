import LuaTestcase.Core.Lines
import LuaTestcase.Lua.Pattern
import LuaTestcase.Output.Formatting
import LuaTestcase.Trim

/-!
# `testcase.printer`: printing

`printline` and `new` of `lib/printer.lua`.  A printer with a prefix writes it in front of every
line; a line ends with a newline, or with a carriage return and a newline, and only the newline is
written.  The loop searches for the next terminator from behind the last one, so as much fuel as
the text is long is enough.

* `newPrintln`, `printline` — the functions; what is written is the list of the strings that
  `stdout:write` gets.
* `findFrom_NEWLINE` — where the next terminator is.
* `writeLines_eq` — **what the loop writes**, line by line.
* `unprefixed` — the prefix taken away again.
* `printline_reversible` — **nothing of a text is lost, repeated or moved**.
-/

namespace Testcase

variable {F U : Type}

/-! ## The source -/

/-- `NEWLINE`, which is `'\r?\n'`. -/
def NEWLINE : Pattern := ⟨(· == '\r'), .opt⟩ :: literal ['\n']

/-- The table `new` returns. -/
structure Println where
  prefixStr : Option Str
  suffixStr : Option Str
  doformat : Bool

/-- The error for an argument of another type. -/
def invalidArgument (L : Lua F U) (n : Nat) (expected : Str) (v : Value F U) : Value F U :=
  raised L 2 (.string ("invalid argument #".toList ++ (toString n).toList ++ " (nil or ".toList ++
    expected ++ " expected, got ".toList ++ v.type.name))

/-- An argument that is `nil` or a string. -/
def optString (L : Lua F U) (n : Nat) : Value F U → Except (Value F U) (Option Str)
  | .nil => return none
  | .string s => return some s
  | v => .error (invalidArgument L n "string".toList v)

/-- `new(prefix, suffix, doformat)`. -/
def newPrintln (L : Lua F U) (prefixArg suffixArg doformat : Value F U) :
    Except (Value F U) Println := do
  let prefixStr ← optString L 1 prefixArg
  let suffixStr ← optString L 2 suffixArg
  match doformat with
  | .nil => return ⟨prefixStr, suffixStr, true⟩
  | .boolean b => return ⟨prefixStr, suffixStr, b⟩
  | v => .error (invalidArgument L 3 "boolean".toList v)

/-- The loop of `printline`, from the position `pos` on, with what `find` returned last: what is
written, and the position behind the loop.  `none` if the fuel runs out. -/
def writeLines (prefixStr s : Str) : Nat → Nat → Option (Nat × Nat) → Option (List Str × Nat)
  | _, pos, none => some ([], pos)
  | 0, _, some _ => none
  | fuel + 1, pos, some (head, tail) =>
      (writeLines prefixStr s fuel (tail + 1) (find s NEWLINE (tail + 1))).map fun res =>
        ([prefixStr, sub s pos (head - 1), ['\n']] ++ res.1, res.2)

/-- What is behind the loop. -/
def writeRest (prefixStr s : Str) (pos : Nat) : List Str :=
  if pos ≤ s.length then [prefixStr, sub s pos (-1)] else []

/-- What `printline` writes of the text. -/
def writeText (fuel : Nat) (self : Println) (s : Str) : Option (List Str) :=
  match self.prefixStr with
  | none => some ([s] ++ self.suffixStr.toList)
  | some prefixStr =>
      (writeLines prefixStr s fuel 1 (find s NEWLINE 1)).map fun res =>
        res.1 ++ writeRest prefixStr s res.2 ++ self.suffixStr.toList

/-- `printline(self, s, ...)`: what is written, or the error raised. -/
def printline (L : Lua F U) (fuel : Nat) (self : Println) (s : Value F U)
    (args : List (Value F U)) : Option (Except (Value F U) (List Str)) :=
  match vstringify L self.doformat s args with
  | .error err => some (.error err)
  | .ok s => (writeText fuel self s).map .ok

/-! ## Terminators -/

/-- Where the pattern matches. -/
theorem findHead_NEWLINE (s : Str) : findHead s NEWLINE =
    if s.take 2 = ['\r', '\n'] then some 2 else if s.head? = some '\n' then some 1 else none := by
  have hlf : ∀ t : Str, matchItems (fun _ => true) (literal ['\n']) t
      = if t.head? = some '\n' then some [['\n']] else none := by
    intro t
    cases t with
    | nil => rfl
    | cons c t =>
        by_cases hc : c = '\n'
        · subst hc
          rfl
        · simp [literal, matchItems, PatternItem.expand, single, hc]
  have hmatch : matchItems (fun _ => true) NEWLINE s
      = (optExpand (· == '\r') (matchItems (fun _ => true) (literal ['\n'])) s).map
          fun r => r.1 :: r.2 := rfl
  rw [findHead, hmatch]
  cases s with
  | nil => rfl
  | cons c s =>
      by_cases hc : c = '\r'
      · subst hc
        cases s with
        | nil => rfl
        | cons d s =>
            by_cases hd : d = '\n'
            · subst hd
              simp [optExpand, single, hlf]
            · simp [optExpand, single, hlf, hd]
      · by_cases hc' : c = '\n'
        · subst hc'
          simp [optExpand, single, hlf]
        · simp [optExpand, single, hlf, hc, hc']

/-- Without a newline there is no terminator. -/
theorem findFrom_NEWLINE_none {s : Str} (h : '\n' ∉ s) (pos : Nat) :
    findFrom NEWLINE s pos = none := by
  refine findFrom_none (fun t ht => ?_) pos
  have hmem : '\n' ∉ t := fun hmem => h (ht.subset hmem)
  rw [findHead_NEWLINE, if_neg, if_neg]
  · exact fun hhead => hmem (List.mem_of_mem_head? hhead)
  · intro htake
    have hin : '\n' ∈ t.take 2 := by simp [htake]
    exact hmem (List.mem_of_mem_take hin)

/-- **The next terminator** is that of the first line. -/
theorem findFrom_NEWLINE {l : Line} (hl : l.Terminated) (rest : Str) (pos : Nat) :
    findFrom NEWLINE (l.whole ++ rest) pos
      = some (pos + l.text.length, pos + l.whole.length - 1) := by
  have hskip : ∀ t, t ≠ [] → t <:+ l.text → findHead (t ++ (l.terminator ++ rest)) NEWLINE = none
      := by
    intro t hne ht
    have hmem : '\n' ∉ t := fun hmem => hl.no_newline (ht.subset hmem)
    obtain ⟨c, t', rfl⟩ := List.exists_cons_of_ne_nil hne
    have hc : c ≠ '\n' := fun hc => hmem (by simp [hc])
    rw [findHead_NEWLINE, if_neg, if_neg (by simpa using hc)]
    -- a carriage return is followed by a byte of the line, or by its terminator
    cases t' with
    | nil =>
        rcases hl.ends with hcrlf | ⟨hlf, hlast⟩
        · simp [hcrlf]
        · have hcr : c ≠ '\r' := by
            rintro rfl
            refine hlast ?_
            obtain ⟨u, hu⟩ := ht
            simp [← hu]
          simp [hcr]
    | cons d t' =>
        have hd : d ≠ '\n' := fun hd => hmem (by simp [hd])
        simp [hd]
  have hhead : findHead (l.terminator ++ rest) NEWLINE = some l.terminator.length := by
    rw [findHead_NEWLINE]
    rcases hl.ends with hcrlf | ⟨hlf, _⟩
    · simp [hcrlf]
    · simp [hlf]
  rw [Line.whole, List.append_assoc, findFrom_skip hskip, findFrom_head hhead, List.length_append,
    Nat.add_assoc]

/-! ## The loop -/

/-- What is written of a line. -/
def writtenLine (prefixStr : Str) (l : Line) : List Str := [prefixStr, l.text, ['\n']]

theorem terminator_length {l : Line} (hl : l.Terminated) : 0 < l.terminator.length := by
  rcases hl.ends with hcrlf | ⟨hlf, _⟩
  · simp [hcrlf]
  · simp [hlf]

/-- **What the loop writes**, from any position on. -/
theorem writeLines_eq (prefixStr s : Str) {ls : List Line} (hls : ∀ l ∈ ls, l.Terminated)
    {rest : Str} (hrest : '\n' ∉ rest) {fuel pos : Nat} (hfuel : ls.length ≤ fuel)
    (hpos : 1 ≤ pos) (hs : s.drop (pos - 1) = joinLines ls ++ rest) :
    writeLines prefixStr s fuel pos (find s NEWLINE pos)
      = some (ls.flatMap (writtenLine prefixStr), pos + (joinLines ls).length) := by
  induction ls generalizing fuel pos with
  | nil =>
      have hfind : find s NEWLINE pos = none := by
        rw [find, hs]
        exact findFrom_NEWLINE_none hrest pos
      rw [hfind]
      cases fuel with
      | zero => rfl
      | succ fuel => rfl
  | cons l ls ih =>
      obtain ⟨hl, hls⟩ := List.forall_mem_cons.mp hls
      obtain ⟨fuel, rfl⟩ := Nat.exists_eq_succ_of_ne_zero (show fuel ≠ 0 by simp at hfuel; omega)
      have hjoin : joinLines (l :: ls) ++ rest = l.whole ++ (joinLines ls ++ rest) := by
        simp [joinLines]
      rw [hjoin] at hs
      have hfind : find s NEWLINE pos
          = some (pos + l.text.length, pos + l.whole.length - 1) := by
        rw [find, hs, findFrom_NEWLINE hl]
      have hwhole : l.whole.length = l.text.length + l.terminator.length := List.length_append
      have hterm := terminator_length hl
      have hnext : pos + l.whole.length - 1 + 1 = pos + l.whole.length := by omega
      have hdrop : s.drop (pos + l.whole.length - 1) = joinLines ls ++ rest := by
        have hsplit : pos + l.whole.length - 1 = pos - 1 + l.whole.length := by omega
        rw [hsplit, ← List.drop_drop, hs, List.drop_left]
      have hsub : sub s pos ((pos + l.text.length : Nat) - 1) = l.text := by
        have hstart : ((pos : Nat) : Int) = ((pos - 1 : Nat) : Int) + 1 := by omega
        have hstop : ((pos + l.text.length : Nat) : Int) - 1
            = ((pos - 1 + l.text.length : Nat) : Int) := by omega
        rw [hstop, hstart, sub_range, hs, Nat.add_sub_cancel_left, Line.whole, List.append_assoc,
          List.take_left]
      rw [hfind]
      simp only [writeLines, hnext, hsub]
      rw [ih hls (by simpa using hfuel) (by omega) hdrop]
      simp [writtenLine, joinLines, Nat.add_assoc]

/-- Every line takes a byte at least. -/
theorem lines_length_le {ls : List Line} (hls : ∀ l ∈ ls, l.Terminated) :
    ls.length ≤ (joinLines ls).length := by
  induction ls with
  | nil => exact Nat.le_refl 0
  | cons l ls ih =>
      obtain ⟨hl, hls⟩ := List.forall_mem_cons.mp hls
      have hterm := terminator_length hl
      have hrest := ih hls
      simp only [joinLines, List.flatMap_cons, List.length_append, List.length_cons, Line.whole]
        at hrest ⊢
      omega

/-- **What is written of a text.** -/
theorem writeText_eq (prefixStr : Str) (suffixStr : Option Str) (doformat : Bool) {ls : List Line}
    (hls : ∀ l ∈ ls, l.Terminated) {rest : Str} (hrest : '\n' ∉ rest) {fuel : Nat}
    (hfuel : (joinLines ls ++ rest).length ≤ fuel) :
    writeText fuel ⟨some prefixStr, suffixStr, doformat⟩ (joinLines ls ++ rest)
      = some (ls.flatMap (writtenLine prefixStr) ++
          (if rest = [] then [] else [prefixStr, rest]) ++ suffixStr.toList) := by
  have hlines := lines_length_le hls
  rw [List.length_append] at hfuel
  have hloop := writeLines_eq prefixStr (joinLines ls ++ rest) hls hrest
    (show ls.length ≤ fuel by omega) (Nat.le_refl 1) rfl
  have hend : writeRest prefixStr (joinLines ls ++ rest) (1 + (joinLines ls).length)
      = if rest = [] then [] else [prefixStr, rest] := by
    rw [writeRest, List.length_append]
    by_cases hnil : rest = []
    · rw [if_pos hnil, if_neg (by simp [hnil])]
    · have hpos := List.length_pos_iff.mpr hnil
      have hsub : sub (joinLines ls ++ rest) ((1 + (joinLines ls).length : Nat) : Int) (-1)
          = rest := by
        have hcast : ((1 + (joinLines ls).length : Nat) : Int) = ((joinLines ls).length : Int) + 1 := by
          omega
        rw [hcast, sub_from, List.drop_left]
      rw [if_neg hnil, if_pos (by omega), hsub]
  simp only [writeText, hloop, Option.map_some, hend]

/-! ## Taking the prefix away -/

/-- What stands behind the first newline. -/
def behindNewline (line : Str) : Str := (line.dropWhile (· ≠ '\n')).drop 1

theorem behindNewline_length {line : Str} (h : '\n' ∈ line) :
    (behindNewline line).length < line.length := by
  obtain ⟨text, rest, rfl, htext⟩ := List.eq_append_cons_of_mem h
  have hall : ∀ c ∈ text, decide (c ≠ '\n') = true := fun c hc =>
    decide_eq_true fun heq => htext (heq ▸ hc)
  rw [behindNewline, List.dropWhile_append_of_pos hall]
  simp
  omega

/-- The text without the prefix in front of each of its lines. -/
def unprefixed (prefixStr : Str) (written : Str) : Str :=
  if '\n' ∈ trimPrefix written prefixStr then
    (trimPrefix written prefixStr).takeWhile (· ≠ '\n') ++
      '\n' :: unprefixed prefixStr (behindNewline (trimPrefix written prefixStr))
  else trimPrefix written prefixStr
termination_by written.length
decreasing_by
  rename_i hline
  exact Nat.lt_of_lt_of_le (behindNewline_length hline) (trimPrefix_length_le written prefixStr)

/-- A line that was written. -/
theorem unprefixed_line (prefixStr : Str) {text : Str} (h : '\n' ∉ text) (rest : Str) :
    unprefixed prefixStr (prefixStr ++ text ++ '\n' :: rest)
      = text ++ '\n' :: unprefixed prefixStr rest := by
  have hall : ∀ c ∈ text, decide (c ≠ '\n') = true := fun c hc =>
    decide_eq_true fun heq => h (heq ▸ hc)
  have htake : (text ++ '\n' :: rest).takeWhile (· ≠ '\n') = text := by
    rw [List.takeWhile_append_of_pos hall]
    simp
  have hbehind : behindNewline (text ++ '\n' :: rest) = rest := by
    rw [behindNewline, List.dropWhile_append_of_pos hall]
    simp
  rw [unprefixed, List.append_assoc, trimPrefix_append, if_pos (by simp), htake, hbehind]

/-- A rest that was written. -/
theorem unprefixed_rest (prefixStr : Str) {rest : Str} (h : '\n' ∉ rest) :
    unprefixed prefixStr (if rest = [] then [] else prefixStr ++ rest) = rest := by
  have htrim : trimPrefix (if rest = [] then [] else prefixStr ++ rest) prefixStr = rest := by
    split_ifs with hnil
    · have hle := trimPrefix_length_le [] prefixStr
      rw [hnil]
      exact List.length_eq_zero_iff.mp (Nat.le_zero.mp hle)
    · exact trimPrefix_append prefixStr rest
  rw [unprefixed, htrim, if_neg h]

/-- **All lines that were written.** -/
theorem unprefixed_lines (prefixStr : Str) {ls : List Line} (hls : ∀ l ∈ ls, l.Terminated)
    {rest : Str} (hrest : '\n' ∉ rest) :
    unprefixed prefixStr ((ls.flatMap fun l => prefixStr ++ l.text ++ ['\n']) ++
      (if rest = [] then [] else prefixStr ++ rest))
        = (ls.flatMap fun l => l.text ++ ['\n']) ++ rest := by
  induction ls with
  | nil => exact unprefixed_rest prefixStr hrest
  | cons l ls ih =>
      obtain ⟨hl, hls⟩ := List.forall_mem_cons.mp hls
      have hline := unprefixed_line prefixStr hl.no_newline
        ((ls.flatMap fun l => prefixStr ++ l.text ++ ['\n']) ++
          (if rest = [] then [] else prefixStr ++ rest))
      rw [ih hls] at hline
      simpa using hline

/-- **Prefixing is reversible**: every line is written with the prefix in front and a newline
behind, and taking the suffix and the prefixes away gives the text back, with a newline for every
carriage return and newline. -/
theorem printline_reversible (L : Lua F U) (prefixStr : Str) (suffixStr : Option Str)
    (doformat : Bool) (s : Value F U) (args : List (Value F U)) (text : Str)
    (htext : vstringify L doformat s args = .ok text) :
    ∃ ls rest out, (∀ l ∈ ls, l.Terminated) ∧ '\n' ∉ rest ∧ text = joinLines ls ++ rest ∧
      (∀ fuel, text.length ≤ fuel →
        printline L fuel ⟨some prefixStr, suffixStr, doformat⟩ s args = some (.ok out)) ∧
      out.flatten = (ls.flatMap fun l => prefixStr ++ l.text ++ ['\n']) ++
        (if rest = [] then [] else prefixStr ++ rest) ++ suffixStr.getD [] ∧
      unprefixed prefixStr (out.flatten.take (out.flatten.length - (suffixStr.getD []).length))
        = replaceCRLF text := by
  obtain ⟨ls, rest, hls, hrest, rfl⟩ := exists_terminated text
  have hlines : ∀ ls : List Line, (ls.flatMap (writtenLine prefixStr)).flatten
      = ls.flatMap fun l => prefixStr ++ l.text ++ ['\n'] := by
    intro ls
    induction ls with
    | nil => rfl
    | cons l ls ih => simp [writtenLine, ih]
  have hwritten : (ls.flatMap (writtenLine prefixStr) ++
      (if rest = [] then [] else [prefixStr, rest]) ++ suffixStr.toList).flatten
        = (ls.flatMap fun l => prefixStr ++ l.text ++ ['\n']) ++
          (if rest = [] then [] else prefixStr ++ rest) ++ suffixStr.getD [] := by
    have hend : (if rest = [] then [] else [prefixStr, rest]).flatten
        = if rest = [] then [] else prefixStr ++ rest := by
      split_ifs <;> simp
    rw [List.flatten_append, List.flatten_append, hlines, hend]
    cases suffixStr <;> simp
  refine ⟨ls, rest, _, hls, hrest, rfl, fun fuel hfuel => ?_, hwritten, ?_⟩
  · rw [printline, htext]
    simp only [writeText_eq prefixStr suffixStr doformat hls hrest hfuel, Option.map_some]
  · rw [hwritten, List.length_append, Nat.add_sub_cancel, List.take_left,
      unprefixed_lines prefixStr hls hrest, replaceCRLF_lines hls hrest]

/-- A carriage return in a line, an empty line and no newline at the end. -/
theorem mixedLines_reversible : ∃ out : List Str,
    (∀ fuel, 7 ≤ fuel → printline plainLua fuel ⟨some ['>'], some ['.'], false⟩
      (.string "a\rb\r\n\nc".toList) [] = some (.ok out)) ∧
    unprefixed ['>'] (out.flatten.take (out.flatten.length - 1)) = "a\rb\n\nc".toList := by
  obtain ⟨_, _, out, _, _, _, hprint, _, hback⟩ := printline_reversible plainLua ['>'] (some ['.'])
    false (.string "a\rb\r\n\nc".toList) [] "a\rb\r\n\nc".toList rfl
  refine ⟨out, fun fuel hfuel => hprint fuel hfuel, ?_⟩
  have hreplaced : replaceCRLF "a\rb\r\n\nc".toList = "a\rb\n\nc".toList := by decide
  rw [← hreplaced]
  exact hback

end Testcase
