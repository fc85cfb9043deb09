import LuaTestcase.Core.Lines
import LuaTestcase.Eval.Def

/-!
# `parse_inlineopt` line by line

The loop of `parse_inlineopt` looks for the next terminator and passes what stands before it to
`checkline`.  What it passes are the lines of the text, in order, with their numbers and
positions — except that a last line of one byte without a terminator is passed over.

* `find_CRLF` — where the next terminator is.
* `parseInlineopt_eq` — **the loop is a fold over the lines** (`checkLines`), and never runs out
  of fuel.
-/

namespace Testcase

/-! ## Terminators -/

/-- The pattern matches where carriage returns lead to a newline. -/
theorem findHead_CRLF (s : Str) : findHead s CRLF
    = if (s.dropWhile isCR).head? = some '\n' then some ((s.takeWhile isCR).length + 1)
      else none := by
  have hstop : ∀ c rest, isCR c = true →
      matchItems (fun _ => true) (literal ['\n']) (c :: rest) = none := by
    intro c rest hc
    have hne : ¬ (c == '\n') = true := by
      intro heq
      rw [eq_of_beq heq] at hc
      exact absurd hc (by decide)
    simp [literal, matchItems, PatternItem.expand, single, hne]
  have hmatch : matchItems (fun _ => true) CRLF s
      = (maxExpand isCR (matchItems (fun _ => true) (literal ['\n'])) s).map
          fun r => r.1 :: r.2 := rfl
  rw [findHead, hmatch, maxExpand_eq hstop]
  rcases s.dropWhile isCR with _ | ⟨c, rest⟩
  · simp [literal, matchItems, PatternItem.expand, single]
  · by_cases hc : c = '\n'
    · subst hc
      simp [literal, matchItems, PatternItem.expand, single]
    · simp [literal, matchItems, PatternItem.expand, single, hc]

/-- Without a newline there is no terminator. -/
theorem findFrom_CRLF_none {s : Str} (h : '\n' ∉ s) (pos : Nat) : findFrom CRLF s pos = none := by
  refine findFrom_none (fun t ht => ?_) pos
  rw [findHead_CRLF, if_neg]
  intro hhead
  exact h (ht.subset ((List.dropWhile_suffix isCR).subset (List.mem_of_head? hhead)))

/-- **The next terminator** is the first newline, with the carriage returns before it. -/
theorem findFrom_CRLF {piece : Str} (h : '\n' ∉ piece) (rest : Str) (pos : Nat) :
    findFrom CRLF (piece ++ '\n' :: rest) pos
      = some (pos + (piece.rdropWhile isCR).length, pos + piece.length) := by
  have hpiece : piece ++ '\n' :: rest
      = piece.rdropWhile isCR ++ (piece.rtakeWhile isCR ++ '\n' :: rest) := by
    rw [← List.append_assoc, List.rdropWhile_append_rtakeWhile]
  have hlen : piece.length = (piece.rdropWhile isCR).length + (piece.rtakeWhile isCR).length := by
    rw [← List.length_append, List.rdropWhile_append_rtakeWhile]
  have hskip : ∀ t, t ≠ [] → t <:+ piece.rdropWhile isCR →
      findHead (t ++ (piece.rtakeWhile isCR ++ '\n' :: rest)) CRLF = none := by
    intro t hne ht
    -- the last byte of `t` is no carriage return, so they do not reach the newline
    have hlast : isCR (t.getLast hne) = false := by
      rw [ht.getLast hne]
      simpa using List.rdropWhile_last_not isCR piece (ht.ne_nil hne)
    have hnil : t.dropWhile isCR ≠ [] := by
      intro hnil
      rw [List.dropWhile_eq_nil_iff.mp hnil _ (List.getLast_mem hne)] at hlast
      cases hlast
    rw [findHead_CRLF, if_neg]
    obtain ⟨c, u, hu⟩ := List.exists_cons_of_ne_nil hnil
    rw [List.dropWhile_append, hu]
    simp only [List.isEmpty_cons, Bool.false_eq_true, if_false, List.cons_append, List.head?_cons,
      Option.some.injEq]
    rintro rfl
    have hmem : '\n' ∈ t := (List.dropWhile_suffix isCR).subset (by rw [hu]; simp)
    exact h ((List.rdropWhile_prefix isCR piece).subset (ht.subset hmem))
  have hcrs : ∀ c ∈ piece.rtakeWhile isCR, isCR c = true := fun c hc => List.mem_rtakeWhile_imp hc
  have hhead : findHead (piece.rtakeWhile isCR ++ '\n' :: rest) CRLF
      = some ((piece.rtakeWhile isCR).length + 1) := by
    rw [findHead_CRLF, List.dropWhile_append_of_pos hcrs, List.takeWhile_append_of_pos hcrs]
    simp [isCR]
  rw [hpiece, findFrom_skip hskip, findFrom_head hhead, hlen]
  simp only [Option.some.injEq, Prod.mk.injEq, true_and]
  omega

/-! ## The fold over the lines -/

/-- A last line of one byte is passed over. -/
def Line.passedOver (l : Line) : Bool := l.terminator.isEmpty && l.text.length == 1

/-- The lines that are checked. -/
def checkedLines (ls : List Line) : List Line := ls.filter fun l => !l.passedOver

/-- `checkline` on one line after the other. -/
def checkLines (st : Scanner) : List Line → Except InlineError Scanner
  | [] => .ok st
  | l :: ls =>
      match checkline st.ctx l.text (st.lineno + 1) st.pos (st.pos + l.text.length - 1) with
      | .error err => .error err
      | .ok ctx => checkLines ⟨st.pos + l.whole.length, st.lineno + 1, ctx⟩ ls

/-- What the program does behind the loop. -/
def afterLoop (s : Str) (res : Except InlineError Scanner) : Except InlineError (Option Str) :=
  res >>= fun st => scanLast s st >>= rewrite s

/-- What follows the loop is the fold over a last line without a terminator. -/
theorem scanLast_eq {s rest : Str} {st : Scanner} (hpos : 1 ≤ st.pos)
    (hrest : s.drop (st.pos - 1) = rest) (hend : st.pos ≤ s.length + 1) (h : '\n' ∉ rest) :
    (scanLast s st >>= rewrite s)
      = checkLines st (checkedLines (textLines rest)) >>= rewrite s := by
  have hlen : rest.length = s.length - (st.pos - 1) := by rw [← hrest, List.length_drop]
  rw [textLines_last h]
  by_cases hlast : st.pos < s.length
  · have hne : rest ≠ [] := by
      rintro rfl
      simp only [List.length_nil] at hlen
      omega
    have hpassed : (⟨rest, []⟩ : Line).passedOver = false := by
      simp only [Line.passedOver, List.isEmpty_nil, Bool.true_and, beq_eq_false_iff_ne]
      omega
    have hsub : sub s st.pos (-1) = rest := by
      have hcast : ((st.pos : Nat) : Int) = ((st.pos - 1 : Nat) : Int) + 1 := by omega
      rw [hcast, sub_from, hrest]
    have htail : st.pos + rest.length - 1 = s.length := by omega
    have hone : checkedLines [⟨rest, []⟩] = [⟨rest, []⟩] := by simp [checkedLines, hpassed]
    rw [if_neg hne, hone, scanLast, if_pos hlast, hsub, checkLines, htail]
    cases checkline st.ctx rest (st.lineno + 1) st.pos s.length with
    | error err => rfl
    | ok ctx => rfl
  · have hnone : checkedLines (if rest = [] then [] else [⟨rest, []⟩]) = [] := by
      split_ifs with hnil
      · rfl
      · have hone : rest.length = 1 := by
          have := List.length_pos_iff.mpr hnil
          omega
        simp [checkedLines, Line.passedOver, hone]
    rw [hnone, scanLast, if_neg hlast]
    rfl

/-- What stands before the next terminator is the text of the line. -/
theorem sub_line {s piece rest : Str} {pos : Nat} (hpos : 1 ≤ pos)
    (hrest : s.drop (pos - 1) = piece ++ '\n' :: rest) :
    sub s pos ((pos + (piece.rdropWhile isCR).length : Nat) - 1) = piece.rdropWhile isCR := by
  have hstart : ((pos : Nat) : Int) = ((pos - 1 : Nat) : Int) + 1 := by omega
  have hstop : ((pos + (piece.rdropWhile isCR).length : Nat) : Int) - 1
      = ((pos - 1 + (piece.rdropWhile isCR).length : Nat) : Int) := by omega
  rw [hstop, hstart, sub_range, hrest, Nat.add_sub_cancel_left]
  refine List.prefix_iff_eq_take.mp ?_ |>.symm
  exact (List.rdropWhile_prefix isCR piece).trans (List.prefix_append _ _)

/-- A line with a terminator is checked. -/
theorem checkedLines_newline {piece : Str} (h : '\n' ∉ piece) (rest : Str) :
    checkedLines (textLines (piece ++ '\n' :: rest))
      = ⟨piece.rdropWhile isCR, piece.rtakeWhile isCR ++ ['\n']⟩
        :: checkedLines (textLines rest) := by
  rw [textLines_newline h, checkedLines, List.filter_cons_of_pos]
  · rfl
  · simp [Line.passedOver]

/-- The loop and what follows it, from any position on. -/
theorem scanLines_eq (s rest : Str) : ∀ (fuel : Nat) (st : Scanner), 1 ≤ st.pos →
    s.drop (st.pos - 1) = rest → st.pos ≤ s.length + 1 → rest.length < fuel →
    (scanLines s fuel st).map (afterLoop s)
      = some (checkLines st (checkedLines (textLines rest)) >>= rewrite s) := by
  induction rest using text_induction with
  | last rest h =>
      intro fuel st hpos hrest hend hfuel
      obtain ⟨fuel, rfl⟩ := Nat.exists_eq_succ_of_ne_zero (show fuel ≠ 0 by omega)
      have hfind : find s CRLF st.pos = none := by rw [find, hrest, findFrom_CRLF_none h]
      rw [← scanLast_eq hpos hrest hend h, scanLines, hfind]
      rfl
  | line piece rest h ih =>
      intro fuel st hpos hrest hend hfuel
      obtain ⟨fuel, rfl⟩ := Nat.exists_eq_succ_of_ne_zero (show fuel ≠ 0 by omega)
      have hfind : find s CRLF st.pos
          = some (st.pos + (piece.rdropWhile isCR).length, st.pos + piece.length) := by
        rw [find, hrest, findFrom_CRLF h]
      have hlen := congrArg List.length hrest
      simp only [List.length_drop, List.length_append, List.length_cons] at hlen hfuel
      have hdrop : s.drop (st.pos + piece.length + 1 - 1) = rest := by
        have hsplit : st.pos + piece.length + 1 - 1 = st.pos - 1 + (piece.length + 1) := by omega
        rw [hsplit, ← List.drop_drop, hrest, ← List.drop_drop, List.drop_left]
        rfl
      have hwhole : (⟨piece.rdropWhile isCR, piece.rtakeWhile isCR ++ ['\n']⟩ : Line).whole.length
          = piece.length + 1 := by
        rw [Line.whole, ← List.append_assoc, List.rdropWhile_append_rtakeWhile]
        simp
      rw [checkedLines_newline h]
      simp only [scanLines, hfind, sub_line hpos hrest, checkLines, hwhole]
      cases checkline st.ctx (piece.rdropWhile isCR) (st.lineno + 1) st.pos
          (st.pos + (piece.rdropWhile isCR).length - 1) with
      | error err => rfl
      | ok ctx =>
          simp only
          rw [ih fuel ⟨st.pos + piece.length + 1, st.lineno + 1, ctx⟩ (by simp) hdrop
            (by simp only; omega) (by omega)]
          rw [Nat.add_assoc]

/-- **`parse_inlineopt` is a fold over the lines.** -/
theorem parseInlineopt_eq (s : Str) : parseInlineopt s
    = some (checkLines ⟨1, 0, ⟨false, none, none⟩⟩ (checkedLines (textLines s)) >>= rewrite s) :=
  scanLines_eq s s (s.length + 1) ⟨1, 0, ⟨false, none, none⟩⟩ (Nat.le_refl 1) rfl (by simp)
    (Nat.lt_succ_self _)

end Testcase
