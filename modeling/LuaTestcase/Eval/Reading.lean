import LuaTestcase.Core.Lists
import LuaTestcase.Eval.Lines

/-!
# What `parse_inlineopt` makes of the lines of a text

The lines of a text are plain, or options with a value.  `Reading` lists the ways in which a text
can be read, each with the lines that decide it and what comes of it: nothing, a new text, or an
error with its line numbers.

* `checkline_plain` to `checkline_misplaced` — what one line does to the state.
* `checkLines_skip` — lines that leave the state alone.
* `parseInlineopt_reading` — **every text has a reading**.
-/

namespace Testcase

/-! ## Lines -/

/-- The value of an option line: the rest of the line behind the pattern, without the white space
around it. -/
def optionValue (line : Str) : Option Str :=
  (findHead line INLINE_OPT).map fun n => ((line.drop n).dropWhile isSpace).rdropWhile isSpace

/-- An option line with value `true`. -/
def Enables (l : Line) : Prop := optionValue l.text = some "true".toList

/-- The line is no option line, or its value is `false`. -/
def Quiet (l : Line) : Prop :=
  optionValue l.text = none ∨ optionValue l.text = some "false".toList

/-- A value that is neither `true` nor `false`. -/
def BadValue (v : Str) : Prop := v ≠ "true".toList ∧ v ≠ "false".toList

/-- The line matches the placeholder pattern. -/
def IsPlaceholder (l : Line) : Prop := ∃ n, findHead l.text PLACEHOLDER = some n

/-- The line as it is rewritten. -/
def Line.enabled (l : Line) : Line := { l with text := INLINE_CODE }

/-- A line that matches the placeholder pattern starts with a letter, one that matches the option
pattern with a minus sign. -/
theorem IsPlaceholder.plain {l : Line} (h : IsPlaceholder l) : optionValue l.text = none := by
  obtain ⟨n, hn⟩ := h
  rcases hopt : findHead l.text INLINE_OPT with _ | m
  · rw [optionValue, hopt]
    rfl
  · simp only [findHead, Option.map_eq_some_iff] at hn hopt
    obtain ⟨segs, hsegs, _⟩ := hn
    obtain ⟨segs', hsegs', _⟩ := hopt
    have hletter : ∀ c : Char, (c == 'l') = true → isSpace c = false := by
      intro c hc
      rw [eq_of_beq hc]
      decide
    have hminus : ∀ c : Char, (c == '-') = true → isSpace c = false := by
      intro c hc
      rw [eq_of_beq hc]
      decide
    obtain ⟨c, hc, hcl⟩ :=
      matchItems_head (show Rep.one = .one ∨ Rep.one = .plus from Or.inl rfl) hletter hsegs
    obtain ⟨c', hc', hcm⟩ :=
      matchItems_head (show Rep.plus = .one ∨ Rep.plus = .plus from Or.inr rfl) hminus hsegs'
    obtain rfl : c = c' := Option.some.inj (hc.symm.trans hc')
    rw [eq_of_beq hcl] at hcm
    exact absurd hcm (by decide)

/-- What takes more bytes than there are does not match. -/
theorem findHead_short {s : Str} {p : Pattern}
    (h : s.length < p.countP fun it => it.rep == .one || it.rep == .plus) :
    findHead s p = none := by
  rcases hfind : findHead s p with _ | n
  · rfl
  · have hle := findHead_le hfind
    simp only [findHead, Option.map_eq_some_iff] at hfind
    obtain ⟨segs, hsegs, rfl⟩ := hfind
    have := matchItems_length hsegs
    omega

/-- A line that is passed over is no option line, and no placeholder. -/
theorem Line.passedOver_plain {l : Line} (h : l.passedOver = true) :
    optionValue l.text = none ∧ ¬ IsPlaceholder l := by
  have hlen : l.text.length = 1 := by
    simp only [Line.passedOver, Bool.and_eq_true, beq_iff_eq] at h
    exact h.2
  constructor
  · rw [optionValue, findHead_short (by rw [hlen]; decide)]
    rfl
  · rintro ⟨n, hn⟩
    rw [findHead_short (by rw [hlen]; decide)] at hn
    cases hn

/-- The lines of a text are those that are checked, and perhaps a last one that is passed over. -/
theorem checkedLines_split {ls : List Line} (h : Lined ls) :
    ls = checkedLines ls ∨ ∃ l, l.passedOver = true ∧ ls = checkedLines ls ++ [l] := by
  induction ls with
  | nil => exact Or.inl rfl
  | cons l ls ih =>
      rcases h with ⟨hl, hls⟩ | ⟨rfl, hterm, _, _⟩
      · have hkept : l.passedOver = false := by
          obtain ⟨crs, _, hterm⟩ := hl.ends
          simp [Line.passedOver, hterm]
        have hcons : checkedLines (l :: ls) = l :: checkedLines ls := by
          simp [checkedLines, hkept]
        rw [hcons]
        rcases ih hls with heq | ⟨l', hl', heq⟩
        · exact Or.inl (congrArg (l :: ·) heq)
        · exact Or.inr ⟨l', hl', congrArg (l :: ·) heq⟩
      · by_cases hpassed : l.passedOver = true
        · exact Or.inr ⟨l, hpassed, by simp [checkedLines, hpassed]⟩
        · exact Or.inl (by simp [checkedLines, hpassed])

/-! ## One line -/

section Checkline

variable {ctx : Ctx} {line : Str} {lineno head tail : Nat}

theorem checkline_plain (hnext : ctx.chknext = false) (h : optionValue line = none) :
    checkline ctx line lineno head tail = .ok ctx := by
  simp only [optionValue, Option.map_eq_none_iff] at h
  simp [checkline, hnext, h]

/-- An option line, where the line need not be a placeholder. -/
theorem checkline_option {v : Str} (hnext : ctx.chknext = false) (h : optionValue line = some v) :
    checkline ctx line lineno head tail = checkOption ctx v lineno := by
  simp only [optionValue, Option.map_eq_some_iff] at h
  obtain ⟨n, hn, hv⟩ := h
  have hvalue : trimSpace (sub line (n + 1) (-1)) = v := by
    rw [sub_from, trimSpace_eq, hv]
  simp [checkline, hnext, hn, hvalue]

theorem checkline_invalid {v : Str} (hnext : ctx.chknext = false) (h : optionValue line = some v)
    (hv : BadValue v) : checkline ctx line lineno head tail = .error (.einval v lineno) := by
  rw [checkline_option hnext h, checkOption, VALID_OPTVAL, if_neg hv.1, if_neg hv.2]

theorem checkline_again {v : Str} {defline : Nat} (hnext : ctx.chknext = false)
    (h : optionValue line = some v) (hv : ¬ BadValue v) (hdef : ctx.defline = some defline) :
    checkline ctx line lineno head tail = .error (.ealready lineno defline) := by
  have hvalid : ∃ ok, VALID_OPTVAL v = some ok := by
    rw [VALID_OPTVAL]
    split_ifs with htrue hfalse
    · exact ⟨true, rfl⟩
    · exact ⟨false, rfl⟩
    · exact absurd ⟨htrue, hfalse⟩ hv
  obtain ⟨ok, hok⟩ := hvalid
  rw [checkline_option hnext h, checkOption, hok, hdef]

theorem checkline_enables (hnext : ctx.chknext = false) (hdef : ctx.defline = none)
    (h : optionValue line = some "true".toList) : checkline ctx line lineno head tail
      = .ok { ctx with chknext := true, defline := some lineno } := by
  rw [checkline_option hnext h, checkOption, VALID_OPTVAL, if_pos rfl, hdef]
  rfl

theorem checkline_quiet (hnext : ctx.chknext = false) (hdef : ctx.defline = none)
    (h : optionValue line = none ∨ optionValue line = some "false".toList) :
    checkline ctx line lineno head tail = .ok ctx := by
  rcases h with h | h
  · exact checkline_plain hnext h
  · rw [checkline_option hnext h, checkOption, VALID_OPTVAL, if_neg (by decide), if_pos rfl, hdef]
    rfl

theorem checkline_placeholder {n : Nat} (hnext : ctx.chknext = true)
    (h : findHead line PLACEHOLDER = some n) : checkline ctx line lineno head tail
      = .ok { ctx with chknext := false, decl := some (head, tail) } := by
  simp [checkline, hnext, h]

theorem checkline_misplaced (hnext : ctx.chknext = true) (h : findHead line PLACEHOLDER = none) :
    checkline ctx line lineno head tail = .error (.enocode lineno) := by
  simp [checkline, hnext, h]

end Checkline

/-! ## Lists of lines -/

/-- The scanner behind some lines that left the state alone. -/
def Scanner.behind (st : Scanner) (ls : List Line) : Scanner :=
  ⟨st.pos + (joinLines ls).length, st.lineno + ls.length, st.ctx⟩

/-- Lines that leave the state alone. -/
theorem checkLines_skip (st : Scanner) (pre : List Line)
    (h : ∀ l ∈ pre, ∀ lineno head tail, checkline st.ctx l.text lineno head tail = .ok st.ctx)
    (ls : List Line) : checkLines st (pre ++ ls) = checkLines (st.behind pre) ls := by
  induction pre generalizing st with
  | nil => rfl
  | cons l pre ih =>
      rw [List.cons_append, checkLines, h l (by simp)]
      simp only
      rw [ih ⟨st.pos + l.whole.length, st.lineno + 1, st.ctx⟩ fun x hx => h x (by simp [hx])]
      congr 1
      simp only [Scanner.behind, joinLines, List.flatMap_cons, List.length_append,
        List.length_cons, Scanner.mk.injEq, and_true]
      omega

/-- The ways in which the lines of a text can be read, and what comes of it. -/
inductive Reading (ls : List Line) : Except InlineError (Option Str) → Prop
  | nothing : (∀ l ∈ ls, Quiet l) → Reading ls (.ok none)
  | invalid (pre post : List Line) (l : Line) (v : Str) : ls = pre ++ l :: post →
      (∀ x ∈ pre, Quiet x) → optionValue l.text = some v → BadValue v →
      Reading ls (.error (.einval v (pre.length + 1)))
  | last (pre post : List Line) (l : Line) : ls = pre ++ l :: post → (∀ x ∈ pre, Quiet x) →
      Enables l → (post = [] ∨ ∃ q, q.passedOver = true ∧ post = [q]) →
      Reading ls (.error (.enocode (pre.length + 1)))
  | misplaced (pre post : List Line) (l q : Line) : ls = pre ++ l :: q :: post →
      (∀ x ∈ pre, Quiet x) → Enables l → ¬ IsPlaceholder q → q.passedOver = false →
      Reading ls (.error (.enocode (pre.length + 2)))
  | enabled (pre post : List Line) (l q : Line) : ls = pre ++ l :: q :: post →
      (∀ x ∈ pre, Quiet x) → Enables l → IsPlaceholder q →
      (∀ x ∈ post, optionValue x.text = none) →
      Reading ls (.ok (some (joinLines (pre ++ l :: q.enabled :: post))))
  | invalidLater (pre mid post : List Line) (l q o : Line) (v : Str) :
      ls = pre ++ l :: q :: mid ++ o :: post → (∀ x ∈ pre, Quiet x) → Enables l →
      IsPlaceholder q → optionValue o.text = some v → BadValue v →
      Reading ls (.error (.einval v (pre.length + mid.length + 3)))
  | again (pre mid post : List Line) (l q o : Line) (v : Str) :
      ls = pre ++ l :: q :: mid ++ o :: post → (∀ x ∈ pre, Quiet x) → Enables l →
      IsPlaceholder q → optionValue o.text = some v →
      Reading ls (.error (.ealready (pre.length + mid.length + 3) (pre.length + 1)))

/-- The scanner at the beginning. -/
def Scanner.start : Scanner := ⟨1, 0, ⟨false, none, none⟩⟩

/-- The text is replaced between the recorded positions. -/
theorem rewrite_decl {a t b : Str} {st : Scanner} {head tail : Nat}
    (hdecl : st.ctx.decl = some (head, tail)) (hhead : head = a.length + 1)
    (htail : tail = a.length + t.length) :
    rewrite (a ++ t ++ b) st = .ok (some (a ++ INLINE_CODE ++ b)) := by
  have hbefore : sub (a ++ t ++ b) 1 ((head : Int) - 1) = a := by
    have hcast : (head : Int) - 1 = (a.length : Nat) := by omega
    rw [hcast, sub_one, List.append_assoc, List.take_left]
  have hbehind : sub (a ++ t ++ b) ((tail : Int) + 1) (-1) = b := by
    rw [sub_from, htail, ← List.length_append, List.drop_left]
  rw [rewrite, hdecl]
  simp only [hbefore, hbehind]

section Checked

variable {s : Str} {pre post rest : List Line} {l q : Line}

/-- Behind the placeholder nothing may be an option. -/
theorem checkLines_behind_placeholder {st : Scanner} {n : Nat}
    (hs : s = joinLines (pre ++ l :: q :: post ++ rest)) (hpre : ∀ x ∈ pre, Quiet x)
    (hl : Enables l) (hq : findHead q.text PLACEHOLDER = some n)
    (hrest : ∀ x ∈ rest, optionValue x.text = none) (hlineno : st.lineno = pre.length + 2)
    (hctx : st.ctx = ⟨false, some (pre.length + 1), some ((joinLines (pre ++ [l])).length + 1,
      (joinLines (pre ++ [l])).length + q.text.length)⟩) :
    Reading (pre ++ l :: q :: post ++ rest) (checkLines st post >>= rewrite s) := by
  rcases forall_or_first (fun x : Line => optionValue x.text = none) post with
    hplain | ⟨mid, o, post, rfl, hmid, ho⟩
  · have hskip := checkLines_skip st post
      (fun x hx _ _ _ => checkline_plain (by rw [hctx]) (hplain x hx)) []
    rw [List.append_nil] at hskip
    rw [hskip]
    have htext : s
        = joinLines (pre ++ [l]) ++ q.text ++ (q.terminator ++ joinLines (post ++ rest)) := by
      rw [hs]
      simp [joinLines, Line.whole]
    have hnew : joinLines (pre ++ [l]) ++ INLINE_CODE ++ (q.terminator ++ joinLines (post ++ rest))
        = joinLines (pre ++ l :: q.enabled :: (post ++ rest)) := by
      simp [joinLines, Line.whole, Line.enabled]
    have hrewrite : rewrite s (st.behind post)
        = .ok (some (joinLines (pre ++ l :: q.enabled :: (post ++ rest)))) := by
      rw [htext, ← hnew]
      have hdecl : (st.behind post).ctx.decl = some ((joinLines (pre ++ [l])).length + 1,
          (joinLines (pre ++ [l])).length + q.text.length) := by
        rw [Scanner.behind, hctx]
      exact rewrite_decl hdecl rfl rfl
    show Reading _ (rewrite s (st.behind post))
    rw [hrewrite]
    refine Reading.enabled pre (post ++ rest) l q (by simp) hpre hl ⟨n, hq⟩ fun x hx => ?_
    rcases List.mem_append.mp hx with hx | hx
    · exact hplain x hx
    · exact hrest x hx
  · rw [checkLines_skip st mid fun x hx _ _ _ => checkline_plain (by rw [hctx]) (hmid x hx)]
    obtain ⟨v, hv⟩ := Option.ne_none_iff_exists'.mp ho
    have hno : (st.behind mid).lineno + 1 = pre.length + mid.length + 3 := by
      simp only [Scanner.behind, hlineno]
      omega
    have hnext : (st.behind mid).ctx.chknext = false := by rw [Scanner.behind, hctx]
    have hdef : (st.behind mid).ctx.defline = some (pre.length + 1) := by
      rw [Scanner.behind, hctx]
    rw [checkLines]
    by_cases hbad : BadValue v
    · rw [checkline_invalid hnext hv hbad, hno]
      exact Reading.invalidLater pre mid (post ++ rest) l q o v (by simp) hpre hl ⟨n, hq⟩ hv hbad
    · rw [checkline_again hnext hv hbad hdef, hno]
      exact Reading.again pre mid (post ++ rest) l q o v (by simp) hpre hl ⟨n, hq⟩ hv

/-- Behind the first enabled option there has to be the placeholder. -/
theorem checkLines_behind_option {st : Scanner}
    (hs : s = joinLines (pre ++ l :: post ++ rest)) (hpre : ∀ x ∈ pre, Quiet x)
    (hl : Enables l) (hpost : ∀ x ∈ post, x.passedOver = false)
    (hrest : rest = [] ∨ ∃ q, q.passedOver = true ∧ rest = [q])
    (hplain : ∀ x ∈ rest, optionValue x.text = none)
    (hpos : st.pos = (joinLines (pre ++ [l])).length + 1)
    (hlineno : st.lineno = pre.length + 1)
    (hctx : st.ctx = ⟨true, some (pre.length + 1), none⟩) :
    Reading (pre ++ l :: post ++ rest) (checkLines st post >>= rewrite s) := by
  cases post with
  | nil =>
      have hrewrite : rewrite s st = .error (.enocode (pre.length + 1)) := by
        rw [rewrite, hctx, hlineno]
        rfl
      show Reading _ (rewrite s st)
      rw [hrewrite]
      exact Reading.last pre rest l (by simp) hpre hl hrest
  | cons q post =>
      rw [checkLines]
      rcases hq : findHead q.text PLACEHOLDER with _ | n
      · rw [checkline_misplaced (by rw [hctx]) hq, hlineno]
        refine Reading.misplaced pre (post ++ rest) l q (by simp) hpre hl ?_ (hpost q (by simp))
        rintro ⟨n, hn⟩
        rw [hq] at hn
        cases hn
      · rw [checkline_placeholder (by rw [hctx]) hq]
        refine checkLines_behind_placeholder hs hpre hl hq hplain ?_ ?_
        · simp only [hlineno]
        · simp only [hctx, hpos]
          congr 3
          omega

/-- What the loop makes of the lines that are checked, for a text that has these lines and perhaps
one more that is passed over. -/
theorem checkLines_reading {ls : List Line} (hs : s = joinLines (ls ++ rest))
    (hls : ∀ x ∈ ls, x.passedOver = false)
    (hrest : rest = [] ∨ ∃ q, q.passedOver = true ∧ rest = [q]) :
    Reading (ls ++ rest) (checkLines .start ls >>= rewrite s) := by
  have hplain : ∀ x ∈ rest, optionValue x.text = none := by
    rcases hrest with rfl | ⟨q, hq, rfl⟩
    · simp
    · simpa using (Line.passedOver_plain hq).1
  rcases forall_or_first Quiet ls with hquiet | ⟨pre, l, post, rfl, hpre, hl⟩
  · have hskip := checkLines_skip .start ls
      (fun l hl _ _ _ => checkline_quiet rfl rfl (hquiet l hl)) []
    rw [List.append_nil] at hskip
    rw [hskip]
    refine Reading.nothing fun l hl => ?_
    rcases List.mem_append.mp hl with hl | hl
    · exact hquiet l hl
    · exact Or.inl (hplain l hl)
  · rw [checkLines_skip .start pre fun x hx _ _ _ => checkline_quiet rfl rfl (hpre x hx)]
    obtain ⟨v, hv⟩ := Option.ne_none_iff_exists'.mp fun hnone => hl (Or.inl hnone)
    have hno : (Scanner.start.behind pre).lineno + 1 = pre.length + 1 := by
      simp [Scanner.behind, Scanner.start]
    rw [checkLines]
    by_cases hbad : BadValue v
    · rw [checkline_invalid rfl hv hbad, hno]
      exact Reading.invalid pre (post ++ rest) l v (by simp) hpre hv hbad
    · have htrue : Enables l := by
        by_contra hne
        refine hbad ⟨fun heq => hne ?_, fun heq => hl (Or.inr ?_)⟩
        · rw [Enables, hv, heq]
        · rw [hv, heq]
      rw [checkline_enables rfl rfl htrue, hno]
      refine checkLines_behind_option hs hpre htrue (fun x hx => hls x (by simp [hx])) hrest
        hplain ?_ rfl rfl
      simp only [Scanner.behind, Scanner.start, joinLines, List.flatMap_append, List.flatMap_cons,
        List.flatMap_nil, List.length_append, List.append_nil]
      omega

end Checked

/-- **Every text has a reading.** -/
theorem parseInlineopt_reading (s : Str) :
    ∃ res, parseInlineopt s = some res ∧ Reading (textLines s) res := by
  refine ⟨_, parseInlineopt_eq s, ?_⟩
  have hchecked : ∀ x ∈ checkedLines (textLines s), x.passedOver = false := by
    intro x hx
    simpa using (List.mem_filter.mp hx).2
  have hs := joinLines_textLines s
  rcases checkedLines_split (textLines_lined s) with heq | ⟨q, hq, heq⟩
  · have hjoin : s = joinLines (checkedLines (textLines s) ++ []) := by
      rw [List.append_nil, ← heq, hs]
    have hreading := checkLines_reading hjoin hchecked (Or.inl rfl)
    rw [List.append_nil, ← heq] at hreading
    rw [← heq]
    exact hreading
  · have hjoin : s = joinLines (checkedLines (textLines s) ++ [q]) := by
      rw [← heq, hs]
    have hreading := checkLines_reading hjoin hchecked (Or.inr ⟨q, hq, rfl⟩)
    rw [← heq] at hreading
    exact hreading

end Testcase
