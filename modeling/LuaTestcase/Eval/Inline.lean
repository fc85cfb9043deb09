import LuaTestcase.Eval.Reading

/-!
# The inline option

What `parse_inlineopt` accepts, what it returns, and where its errors point, said about the lines
of the text.

* `parseInlineopt_grammar` — **the texts it rejects, and the text it returns**: the line behind
  the enabled option is replaced, and nothing else.
* `parseInlineopt_keeps_code` — when that line held nothing but the placeholder.
* `parseInlineopt_location` — when the line number of an error is that of the option.
-/

namespace Testcase

/-! ## What is accepted -/

/-- There is an option line whose value is neither `true` nor `false`, or an option line behind an
enabled one, or an enabled one without a placeholder in the next line. -/
def Ungrammatical (ls : List Line) : Prop :=
  (∃ l ∈ ls, ∃ v, optionValue l.text = some v ∧ BadValue v) ∨
  (∃ pre l post, ls = pre ++ l :: post ∧ Enables l ∧ ∃ o ∈ post, optionValue o.text ≠ none) ∨
  (∃ pre l post, ls = pre ++ l :: post ∧ Enables l ∧ ∀ q ∈ post.head?, ¬ IsPlaceholder q)

theorem Enables.not_quiet {l : Line} (h : Enables l) : ¬ Quiet l := by
  rintro (hq | hq)
  · rw [h] at hq
    cases hq
  · rw [h] at hq
    exact absurd hq (by decide)

theorem not_quiet_of_bad {l : Line} {v : Str} (h : optionValue l.text = some v)
    (hv : BadValue v) : ¬ Quiet l := by
  rintro (hq | hq)
  · rw [h] at hq
    cases hq
  · rw [h, Option.some.injEq] at hq
    exact hv.2 hq

theorem Quiet.not_bad {l : Line} (h : Quiet l) {v : Str} (hv : optionValue l.text = some v) :
    ¬ BadValue v := fun hbad => not_quiet_of_bad hv hbad h

/-- The readings that end with an error are those of the texts outside of the grammar. -/
theorem Reading.ungrammatical_iff {ls : List Line} {res : Except InlineError (Option Str)}
    (h : Reading ls res) : Ungrammatical ls ↔ ∃ err, res = .error err := by
  cases h with
  | nothing hquiet =>
      refine iff_of_false ?_ (by simp)
      rintro (⟨l, hl, v, hv, hbad⟩ | ⟨pre, l, post, rfl, hl, _⟩ | ⟨pre, l, post, rfl, hl, _⟩)
      · exact (hquiet l hl).not_bad hv hbad
      · exact hl.not_quiet (hquiet l (by simp))
      · exact hl.not_quiet (hquiet l (by simp))
  | invalid pre post l v hls hpre hv hbad =>
      exact iff_of_true (Or.inl ⟨l, by simp [hls], v, hv, hbad⟩) ⟨_, rfl⟩
  | last pre post l hls hpre hl hpost =>
      refine iff_of_true (Or.inr (Or.inr ⟨pre, l, post, hls, hl, ?_⟩)) ⟨_, rfl⟩
      rcases hpost with rfl | ⟨q, hq, rfl⟩
      · simp
      · simpa using (Line.passedOver_plain hq).2
  | misplaced pre post l q hls hpre hl hq hkept =>
      refine iff_of_true (Or.inr (Or.inr ⟨pre, l, q :: post, hls, hl, ?_⟩)) ⟨_, rfl⟩
      simpa using hq
  | enabled pre post l q hls hpre hl hq hpost =>
      refine iff_of_false ?_ (by simp)
      -- every other line is no option or a disabled one
      have hrest : ∀ x ∈ q :: post, optionValue x.text = none := by
        intro x hx
        rcases List.mem_cons.mp hx with rfl | hx
        · exact hq.plain
        · exact hpost x hx
      have honly : ∀ pre' l' post', ls = pre' ++ l' :: post' → Enables l' →
          pre' = pre ∧ l' = l ∧ post' = q :: post := by
        intro pre' l' post' hls' hl'
        refine split_unique (P := Enables) (hls.symm.trans hls') ?_ ?_ hl'
        · exact fun x hx hen => hen.not_quiet (hpre x hx)
        · exact fun x hx hen => hen.not_quiet (Or.inl (hrest x hx))
      rintro (⟨x, hx, v, hv, hbad⟩ | ⟨pre', l', post', hls', hl', o, ho, hopt⟩ |
        ⟨pre', l', post', hls', hl', hnext⟩)
      · rw [hls, List.mem_append, List.mem_cons] at hx
        rcases hx with hx | rfl | hx
        · exact (hpre x hx).not_bad hv hbad
        · rw [hl, Option.some.injEq] at hv
          exact hbad.1 hv.symm
        · rw [hrest x hx] at hv
          cases hv
      · obtain ⟨_, _, rfl⟩ := honly pre' l' post' hls' hl'
        exact hopt (hrest o ho)
      · obtain ⟨_, _, rfl⟩ := honly pre' l' post' hls' hl'
        exact hnext q (by simp) hq
  | invalidLater pre mid post l q o v hls hpre hl hq hv hbad =>
      exact iff_of_true (Or.inl ⟨o, by simp [hls], v, hv, hbad⟩) ⟨_, rfl⟩
  | again pre mid post l q o v hls hpre hl hq hv =>
      refine iff_of_true (Or.inr (Or.inl ⟨pre, l, q :: mid ++ o :: post, by simp [hls], hl, o,
        by simp, ?_⟩)) ⟨_, rfl⟩
      rw [hv]
      simp

/-- The line that is put in has no newline, and does not end with a carriage return. -/
theorem inlineCode_lined {pre post : List Line} {q : Line} (h : Lined (pre ++ q :: post)) :
    Lined (pre ++ q.enabled :: post) :=
  h.replace (by decide) (by decide) (by decide)

/-- **`parse_inlineopt` accepts exactly its grammar.**  It raises an error if and only if the text
is not in the grammar.  For the other texts it returns `nil` if no option is enabled, and else the
text in which the line behind that option is replaced; all other lines and all terminators are as
they were. -/
theorem parseInlineopt_grammar (s : Str) :
    ((∃ err, parseInlineopt s = some (.error err)) ↔ Ungrammatical (textLines s)) ∧
    (¬ Ungrammatical (textLines s) →
      ((∀ l ∈ textLines s, ¬ Enables l) → parseInlineopt s = some (.ok none)) ∧
      ∀ pre l post, textLines s = pre ++ l :: post → Enables l →
        ∃ q post', post = q :: post' ∧
          parseInlineopt s = some (.ok (some (joinLines (pre ++ l :: q.enabled :: post')))) ∧
          textLines (joinLines (pre ++ l :: q.enabled :: post'))
            = pre ++ l :: q.enabled :: post') := by
  obtain ⟨res, hparse, hreading⟩ := parseInlineopt_reading s
  have hiff := hreading.ungrammatical_iff
  rw [hparse]
  refine ⟨by simp [hiff], fun hnot => ?_⟩
  cases hreading with
  | nothing hquiet =>
      refine ⟨fun _ => rfl, fun pre l post hls hl => ?_⟩
      exact absurd (hquiet l (by simp [hls])) hl.not_quiet
  | enabled pre post l q hls hpre hl hq hpost =>
      refine ⟨fun hnone => absurd hl (hnone l (by simp [hls])), ?_⟩
      intro pre' l' post' hls' hl'
      have hrest : ∀ x ∈ q :: post, ¬ Enables x := by
        intro x hx hen
        rcases List.mem_cons.mp hx with rfl | hx
        · exact hen.not_quiet (Or.inl hq.plain)
        · exact hen.not_quiet (Or.inl (hpost x hx))
      obtain ⟨rfl, rfl, rfl⟩ := split_unique (P := Enables) (hls.symm.trans hls')
        (fun x hx hen => hen.not_quiet (hpre x hx)) hrest hl'
      refine ⟨q, post, rfl, rfl, textLines_joinLines ?_⟩
      have hlined : Lined ((pre' ++ [l']) ++ q :: post) := by
        rw [List.append_assoc, List.singleton_append, ← hls]
        exact textLines_lined s
      simpa using inlineCode_lined hlined
  | _ => exact absurd (hiff.mpr ⟨_, rfl⟩) hnot

/-! ## What is kept of the replaced line -/

/-- **No code is lost exactly if the placeholder is all there is in its line.**  The text that is
returned is the one in which the match of the placeholder pattern is replaced, and the rest of the
line kept, if and only if the match is the whole line. -/
theorem parseInlineopt_keeps_code (s t : Str) (h : parseInlineopt s = some (.ok (some t))) :
    ∃ pre l q post n, textLines s = pre ++ l :: q :: post ∧ Enables l ∧
      findHead q.text PLACEHOLDER = some n ∧
      (t = joinLines (pre ++ l :: { q with text := INLINE_CODE ++ q.text.drop n } :: post) ↔
        n = q.text.length) := by
  obtain ⟨res, hparse, hreading⟩ := parseInlineopt_reading s
  rw [hparse, Option.some.injEq] at h
  subst h
  cases hreading with
  | enabled pre post l q hls hpre hl hq hpost =>
      obtain ⟨n, hn⟩ := hq
      refine ⟨pre, l, q, post, n, hls, hl, hn, ?_⟩
      have hle := findHead_le hn
      constructor
      · intro heq
        have hlen := congrArg List.length heq
        simp only [joinLines, List.flatMap_append, List.flatMap_cons, List.length_append,
          Line.whole, Line.enabled, List.length_drop] at hlen
        omega
      · rintro rfl
        simp [Line.enabled]

/-- A placeholder with code behind it, as a text, and what is made of it. -/
def codeBehind : Str := "-- lua-testcase: true\nlocal testcase = \x7b\x7d local x = 1\n".toList

/-- The code behind the placeholder is gone. -/
theorem codeBehind_lost :
    ∃ pre l q post n t, textLines codeBehind = pre ++ l :: q :: post ∧ Enables l ∧
      findHead q.text PLACEHOLDER = some n ∧ parseInlineopt codeBehind = some (.ok (some t)) ∧
      t ≠ joinLines (pre ++ l :: { q with text := INLINE_CODE ++ q.text.drop n } :: post) := by
  refine ⟨[], ⟨"-- lua-testcase: true".toList, ['\n']⟩,
    ⟨"local testcase = \x7b\x7d local x = 1".toList, ['\n']⟩, [], 19,
    "-- lua-testcase: true\nlocal testcase = require('testcase')\n".toList, ?_, ?_, ?_, ?_, ?_⟩
  · decide +kernel
  · rw [Enables]
    decide +kernel
  · decide +kernel
  · decide +kernel
  · decide +kernel

/-- A placeholder alone in its line. -/
def nothingBehind : Str := "-- lua-testcase: true\nlocal testcase = \x7b\x7d\nlocal x = 1\n".toList

/-- Nothing is lost there. -/
theorem nothingBehind_kept :
    ∃ pre l q post n, textLines nothingBehind = pre ++ l :: q :: post ∧ Enables l ∧
      findHead q.text PLACEHOLDER = some n ∧
      ("-- lua-testcase: true\nlocal testcase = require('testcase')\nlocal x = 1\n".toList
          = joinLines (pre ++ l :: { q with text := INLINE_CODE ++ q.text.drop n } :: post) ↔
        n = q.text.length) :=
  parseInlineopt_keeps_code nothingBehind _ (by decide +kernel)

/-! ## Where the errors point -/

/-- The line numbers of an error are right: they are those of an option line with the value, of two
option lines of which the earlier one is enabled, or of an enabled option without a placeholder in
the next line. -/
def PointsAt (ls : List Line) : InlineError → Prop
  | .einval v lineno => ∃ pre l post, ls = pre ++ l :: post ∧ lineno = pre.length + 1 ∧
      optionValue l.text = some v ∧ BadValue v
  | .ealready lineno defline => ∃ pre l mid o post, ls = pre ++ l :: mid ++ o :: post ∧
      defline = pre.length + 1 ∧ lineno = pre.length + mid.length + 2 ∧ Enables l ∧
      optionValue o.text ≠ none
  | .enocode lineno => ∃ pre l post, ls = pre ++ l :: post ∧ lineno = pre.length + 1 ∧
      Enables l ∧ ∀ q ∈ post.head?, ¬ IsPlaceholder q

/-- The first option that is not `false` is `true`, and a line that is checked and is not the
placeholder stands behind it (and not, by chance, another enabled option without one). -/
def Misplaced (ls : List Line) : Prop :=
  ∃ pre l q post, ls = pre ++ l :: q :: post ∧ (∀ x ∈ pre, Quiet x) ∧ Enables l ∧
    ¬ IsPlaceholder q ∧ q.passedOver = false ∧
    ¬ (Enables q ∧ ∀ q' ∈ post.head?, ¬ IsPlaceholder q')

/-- Behind a placeholder nothing is misplaced. -/
theorem not_misplaced_of_placeholder {ls pre post : List Line} {l q : Line}
    (hls : ls = pre ++ l :: q :: post) (hpre : ∀ x ∈ pre, Quiet x) (hl : Enables l)
    (hq : IsPlaceholder q) : ¬ Misplaced ls := by
  rintro ⟨pre', l', q', post', hls', hpre', hl', hq', _⟩
  obtain ⟨_, _, htail⟩ := first_unique (hls.symm.trans hls') hpre hl.not_quiet hpre' hl'.not_quiet
  simp only [List.cons.injEq] at htail
  rw [htail.1] at hq'
  exact hq' hq

/-- **An error points at the option exactly if it is not about a line behind it.** -/
theorem parseInlineopt_location (s : Str) (err : InlineError)
    (h : parseInlineopt s = some (.error err)) :
    PointsAt (textLines s) err ↔ ¬ Misplaced (textLines s) := by
  obtain ⟨res, hparse, hreading⟩ := parseInlineopt_reading s
  rw [hparse, Option.some.injEq] at h
  subst h
  cases hreading with
  | invalid pre post l v hls hpre hv hbad =>
      refine iff_of_true ⟨pre, l, post, hls, rfl, hv, hbad⟩ ?_
      rintro ⟨pre', l', q, post', hls', hpre', hl', _⟩
      obtain ⟨_, rfl, _⟩ := first_unique (hls.symm.trans hls') hpre (not_quiet_of_bad hv hbad)
        hpre' hl'.not_quiet
      rw [hl', Option.some.injEq] at hv
      exact hbad.1 hv.symm
  | last pre post l hls hpre hl hpost =>
      refine iff_of_true ⟨pre, l, post, hls, rfl, hl, ?_⟩ ?_
      · rcases hpost with rfl | ⟨q, hq, rfl⟩
        · simp
        · simpa using (Line.passedOver_plain hq).2
      · rintro ⟨pre', l', q, post', hls', hpre', hl', _, hkept, _⟩
        obtain ⟨_, _, hpost'⟩ := first_unique (hls.symm.trans hls') hpre hl.not_quiet hpre'
          hl'.not_quiet
        rcases hpost with rfl | ⟨q', hq', rfl⟩
        · cases hpost'
        · simp only [List.cons.injEq] at hpost'
          rw [hpost'.1, hq'] at hkept
          cases hkept
  | misplaced pre post l q hls hpre hl hq hkept =>
      constructor
      · rintro ⟨pre', l', post', hls', hlen, hl', hnext⟩
        rintro ⟨pre'', l'', q', post'', hls'', hpre'', hl'', _, _, hnot⟩
        have hcut : (pre ++ [l]) ++ q :: post = pre' ++ l' :: post' := by
          rw [← hls', hls]
          simp
        obtain ⟨rfl, hq'⟩ := List.append_inj hcut (by simp; omega)
        simp only [List.cons.injEq] at hq'
        obtain ⟨rfl, rfl⟩ := hq'
        obtain ⟨_, _, htail⟩ := first_unique (hls.symm.trans hls'') hpre hl.not_quiet hpre''
          hl''.not_quiet
        simp only [List.cons.injEq] at htail
        obtain ⟨rfl, rfl⟩ := htail
        exact hnot ⟨hl', hnext⟩
      · intro hnot
        by_contra hpoints
        refine hnot ⟨pre, l, q, post, hls, hpre, hl, hq, hkept, fun ⟨hen, hnext⟩ => ?_⟩
        exact hpoints ⟨pre ++ [l], q, post, by simp [hls], by simp, hen, hnext⟩
  | invalidLater pre mid post l q o v hls hpre hl hq hv hbad =>
      refine iff_of_true ⟨pre ++ l :: q :: mid, o, post, hls, by simp; omega, hv, hbad⟩ ?_
      exact not_misplaced_of_placeholder (by simpa using hls) hpre hl hq
  | again pre mid post l q o v hls hpre hl hq hv =>
      refine iff_of_true ⟨pre, l, q :: mid, o, post, hls, rfl, by simp; omega, hl, by simp [hv]⟩ ?_
      exact not_misplaced_of_placeholder (by simpa using hls) hpre hl hq

/-- An enabled option without a placeholder behind it. -/
def noPlaceholder : Str := "-- lua-testcase: true
local x = 1
".toList

/-- The error names line 2, which is no option line. -/
theorem noPlaceholder_misplaced :
    parseInlineopt noPlaceholder = some (.error (.enocode 2)) ∧
      ¬ PointsAt (textLines noPlaceholder) (.enocode 2) := by
  refine ⟨by decide +kernel, ?_⟩
  rintro ⟨pre, l, post, hls, hlen, hl, _⟩
  have hget : (textLines noPlaceholder)[1]? = some l := by
    have hone : pre.length = 1 := by omega
    rw [hls, ← hone]
    simp
  have htext : (textLines noPlaceholder)[1]? = some ⟨"local x = 1".toList, ['\n']⟩ := by
    decide +kernel
  obtain rfl : _ = l := Option.some.inj (htext.symm.trans hget)
  exact absurd hl (by rw [Enables]; decide +kernel)

/-- An option with another value, in the second line. -/
def badValue : Str := "x = 1
-- lua-testcase: yes
".toList

/-- The error names that line. -/
theorem badValue_located : PointsAt (textLines badValue) (.einval "yes".toList 2) ∧
    (PointsAt (textLines badValue) (.einval "yes".toList 2) ↔ ¬ Misplaced (textLines badValue)) := by
  refine ⟨⟨[⟨"x = 1".toList, ['\n']⟩], ⟨"-- lua-testcase: yes".toList, ['\n']⟩, [], ?_, rfl, ?_, ?_⟩,
    parseInlineopt_location badValue _ (by decide +kernel)⟩
  · decide +kernel
  · decide +kernel
  · exact ⟨by decide, by decide⟩

end Testcase
