import LuaTestcase.Output.Prepared

/-!
# When `vstringify` formats like `string.format`

`vstringify` passes as many arguments to `string.format` as `parse_format` counts, and converts
those that are notified with `s`.  So it agrees with `string.format` on all arguments if every
conversion of the format string is noted, with an `s` exactly where the value has to be converted.

* `Agrees` — `parse_format` and `vstringify` agree with `string.format` on a format string.
* `Treated` — the note of a conversion is right for it.
* `treated_iff` — the same as what happens to one argument.
* `vstringify_agrees` — **they agree if and only if every conversion is noted and treated**.
-/

namespace Testcase

variable {F U : Type}

/-! ## The reference -/

/-- A value as a conversion takes it, where every `%s` conversion takes any value. -/
def taken (L : Lua F U) (sp : Spec) (v : Value F U) : Except (Value F U) (Value F U) :=
  if sp.conv = 's' then (L.tostring v).map .string else .ok v

def takenAll (L : Lua F U) :
    List Spec → List (Value F U) → Except (Value F U) (List (Value F U))
  | sp :: sps, v :: vs => do
    let v ← taken L sp v
    let vs ← takenAll L sps vs
    return v :: vs
  | _, vs => return vs

/-- `string.format(s, ...)`, where every `%s` conversion takes any value. -/
def formatAny (L : Lua F U) (s : Str) (args : List (Value F U)) : Except (Value F U) Str := do
  let args ← takenAll L (specs (pieces none s)) args
  L.format (.string s) args

/-- For all arguments that the conversions accept and all further ones, `parse_format` is the number
of conversions, and `vstringify` is the formatted text and what `tostring` gives of the others. -/
def Agrees (L : Lua F U) (s : Str) : Prop :=
  ∀ args args' head texts, args.length = (specs (pieces none s)).length →
    formatAny L s args = .ok head → args'.mapM L.tostring = .ok texts →
    parseFormat L (.string s) .nil () = .ok ((specs (pieces none s)).length, ()) ∧
    vstringify L true (.string s) (args ++ args') = .ok (List.intercalate [' '] (head :: texts))

/-- The note is right for the conversion.  It is an `s` for those with an `s`; or such a conversion
takes a value and its `tostring` alike.  It is no `s` for the others; or what the conversion makes
of a value it also makes of its `tostring`. -/
structure Treated (L : Lua F U) (sp : Spec) (c : Str) : Prop where
  unnotified : sp.conv = 's' → c ≠ ['s'] → ∀ v t x, L.tostring v = .ok t →
    L.convert sp (.string t) = .ok x → L.convert sp v = .ok x
  notified : sp.conv ≠ 's' → c = ['s'] → ∀ v x, L.convert sp v = .ok x →
    ∃ t, L.tostring v = .ok t ∧ L.convert sp (.string t) = .ok x

/-- **One argument**: what the conversion makes of the value it should get, it makes of the one it
does get. -/
theorem treated_iff {L : Lua F U} {sp : Spec} {c : Str} : Treated L sp c ↔
    ∀ v e x, taken L sp v = .ok e → L.convert sp e = .ok x →
      ∃ w, passed L c v = .ok w ∧ L.convert sp w = .ok x := by
  constructor
  · intro h v e x he hx
    rw [taken] at he
    rw [passed]
    by_cases hconv : sp.conv = 's'
    · by_cases hc : c = ['s']
      · rw [if_pos hconv] at he
        rw [if_pos hc]
        exact ⟨e, he, hx⟩
      · rw [if_pos hconv] at he
        rw [if_neg hc]
        obtain ⟨t, ht, rfl⟩ := map_eq_ok.mp he
        exact ⟨v, rfl, h.unnotified hconv hc v t x ht hx⟩
    · rw [if_neg hconv] at he
      obtain rfl := Except.ok.inj he
      by_cases hc : c = ['s']
      · rw [if_pos hc]
        obtain ⟨t, ht, hx'⟩ := h.notified hconv hc v x hx
        exact ⟨.string t, map_eq_ok.mpr ⟨t, ht, rfl⟩, hx'⟩
      · rw [if_neg hc]
        exact ⟨v, rfl, hx⟩
  · intro h
    refine ⟨fun hconv hc v t x ht hx => ?_, fun hconv hc v x hx => ?_⟩
    · have he : taken L sp v = .ok (.string t) := by
        rw [taken, if_pos hconv, ht]
        rfl
      obtain ⟨w, hw, hx'⟩ := h v (.string t) x he hx
      rw [passed, if_neg hc] at hw
      obtain rfl := Except.ok.inj hw
      exact hx'
    · have he : taken L sp v = .ok v := by rw [taken, if_neg hconv]
      obtain ⟨w, hw, hx'⟩ := h v v x he hx
      rw [passed, if_pos hc] at hw
      obtain ⟨t, ht, rfl⟩ := map_eq_ok.mp hw
      exact ⟨t, ht, hx'⟩

/-! ## Both ways to treat the arguments -/

theorem taken_keepsStrings (L : Lua F U) :
    Preparation.KeepsStrings fun k : Spec × Str => taken L k.1 := by
  intro k t
  simp only [taken]
  split_ifs
  · rw [L.tostring_string]
    rfl
  · rfl

theorem passed_keepsStrings (L : Lua F U) :
    Preparation.KeepsStrings fun k : Spec × Str => passed L k.2 := by
  intro k t
  simp only [passed]
  split_ifs
  · rw [L.tostring_string]
    rfl
  · rfl

theorem takenAll_eq (L : Lua F U) (sps : List Spec) (vs : List (Value F U)) :
    takenAll L sps vs = prepareAll (taken L) sps vs := by
  induction sps generalizing vs with
  | nil => rfl
  | cons sp sps ih =>
      cases vs with
      | nil => rfl
      | cons v vs => simp only [takenAll, prepareAll, ih]

theorem stringified_eq (L : Lua F U) (cs : List Str) (vs : List (Value F U)) :
    stringified L cs vs = prepareAll (passed L) cs vs := by
  induction cs generalizing vs with
  | nil => rfl
  | cons c cs ih =>
      cases vs with
      | nil => rfl
      | cons v vs => simp only [stringified, prepareAll, ih]

section Agrees

variable {L : Lua F U} {s : Str}

/-- The arguments as all conversions take them. -/
theorem formatAny_eq (hlen : (notes none s).length = (specs (pieces none s)).length)
    (args : List (Value F U)) : formatAny L s args
      = prepareAll (fun k => taken L k.1) (notedSpecs (pieces none s)) args
        >>= L.formatPieces (pieces none s) := by
  rw [prepareAll_map (taken L) Prod.fst, notedSpecs_fst (by rwa [textOf_pieces]), ← takenAll_eq]
  rfl

/-- The arguments as they are passed. -/
theorem stringified_pairs (hlen : (notes none s).length = (specs (pieces none s)).length)
    (args : List (Value F U)) : stringified L (notes none s) args
      = prepareAll (fun k => passed L k.2) (notedSpecs (pieces none s)) args := by
  rw [prepareAll_map (passed L) Prod.snd, notedSpecs_snd (by rwa [textOf_pieces]),
    ← stringified_eq, textOf_pieces]

/-- The arguments of all conversions, and no others. -/
theorem vstringify_all (hk : notes none s ≠ []) {args : List (Value F U)}
    (hargs : (notes none s).length = args.length) {head : Str} :
    vstringify L true (.string s) args = .ok head ↔
      (stringified L (notes none s) args >>= L.formatPieces (pieces none s)) = .ok head := by
  have hformat := vstringify_format L hk hargs []
  rw [List.append_nil] at hformat
  rw [hformat, bind_eq_ok, bind_eq_ok]
  refine exists_congr fun ws => and_congr_right fun _ => ?_
  rw [Lua.format_string]
  cases L.formatPieces (pieces none s) ws with
  | error err => simp [Except.mapError]
  | ok text => simp [Except.mapError, List.intercalate]

theorem formatAny_numerals (haccepts : L.Accepts s) :
    ∃ text, formatAny L s (numerals (pieces none s)) = .ok text := by
  obtain ⟨text, htext⟩ := formatPieces_numerals haccepts
  refine ⟨text, bind_eq_ok.mpr ⟨numerals (pieces none s), ?_, htext⟩⟩
  have hkeeps : Preparation.KeepsStrings (taken L) := fun sp t => taken_keepsStrings L (sp, []) t
  rw [takenAll_eq, prepareAll_only hkeeps]

/-- **As many notes as conversions**: then they agree if what the conversions take is formatted
like what they are passed. -/
theorem agrees_iff (hlen : (notes none s).length = (specs (pieces none s)).length)
    (hk : specs (pieces none s) ≠ []) : Agrees L s ↔
      Transfers L (pieces none s) (notedSpecs (pieces none s)) (fun k => taken L k.1)
        fun k => passed L k.2 := by
  have hne : notes none s ≠ [] := by
    rw [← List.length_pos_iff, hlen]
    exact List.length_pos_iff.mpr hk
  constructor
  · intro hagrees args head hargs hhead
    rw [← formatAny_eq hlen] at hhead
    have hresult := (hagrees args [] head [] hargs hhead rfl).2
    have hjoin : List.intercalate [' '] [head] = head := by simp [List.intercalate]
    rw [List.append_nil, hjoin, vstringify_all hne (hlen.trans hargs.symm)] at hresult
    rwa [← stringified_pairs hlen]
  · intro htransfers args args' head texts hargs hhead htexts
    rw [formatAny_eq hlen] at hhead
    obtain ⟨ws, hws, hpassed⟩ := bind_eq_ok.mp (htransfers args head hargs hhead)
    have hpassed : L.format (.string s) ws = .ok head := hpassed
    refine ⟨by rw [parseFormat_nil, hlen], ?_⟩
    rw [vstringify_format L hne (hlen.trans hargs.symm), stringified_pairs hlen, hws, ok_bind,
      hpassed, htexts]
    rfl

/-- Where they agree, `parse_format` counts the conversions. -/
theorem Agrees.notes_length (h : Agrees L s) (haccepts : L.Accepts s) :
    (notes none s).length = (specs (pieces none s)).length := by
  obtain ⟨text, htext⟩ := formatAny_numerals haccepts
  have hcount := (h _ [] text [] (by simp [numerals]) htext rfl).1
  rw [parseFormat_nil] at hcount
  exact congrArg Prod.fst (Except.ok.inj hcount)

end Agrees

/-- **When `vstringify` formats like `string.format`**: on a format string that is accepted and has
a conversion they agree for all arguments, if and only if every conversion is noted and its note is
right for it. -/
theorem vstringify_agrees (L : Lua F U) (s : Str) (haccepts : L.Accepts s)
    (hk : specs (pieces none s) ≠ []) :
    Agrees L s ↔ ∀ pre sp post, pieces none s = pre ++ .spec sp :: post →
      ∃ c, Noted sp post c ∧ Treated L sp c := by
  have hsound := haccepts.sound
  have hlen := notes_length_eq_iff hsound
  rw [textOf_pieces] at hlen
  have heach : (notes none s).length = (specs (pieces none s)).length → (Agrees L s ↔
      ∀ k ∈ notedSpecs (pieces none s), Treated L k.1 k.2) := by
    intro hcount
    rw [agrees_iff hcount hk, transfers_iff haccepts
      (notedSpecs_fst (by rwa [textOf_pieces])) (taken_keepsStrings L) (passed_keepsStrings L)]
    exact forall₂_congr fun k _ => treated_iff.symm
  constructor
  · intro hagrees pre sp post hps
    have hcount := hagrees.notes_length haccepts
    have hnoted := hlen.mp hcount
    have hpost : ∀ p ∈ post, p.Sound := fun p hp => hsound p (by simp [hps, hp])
    obtain ⟨c, hc⟩ := Option.ne_none_iff_exists'.mp (hnoted pre sp post hps)
    have hc := (noted_eq_some hpost).mp hc
    have hmem := (mem_notedSpecs_iff hsound hnoted).mpr ⟨pre, post, hps, hc⟩
    exact ⟨c, hc, (heach hcount).mp hagrees (sp, c) hmem⟩
  · intro h
    have hnoted : EachSpec (fun sp post => noted sp post ≠ none) (pieces none s) := by
      intro pre sp post hps
      obtain ⟨c, hc, _⟩ := h pre sp post hps
      have hpost : ∀ p ∈ post, p.Sound := fun p hp => hsound p (by simp [hps, hp])
      simp [(noted_eq_some hpost).mpr hc]
    refine (heach (hlen.mpr hnoted)).mpr fun k hkeys => ?_
    obtain ⟨pre, post, hps, hc⟩ := (mem_notedSpecs_iff hsound hnoted).mp hkeys
    obtain ⟨c, hc', htreated⟩ := h pre k.1 post hps
    have hpost : ∀ p ∈ post, p.Sound := fun p hp => hsound p (by simp [hps, hp])
    rw [← noted_eq_some hpost] at hc hc'
    rw [hc] at hc'
    rwa [← Option.some.inj hc'] at htreated

/-! ### An interpreter -/

/-- The values before the first hole. -/
theorem getD_takeWhile {argv : List (Value F U)} {n : Nat}
    (h : n < (argv.takeWhile fun v => v.type != .nil).length) : argv.getD n .nil ≠ .nil := by
  induction argv generalizing n with
  | nil => simp at h
  | cons v argv ih =>
      by_cases hv : (v.type != .nil) = true
      · cases n with
        | zero =>
            rintro rfl
            cases hv
        | succ n =>
            rw [List.takeWhile_cons, if_pos hv] at h
            exact ih (Nat.lt_of_succ_lt_succ h)
      · rw [List.takeWhile_cons, if_neg hv] at h
        cases h

/-- Lua 5.1 with `%s` only, which takes strings and numbers. -/
def plainLua : Lua Unit Unit where
  tostring
    | .nil => .ok "nil".toList
    | .boolean b => .ok (if b then "true".toList else "false".toList)
    | .integer n => .ok (toString n).toList
    | .string s => .ok s
    | .function _ => .ok "function: 0x1".toList
    | .error err => .ok err.op
    | .object .table _ => .ok "table: 0x2".toList
    | .object .float _ => .ok "0.5".toList
    | .object _ _ => .ok "userdata: 0x3".toList
  border argv := (argv.takeWhile fun v => v.type != .nil).length
  accepts sp := decide (sp = ⟨[], 's'⟩)
  convert
    | _, .string s => .ok s
    | _, .integer n => .ok (toString n).toList
    | _, .object .float _ => .ok "0.5".toList
    | _, v => .error (.string ("string expected, got ".toList ++ v.type.name))
  rejected text _ := .string ("invalid option '".toList ++ text ++ "' to 'format'".toList)
  position _ := "x.lua:1: ".toList
  tostring_string _ := rfl
  border_last argv hne := by
    rw [index]
    have hlt : (argv.takeWhile fun v => v.type != .nil).length - 1
        < (argv.takeWhile fun v => v.type != .nil).length := by omega
    generalize (argv.takeWhile fun v => v.type != .nil).length - 1 = n at hlt ⊢
    exact getD_takeWhile hlt
  border_next argv := by
    rw [index, Nat.add_sub_cancel]
    induction argv with
    | nil => rfl
    | cons v argv ih =>
        cases v with
        | nil => rfl
        | object k u =>
            cases k with
            | _ => exact ih
        | _ => exact ih
  grammar := by
    intro sp h
    rw [of_decide_eq_true h]
    decide
  numeral := fun _ _ => ⟨_, rfl⟩

theorem plain_treated (L : Lua F U) : Treated L ⟨[], 's'⟩ ['s'] where
  unnotified _ h := absurd rfl h
  notified h := absurd rfl h

/-- A colon and a space behind the one `%s`, the end of the string behind the other. -/
theorem colon_formatted : vstringify plainLua true (.string "%s: %s".toList)
    [.string "/path".toList, .object .table ()] = .ok "/path: table: 0x2".toList := by
  have haccepts : plainLua.Accepts "%s: %s".toList := by
    unfold Lua.Accepts
    decide
  have hpieces : pieces none "%s: %s".toList
      = [.spec ⟨[], 's'⟩, .literal ':', .literal ' ', .spec ⟨[], 's'⟩] := by decide
  have heach : EachSpec (fun sp post => sp = ⟨[], 's'⟩ ∧ noted sp post = some ['s'])
      (pieces none "%s: %s".toList) := by
    rw [hpieces]
    simp only [eachSpec_cons, reduceCtorEq, Piece.spec.injEq, forall_eq', true_and]
    refine ⟨rfl, by simp, by simp, rfl, ?_⟩
    simp [EachSpec]
  have hk : specs (pieces none "%s: %s".toList) ≠ [] := by
    rw [hpieces]
    simp [specs]
  have hagrees := (vstringify_agrees plainLua "%s: %s".toList haccepts hk).mpr
    fun pre sp post hps => by
      obtain ⟨rfl, hnoted⟩ := heach pre sp post hps
      have hpost : ∀ p ∈ post, p.Sound := by
        intro p hp
        refine haccepts.sound p ?_
        rw [hps]
        simp [hp]
      exact ⟨['s'], (noted_eq_some hpost).mp hnoted, plain_treated plainLua⟩
  exact (hagrees [.string "/path".toList, .object .table ()] [] "/path: table: 0x2".toList []
    rfl rfl rfl).2

/-- A slash between two `%s`: no conversion is counted. -/
theorem slash_unformatted : plainLua.Accepts "%s/%s".toList ∧
    formatAny plainLua "%s/%s".toList [.string ['a'], .string ['b']] = .ok "a/b".toList ∧
    parseFormat plainLua (.string "%s/%s".toList) .nil () = .ok (0, ()) ∧
    vstringify plainLua true (.string "%s/%s".toList) [.string ['a'], .string ['b']]
      = .ok "%s/%s a b".toList ∧ ¬ Agrees plainLua "%s/%s".toList := by
  have haccepts : plainLua.Accepts "%s/%s".toList := by
    unfold Lua.Accepts
    decide
  have hcount : parseFormat plainLua (.string "%s/%s".toList) .nil () = .ok (0, ()) :=
    parseFormat_nil plainLua _
  refine ⟨haccepts, rfl, hcount, rfl, fun hagrees => ?_⟩
  have h := (hagrees [.string ['a'], .string ['b']] [] "a/b".toList [] rfl rfl rfl).1
  rw [hcount] at h
  exact absurd (congrArg Prod.fst (Except.ok.inj h)) (by decide)

end Testcase
