import LuaTestcase.Output.Formatting

/-!
# What becomes of the arguments of `vstringify`

`vstringify` gives the arguments that `parse_format` counts to `string.format` and the others to
`tostring`, and keeps their order.  There may be fewer arguments than are counted, and any of them
may be `nil`: then `argv` has holes, and the callback may write behind its end.

* `vstringify_counted` — **what `vstringify` does with a format string**, for all arguments.
* `KeepsArguments` — no argument is lost or printed twice, and each is treated as it should.
* `vstringify_keeps_arguments` — **this holds for all arguments if and only if the notes of the
  conversions are right**.
-/

namespace Testcase

variable {F U : Type}

/-! ## Fewer arguments than conversions -/

/-- The values of a table at the indices `1`, `2`, .... -/
def valuesOf (argv : List (Value F U)) (n : Nat) : Value F U := argv.getD n .nil

theorem index_eq (argv : List (Value F U)) (i : Nat) : index argv i = valuesOf argv (i - 1) := rfl

theorem valuesOf_assign (argv : List (Value F U)) (i : Nat) (v : Value F U) :
    valuesOf (assign argv i v) = Function.update (valuesOf argv) (i - 1) v := by
  funext n
  simp only [valuesOf, assign, List.getD_eq_getElem?_getD, Function.update_apply]
  split_ifs with hlt hn hn
  · subst hn
    simp [hlt]
  · rw [List.getElem?_set_ne (Ne.symm hn)]
  · subst hn
    have hlen : (argv ++ List.replicate (i - 1 - argv.length) Value.nil).length = i - 1 := by
      rw [List.length_append, List.length_replicate]
      omega
    rw [List.getElem?_append_right hlen.le, hlen, Nat.sub_self]
    rfl
  · grind

/-- Only the values count for `unpack`. -/
theorem unpack_congr {argv argv' : List (Value F U)} (h : valuesOf argv = valuesOf argv')
    (i j : Nat) : unpack argv i j = unpack argv' i j := by
  simp only [unpack]
  refine List.map_congr_left fun k _ => ?_
  rw [index_eq, index_eq, h]

theorem map_bind_congr {ε α β : Type} {x y : Except ε α} {f g : α → Except ε α} {view : α → β}
    (hxy : x.map view = y.map view)
    (hfg : ∀ a b, view a = view b → (f a).map view = (g b).map view) :
    (x >>= f).map view = (y >>= g).map view := by
  cases x with
  | error err =>
      cases y with
      | error err' =>
          obtain rfl := Except.error.inj hxy
          rfl
      | ok b => cases hxy
  | ok a =>
      cases y with
      | error err => cases hxy
      | ok b => exact hfg a b (Except.ok.inj hxy)

/-- Only the values count for the callback. -/
theorem stringifyParam_congr (L : Lua F U) {argv argv' : List (Value F U)}
    (h : valuesOf argv = valuesOf argv') (c : Str) (offset : Nat) :
    (stringifyParam L c offset argv).map valuesOf
      = (stringifyParam L c offset argv').map valuesOf := by
  have hvalue : index argv (offset + 1) = index argv' (offset + 1) := by
    rw [index_eq, index_eq, h]
  simp only [stringifyParam, stringifyAt, hvalue]
  split_ifs
  · cases L.tostring (index argv' (offset + 1)) with
    | error err => rfl
    | ok text =>
        show Except.ok (valuesOf (assign argv _ _)) = Except.ok (valuesOf (assign argv' _ _))
        rw [valuesOf_assign, valuesOf_assign, h]
  · exact congrArg Except.ok h
  · exact congrArg Except.ok h

theorem each_congr (L : Lua F U) (cs : List Str) {argv argv' : List (Value F U)}
    (h : valuesOf argv = valuesOf argv') (offset : Nat) :
    (Notify.each (.function (stringifyParam L)) offset cs argv).map valuesOf
      = (Notify.each (.function (stringifyParam L)) offset cs argv').map valuesOf := by
  induction cs generalizing argv argv' offset with
  | nil => exact congrArg Except.ok h
  | cons c cs ih =>
      exact map_bind_congr (stringifyParam_congr L h c offset) fun a b hab => ih hab (offset + 1)

section Padded

variable {args : List (Value F U)} {n : Nat}

/-- The arguments, with `nil` for those that are missing. -/
def padded (args : List (Value F U)) (n : Nat) : List (Value F U) :=
  args ++ List.replicate (n - args.length) .nil

theorem padded_length (h : args.length ≤ n) : (padded args n).length = n := by
  rw [padded, List.length_append, List.length_replicate]
  omega

theorem valuesOf_padded (args : List (Value F U)) (n : Nat) :
    valuesOf args = valuesOf (padded args n) := by
  funext i
  simp only [valuesOf, padded]
  grind

theorem unpack_padded (h : args.length ≤ n) : unpack args 1 n = padded args n := by
  have hall := unpack_append [] (padded args n) []
  rw [List.append_nil, List.nil_append, padded_length h] at hall
  rw [unpack_congr (valuesOf_padded args n)]
  simpa using hall

/-- The callback, when arguments are missing. -/
theorem each_padded (L : Lua F U) (s : Value F U) {cs : List Str} (h : args.length ≤ cs.length) :
    (∃ err, stringified L cs (padded args cs.length) = .error err ∧
      Notify.each (.function (stringifyParam L)) 1 cs (s :: args) = .error err) ∨
    ∃ ws argv, stringified L cs (padded args cs.length) = .ok ws ∧
      Notify.each (.function (stringifyParam L)) 1 cs (s :: args) = .ok argv ∧
      valuesOf argv = valuesOf (s :: ws) := by
  have hvalues : valuesOf (s :: args) = valuesOf (s :: padded args cs.length) := by
    funext i
    cases i with
    | zero => rfl
    | succ i => exact congrFun (valuesOf_padded args cs.length) i
  have hcongr := each_congr L cs hvalues 1
  have hparams := each_stringifyParam L (padded_length h).symm [s] []
  rw [List.append_nil] at hparams
  change Notify.each _ 1 _ (s :: padded args cs.length) = _ at hparams
  rw [hparams] at hcongr
  rcases hstr : stringified L cs (padded args cs.length) with err | ws
  · rw [hstr, error_bind] at hcongr
    rcases hargv : Notify.each (.function (stringifyParam L)) 1 cs (s :: args) with err' | argv
    · rw [hargv] at hcongr
      obtain rfl := Except.error.inj hcongr
      exact .inl ⟨err', rfl, rfl⟩
    · rw [hargv] at hcongr
      cases hcongr
  · rw [hstr, ok_bind] at hcongr
    obtain ⟨argv, hargv, hargv'⟩ := map_eq_ok.mp hcongr
    rw [List.append_nil] at hargv'
    exact .inr ⟨ws, argv, rfl, hargv, hargv'⟩

/-- `vstringify`, when arguments are missing. -/
theorem vstringify_short (L : Lua F U) {s : Str} (hs : notes none s ≠ [])
    (h : args.length < (notes none s).length) :
    vstringify L true (.string s) args = (do
      let vs ← stringified L (notes none s) (padded args (notes none s).length)
      let head ← (L.format (.string s) vs).mapError (raised L 3)
      return List.intercalate [' '] [head]) := by
  have hpos : 0 < (notes none s).length := List.length_pos_iff.mpr hs
  rw [vstringify, formatArgv]
  simp only [if_true, parseFormat_nil, ok_bind, hpos]
  rw [parseFormat_string L s (by simp)]
  rcases each_padded L (.string s) h.le with ⟨err, hstr, hargv⟩ | ⟨ws, argv, hstr, hargv, hvalues⟩
  · rw [hstr, hargv]
    rfl
  · have hws : ws.length = (notes none s).length :=
      (stringified_length hstr).trans (padded_length h.le)
    have hpassed : unpack argv 2 ((notes none s).length + 1) = ws := by
      rw [unpack_congr hvalues, ← hws, Nat.add_comm]
      simpa using unpack_append [.string s] ws []
    have htail : selectTail ((notes none s).length + 1) args = [] := by
      rw [selectTail, if_pos (by omega)]
    have hnone : ((args.length : Int) + 1 - (notes none s).length).toNat = 0 := by omega
    rw [hstr, hargv]
    simp only [ok_bind, pure_bind, hpassed, htail]
    cases L.format (.string s) ws with
    | error err => rfl
    | ok head =>
        simp only [pure_bind, hnone, List.range'_zero, List.foldlM_nil]
        exact concat_strings L [head] [' ']

end Padded

/-- **What `vstringify` does with a format string.** -/
theorem vstringify_counted (L : Lua F U) {s : Str} (hs : notes none s ≠ [])
    (args : List (Value F U)) :
    vstringify L true (.string s) args = (do
      let vs ← stringified L (notes none s) (unpack args 1 (notes none s).length)
      let head ← (L.format (.string s) vs).mapError (raised L 3)
      let texts ← (args.drop (notes none s).length).mapM L.tostring
      return List.intercalate [' '] (head :: texts)) := by
  rcases Nat.lt_or_ge args.length (notes none s).length with hshort | hlong
  · rw [vstringify_short L hs hshort, unpack_padded hshort.le, List.drop_eq_nil_of_le hshort.le]
    rfl
  · have htake : unpack args 1 (notes none s).length = args.take (notes none s).length := by
      have h := unpack_append [] (args.take (notes none s).length) (args.drop (notes none s).length)
      rw [List.nil_append, List.take_append_drop, List.length_take, Nat.min_eq_left hlong] at h
      simpa using h
    have hcount : (notes none s).length = (args.take (notes none s).length).length := by
      rw [List.length_take, Nat.min_eq_left hlong]
    have h := vstringify_format L hs hcount (args.drop (notes none s).length)
    rwa [List.take_append_drop, ← htake] at h

/-! ## What is kept -/

/-- `%s`, without modifiers. -/
def plainSpec : Spec := ⟨[], 's'⟩

/-- An argument, where those of a plain `%s` are converted by `tostring`. -/
def plain (L : Lua F U) (sp : Spec) (v : Value F U) : Except (Value F U) (Value F U) :=
  if sp = plainSpec then (L.tostring v).map .string else .ok v

/-- `parse_format(s)`, if `s` is formatted. -/
def formatCount (L : Lua F U) (doformat : Bool) (s : Value F U) : Nat :=
  if doformat then ((parseFormat L s .nil ()).map Prod.fst).toOption.getD 0 else 0

def specsOf : Value F U → List Spec
  | .string s => specs (pieces none s)
  | _ => []

/-- What stands in front: `tostring(s)`, or `s` formatted with the first `p` arguments. -/
def headOf (L : Lua F U) (p : Nat) (s : Value F U) (args : List (Value F U)) :
    Except (Value F U) Str :=
  if p = 0 then L.tostring s
  else do
    let vs ← prepareAll (plain L) (specsOf s) (unpack args 1 p)
    L.format s vs

/-- No argument is lost or printed twice. -/
structure KeepsArguments (L : Lua F U) (doformat : Bool) (s : Value F U)
    (args : List (Value F U)) : Prop where
  result : ∀ res, vstringify L doformat s args = .ok res →
    ∃ head texts, headOf L (formatCount L doformat s) s args = .ok head ∧
      (args.drop (formatCount L doformat s)).mapM L.tostring = .ok texts ∧
      res = List.intercalate [' '] (head :: texts)
  conversions : ∀ t, s = .string t → L.Accepts t →
    formatCount L doformat s ≤ (specs (pieces none t)).length
  raises : formatCount L doformat s = 0 → ∀ err, vstringify L doformat s args = .error err →
    ∃ v ∈ s :: args, L.tostring v = .error err

/-- The note is an `s` for a plain `%s` and for no other conversion; or what the conversion makes of
the value it gets it also makes of the one it should get. -/
structure PlainTreated (L : Lua F U) (sp : Spec) (c : Str) : Prop where
  unnotified : sp = plainSpec → c ≠ ['s'] → ∀ v x, L.convert sp v = .ok x →
    ∃ t, L.tostring v = .ok t ∧ L.convert sp (.string t) = .ok x
  notified : sp ≠ plainSpec → c = ['s'] → ∀ v t x, L.tostring v = .ok t →
    L.convert sp (.string t) = .ok x → L.convert sp v = .ok x

/-- **One argument**: what the conversion makes of the value it gets, it makes of the one it should
get. -/
theorem plainTreated_iff {L : Lua F U} {sp : Spec} {c : Str} : PlainTreated L sp c ↔
    TransfersAt L sp (sp, c) (fun k => passed L k.2) fun k => plain L k.1 := by
  constructor
  · intro h v e x he hx
    simp only [passed] at he
    simp only [plain]
    by_cases hsp : sp = plainSpec
    · by_cases hc : c = ['s']
      · rw [if_pos hc] at he
        rw [if_pos hsp]
        exact ⟨e, he, hx⟩
      · rw [if_neg hc] at he
        obtain rfl := Except.ok.inj he
        obtain ⟨t, ht, hx'⟩ := h.unnotified hsp hc v x hx
        rw [if_pos hsp]
        exact ⟨.string t, map_eq_ok.mpr ⟨t, ht, rfl⟩, hx'⟩
    · rw [if_neg hsp]
      by_cases hc : c = ['s']
      · rw [if_pos hc] at he
        obtain ⟨t, ht, rfl⟩ := map_eq_ok.mp he
        exact ⟨v, rfl, h.notified hsp hc v t x ht hx⟩
      · rw [if_neg hc] at he
        obtain rfl := Except.ok.inj he
        exact ⟨v, rfl, hx⟩
  · intro h
    refine ⟨fun hsp hc v x hx => ?_, fun hsp hc v t x ht hx => ?_⟩
    · obtain ⟨w, hw, hx'⟩ := h v v x (if_neg hc) hx
      simp only [plain, if_pos hsp] at hw
      obtain ⟨t, ht, rfl⟩ := map_eq_ok.mp hw
      exact ⟨t, ht, hx'⟩
    · have he : passed L c v = .ok (.string t) := by
        rw [passed, if_pos hc, ht]
        rfl
      obtain ⟨w, hw, hx'⟩ := h v (.string t) x he hx
      simp only [plain, if_neg hsp] at hw
      obtain rfl := Except.ok.inj hw
      exact hx'

theorem plain_keepsStrings (L : Lua F U) :
    Preparation.KeepsStrings fun k : Spec × Str => plain L k.1 := by
  intro k t
  simp only [plain]
  split_ifs
  · rw [L.tostring_string]
    rfl
  · rfl

theorem formatCount_string (L : Lua F U) (s : Str) :
    formatCount L true (.string s) = (notes none s).length := by
  rw [formatCount, parseFormat_nil]
  rfl

/-- What raises an error among the values. -/
theorem mapM_error {ε α β : Type} {f : α → Except ε β} {l : List α} {err : ε}
    (h : l.mapM f = .error err) : ∃ a ∈ l, f a = .error err := by
  induction l with
  | nil => cases h
  | cons a l ih =>
      rw [List.mapM_cons] at h
      rcases ha : f a with err' | b
      · rw [ha] at h
        obtain rfl := Except.error.inj h
        exact ⟨a, by simp, ha⟩
      · rcases hl : l.mapM f with err' | bs
        · rw [ha, hl] at h
          obtain rfl := Except.error.inj h
          obtain ⟨a', ha', herr⟩ := ih hl
          exact ⟨a', by simp [ha'], herr⟩
        · rw [ha, hl] at h
          cases h

/-- **Nothing is counted.** -/
theorem keeps_plain (L : Lua F U) {doformat : Bool} {s : Value F U}
    (h : formatCount L doformat s = 0) (args : List (Value F U)) :
    KeepsArguments L doformat s args := by
  have hparse : doformat = true → parseFormat L s .nil () = .ok (0, ()) := by
    rintro rfl
    cases s with
    | string t =>
        rw [formatCount_string] at h
        rw [parseFormat_nil, h]
    | _ => rfl
  have hplain := vstringify_plain L hparse args
  refine ⟨fun res hres => ?_, fun t _ _ => by omega, fun _ err herr => ?_⟩
  · rw [hplain, List.mapM_cons] at hres
    obtain ⟨all, hall, hjoin⟩ := bind_eq_ok.mp hres
    obtain ⟨head, hhead, hall⟩ := bind_eq_ok.mp hall
    obtain ⟨texts, htexts, hall⟩ := bind_eq_ok.mp hall
    obtain rfl := Except.ok.inj hall
    rw [h, headOf, if_pos rfl]
    exact ⟨head, texts, hhead, htexts, (Except.ok.inj hjoin).symm⟩
  · rw [hplain] at herr
    rcases hall : (s :: args).mapM L.tostring with err' | texts
    · rw [hall] at herr
      obtain rfl := Except.error.inj herr
      exact mapM_error hall
    · rw [hall] at herr
      cases herr

/-- What `string.format` takes: pieces that are accepted, and a value for each conversion. -/
theorem accepts_of_formatPieces {L : Lua F U} {ps : List Piece} {vs : List (Value F U)} {head : Str}
    (h : L.formatPieces ps vs = .ok head) :
    (∀ p ∈ ps, L.acceptsPiece p = true) ∧ (specs ps).length ≤ vs.length := by
  induction ps generalizing vs head with
  | nil => exact ⟨by simp, Nat.zero_le _⟩
  | cons p ps ih =>
      cases p with
      | literal c =>
          obtain ⟨rest, hrest, _⟩ := bind_eq_ok.mp h
          obtain ⟨haccepts, hle⟩ := ih hrest
          exact ⟨List.forall_mem_cons.mpr ⟨rfl, haccepts⟩, hle⟩
      | percent =>
          obtain ⟨rest, hrest, _⟩ := bind_eq_ok.mp h
          obtain ⟨haccepts, hle⟩ := ih hrest
          exact ⟨List.forall_mem_cons.mpr ⟨rfl, haccepts⟩, hle⟩
      | spec sp =>
          cases vs with
          | nil => cases h
          | cons v vs =>
              obtain ⟨hsp, _, rest, _, hrest, _⟩ := Lua.formatPieces_spec.mp h
              obtain ⟨haccepts, hle⟩ := ih hrest
              exact ⟨List.forall_mem_cons.mpr ⟨hsp, haccepts⟩, Nat.succ_le_succ hle⟩
      | unfinished mods => cases h

theorem unpack_length (argv : List (Value F U)) (n : Nat) : (unpack argv 1 n).length = n := by
  simp [unpack]

theorem unpack_all (argv : List (Value F U)) : unpack argv 1 argv.length = argv := by
  simpa using unpack_append [] argv []

section Counted

variable {L : Lua F U} {s : Str}

/-- What `vstringify` returns where something is counted. -/
theorem vstringify_eq_ok (hs : notes none s ≠ []) (args : List (Value F U)) (res : Str) :
    vstringify L true (.string s) args = .ok res ↔ ∃ head texts,
      (stringified L (notes none s) (unpack args 1 (notes none s).length)
        >>= L.formatPieces (pieces none s)) = .ok head ∧
      (args.drop (notes none s).length).mapM L.tostring = .ok texts ∧
      res = List.intercalate [' '] (head :: texts) := by
  rw [vstringify_counted L hs]
  constructor
  · intro h
    obtain ⟨ws, hws, h⟩ := bind_eq_ok.mp h
    obtain ⟨head, hhead, h⟩ := bind_eq_ok.mp h
    obtain ⟨texts, htexts, h⟩ := bind_eq_ok.mp h
    refine ⟨head, texts, bind_eq_ok.mpr ⟨ws, hws, ?_⟩, htexts, (Except.ok.inj h).symm⟩
    rcases hformat : L.format (.string s) ws with err | text
    · rw [hformat] at hhead
      cases hhead
    · rw [hformat] at hhead
      obtain rfl := Except.ok.inj hhead
      exact hformat
  · rintro ⟨head, texts, hhead, htexts, rfl⟩
    obtain ⟨ws, hws, hhead⟩ := bind_eq_ok.mp hhead
    have hformat : L.format (.string s) ws = .ok head := hhead
    rw [hws, ok_bind, hformat, htexts]
    rfl

/-- What stands in front where something is counted. -/
theorem headOf_eq (hs : notes none s ≠ [])
    (hlen : (notes none s).length = (specs (pieces none s)).length) (args : List (Value F U)) :
    headOf L (notes none s).length (.string s) args
      = prepareAll (fun k => plain L k.1) (notedSpecs (pieces none s))
          (unpack args 1 (notes none s).length) >>= L.formatPieces (pieces none s) := by
  rw [headOf, if_neg (List.length_pos_iff.mpr hs).ne', prepareAll_map (plain L) Prod.fst,
    notedSpecs_fst (by rwa [textOf_pieces])]
  rfl

/-- **The notes are right** for all conversions, as all arguments show. -/
theorem transfers_iff_plainTreated (haccepts : L.Accepts s)
    (hlen : (notes none s).length = (specs (pieces none s)).length) :
    Transfers L (pieces none s) (notedSpecs (pieces none s)) (fun k => passed L k.2)
        (fun k => plain L k.1) ↔
      ∀ pre sp post c, pieces none s = pre ++ .spec sp :: post → Noted sp post c →
        PlainTreated L sp c := by
  have hsound := haccepts.sound
  have hnoted := notes_length_eq_iff hsound
  rw [textOf_pieces] at hnoted
  rw [transfers_iff haccepts (notedSpecs_fst (by rwa [textOf_pieces])) (passed_keepsStrings L)
    (plain_keepsStrings L)]
  constructor
  · intro h pre sp post c hps hc
    have hmem := (mem_notedSpecs_iff hsound (hnoted.mp hlen)).mpr ⟨pre, post, hps, hc⟩
    exact plainTreated_iff.mpr (h (sp, c) hmem)
  · intro h k hk
    obtain ⟨pre, post, hps, hc⟩ := (mem_notedSpecs_iff hsound (hnoted.mp hlen)).mp hk
    exact plainTreated_iff.mp (h pre k.1 post k.2 hps hc)

/-- As many notes as conversions. -/
theorem notes_length_iff (haccepts : L.Accepts s) :
    (notes none s).length = (specs (pieces none s)).length ↔
      ∀ pre sp post, pieces none s = pre ++ .spec sp :: post → ∃ c, Noted sp post c := by
  have hsound := haccepts.sound
  have hnoted := notes_length_eq_iff hsound
  rw [textOf_pieces] at hnoted
  rw [hnoted, EachSpec]
  refine forall_congr' fun pre => forall_congr' fun sp => forall_congr' fun post =>
    forall_congr' fun hps => ?_
  have hpost : ∀ p ∈ post, p.Sound := fun p hp => hsound p (by simp [hps, hp])
  rw [Option.ne_none_iff_exists']
  exact exists_congr fun c => noted_eq_some hpost

end Counted

/-- The condition: where all conversions of a format string are noted, their notes are right. -/
def NotesRight (L : Lua F U) (s : Str) : Prop :=
  L.Accepts s → (∀ pre sp post, pieces none s = pre ++ .spec sp :: post → ∃ c, Noted sp post c) →
    ∀ pre sp post c, pieces none s = pre ++ .spec sp :: post → Noted sp post c →
      PlainTreated L sp c

/-- A format string on which all arguments are kept has the right notes. -/
theorem notesRight_of_keeps {L : Lua F U} {s : Str}
    (h : ∀ args, KeepsArguments L true (.string s) args) : NotesRight L s := by
  intro haccepts hnoted pre sp post c hps
  have hlen := (notes_length_iff haccepts).mpr hnoted
  have hne : notes none s ≠ [] := by
    rw [← List.length_pos_iff, hlen, hps, specs_append, List.length_append, specs,
      List.length_cons]
    omega
  refine (transfers_iff_plainTreated haccepts hlen).mp ?_ pre sp post c hps
  intro args head hargs hhead
  have hcount : (notes none s).length = args.length := hlen.trans hargs.symm
  rw [← stringified_pairs hlen, ← vstringify_all hne hcount] at hhead
  obtain ⟨head', texts, hhead', htexts, rfl⟩ := (h args).result head hhead
  rw [formatCount_string, hcount, List.drop_length] at htexts
  obtain rfl := Except.ok.inj htexts
  rw [formatCount_string, headOf_eq hne hlen, hcount, unpack_all] at hhead'
  rw [hhead']
  simp [List.intercalate]

/-- **With the right notes all arguments are kept.** -/
theorem keeps_of_notesRight {L : Lua F U} {s : Str} (h : NotesRight L s)
    (args : List (Value F U)) : KeepsArguments L true (.string s) args := by
  by_cases hne : notes none s = []
  · exact keeps_plain L (by rw [formatCount_string, hne]; rfl) args
  · have hcount := formatCount_string L s
    have hpos := List.length_pos_iff.mpr hne
    have hle : ∀ t, Value.string s = (.string t : Value F U) → L.Accepts t →
        (notes none s).length ≤ (specs (pieces none t)).length := by
      rintro t heq haccepts
      obtain rfl := Value.string.inj heq
      have hbound := notes_length_le haccepts.sound
      rwa [textOf_pieces] at hbound
    refine ⟨fun res hres => ?_, by rwa [hcount], fun hnone => ?_⟩
    · rw [vstringify_eq_ok hne] at hres
      obtain ⟨head, texts, hhead, htexts, rfl⟩ := hres
      rw [hcount]
      refine ⟨head, texts, ?_, htexts, rfl⟩
      -- what `string.format` takes has as many conversions as arguments
      obtain ⟨ws, hws, hformat⟩ := bind_eq_ok.mp hhead
      obtain ⟨haccepts, hfew⟩ := accepts_of_formatPieces hformat
      rw [stringified_length hws, unpack_length] at hfew
      have hlen := Nat.le_antisymm (hle s rfl haccepts) hfew
      have hnoted := (notes_length_iff haccepts).mp hlen
      have htransfers := (transfers_iff_plainTreated haccepts hlen).mpr (h haccepts hnoted)
      rw [headOf_eq hne hlen]
      refine htransfers _ head ?_ ?_
      · rw [unpack_length, hlen]
      · rwa [← stringified_pairs hlen]
    · rw [hcount] at hnone
      omega

/-- **What becomes of the arguments**: none is lost or printed twice and each is treated as it
should, whatever they are, if and only if `s` is not formatted, or cannot be, or the notes of its
conversions are right. -/
theorem vstringify_keeps_arguments (L : Lua F U) (doformat : Bool) (s : Value F U) :
    (∀ args, KeepsArguments L doformat s args) ↔
      ∀ t, doformat = true → s = .string t → NotesRight L t := by
  constructor
  · rintro h t rfl rfl
    exact notesRight_of_keeps h
  · intro h args
    by_cases hzero : formatCount L doformat s = 0
    · exact keeps_plain L hzero args
    · rw [formatCount] at hzero
      split_ifs at hzero with hformat
      · subst hformat
        cases s with
        | string t => exact keeps_of_notesRight (h t rfl rfl) args
        | _ => exact absurd rfl hzero
      · exact absurd rfl hzero

/-! ## Escaped percent signs -/

theorem lastPart_take {behind : Str} (hbehind : behind ≠ []) {gap : List Piece}
    (hgap : .percent ∉ gap) : (lastPart behind gap).take 1 = behind.take 1 := by
  induction gap generalizing behind with
  | nil => rfl
  | cons p gap ih =>
      have hrest : .percent ∉ gap := fun h => hgap (by simp [h])
      cases p with
      | literal c =>
          rw [lastPart, ih (by simp) hrest]
          exact List.take_append_of_le_length (List.length_pos_iff.mpr hbehind)
      | percent => exact absurd List.mem_cons_self hgap
      | spec sp => exact ih hbehind hrest
      | unfinished mods => exact ih hbehind hrest

/-- What is noted if no percent sign is escaped: the first character of the conversion. -/
theorem Noted.eq_first {sp : Spec} {ps : List Piece} {c : Str} (h : Noted sp ps c)
    (hps : .percent ∉ ps) : c = (sp.mods ++ [sp.conv]).take 1 := by
  have hne : sp.mods ++ [sp.conv] ≠ [] := by simp
  cases h with
  | flag hflag _ =>
      rw [List.take_append_of_le_length]
      exact List.length_pos_of_mem hflag
  | last => exact lastPart_take hne hps
  | space => exact lastPart_take hne fun hmem => hps (List.mem_append_left _ hmem)

/-- **Without an escaped percent sign the notes are right.** -/
theorem notesRight_of_unescaped (L : Lua F U) {s : Str} (h : .percent ∉ pieces none s) :
    NotesRight L s := by
  intro _ _ pre sp post c hps hc
  have hpost : .percent ∉ post := fun hmem => h (by simp [hps, hmem])
  have hmem : Piece.spec sp ∈ pieces none s := by simp [hps]
  have hread : (Piece.spec sp).IsRead := isRead_of_mem (by simp) _ hmem
  have hfirst : c = ['s'] ↔ sp = plainSpec := by
    rw [hc.eq_first hpost]
    rcases sp with ⟨mods, conv⟩
    cases mods with
    | nil => simp [plainSpec]
    | cons x mods =>
        have hx : x ≠ 's' := by
          rintro rfl
          exact absurd (hread 's' (by simp)) (by decide)
        simp [plainSpec, hx]
  exact ⟨fun hsp hne => absurd (hfirst.mpr hsp) hne, fun hsp heq => absurd (hfirst.mp heq) hsp⟩

/-- So all arguments are kept. -/
theorem keeps_unescaped (L : Lua F U) {s : Str} (h : .percent ∉ pieces none s)
    (args : List (Value F U)) : KeepsArguments L true (.string s) args :=
  keeps_of_notesRight (notesRight_of_unescaped L h) args

/-! ### A rounded number -/

/-- Lua with `%.17g` only, and a float that `tostring` rounds: a third. -/
def roundingLua : Lua Unit Unit where
  tostring
    | .object .float _ => .ok "0.33333333333333".toList
    | v => plainLua.tostring v
  border := plainLua.border
  accepts sp := decide (sp = ⟨".17".toList, 'g'⟩)
  convert
    | _, .object .float _ => .ok "0.33333333333333331".toList
    | _, .string s =>
      if s = "0.33333333333333".toList then .ok "0.33333333333332998".toList
      else if s = ['0'] then .ok ['0']
      else .error (.string "number expected, got string".toList)
    | _, v => .error (.string ("number expected, got ".toList ++ v.type.name))
  rejected := plainLua.rejected
  position := plainLua.position
  tostring_string _ := rfl
  border_last := plainLua.border_last
  border_next := plainLua.border_next
  grammar := by
    intro sp h
    rw [of_decide_eq_true h]
    decide
  numeral := fun _ _ => ⟨_, rfl⟩

/-- An `s` behind an escaped percent sign: the argument of `%.17g` is converted before. -/
theorem escape_misconverted :
    vstringify roundingLua true (.string "%.17g%%s".toList) [.object .float ()]
      = .ok "0.33333333333332998%s".toList ∧
    roundingLua.format (.string "%.17g%%s".toList) [.object .float ()]
      = .ok "0.33333333333333331%s".toList ∧
    ¬ KeepsArguments roundingLua true (.string "%.17g%%s".toList) [.object .float ()] := by
  refine ⟨rfl, rfl, fun h => ?_⟩
  obtain ⟨head, texts, hhead, htexts, hres⟩ := h.result "0.33333333333332998%s".toList rfl
  have hcount : formatCount roundingLua true (.string "%.17g%%s".toList) = 1 :=
    formatCount_string _ _
  rw [hcount] at hhead htexts
  obtain rfl := Except.ok.inj htexts
  have hplain : headOf roundingLua 1 (.string "%.17g%%s".toList) [.object .float ()]
      = .ok "0.33333333333333331%s".toList := rfl
  rw [hplain] at hhead
  obtain rfl := Except.ok.inj hhead
  exact absurd hres (by decide)

end Testcase
