import LuaTestcase.Lua.Format

/-!
# `testcase.printer`: formatting

`parse_format` and `vstringify` of `lib/printer.lua`, with what they use of `testcase.select`.
`parse_format` does not read the format string the way `string.format` does: it remembers where a
percent sign opened a specifier, takes the next percent sign for an escape, and counts the
specifier when a space or the end of the string comes.

* `parseFormat`, `vstringify` — the functions.
* `notes` — the same scanner, as a function of the characters behind the percent sign.
* `parseFormat_string` — **`parseFormat` counts and notifies the notes**.
* `vstringify_format` — **what `vstringify` does with a format string and enough arguments**.
* `vstringify_plain` — what it does without formatting.
-/

namespace Testcase

variable {F U σ : Type}

/-! ## The source -/

/-- The second argument of `parse_format`: nothing, a function that changes the variables `σ` and
may raise, or something else. -/
inductive Notify (F U σ : Type) where
  | nil
  | function (cb : Str → Nat → σ → Except (Value F U) σ)
  | other (type : LuaType)

/-- `if cb then cb(c, nparam) end`. -/
def Notify.call (c : Str) (nparam : Nat) (vars : σ) : Notify F U σ → Except (Value F U) σ
  | function cb => cb c nparam vars
  | _ => .ok vars

/-- The local variables of `parse_format`, `open` and `nparam`, and those the callback changes. -/
structure FormatScan (σ : Type) where
  nparam : Nat
  opened : Nat
  vars : σ

/-- One turn of the loop. -/
def parseChar (s : Str) (cb : Notify F U σ) (scan : FormatScan σ) (i : Nat) :
    Except (Value F U) (FormatScan σ) :=
  let c := sub s i i
  if c = ['%'] then
    if scan.opened = 0 then return { scan with opened := i } else return { scan with opened := 0 }
  else if 0 < scan.opened ∧ c = [' '] then
    if 1 < i - scan.opened then do
      let vars ← cb.call (sub s (scan.opened + 1) (scan.opened + 1)) (scan.nparam + 1) scan.vars
      return ⟨scan.nparam + 1, 0, vars⟩
    else return { scan with opened := 0 }
  else return scan

/-- `error(err, level)`. -/
def raised (L : Lua F U) (level : Nat) : Value F U → Value F U
  | .string msg => .string (L.position level ++ msg)
  | err => err

/-- What is behind the loop. -/
def parseEnd (s : Str) (cb : Notify F U σ) (scan : FormatScan σ) : Except (Value F U) (Nat × σ) :=
  if 0 < scan.opened then do
    let vars ← cb.call (sub s (scan.opened + 1) (scan.opened + 1)) (scan.nparam + 1) scan.vars
    return (scan.nparam + 1, vars)
  else return (scan.nparam, scan.vars)

/-- `parse_format(s, cb)`, with the variables behind it. -/
def parseFormat (L : Lua F U) (s : Value F U) (cb : Notify F U σ) (vars : σ) :
    Except (Value F U) (Nat × σ) :=
  match s, cb with
  | .string _, .other type => .error (raised L 2 (.string
      ("invalid argument #2 (nil or function expected, got ".toList ++ type.name ++ [')'])))
  | .string s, cb => do
    let scan ← (List.range' 1 s.length).foldlM (parseChar s cb) ⟨0, 0, vars⟩
    parseEnd s cb scan
  | _, _ => return (0, vars)

/-- `select.tail(idx, ...)`. -/
def selectTail (idx : Int) (args : List (Value F U)) : List (Value F U) :=
  let narg : Int := args.length
  if narg < idx then []
  else if idx ≤ 1 then args
  else args.drop (args.length - (narg - idx + 1).toNat)

/-- `unpack(argv, i, j)`. -/
def unpack (argv : List (Value F U)) (i j : Nat) : List (Value F U) :=
  (List.range' i (j + 1 - i)).map (index argv)

/-- `if type(argv[i]) ~= 'string' then argv[i] = tostring(argv[i]) end`. -/
def stringifyAt (L : Lua F U) (argv : List (Value F U)) (i : Nat) :
    Except (Value F U) (List (Value F U)) :=
  if (index argv i).type ≠ .string then do
    let text ← L.tostring (index argv i)
    return assign argv i (.string text)
  else return argv

/-- The callback of `vstringify`. -/
def stringifyParam (L : Lua F U) (c : Str) (offset : Nat) (argv : List (Value F U)) :
    Except (Value F U) (List (Value F U)) :=
  if c = ['s'] then stringifyAt L argv (offset + 1) else return argv

/-- A value as `table.concat` takes it: a string or a number. -/
def concatItem (L : Lua F U) (v : Value F U) : Except (Value F U) Str :=
  match v.type with
  | .string => L.tostring v
  | .number => L.tostring v
  | _ => .error (.string "invalid value in table for 'concat'".toList)

/-- `concat(argv, sep)`. -/
def concat (L : Lua F U) (argv : List (Value F U)) (sep : Str) : Except (Value F U) Str := do
  let texts ← (unpack argv 1 (L.border argv)).mapM (concatItem L)
  return List.intercalate sep texts

/-- The part of `vstringify` that formats the arguments. -/
def formatArgv (L : Lua F U) (s : Value F U) (args : List (Value F U)) :
    Except (Value F U) (List (Value F U) × Int) := do
  let argv := s :: args
  let narg : Int := args.length + 1
  let (nparam, _) ← parseFormat L s .nil ()
  if 0 < nparam then
    let narg := narg - nparam
    let (_, argv) ← parseFormat L s (.function (stringifyParam L)) argv
    match L.format s (unpack argv 2 (nparam + 1)) with
    | .ok res => return (.string res :: selectTail (nparam + 1) args, narg)
    | .error err => .error (raised L 3 err)
  else return (argv, narg)

/-- `vstringify(doformat, s, ...)`. -/
def vstringify (L : Lua F U) (doformat : Bool) (s : Value F U) (args : List (Value F U)) :
    Except (Value F U) Str := do
  let (argv, narg) ←
    if doformat then formatArgv L s args else pure (s :: args, (args.length : Int) + 1)
  let argv ← (List.range' 1 narg.toNat).foldlM (stringifyAt L) argv
  concat L argv [' ']

/-! ## The scanner -/

/-- One character: what is behind the percent sign that is open, and what is notified. -/
def scanChar : Option Str → Char → Option Str × List Str
  | none, c => if c = '%' then (some [], []) else (none, [])
  | some behind, c =>
    if c = '%' then (none, [])
    else if c = ' ' then (none, if behind = [] then [] else [behind.take 1])
    else (some (behind ++ [c]), [])

theorem scanChar_space (behind : Str) : scanChar (some behind) ' '
    = (none, if behind = [] then [] else [behind.take 1]) := rfl

/-- What is notified in the rest of the string. -/
def notes : Option Str → Str → List Str
  | none, [] => []
  | some behind, [] => [behind.take 1]
  | opened, c :: s => (scanChar opened c).2 ++ notes (scanChar opened c).1 s

/-- What stands behind the open percent sign, up to the `i`-th character. -/
def behindOf (s : Str) (opened i : Nat) : Option Str :=
  if opened = 0 then none else some ((s.drop opened).take (i - opened))

/-- The calls of the callback, from the given offset. -/
def Notify.each (cb : Notify F U σ) : Nat → List Str → σ → Except (Value F U) σ
  | _, [], vars => return vars
  | offset, c :: cs, vars => do
    let vars ← cb.call c offset vars
    cb.each (offset + 1) cs vars

theorem sub_at (s : Str) (i : Nat) : sub s (i + 1) (i + 1) = (s.drop i).take 1 := by
  have h := sub_range s i (i + 1)
  rw [Nat.add_sub_cancel_left] at h
  exact_mod_cast h

theorem sub_char {s rest : Str} {i : Nat} {c : Char} (hc : s.drop i = c :: rest) :
    sub s ((i + 1 : Nat) : Int) ((i + 1 : Nat) : Int) = [c] := by
  have h := sub_at s i
  rw [hc] at h
  exact_mod_cast h

/-- One character more behind the percent sign. -/
theorem behindOf_succ {s rest : Str} {opened i : Nat} {c : Char} (hc : s.drop i = c :: rest)
    (hopen : opened ≠ 0) (hopened : opened ≤ i) :
    behindOf s opened (i + 1) = some ((s.drop opened).take (i - opened) ++ [c]) := by
  have hget : (s.drop opened)[i - opened]? = some c := by
    rw [List.getElem?_drop, Nat.add_sub_cancel' hopened, ← Nat.add_zero i, ← List.getElem?_drop, hc]
    rfl
  rw [behindOf, if_neg hopen, Nat.sub_add_comm hopened, List.take_add_one, hget]
  rfl

/-- A turn at a space while a specifier is open. -/
theorem parseChar_space {s rest : Str} {i : Nat} (hc : s.drop i = ' ' :: rest)
    (cb : Notify F U σ) (scan : FormatScan σ) (hopen : 0 < scan.opened)
    (hopened : scan.opened ≤ i) :
    parseChar s cb scan (i + 1) = (do
      let cs := (scanChar (some ((s.drop scan.opened).take (i - scan.opened))) ' ').2
      let vars ← cb.each (scan.nparam + 1) cs scan.vars
      return ⟨scan.nparam + cs.length, 0, vars⟩) := by
  have hlt : i < s.length := by
    by_contra hle
    rw [List.drop_eq_nil_of_le (by omega)] at hc
    cases hc
  have hturn : parseChar s cb scan (i + 1) = if 1 < i + 1 - scan.opened then (do
      let c := sub s (scan.opened + 1) (scan.opened + 1)
      let vars ← cb.call c (scan.nparam + 1) scan.vars
      return ⟨scan.nparam + 1, 0, vars⟩) else return { scan with opened := 0 } := by
    have hpercent : ([' '] : Str) ≠ ['%'] := by decide
    simp only [parseChar, sub_char hc, hpercent, hopen, if_true, if_false, and_self]
  rw [scanChar_space, hturn]
  rcases Nat.eq_or_lt_of_le hopened with heq | hbefore
  · rw [if_neg (by omega), if_pos (by simp [heq])]
    rfl
  · have hlong : (s.drop scan.opened).take (i - scan.opened) ≠ [] := by
      intro hnil
      have hlen := congrArg List.length hnil
      simp only [List.length_take, List.length_drop, List.length_nil] at hlen
      omega
    have htake : ((s.drop scan.opened).take (i - scan.opened)).take 1
        = sub s (scan.opened + 1) (scan.opened + 1) := by
      rw [sub_at, List.take_take, Nat.min_eq_left (by omega)]
    rw [if_pos (by omega), if_neg hlong, htake]
    simp only [Notify.each, bind_pure, List.length_singleton]

/-- **One turn of the loop**, at the character behind the first `i`. -/
theorem parseChar_notes {s rest : Str} {i : Nat} {c : Char} (hc : s.drop i = c :: rest)
    (cb : Notify F U σ) (scan : FormatScan σ) (hopened : scan.opened ≤ i) :
    ∃ opened ≤ i + 1, behindOf s opened (i + 1) = (scanChar (behindOf s scan.opened i) c).1 ∧
      parseChar s cb scan (i + 1) = (do
        let vars ← cb.each (scan.nparam + 1) (scanChar (behindOf s scan.opened i) c).2 scan.vars
        return ⟨scan.nparam + (scanChar (behindOf s scan.opened i) c).2.length, opened, vars⟩) := by
  have hpercent : ([c] : Str) = ['%'] ↔ c = '%' := by simp
  have hspace : ([c] : Str) = [' '] ↔ c = ' ' := by simp
  rcases Nat.eq_zero_or_pos scan.opened with hclosed | hopen
  · by_cases h : c = '%'
    · refine ⟨i + 1, le_rfl, ?_, ?_⟩
      · simp [behindOf, scanChar, hclosed, h]
      · simp only [parseChar, sub_char hc, h, hclosed, behindOf, scanChar, if_true]
        rfl
    · refine ⟨0, Nat.zero_le _, ?_, ?_⟩
      · simp [behindOf, scanChar, hclosed, h]
      · simp only [parseChar, sub_char hc, hpercent, h, hclosed, behindOf, scanChar, if_true,
          if_false, Nat.lt_irrefl, false_and]
        rw [← hclosed]
        rfl
  · have hne : scan.opened ≠ 0 := by omega
    have hbehind : behindOf s scan.opened i = some ((s.drop scan.opened).take (i - scan.opened)) :=
      if_neg hne
    rw [hbehind]
    by_cases h : c = '%'
    · refine ⟨0, Nat.zero_le _, ?_, ?_⟩
      · simp [behindOf, scanChar, h]
      · simp only [parseChar, sub_char hc, h, hne, scanChar, if_true, if_false]
        rfl
    · by_cases hblank : c = ' '
      · subst hblank
        exact ⟨0, Nat.zero_le _, rfl, parseChar_space hc cb scan hopen hopened⟩
      · refine ⟨scan.opened, by omega, ?_, ?_⟩
        · rw [behindOf_succ hc hne hopened]
          simp only [scanChar, if_neg h, if_neg hblank]
        · simp only [parseChar, sub_char hc, hpercent, hspace, h, hblank, and_false, scanChar,
            if_false]
          rfl

theorem Notify.each_nil (offset : Nat) (cs : List Str) (vars : σ) :
    (Notify.nil : Notify F U σ).each offset cs vars = .ok vars := by
  induction cs generalizing offset with
  | nil => rfl
  | cons c cs ih => exact ih (offset + 1)

/-- The calls for the first notes and for the others. -/
theorem Notify.each_append (cb : Notify F U σ) (offset : Nat) (cs cs' : List Str) (vars : σ) :
    cb.each offset (cs ++ cs') vars = (do
      let vars ← cb.each offset cs vars
      cb.each (offset + cs.length) cs' vars) := by
  induction cs generalizing offset vars with
  | nil => simp [Notify.each]
  | cons c cs ih =>
      simp only [List.cons_append, Notify.each, ih, bind_assoc, List.length_cons]
      rw [show offset + 1 + cs.length = offset + (cs.length + 1) by omega]

/-- The loop, from behind the first `i` characters. -/
theorem parseChar_loop (s : Str) (cb : Notify F U σ) {n i : Nat} (hi : i + n = s.length)
    (scan : FormatScan σ) (hopened : scan.opened ≤ i) :
    ((List.range' (i + 1) n).foldlM (parseChar s cb) scan >>= parseEnd s cb) = (do
      let cs := notes (behindOf s scan.opened i) (s.drop i)
      let vars ← cb.each (scan.nparam + 1) cs scan.vars
      return (scan.nparam + cs.length, vars)) := by
  induction n generalizing i scan with
  | zero =>
      have hdrop : s.drop i = [] := List.drop_eq_nil_of_le (by omega)
      rw [hdrop]
      simp only [List.range'_zero, List.foldlM_nil, pure_bind]
      rcases Nat.eq_zero_or_pos scan.opened with hclosed | hopen
      · simp only [parseEnd, behindOf, hclosed, Nat.lt_irrefl, if_false, if_true, notes]
        rfl
      · have hne : scan.opened ≠ 0 := by omega
        have hall : (s.drop scan.opened).take (i - scan.opened) = s.drop scan.opened :=
          List.take_of_length_le (by rw [List.length_drop]; omega)
        simp only [parseEnd, behindOf, hopen, hne, if_false, if_true, hall, notes, sub_at,
          Notify.each, bind_pure, List.length_singleton]
  | succ n ih =>
      obtain ⟨c, rest, hc⟩ : ∃ c rest, s.drop i = c :: rest := by
        refine List.exists_cons_of_ne_nil fun hnil => ?_
        have hle := List.drop_eq_nil_iff.mp hnil
        omega
      have hrest : s.drop (i + 1) = rest := by rw [← List.drop_drop, hc]; rfl
      obtain ⟨opened, hle, hbehind, hturn⟩ := parseChar_notes hc cb scan hopened
      have hnotes : notes (behindOf s scan.opened i) (c :: rest)
          = (scanChar (behindOf s scan.opened i) c).2
            ++ notes (behindOf s opened (i + 1)) (s.drop (i + 1)) := by
        rw [hbehind, hrest]
        cases behindOf s scan.opened i with
        | none => rfl
        | some behind => rfl
      have hloop := fun vars => ih (i := i + 1) (by omega)
        (⟨scan.nparam + (scanChar (behindOf s scan.opened i) c).2.length, opened, vars⟩) hle
      rw [hc, List.range'_succ, List.foldlM_cons, hturn, hnotes]
      simp only [bind_assoc, pure_bind, hloop, Notify.each_append, List.length_append,
        Nat.add_right_comm _ _ 1, Nat.add_assoc scan.nparam]

/-- **`parse_format` counts the notes and calls the callback for each of them.** -/
theorem parseFormat_string (L : Lua F U) (s : Str) {cb : Notify F U σ}
    (hcb : ∀ type, cb ≠ .other type) (vars : σ) : parseFormat L (.string s) cb vars = (do
      let vars ← cb.each 1 (notes none s) vars
      return ((notes none s).length, vars)) := by
  have hloop := parseChar_loop s cb (Nat.zero_add _) ⟨0, 0, vars⟩ (Nat.zero_le _)
  simp only [Nat.zero_add, List.drop_zero] at hloop
  cases cb with
  | nil => exact hloop
  | function cb => exact hloop
  | other type => exact absurd rfl (hcb type)

theorem parseFormat_nil (L : Lua F U) (s : Str) :
    parseFormat L (.string s) .nil () = .ok ((notes none s).length, ()) := by
  rw [parseFormat_string L s (by simp), Notify.each_nil]
  rfl

/-! ## The arguments -/

/-- An argument as `string.format` gets it, where this character is notified. -/
def passed (L : Lua F U) (c : Str) (v : Value F U) : Except (Value F U) (Value F U) :=
  if c = ['s'] then (L.tostring v).map .string else .ok v

/-- The arguments as `string.format` gets them. -/
def stringified (L : Lua F U) :
    List Str → List (Value F U) → Except (Value F U) (List (Value F U))
  | c :: cs, v :: vs => do
    let v ← passed L c v
    let vs ← stringified L cs vs
    return v :: vs
  | _, vs => return vs

theorem stringified_length {L : Lua F U} {cs : List Str} {vs ws : List (Value F U)}
    (h : stringified L cs vs = .ok ws) : ws.length = vs.length := by
  induction cs generalizing vs ws with
  | nil =>
      obtain rfl := Except.ok.inj h
      rfl
  | cons c cs ih =>
      cases vs with
      | nil =>
          obtain rfl := Except.ok.inj h
          rfl
      | cons v vs =>
          rw [stringified] at h
          obtain ⟨w, _, h⟩ := bind_eq_ok.mp h
          obtain ⟨ws', hws, h⟩ := bind_eq_ok.mp h
          obtain rfl := Except.ok.inj h
          rw [List.length_cons, List.length_cons, ih hws]

/-- A string is its own `tostring`, so the type need not be asked for. -/
theorem stringifyAt_append (L : Lua F U) (pre post : List (Value F U)) (v : Value F U) :
    stringifyAt L (pre ++ v :: post) (pre.length + 1) = (do
      let text ← L.tostring v
      return pre ++ .string text :: post) := by
  rw [stringifyAt, index_append]
  cases v with
  | string t =>
      simp only [Value.type, ne_eq, not_true, if_false, L.tostring_string, ok_bind]
  | object k u =>
      cases k with
      | _ => simp only [Value.type, ne_eq, reduceCtorEq, not_false_eq_true, if_true, assign_append]
  | _ => simp only [Value.type, ne_eq, reduceCtorEq, not_false_eq_true, if_true, assign_append]

/-- The calls of the callback of `vstringify`. -/
theorem each_stringifyParam (L : Lua F U) {cs : List Str} {vs : List (Value F U)}
    (h : cs.length = vs.length) (pre rest : List (Value F U)) :
    Notify.each (.function (stringifyParam L)) pre.length cs (pre ++ (vs ++ rest)) = (do
      let vs ← stringified L cs vs
      return pre ++ (vs ++ rest)) := by
  induction cs generalizing vs pre with
  | nil =>
      obtain rfl := List.length_eq_zero_iff.mp h.symm
      rfl
  | cons c cs ih =>
      cases vs with
      | nil => cases h
      | cons v vs =>
          have hlen : cs.length = vs.length := Nat.succ.inj h
          have hrest := fun w => ih hlen (pre ++ [w])
          simp only [List.length_append, List.length_singleton, List.append_assoc,
            List.singleton_append] at hrest
          simp only [Notify.each, Notify.call, stringifyParam, stringified, passed,
            List.cons_append]
          split_ifs with hc
          · rw [stringifyAt_append]
            rcases L.tostring v with err | text
            · rfl
            · simp only [ok_bind, pure_bind, hrest, Except.map, bind_assoc, List.cons_append]
          · simp only [ok_bind, pure_bind, hrest, bind_assoc, List.cons_append]

/-- `unpack` of what stands behind the first values. -/
theorem unpack_append (pre vs rest : List (Value F U)) :
    unpack (pre ++ (vs ++ rest)) (pre.length + 1) (pre.length + vs.length) = vs := by
  refine List.ext_getElem ?_ fun n hn hn' => ?_
  · simp only [unpack, List.length_map, List.length_range']
    omega
  · simp only [unpack, List.getElem_map, List.getElem_range', index]
    rw [List.getD_eq_getElem?_getD, List.getElem?_append_right (by omega),
      List.getElem?_append_left (by omega)]
    have hindex : pre.length + 1 + 1 * n - 1 - pre.length = n := by omega
    rw [hindex, List.getElem?_eq_getElem hn', Option.getD_some]

/-- The loop that stringifies. -/
theorem stringifyAt_loop (L : Lua F U) (pre vs : List (Value F U)) :
    (List.range' (pre.length + 1) vs.length).foldlM (stringifyAt L) (pre ++ vs) = (do
      let texts ← vs.mapM L.tostring
      return pre ++ texts.map .string) := by
  induction vs generalizing pre with
  | nil => simp
  | cons v vs ih =>
      have hrest := fun w => ih (pre ++ [w])
      simp only [List.length_append, List.length_singleton, List.append_assoc,
        List.singleton_append] at hrest
      rw [List.length_cons, List.range'_succ, List.foldlM_cons, stringifyAt_append]
      simp only [List.mapM_cons, bind_assoc, pure_bind, hrest, List.map_cons]

/-- `concat` of strings. -/
theorem concat_strings (L : Lua F U) (texts : List Str) (sep : Str) :
    concat L (texts.map .string) sep = .ok (List.intercalate sep texts) := by
  have hborder : L.border (texts.map .string) = texts.length := by
    rw [Lua.border_full, List.length_map]
    intro v hv
    obtain ⟨t, _, rfl⟩ := List.mem_map.mp hv
    simp
  have hall : unpack (texts.map .string) 1 texts.length
      = (texts.map .string : List (Value F U)) := by
    have h := unpack_append [] (texts.map .string : List (Value F U)) []
    simpa using h
  have hitems : (texts.map .string : List (Value F U)).mapM (concatItem L) = .ok texts := by
    clear hborder hall
    induction texts with
    | nil => rfl
    | cons t texts ih =>
        have hitem : concatItem L (.string t) = .ok t := L.tostring_string t
        rw [List.map_cons, List.mapM_cons, hitem, ih]
        rfl
  rw [concat, hborder, hall, hitems]
  rfl

theorem selectTail_append (vs rest : List (Value F U)) :
    selectTail (vs.length + 1) (vs ++ rest) = rest := by
  rw [selectTail]
  simp only [List.length_append]
  split_ifs with hnone hall
  · have hrest : rest.length = 0 := by omega
    exact (List.length_eq_zero_iff.mp hrest).symm
  · have hvs : vs.length = 0 := by omega
    rw [List.length_eq_zero_iff.mp hvs, List.nil_append]
  · have hcount : vs.length + rest.length
        - ((vs.length + rest.length : Nat) - (vs.length + 1) + 1 : Int).toNat = vs.length := by
      omega
    rw [hcount, List.drop_left]

/-- **Nothing is counted**: all values are converted. -/
theorem vstringify_plain (L : Lua F U) {doformat : Bool} {s : Value F U}
    (h : doformat = true → parseFormat L s .nil () = .ok (0, ())) (args : List (Value F U)) :
    vstringify L doformat s args = (do
      let texts ← (s :: args).mapM L.tostring
      return List.intercalate [' '] texts) := by
  have hnarg : ((args.length : Int) + 1).toNat = (s :: args).length := by
    rw [List.length_cons]
    omega
  have hloop := stringifyAt_loop L [] (s :: args)
  change (List.range' 1 _).foldlM _ (s :: args) = _ at hloop
  have hrest : ((List.range' 1 ((args.length : Int) + 1).toNat).foldlM (stringifyAt L) (s :: args)
      >>= fun argv => concat L argv [' ']) = (do
        let texts ← (s :: args).mapM L.tostring
        return List.intercalate [' '] texts) := by
    simp only [hnarg, hloop, bind_assoc, pure_bind]
    rcases (s :: args).mapM L.tostring with err | texts
    · rfl
    · exact concat_strings L texts [' ']
  rw [← hrest, vstringify]
  cases doformat with
  | false => rfl
  | true =>
      have hargv : formatArgv L s args = .ok (s :: args, (args.length : Int) + 1) := by
        rw [formatArgv, h rfl]
        rfl
      rw [hargv]
      rfl

/-- **A format string with enough arguments.** -/
theorem vstringify_format (L : Lua F U) {s : Str} (hs : notes none s ≠ [])
    {vs : List (Value F U)} (hvs : (notes none s).length = vs.length) (rest : List (Value F U)) :
    vstringify L true (.string s) (vs ++ rest) = (do
      let vs ← stringified L (notes none s) vs
      let head ← (L.format (.string s) vs).mapError (raised L 3)
      let texts ← rest.mapM L.tostring
      return List.intercalate [' '] (head :: texts)) := by
  rw [vstringify, formatArgv]
  have hparams := each_stringifyParam L hvs [.string s] rest
  have hpos : 0 < (notes none s).length := List.length_pos_iff.mpr hs
  simp only [if_true, parseFormat_nil, ok_bind, hpos]
  rw [parseFormat_string L s (by simp)]
  change Notify.each _ 1 _ (.string s :: (vs ++ rest)) = _ at hparams
  rw [hparams]
  rcases hstr : stringified L (notes none s) vs with err | ws
  · rfl
  · have hws : ws.length = (notes none s).length := (stringified_length hstr).trans hvs.symm
    have hunpack : unpack (.string s :: (ws ++ rest)) 2 ((notes none s).length + 1) = ws := by
      rw [← hws, Nat.add_comm]
      exact unpack_append [.string s] ws rest
    have htail : selectTail ((notes none s).length + 1) (vs ++ rest) = rest := by
      rw [hvs]
      exact selectTail_append vs rest
    simp only [ok_bind, pure_bind, List.cons_append, List.nil_append, hunpack, htail]
    rcases L.format (.string s) ws with err | head
    · rfl
    · have hnarg : (((vs ++ rest).length : Int) + 1 - (notes none s).length).toNat
          = (.string head :: rest).length := by
        rw [List.length_append, List.length_cons]
        omega
      have hloop := stringifyAt_loop L [] (.string head :: rest)
      simp only [List.mapM_cons, L.tostring_string, ok_bind, bind_assoc, pure_bind] at hloop
      change (List.range' 1 _).foldlM _ (.string head :: rest) = _ at hloop
      simp only [pure_bind, hnarg, hloop, bind_assoc]
      rcases rest.mapM L.tostring with err | texts
      · rfl
      · exact concat_strings L (head :: texts) [' ']

end Testcase
