import Mathlib.Data.List.GetD
import LuaTestcase.Lua.Value

/-!
# `string.format`

A format string is read from left to right: a percent sign starts a conversion, which ends with its
conversion character, or it is escaped by a second percent sign.  Which conversions are accepted
and what text they give depends on the version of Lua and on the C library, so that is left open.

* `pieces` — the format string as literal characters, escaped percent signs and conversions.
* `Lua` — what is used of the interpreter, with what its manual says of it.
* `Lua.format` — `string.format`.
* `flatMap_text` — the pieces are all of the format string.
* `Lua.formatPieces_append` — **the text is composed piece by piece**.
-/

namespace Testcase

/-! ## Format strings -/

/-- A conversion specification: flags, width and precision as they are written, and the conversion
character. -/
structure Spec where
  mods : Str
  conv : Char
deriving DecidableEq, Repr

/-- A piece of a format string; in an unfinished one the string ends before the conversion
character. -/
inductive Piece where
  | literal (c : Char)
  | percent
  | spec (sp : Spec)
  | unfinished (mods : Str)
deriving DecidableEq, Repr

def Spec.text (sp : Spec) : Str := '%' :: (sp.mods ++ [sp.conv])

def Piece.text : Piece → Str
  | literal c => [c]
  | percent => ['%', '%']
  | spec sp => sp.text
  | unfinished mods => '%' :: mods

/-- The flags. -/
def isFlag (c : Char) : Bool := ['-', '+', ' ', '#', '0'].contains c

/-- What can stand between the percent sign and the conversion character. -/
def isModifier (c : Char) : Bool := isFlag c || c.isDigit || c == '.'

/-- Reads a format string; the first argument is what has been read of a conversion. -/
def pieces : Option Str → Str → List Piece
  | none, [] => []
  | some mods, [] => [.unfinished mods]
  | none, c :: s => if c = '%' then pieces (some []) s else .literal c :: pieces none s
  | some mods, c :: s =>
    if isModifier c then pieces (some (mods ++ [c])) s
    else if mods = [] ∧ c = '%' then .percent :: pieces none s
    else .spec ⟨mods, c⟩ :: pieces none s

/-- The conversions among the pieces. -/
def specs : List Piece → List Spec
  | [] => []
  | .spec sp :: ps => sp :: specs ps
  | _ :: ps => specs ps

/-- Flags, a width and a precision of at most two digits, and a letter. -/
def Spec.wellFormed (sp : Spec) : Bool :=
  let size := sp.mods.dropWhile isFlag
  let precision := size.dropWhile Char.isDigit
  decide ((size.takeWhile Char.isDigit).length ≤ 2) && precision.head?.all (· == '.') &&
    decide (precision.length ≤ 3) && precision.tail.all Char.isDigit && sp.conv.isAlpha

/-- The piece can stem from a format string: what is literal is no percent sign, and before a
conversion character there are modifiers only. -/
def Piece.IsRead : Piece → Prop
  | literal c => c ≠ '%'
  | percent => True
  | spec sp => ∀ c ∈ sp.mods, isModifier c = true
  | unfinished mods => ∀ c ∈ mods, isModifier c = true

@[simp] theorem specs_append (ps qs : List Piece) : specs (ps ++ qs) = specs ps ++ specs qs := by
  induction ps with
  | nil => rfl
  | cons p ps ih =>
      cases p with
      | spec sp => simp only [List.cons_append, specs, ih]
      | _ => simpa only [List.cons_append, specs] using ih

/-- What has been read of a conversion, with its percent sign. -/
def begun : Option Str → Str
  | none => []
  | some mods => '%' :: mods

/-- **The pieces are all of the format string.** -/
theorem flatMap_text (mods : Option Str) (s : Str) :
    (pieces mods s).flatMap Piece.text = begun mods ++ s := by
  induction s generalizing mods with
  | nil =>
      cases mods with
      | none => rfl
      | some mods => simp [pieces, begun, Piece.text]
  | cons c s ih =>
      cases mods with
      | none =>
          by_cases hc : c = '%'
          · rw [pieces, if_pos hc, ih, hc]
            rfl
          · rw [pieces, if_neg hc, List.flatMap_cons, ih]
            rfl
      | some mods =>
          rw [pieces]
          split_ifs with hmod hpercent
          · rw [ih]
            simp [begun]
          · obtain ⟨rfl, rfl⟩ := hpercent
            rw [List.flatMap_cons, ih]
            rfl
          · rw [List.flatMap_cons, ih]
            simp [begun, Piece.text, Spec.text]

theorem isRead_of_mem {mods : Option Str}
    (hmods : ∀ t, mods = some t → ∀ c ∈ t, isModifier c = true) {s : Str} :
    ∀ p ∈ pieces mods s, p.IsRead := by
  induction s generalizing mods with
  | nil =>
      cases mods with
      | none => simp [pieces]
      | some mods => simpa [pieces, Piece.IsRead] using hmods mods rfl
  | cons c s ih =>
      cases mods with
      | none =>
          rw [pieces]
          split_ifs with hc
          · exact ih (by simp)
          · intro p hp
            rcases List.mem_cons.mp hp with rfl | hp
            · exact hc
            · exact ih (by simp) p hp
      | some mods =>
          rw [pieces]
          split_ifs with hmod hpercent
          · refine ih fun t ht x hx => ?_
            obtain rfl := Option.some.inj ht
            rcases List.mem_append.mp hx with hx | hx
            · exact hmods mods rfl x hx
            · rwa [List.mem_singleton.mp hx]
          · intro p hp
            rcases List.mem_cons.mp hp with rfl | hp
            · trivial
            · exact ih (by simp) p hp
          · intro p hp
            rcases List.mem_cons.mp hp with rfl | hp
            · exact hmods mods rfl
            · exact ih (by simp) p hp

/-! ## The interpreter -/

variable {F U : Type}

@[simp] theorem ok_bind {ε α β : Type} (a : α) (f : α → Except ε β) : (.ok a >>= f) = f a := rfl

@[simp] theorem error_bind {ε α β : Type} (err : ε) (f : α → Except ε β) :
    (.error err >>= f) = .error err := rfl

theorem bind_eq_ok {ε α β : Type} {x : Except ε α} {f : α → Except ε β} {b : β} :
    (x >>= f) = .ok b ↔ ∃ a, x = .ok a ∧ f a = .ok b := by
  cases x with
  | error err => simp
  | ok a => simp

/-- `argv[i]`. -/
def index (argv : List (Value F U)) (i : Nat) : Value F U := argv.getD (i - 1) .nil

/-- `argv[i] = v`. -/
def assign (argv : List (Value F U)) (i : Nat) (v : Value F U) : List (Value F U) :=
  if i - 1 < argv.length then argv.set (i - 1) v
  else argv ++ List.replicate (i - 1 - argv.length) .nil ++ [v]

/-- What is used of the interpreter.  `tostring` gives a string or raises an error, `border` is the
length operator, which finds some border in a table with holes, and `convert` is what
`string.format` makes of a value that a conversion gets.  It raises `rejected` for a conversion
that is not accepted or gets no value.  `position` is what `error` puts in front of a message at
a level.  A string is its own `tostring`, and a numeral is accepted where a number is expected. -/
structure Lua (F U : Type) where
  tostring : Value F U → Except (Value F U) Str
  border : List (Value F U) → Nat
  accepts : Spec → Bool
  convert : Spec → Value F U → Except (Value F U) Str
  rejected : Str → Option (Value F U) → Value F U
  position : Nat → Str
  tostring_string : ∀ t, tostring (.string t) = .ok t
  border_last : ∀ argv, border argv ≠ 0 → index argv (border argv) ≠ .nil
  border_next : ∀ argv, index argv (border argv + 1) = .nil
  grammar : ∀ sp, accepts sp = true → sp.wellFormed = true
  numeral : ∀ sp, accepts sp = true → ∃ x, convert sp (.string ['0']) = .ok x

@[simp] theorem index_append (pre post : List (Value F U)) (v : Value F U) :
    index (pre ++ v :: post) (pre.length + 1) = v := by
  simp [index]

@[simp] theorem assign_append (pre post : List (Value F U)) (v w : Value F U) :
    assign (pre ++ v :: post) (pre.length + 1) w = pre ++ w :: post := by
  simp [assign]

theorem map_eq_ok {ε α β : Type} {x : Except ε α} {f : α → β} {b : β} :
    x.map f = .ok b ↔ ∃ a, x = .ok a ∧ f a = b := by
  cases x with
  | error err => simp [Except.map]
  | ok a => simp [Except.map]

namespace Lua

variable (L : Lua F U)

/-- What `string.format` makes of the pieces. -/
def formatPieces : List Piece → List (Value F U) → Except (Value F U) Str
  | [], _ => return []
  | .literal c :: ps, args => do
    let rest ← formatPieces ps args
    return c :: rest
  | .percent :: ps, args => do
    let rest ← formatPieces ps args
    return '%' :: rest
  | .spec sp :: _, [] => .error (L.rejected sp.text none)
  | .spec sp :: ps, v :: args =>
    if L.accepts sp then do
      let text ← L.convert sp v
      let rest ← formatPieces ps args
      return text ++ rest
    else .error (L.rejected sp.text (some v))
  | .unfinished mods :: _, args => .error (L.rejected ('%' :: mods) args.head?)

/-- `string.format(s, ...)`. -/
def format : Value F U → List (Value F U) → Except (Value F U) Str
  | .string s, args => L.formatPieces (pieces none s) args
  | v, _ => .error (L.rejected [] (some v))

/-- A piece that `string.format` accepts. -/
def acceptsPiece : Piece → Bool
  | .spec sp => L.accepts sp
  | .unfinished _ => false
  | _ => true

/-- `string.format` accepts the format string. -/
def Accepts (s : Str) : Prop := ∀ p ∈ pieces none s, L.acceptsPiece p = true

variable {L}

theorem format_string (s : Str) (args : List (Value F U)) :
    L.format (.string s) args = L.formatPieces (pieces none s) args := rfl

/-- The length of a table without holes. -/
theorem border_full {argv : List (Value F U)} (h : ∀ v ∈ argv, v ≠ .nil) :
    L.border argv = argv.length := by
  rcases Nat.lt_trichotomy (L.border argv) argv.length with hlt | heq | hgt
  · have hnil := L.border_next argv
    rw [index, Nat.add_sub_cancel, List.getD_eq_getElem _ _ hlt] at hnil
    exact absurd hnil (h _ (List.getElem_mem hlt))
  · exact heq
  · refine absurd ?_ (L.border_last argv (by omega))
    rw [index, List.getD_eq_default _ _ (by omega)]

/-- The text of a conversion and its argument. -/
theorem formatPieces_spec {sp : Spec} {ps : List Piece} {v : Value F U}
    {args : List (Value F U)} {head : Str} :
    L.formatPieces (.spec sp :: ps) (v :: args) = .ok head ↔
      L.accepts sp = true ∧ ∃ x rest, L.convert sp v = .ok x ∧ L.formatPieces ps args = .ok rest ∧
        x ++ rest = head := by
  rw [formatPieces]
  split_ifs with haccepts
  · constructor
    · intro h
      obtain ⟨x, hx, h⟩ := bind_eq_ok.mp h
      obtain ⟨rest, hrest, h⟩ := bind_eq_ok.mp h
      exact ⟨haccepts, x, rest, hx, hrest, Except.ok.inj h⟩
    · rintro ⟨_, x, rest, hx, hrest, rfl⟩
      rw [hx, ok_bind, hrest]
      rfl
  · simp [haccepts]

/-- **The text is composed piece by piece.** -/
theorem formatPieces_append {ps qs : List Piece} {args args' : List (Value F U)}
    (hps : ∀ p ∈ ps, L.acceptsPiece p = true) (h : args.length = (specs ps).length) :
    L.formatPieces (ps ++ qs) (args ++ args') = (do
      let text ← L.formatPieces ps args
      let rest ← L.formatPieces qs args'
      return text ++ rest) := by
  induction ps generalizing args with
  | nil =>
      obtain rfl := List.length_eq_zero_iff.mp h
      simp [formatPieces]
  | cons p ps ih =>
      have hps' : ∀ p ∈ ps, L.acceptsPiece p = true := fun q hq => hps q (by simp [hq])
      cases p with
      | literal c => simp [formatPieces, ih hps' h]
      | percent => simp [formatPieces, ih hps' h]
      | spec sp =>
          cases args with
          | nil => cases h
          | cons v args =>
              have haccepts : L.accepts sp = true := hps (.spec sp) (by simp)
              simp only [List.cons_append, formatPieces, ih hps' (Nat.succ.inj h), haccepts,
                if_true, bind_assoc, pure_bind, List.append_assoc]
      | unfinished mods => cases hps (.unfinished mods) (by simp)

end Lua

end Testcase
