import Mathlib.Data.List.DropRight
import LuaTestcase.Lua.String

/-!
# Lua patterns

The matcher of the string library, for patterns that are sequences of single-byte items.  An item
is a class of bytes and a repetition; a greedy item tries its longest run first and gives bytes
back one by one until the rest of the pattern matches, a lazy one starts with the empty run.  A
match is the list of the segments its items took, so a capture around an item is a segment.

* `maxExpand_eq` — **a greedy item takes its whole run** when the rest of the pattern cannot start
  with a byte of the run.
* `matchItems_split` — the segments are the beginning of the subject.
* `matchItems_length`, `matchItems_head` — how long a match is at least, and what it starts with.
* `findFrom_none`, `findFrom_skip`, `findFrom_head` — the search for the first match.
-/

namespace Testcase

/-! ## Items -/

/-- How often an item is repeated: once, `*`, `+`, `-` or `?`. -/
inductive Rep where
  | one
  | star
  | plus
  | minus
  | opt
deriving DecidableEq

/-- A single-byte item. -/
structure PatternItem where
  cls : Char → Bool
  rep : Rep

/-- A pattern without its anchors. -/
abbrev Pattern := List PatternItem

/-- `%s`: what `isspace` accepts in the C locale. -/
def isSpace (c : Char) : Bool := c == ' ' || (9 ≤ c.toNat && c.toNat ≤ 13)

/-- `%s*`. -/
def spaces : Pattern := [⟨isSpace, .star⟩]

/-- `%s+`. -/
def spaces1 : Pattern := [⟨isSpace, .plus⟩]

/-- Plain characters. -/
def literal (s : Str) : Pattern := s.map fun c => ⟨(· == c), .one⟩

/-! ## The matcher -/

section Matcher

variable {α : Type}

/-- `max_expand`: the longest run for which the rest of the pattern matches. -/
def maxExpand (cls : Char → Bool) (k : Str → Option α) : Str → Option (Str × α)
  | [] => (k []).map fun a => ([], a)
  | c :: s =>
      if cls c then
        match maxExpand cls k s with
        | some (seg, a) => some (c :: seg, a)
        | none => (k (c :: s)).map fun a => ([], a)
      else (k (c :: s)).map fun a => ([], a)

/-- `min_expand`: the shortest run for which the rest of the pattern matches. -/
def minExpand (cls : Char → Bool) (k : Str → Option α) : Str → Option (Str × α)
  | [] => (k []).map fun a => ([], a)
  | c :: s =>
      match k (c :: s) with
      | some a => some ([], a)
      | none =>
          if cls c then (minExpand cls k s).map fun r => (c :: r.1, r.2) else none

/-- One byte of the class, and then the rest of the pattern. -/
def single (cls : Char → Bool) (k : Str → Option α) : Str → Option (Str × α)
  | [] => none
  | c :: s => if cls c then (k s).map fun a => ([c], a) else none

/-- `+` is one byte and then `*`. -/
def plusExpand (cls : Char → Bool) (k : Str → Option α) : Str → Option (Str × α)
  | [] => none
  | c :: s => if cls c then (maxExpand cls k s).map fun r => (c :: r.1, r.2) else none

/-- `?` is one byte, if the rest of the pattern matches behind it, and else none. -/
def optExpand (cls : Char → Bool) (k : Str → Option α) : Str → Option (Str × α)
  | [] => (k []).map fun a => ([], a)
  | c :: s =>
      match single cls k (c :: s) with
      | some r => some r
      | none => (k (c :: s)).map fun a => ([], a)

/-- What an item takes, if the rest of the pattern matches behind it. -/
def PatternItem.expand (it : PatternItem) (k : Str → Option α) (s : Str) : Option (Str × α) :=
  match it.rep with
  | .one => single it.cls k s
  | .star => maxExpand it.cls k s
  | .plus => plusExpand it.cls k s
  | .minus => minExpand it.cls k s
  | .opt => optExpand it.cls k s

end Matcher

/-- The segments of a match at the beginning of the subject; `fin` is asked about what is left
behind it. -/
def matchItems (fin : Str → Bool) : Pattern → Str → Option (List Str)
  | [], s => if fin s then some [] else none
  | it :: p, s => (it.expand (matchItems fin p) s).map fun r => r.1 :: r.2

/-- `find(s, '^' .. p)`: the length of the match. -/
def findHead (s : Str) (p : Pattern) : Option Nat :=
  (matchItems (fun _ => true) p s).map fun segs => segs.flatten.length

/-- The search of `find` in the rest of a subject; `pos` is the index of its first byte. -/
def findFrom (p : Pattern) : Str → Nat → Option (Nat × Nat)
  | [], pos => (findHead [] p).map fun n => (pos, pos + n - 1)
  | c :: s, pos =>
      match findHead (c :: s) p with
      | some n => some (pos, pos + n - 1)
      | none => findFrom p s (pos + 1)

/-- `find(s, p, init)`, for a positive `init`: the indices of the first byte and the last byte of
the first match. -/
def find (s : Str) (p : Pattern) (init : Nat) : Option (Nat × Nat) :=
  findFrom p (s.drop (init - 1)) init

/-! ## What the items take -/

section Expand

variable {α : Type} {cls : Char → Bool} {k : Str → Option α}

/-- A greedy item takes its whole run if the rest of the pattern matches behind it. -/
theorem maxExpand_of_some {s : Str} {a : α} (h : k (s.dropWhile cls) = some a) :
    maxExpand cls k s = some (s.takeWhile cls, a) := by
  induction s with
  | nil =>
      simp only [List.dropWhile_nil] at h
      simp [maxExpand, h]
  | cons c s ih =>
      by_cases hc : cls c = true
      · rw [List.dropWhile_cons_of_pos hc] at h
        simp [maxExpand, hc, ih h]
      · rw [List.dropWhile_cons_of_neg hc] at h
        simp [maxExpand, hc, h]

/-- **A greedy item takes its whole run**, if the rest of the pattern cannot start in it. -/
theorem maxExpand_eq (hk : ∀ c s, cls c = true → k (c :: s) = none) (s : Str) :
    maxExpand cls k s = (k (s.dropWhile cls)).map fun a => (s.takeWhile cls, a) := by
  rcases h : k (s.dropWhile cls) with _ | a
  · induction s with
    | nil =>
        simp only [List.dropWhile_nil] at h
        simp [maxExpand, h]
    | cons c s ih =>
        by_cases hc : cls c = true
        · rw [List.dropWhile_cons_of_pos hc] at h
          simp only [Option.map_none] at ih ⊢
          simp [maxExpand, hc, ih h, hk c s hc]
        · rw [List.dropWhile_cons_of_neg hc] at h
          simp [maxExpand, hc, h]
  · exact maxExpand_of_some h

/-- What a greedy item takes, and where the rest of the pattern goes on. -/
theorem maxExpand_some {s seg : Str} {a : α} (h : maxExpand cls k s = some (seg, a)) :
    ∃ rest, s = seg ++ rest ∧ k rest = some a ∧ ∀ c ∈ seg, cls c = true := by
  induction s generalizing seg with
  | nil =>
      simp only [maxExpand, Option.map_eq_some_iff, Prod.mk.injEq] at h
      obtain ⟨a', hk, rfl, rfl⟩ := h
      exact ⟨[], rfl, hk, by simp⟩
  | cons c s ih =>
      have hshort : (k (c :: s)).map (fun a => (([] : Str), a)) = some (seg, a) →
          ∃ rest, c :: s = seg ++ rest ∧ k rest = some a ∧ ∀ c ∈ seg, cls c = true := by
        intro hmap
        simp only [Option.map_eq_some_iff, Prod.mk.injEq] at hmap
        obtain ⟨a', hk, rfl, rfl⟩ := hmap
        exact ⟨c :: s, rfl, hk, by simp⟩
      by_cases hc : cls c = true
      · rcases hrest : maxExpand cls k s with _ | ⟨seg', a'⟩
        · simp only [maxExpand, hc, if_true, hrest] at h
          exact hshort h
        · simp only [maxExpand, hc, if_true, hrest, Option.some.injEq, Prod.mk.injEq] at h
          obtain ⟨rfl, rfl⟩ := h
          obtain ⟨rest, rfl, hk, hseg⟩ := ih hrest
          exact ⟨rest, rfl, hk, by simpa [hc] using hseg⟩
      · simp only [maxExpand, hc] at h
        exact hshort h

theorem minExpand_some {s seg : Str} {a : α} (h : minExpand cls k s = some (seg, a)) :
    ∃ rest, s = seg ++ rest ∧ k rest = some a ∧ ∀ c ∈ seg, cls c = true := by
  induction s generalizing seg with
  | nil =>
      simp only [minExpand, Option.map_eq_some_iff, Prod.mk.injEq] at h
      obtain ⟨a', hk, rfl, rfl⟩ := h
      exact ⟨[], rfl, hk, by simp⟩
  | cons c s ih =>
      rcases hk : k (c :: s) with _ | a'
      · by_cases hc : cls c = true
        · simp only [minExpand, hk, hc, if_true, Option.map_eq_some_iff, Prod.mk.injEq] at h
          obtain ⟨⟨seg', a'⟩, hrest, rfl, rfl⟩ := h
          obtain ⟨rest, rfl, hk, hseg⟩ := ih hrest
          exact ⟨rest, rfl, hk, by simpa [hc] using hseg⟩
        · simp [minExpand, hk, hc] at h
      · simp only [minExpand, hk, Option.some.injEq, Prod.mk.injEq] at h
        obtain ⟨rfl, rfl⟩ := h
        exact ⟨c :: s, rfl, hk, by simp⟩

theorem optExpand_some {s seg : Str} {a : α} (h : optExpand cls k s = some (seg, a)) :
    ∃ rest, s = seg ++ rest ∧ k rest = some a ∧ ∀ c ∈ seg, cls c = true := by
  have hshort : (k s).map (fun a => (([] : Str), a)) = some (seg, a) →
      ∃ rest, s = seg ++ rest ∧ k rest = some a ∧ ∀ c ∈ seg, cls c = true := by
    intro hmap
    simp only [Option.map_eq_some_iff, Prod.mk.injEq] at hmap
    obtain ⟨a', hk, rfl, rfl⟩ := hmap
    exact ⟨s, rfl, hk, by simp⟩
  cases s with
  | nil => exact hshort h
  | cons c s =>
      rcases hone : single cls k (c :: s) with _ | ⟨seg', a'⟩
      · simp only [optExpand, hone] at h
        exact hshort h
      · simp only [optExpand, hone, Option.some.injEq, Prod.mk.injEq] at h
        obtain ⟨rfl, rfl⟩ := h
        by_cases hc : cls c = true
        · simp only [single, hc, if_true, Option.map_eq_some_iff, Prod.mk.injEq] at hone
          obtain ⟨a', hk, rfl, rfl⟩ := hone
          exact ⟨s, rfl, hk, by simpa using hc⟩
        · simp [single, hc] at hone

/-- What an item takes: bytes of its class, and at least as many as it asks for. -/
theorem PatternItem.expand_some {it : PatternItem} {s seg : Str} {a : α}
    (h : it.expand k s = some (seg, a)) :
    ∃ rest, s = seg ++ rest ∧ k rest = some a ∧ (∀ c ∈ seg, it.cls c = true) ∧
      (it.rep = .one ∨ it.rep = .plus → seg ≠ []) := by
  rcases it with ⟨cls, rep⟩
  cases rep with
  | one =>
      cases s with
      | nil => simp [expand, single] at h
      | cons c s =>
          by_cases hc : cls c = true
          · simp only [expand, single, hc, if_true, Option.map_eq_some_iff, Prod.mk.injEq] at h
            obtain ⟨a', hk, rfl, rfl⟩ := h
            exact ⟨s, rfl, hk, by simpa using hc, by simp⟩
          · simp [expand, single, hc] at h
  | star =>
      obtain ⟨rest, hs, hk, hseg⟩ := maxExpand_some h
      exact ⟨rest, hs, hk, hseg, by simp⟩
  | plus =>
      cases s with
      | nil => simp [expand, plusExpand] at h
      | cons c s =>
          by_cases hc : cls c = true
          · simp only [expand, plusExpand, hc, if_true, Option.map_eq_some_iff,
              Prod.mk.injEq] at h
            obtain ⟨⟨seg', a'⟩, hrest, rfl, rfl⟩ := h
            obtain ⟨rest, rfl, hk, hseg⟩ := maxExpand_some hrest
            exact ⟨rest, rfl, hk, by simpa [hc] using hseg, by simp⟩
          · simp [expand, plusExpand, hc] at h
  | minus =>
      obtain ⟨rest, hs, hk, hseg⟩ := minExpand_some h
      exact ⟨rest, hs, hk, hseg, by simp⟩
  | opt =>
      obtain ⟨rest, hs, hk, hseg⟩ := optExpand_some h
      exact ⟨rest, hs, hk, hseg, by simp⟩

/-- A lazy item takes as little as it can. -/
theorem minExpand_eq {taken rest : Str} {a : α} (htaken : ∀ c ∈ taken, cls c = true)
    (hshort : ∀ t, t ≠ [] → t <:+ taken → k (t ++ rest) = none) (hk : k rest = some a) :
    minExpand cls k (taken ++ rest) = some (taken, a) := by
  induction taken with
  | nil =>
      cases rest with
      | nil => simp [minExpand, hk]
      | cons c rest => simp [minExpand, hk]
  | cons c taken ih =>
      have hnone : k (c :: (taken ++ rest)) = none :=
        hshort (c :: taken) (by simp) (List.suffix_refl _)
      have htail := ih (fun d hd => htaken d (by simp [hd])) fun t hne ht =>
        hshort t hne (ht.trans (List.suffix_cons c taken))
      simp [minExpand, hnone, htaken c (by simp), htail]

end Expand

/-! ## What a pattern matches -/

section Match

variable {fin : Str → Bool} {p : Pattern} {s : Str} {segs : List Str}

/-- The segments of a match are the beginning of the subject. -/
theorem matchItems_split (h : matchItems fin p s = some segs) :
    ∃ rest, s = segs.flatten ++ rest ∧ fin rest = true := by
  induction p generalizing s segs with
  | nil =>
      by_cases hfin : fin s = true
      · simp only [matchItems, hfin, if_true, Option.some.injEq] at h
        subst h
        exact ⟨s, rfl, hfin⟩
      · simp [matchItems, hfin] at h
  | cons it p ih =>
      simp only [matchItems, Option.map_eq_some_iff] at h
      obtain ⟨⟨seg, segs'⟩, hseg, rfl⟩ := h
      obtain ⟨rest, rfl, hrest, _⟩ := PatternItem.expand_some hseg
      obtain ⟨rest', rfl, hfin⟩ := ih hrest
      exact ⟨rest', by simp, hfin⟩

/-- A match is at least as long as the number of its items that take a byte. -/
theorem matchItems_length (h : matchItems fin p s = some segs) :
    p.countP (fun it => it.rep == .one || it.rep == .plus) ≤ segs.flatten.length := by
  induction p generalizing s segs with
  | nil => simp
  | cons it p ih =>
      simp only [matchItems, Option.map_eq_some_iff] at h
      obtain ⟨⟨seg, segs'⟩, hseg, rfl⟩ := h
      obtain ⟨rest, _, hrest, _, hpos⟩ := PatternItem.expand_some hseg
      have hle := ih hrest
      rw [List.countP_cons, List.flatten_cons, List.length_append]
      by_cases hit : (it.rep == .one || it.rep == .plus) = true
      · have hne := hpos (by simpa using hit)
        have hlen := List.length_pos_iff.mpr hne
        simp only [hit, if_true]
        omega
      · simp only [hit]
        simp only [Bool.false_eq_true, if_false]
        omega

/-- What stands behind the leading white space of a match that starts with `%s*` and then takes a
byte. -/
theorem matchItems_head {it : PatternItem} (hrep : it.rep = .one ∨ it.rep = .plus)
    (hcls : ∀ c, it.cls c = true → isSpace c = false)
    (h : matchItems fin (⟨isSpace, .star⟩ :: it :: p) s = some segs) :
    ∃ c, (s.dropWhile isSpace).head? = some c ∧ it.cls c = true := by
  simp only [matchItems, Option.map_eq_some_iff] at h
  obtain ⟨⟨seg, segs'⟩, hseg, rfl⟩ := h
  obtain ⟨rest, rfl, hrest, hspace, _⟩ := PatternItem.expand_some hseg
  simp only [Option.map_eq_some_iff] at hrest
  obtain ⟨⟨seg', segs''⟩, hseg', _⟩ := hrest
  obtain ⟨rest', rfl, _, hin, hne⟩ := PatternItem.expand_some hseg'
  cases seg' with
  | nil => exact absurd rfl (hne hrep)
  | cons c seg' =>
      have hc := hin c (by simp)
      refine ⟨c, ?_, hc⟩
      rw [List.dropWhile_append_of_pos hspace, List.cons_append,
        List.dropWhile_cons_of_neg (by simp [hcls c hc])]
      rfl

/-- The length that `find` reports is that of a beginning of the subject. -/
theorem findHead_le {n : Nat} (h : findHead s p = some n) : n ≤ s.length := by
  simp only [findHead, Option.map_eq_some_iff] at h
  obtain ⟨segs, hmatch, rfl⟩ := h
  obtain ⟨rest, hs, _⟩ := matchItems_split hmatch
  rw [hs]
  simp

end Match

/-! ## The search -/

section Search

variable {p : Pattern} {s : Str}

/-- Nothing is found if the pattern matches nowhere. -/
theorem findFrom_none (h : ∀ t, t <:+ s → findHead t p = none) (pos : Nat) :
    findFrom p s pos = none := by
  induction s generalizing pos with
  | nil => simp [findFrom, h [] (List.suffix_refl [])]
  | cons c s ih =>
      have hhere : findHead (c :: s) p = none := h (c :: s) (List.suffix_refl _)
      have hthere := ih (fun t ht => h t (ht.trans (List.suffix_cons c s))) (pos + 1)
      simp [findFrom, hhere, hthere]

/-- The search passes over a part at none of whose bytes the pattern matches. -/
theorem findFrom_skip {skip : Str}
    (h : ∀ t, t ≠ [] → t <:+ skip → findHead (t ++ s) p = none) (pos : Nat) :
    findFrom p (skip ++ s) pos = findFrom p s (pos + skip.length) := by
  induction skip generalizing pos with
  | nil => rfl
  | cons c skip ih =>
      have hhere : findHead (c :: (skip ++ s)) p = none :=
        h (c :: skip) (by simp) (List.suffix_refl _)
      rw [List.cons_append, findFrom, hhere]
      simp only
      rw [ih (fun t hne ht => h t hne (ht.trans (List.suffix_cons c skip))), List.length_cons,
        Nat.add_assoc, Nat.add_comm 1]

/-- A match at the first byte is found. -/
theorem findFrom_head {n : Nat} (h : findHead s p = some n) (pos : Nat) :
    findFrom p s pos = some (pos, pos + n - 1) := by
  cases s with
  | nil => simp [findFrom, h]
  | cons c s => simp [findFrom, h]

end Search

end Testcase
