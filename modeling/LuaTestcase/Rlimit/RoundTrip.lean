import LuaTestcase.Core.Casts
import LuaTestcase.Rlimit.Setting

/-!
# Limits that are read and restored

What `rlimit` reports of the limits can be passed back to it.  A limit from `2 ^ 63` on that is not
infinity has no Lua integer: a negative one is reported for it, which is not accepted, or stands for
infinity.

* `limits_roundTrip` — **limits are reported exactly, and restored exactly, if and only if each is
  infinity or below `2 ^ 63`**.
-/

namespace Testcase

section RoundTrip

variable {F U : Type} (P : LimitPlatform) (lib : CLib F U)

/-- The integer is `-1` exactly for infinity, and otherwise the limit itself. -/
structure StandsFor (v : Int64) (limit : UInt64) : Prop where
  infinity : v = -1 ↔ limit = P.RLIM_INFINITY
  finite : limit ≠ P.RLIM_INFINITY → v.toInt = limit.toNat

/-- The limit has a Lua integer. -/
def Reportable (limit : UInt64) : Prop := limit = P.RLIM_INFINITY ∨ limit.toNat < 2 ^ 63

/-- The limits `s` of a resource round-trip: they are reported as they are, and whatever the kernel
and the limits are later, what was reported is accepted, and asks for exactly these limits. -/
structure RoundTrips (K : LimitKernel) (s : Limits) (name : Str) (resource : Int32) : Prop where
  reads : ∃ cur max, (K.rlimit P lib [.string name] s).result = .table name cur max ∧
    StandsFor P cur (s resource).cur ∧ StandsFor P max (s resource).max
  restores : ∀ cur max, (K.rlimit P lib [.string name] s).result = .table name cur max →
    ∀ (K' : LimitKernel) (s' : Limits), K'.gets resource = none →
      let out := K'.rlimit P lib [.string name, .integer cur.toInt, .integer max.toInt] s'
      (∀ e, out.result ≠ .raised e) ∧
        setsOf out = if s' resource = s resource then [] else [(resource, s resource)]

variable {P lib}

/-! ## One limit -/

theorem standsFor_reported {limit : UInt64} :
    StandsFor P (P.reported limit) limit ↔ Reportable P limit := by
  rw [LimitPlatform.reported]
  by_cases hinf : limit = P.RLIM_INFINITY
  · rw [if_pos hinf]
    exact iff_of_true ⟨by simp [hinf], fun h => absurd hinf h⟩ (.inl hinf)
  · rw [if_neg hinf]
    constructor
    · intro h
      exact .inr ((toInt64_exact limit).mp (h.finite hinf))
    · rintro (h | hlt)
      · exact absurd h hinf
      · have hint := (toInt64_exact limit).mpr hlt
        refine ⟨iff_of_false ?_ hinf, fun _ => hint⟩
        intro hminus
        rw [hminus] at hint
        have : (-1 : Int64).toInt = -1 := rfl
        omega

/-- What is reported of a limit is accepted, and stands for it. -/
theorem limitOf_reported {limit : UInt64} (h : Reportable P limit) :
    -1 ≤ P.reported limit ∧ P.limitOf (P.reported limit) = limit := by
  rw [LimitPlatform.reported]
  by_cases hinf : limit = P.RLIM_INFINITY
  · rw [if_pos hinf]
    exact ⟨Int64.le_refl _, by rw [LimitPlatform.limitOf, if_pos rfl, hinf]⟩
  · rw [if_neg hinf]
    have hint := (toInt64_exact limit).mpr (h.resolve_left hinf)
    have hone : (-1 : Int64).toInt = -1 := rfl
    have hne : limit.toInt64 ≠ -1 := by
      intro hminus
      rw [hminus] at hint
      omega
    refine ⟨?_, ?_⟩
    · rw [Int64.le_iff_toInt_le, hint, hone]
      omega
    · rw [LimitPlatform.limitOf, if_neg hne]
      rfl

/-- So it asks for the limit. -/
theorem asksFor_reported {args : List (Value F U)} {idx : Nat} {limit : UInt64}
    (h : Reportable P limit) (harg : argument args idx = some (.integer (P.reported limit).toInt))
    (old : UInt64) : AsksFor P lib args idx old limit := by
  obtain ⟨hle, hlimit⟩ := limitOf_reported h
  refine .inr ⟨?_, _, checkinteger_integer lib harg, hle, hlimit.symm⟩
  rw [isnoneornil, harg]
  rfl

/-! ## Both limits -/

variable {K : LimitKernel} {s : Limits} {name : Str} {resource : Int32}

/-- The names are C strings. -/
theorem cstr_resource : ∀ name ∈ RESOURCE_NAMES, cstr name = name := by decide

theorem namesResource (hname : name ∈ RESOURCE_NAMES) (hconstant : P.constant name = some resource)
    (rest : List (Value F U)) : NamesResource P lib (.string name :: rest) name resource :=
  ⟨congrArg Except.ok (cstr_resource name hname), hname, hconstant⟩

/-- What a call without limits returns. -/
theorem rlimit_reads (hname : name ∈ RESOURCE_NAMES) (hconstant : P.constant name = some resource)
    (hget : K.gets resource = none) :
    (K.rlimit P lib [.string name] s).result = limitTable P name (s resource) :=
  ((limitCourse_rlimit P lib [.string name] K s).allOrNothing.present name resource
    ⟨namesResource hname hconstant [], hget, ⟨.inl ⟨rfl, rfl⟩, .inl ⟨rfl, rfl⟩⟩, .inl le_rfl⟩).1

/-- A call that asks for certain limits requests them, unless they are there. -/
theorem setsOf_accepted {args : List (Value F U)} {rl : RLimit}
    (h : LimitAccepted P lib args K s name resource rl) :
    (∀ e, (K.rlimit P lib args s).result ≠ .raised e) ∧
      setsOf (K.rlimit P lib args s) = if s resource = rl then [] else [(resource, rl)] := by
  cases limitCourse_rlimit P lib args K s with
  | early _ _ _ hno => exact absurd h (hno _ _ _)
  | found _ hset hresult hacc =>
      obtain ⟨rfl, rfl, rfl⟩ := h.unique hacc
      rw [hresult, hset, if_pos rfl]
      exact ⟨(fun e he => nomatch he), rfl⟩
  | refused _ hset hresult hacc hne =>
      obtain ⟨rfl, rfl, rfl⟩ := h.unique hacc
      rw [hresult, hset, if_neg (Ne.symm hne)]
      exact ⟨(fun e he => nomatch he), rfl⟩
  | applied _ hset hresult hacc hne _ =>
      obtain ⟨rfl, rfl, rfl⟩ := h.unique hacc
      rw [hresult, hset, if_neg (Ne.symm hne)]
      exact ⟨(fun e he => nomatch he), rfl⟩

/-- **Limits round-trip** if and only if they have a Lua integer. -/
theorem limits_roundTrip (hname : name ∈ RESOURCE_NAMES)
    (hconstant : P.constant name = some resource) (hget : K.gets resource = none) :
    RoundTrips P lib K s name resource ↔
      Reportable P (s resource).cur ∧ Reportable P (s resource).max := by
  have hreads : (K.rlimit P lib [.string name] s).result = limitTable P name (s resource) :=
    rlimit_reads hname hconstant hget
  constructor
  · rintro ⟨⟨cur, max, hresult, hcur, hmax⟩, -⟩
    rw [hreads] at hresult
    cases hresult
    exact ⟨standsFor_reported.mp hcur, standsFor_reported.mp hmax⟩
  · rintro ⟨hcur, hmax⟩
    refine ⟨⟨_, _, hreads, standsFor_reported.mpr hcur, standsFor_reported.mpr hmax⟩, ?_⟩
    intro cur max hresult K' s' hget'
    rw [hreads] at hresult
    cases hresult
    exact setsOf_accepted ⟨namesResource hname hconstant _, hget',
      ⟨asksFor_reported hcur rfl _, asksFor_reported hmax rfl _⟩, .inr (.inl rfl)⟩

end RoundTrip

/-- Linux, with one resource. -/
def fsizeOnly : LimitPlatform where
  RLIM_INFINITY := 18446744073709551615
  constant name := if name = "fsize".toList then some 1 else none

/-- A kernel that applies what it is asked for. -/
def obedient : LimitKernel where
  gets _ := none
  sets _ _ rl := .ok rl

theorem fsize_roundTrip :
    RoundTrips fsizeOnly plainC obedient (fun _ => ⟨1024, 18446744073709551615⟩)
        "fsize".toList 1 ↔
      Reportable fsizeOnly 1024 ∧ Reportable fsizeOnly 18446744073709551615 :=
  limits_roundTrip (by decide) (by decide) rfl

/-- A limit of `2 ^ 63`, and what is reported of it. -/
theorem huge_limit :
    (obedient.rlimit fsizeOnly plainC [.string "fsize".toList]
        (fun _ => ⟨1024, 9223372036854775808⟩)).result =
      .table "fsize".toList 1024 (-9223372036854775808) ∧
      (∃ e, (obedient.rlimit fsizeOnly plainC
        [.string "fsize".toList, .integer 1024, .integer (-9223372036854775808)]
        (fun _ => ⟨1024, 9223372036854775808⟩)).result = .raised e) ∧
      ¬RoundTrips fsizeOnly plainC obedient (fun _ => ⟨1024, 9223372036854775808⟩)
        "fsize".toList 1 := by
  refine ⟨by decide, ⟨_, rfl⟩, ?_⟩
  rintro ⟨⟨cur, max, hresult, -, hmax⟩, -⟩
  cases hresult
  exact absurd (hmax.finite (by decide)) (by decide)

end Testcase
