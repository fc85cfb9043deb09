import LuaTestcase.Rlimit.Def

/-!
# Setting limits is all or nothing

A call of `rlimit` takes one of four courses (`LimitCourse`): it ends early, before anything was
set; it finds the limits as they are wanted; the kernel refuses the wanted limits; or it applies
them.

* `limitCourse_rlimit` — **there is no other course**.
* `all_or_nothing` — so nothing is changed halfway, and what was not asked for stays as it is.
-/

namespace Testcase

section Setting

variable {F U : Type} (P : LimitPlatform) (lib : CLib F U) (args : List (Value F U))

/-! ## What is asked for -/

/-- The limit that an integer stands for. -/
def LimitPlatform.limitOf (n : Int64) : UInt64 := if n = -1 then P.RLIM_INFINITY else n.toUInt64

/-- The argument names a resource that the platform has. -/
def NamesResource (name : Str) (resource : Int32) : Prop :=
  (checkstring lib args 1).map cstr = .ok name ∧ name ∈ RESOURCE_NAMES ∧
    P.constant name = some resource

/-- The argument asks for the limit; if it is omitted or `nil`, for the old one. -/
def AsksFor (idx : Nat) (old limit : UInt64) : Prop :=
  (isnoneornil args idx = true ∧ limit = old) ∨
    isnoneornil args idx = false ∧
      ∃ n, checkinteger lib args idx = .ok n ∧ -1 ≤ n ∧ limit = P.limitOf n

/-- Both limits are asked for. -/
def Wants (old rl : RLimit) : Prop :=
  AsksFor P lib args 2 old.cur rl.cur ∧ AsksFor P lib args 3 old.max rl.max

/-- The call sets limits, and does not only read them. -/
def Sets : Prop := isnoneornil args 2 = false ∨ isnoneornil args 3 = false

variable {P lib args}

theorem checkLimit_eq_ok {idx : Nat} {resname field : Str} {o : Option UInt64} :
    checkLimit P lib args idx resname field = .ok o ↔
      (isnoneornil args idx = true ∧ o = none) ∨
        isnoneornil args idx = false ∧
          ∃ n, checkinteger lib args idx = .ok n ∧ -1 ≤ n ∧ o = some (P.limitOf n) := by
  rw [checkLimit]
  rcases hnone : isnoneornil args idx with _ | _
  · rcases hn : checkinteger lib args idx with e | n
    · simp
    · rcases Int64.lt_or_le n (-1) with hlt | hle
      · have hno : ¬-1 ≤ n := Int64.not_le.mpr hlt
        simp [hlt, hno]
      · have hno : ¬n < -1 := Int64.not_lt.mpr hle
        by_cases hminus : n = -1
        · simp [hminus, LimitPlatform.limitOf, eq_comm]
        · simp [hminus, hno, hle, LimitPlatform.limitOf, eq_comm]
  · simp [eq_comm]

/-- An accepted argument is what is asked for. -/
theorem asksFor_of_checkLimit {idx : Nat} {resname field : Str} {o : Option UInt64}
    (h : checkLimit P lib args idx resname field = .ok o) (old : UInt64) :
    AsksFor P lib args idx old (o.getD old) := by
  rcases checkLimit_eq_ok.mp h with ⟨hnone, rfl⟩ | ⟨hsome, n, hn, hle, rfl⟩
  · exact .inl ⟨hnone, rfl⟩
  · exact .inr ⟨hsome, n, hn, hle, rfl⟩

/-- What is asked for is accepted. -/
theorem AsksFor.checkLimit {idx : Nat} {old limit : UInt64} (h : AsksFor P lib args idx old limit)
    (resname field : Str) :
    ∃ o, checkLimit P lib args idx resname field = .ok o ∧ o.getD old = limit := by
  rcases h with ⟨hnone, rfl⟩ | ⟨hsome, n, hn, hle, rfl⟩
  · exact ⟨none, checkLimit_eq_ok.mpr (.inl ⟨hnone, rfl⟩), rfl⟩
  · exact ⟨some _, checkLimit_eq_ok.mpr (.inr ⟨hsome, n, hn, hle, rfl⟩), rfl⟩

/-- A limit that is not specified was omitted. -/
theorem specified_iff {idx : Nat} {resname field : Str} {o : Option UInt64}
    (h : checkLimit P lib args idx resname field = .ok o) :
    o = none ↔ isnoneornil args idx = true := by
  rcases checkLimit_eq_ok.mp h with ⟨hnone, rfl⟩ | ⟨hsome, n, -, -, rfl⟩
  · simp [hnone]
  · simp [hsome]

theorem checkRtype_eq_ok {name : Str} {resource : Int32} :
    checkRtype P lib args = .ok (name, some resource) ↔
      NamesResource P lib args name resource := by
  rw [checkRtype, checkoption, NamesResource]
  dsimp only
  rcases hname : checkstring lib args 1 with e | given
  · refine iff_of_false (by simp) ?_
    rintro ⟨hgiven, -⟩
    cases hgiven
  · dsimp only
    rcases hi : optionAt 1 RESOURCE_NAMES given with e | i
    · refine iff_of_false (by simp) ?_
      rintro ⟨hgiven, hmem, -⟩
      obtain rfl := Except.ok.inj hgiven
      obtain ⟨i, hok⟩ := optionAt_of_mem hmem 1
      rw [hi] at hok
      cases hok
    · have hget := optionAt_eq_ok hi
      have hgiven : RESOURCE_NAMES.getD i [] = cstr given := by
        rw [List.getD_eq_getElem?_getD, hget]
        rfl
      simp only [hgiven, Except.ok.injEq, Prod.mk.injEq]
      constructor
      · rintro ⟨rfl, hconstant⟩
        exact ⟨rfl, List.mem_of_getElem? hget, hconstant⟩
      · rintro ⟨hmap, -, hconstant⟩
        obtain rfl := Except.ok.inj hmap
        exact ⟨rfl, hconstant⟩

theorem checkLimits_eq_ok {resname : Str} {cur max : Option UInt64} :
    checkLimits P lib args resname = .ok (cur, max) ↔
      checkLimit P lib args 2 resname "cur".toList = .ok cur ∧
        checkLimit P lib args 3 resname "max".toList = .ok max := by
  rw [checkLimits]
  rcases checkLimit P lib args 2 resname "cur".toList with e | cur'
  · simp [bind, Except.bind]
  · rcases checkLimit P lib args 3 resname "max".toList with e | max'
    · simp [bind, Except.bind]
    · simp [bind, Except.bind, pure, Except.pure]

/-! ## Courses -/

/-- The limits that a call sets. -/
def LimitCall.set? : LimitCall → Option (Int32 × RLimit)
  | getrlimit _ => none
  | setrlimit resource rl => some (resource, rl)

/-- The limits that were set. -/
def setsOf {R : Type} (out : Dialogue.Served Limits LimitCall LimitReply R) :
    List (Int32 × RLimit) := out.asked.filterMap LimitCall.set?

variable (P lib args)

/-- The call can be made: the resource is there, the arguments are valid, and something is asked
for. -/
def LimitAccepted (K : LimitKernel) (s : Limits) (name : Str) (resource : Int32) (rl : RLimit) :
    Prop :=
  NamesResource P lib args name resource ∧ K.gets resource = none ∧
    Wants P lib args (s resource) rl ∧ (args.length ≤ 1 ∨ Sets args)

/-- The courses of a call. -/
inductive LimitCourse (K : LimitKernel) (s : Limits) :
    Dialogue.Served Limits LimitCall LimitReply LimitResult → Prop where
  /-- It ends before it sets anything. -/
  | early {out : Dialogue.Served Limits LimitCall LimitReply LimitResult} : out.state = s →
      setsOf out = [] → (∀ name cur max, out.result ≠ .table name cur max) →
      (∀ name resource rl, ¬LimitAccepted P lib args K s name resource rl) → LimitCourse K s out
  /-- The limits are as they are wanted. -/
  | found {out : Dialogue.Served Limits LimitCall LimitReply LimitResult} {name : Str}
      {resource : Int32} : out.state = s → setsOf out = [] →
      out.result = limitTable P name (s resource) →
      LimitAccepted P lib args K s name resource (s resource) → LimitCourse K s out
  /-- The wanted limits are refused. -/
  | refused {out : Dialogue.Served Limits LimitCall LimitReply LimitResult} {name : Str}
      {resource : Int32} {rl : RLimit} {errno : Nat} {msg : Str} : out.state = s →
      setsOf out = [(resource, rl)] → out.result = .failed errno "setrlimit".toList msg →
      LimitAccepted P lib args K s name resource rl → rl ≠ s resource →
      K.sets resource (s resource) rl = .error errno → LimitCourse K s out
  /-- They are applied. -/
  | applied {out : Dialogue.Served Limits LimitCall LimitReply LimitResult} {name : Str}
      {resource : Int32} {rl rl' : RLimit} : out.state = Function.update s resource rl' →
      setsOf out = [(resource, rl)] → out.result = limitTable P name rl' →
      LimitAccepted P lib args K s name resource rl → rl ≠ s resource →
      K.sets resource (s resource) rl = .ok rl' → LimitCourse K s out

variable {P lib args} {K : LimitKernel} {s : Limits} {name : Str} {resource : Int32}

theorem getlimit_serve (hget : K.gets resource = none) (s : Limits) (name : Str) :
    (getlimit resource name).serve K.reply s =
      ⟨s, [(.getrlimit resource, ⟨0, 0, s resource⟩)], .ok (s resource)⟩ := by
  have hreply : K.reply s (.getrlimit resource) = (s, ⟨0, 0, s resource⟩) := by
    rw [LimitKernel.reply, hget]
  rw [getlimit, Dialogue.query_bind, Dialogue.serve_ask, hreply]
  rfl

theorem getlimit_fails {errno : Nat} (hget : K.gets resource = some errno) (s : Limits)
    (name : Str) :
    ∃ msg, (getlimit resource name).serve K.reply s =
      ⟨s, [(.getrlimit resource, ⟨-1, errno, ⟨0, 0⟩⟩)],
        .error (.failed errno "getrlimit".toList msg)⟩ := by
  have hreply : K.reply s (.getrlimit resource) = (s, ⟨-1, errno, ⟨0, 0⟩⟩) := by
    rw [LimitKernel.reply, hget]
  refine ⟨"failed to getrlimit for resource '".toList ++ name ++ "'".toList, ?_⟩
  rw [getlimit, Dialogue.query_bind, Dialogue.serve_ask, hreply]
  rfl

/-- A call whose limits are not accepted sets none. -/
theorem setlimit_rejects {e : CError} (h : checkLimits P lib args name = .error e)
    (resource : Int32) (rl : RLimit) :
    setlimit P lib args resource name rl = .done (.error (.raised e)) := by
  rw [setlimit, h]
  rfl

theorem setlimit_nothing (h : checkLimits P lib args name = .ok (none, none)) (resource : Int32)
    (rl : RLimit) :
    ∃ e, setlimit P lib args resource name rl = .done (.error (.raised e)) := by
  rw [setlimit, h]
  exact ⟨_, rfl⟩

theorem rlimit_ne_iff {rl rl' : RLimit} : rl' ≠ rl ↔ rl'.cur ≠ rl.cur ∨ rl'.max ≠ rl.max := by
  cases rl
  cases rl'
  simp only [ne_eq, RLimit.mk.injEq, not_and_or]

/-- Limits are set if they are not as they should be, and read again. -/
theorem setlimit_specified {cur max : Option UInt64}
    (h : checkLimits P lib args name = .ok (cur, max)) (hsome : cur ≠ none ∨ max ≠ none)
    (resource : Int32) (rl : RLimit) :
    ∃ msg, setlimit P lib args resource name rl =
      if (⟨cur.getD rl.cur, max.getD rl.max⟩ : RLimit) ≠ rl then
        .ask (.setrlimit resource ⟨cur.getD rl.cur, max.getD rl.max⟩) fun r =>
          if r.ret ≠ 0 then .done (.error (.failed r.errno "setrlimit".toList msg))
          else getlimit resource name
      else getlimit resource name := by
  refine ⟨"failed to setrlimit for resource '".toList ++ name ++ "'".toList, ?_⟩
  rw [setlimit, h]
  simp only [rlimit_ne_iff]
  cases cur with
  | none =>
      cases max with
      | none => simp at hsome
      | some max => rfl
  | some cur =>
      cases max with
      | none => rfl
      | some max => rfl

/-- The resource that the argument names is the only one. -/
theorem NamesResource.unique {name' : Str} {resource' : Int32}
    (h : NamesResource P lib args name resource) (h' : NamesResource P lib args name' resource') :
    name = name' ∧ resource = resource' := by
  obtain rfl := Except.ok.inj (h.1.symm.trans h'.1)
  exact ⟨rfl, Option.some.inj (h.2.2.symm.trans h'.2.2)⟩

/-- Limits that are asked for are accepted. -/
theorem Wants.checkLimits {old rl : RLimit} (h : Wants P lib args old rl) (resname : Str) :
    ∃ cur max, checkLimits P lib args resname = .ok (cur, max) ∧
      cur.getD old.cur = rl.cur ∧ max.getD old.max = rl.max := by
  obtain ⟨cur, hcur, hcur'⟩ := h.1.checkLimit resname "cur".toList
  obtain ⟨max, hmax, hmax'⟩ := h.2.checkLimit resname "max".toList
  exact ⟨cur, max, checkLimits_eq_ok.mpr ⟨hcur, hmax⟩, hcur', hmax'⟩

/-- Something is specified if and only if something is set. -/
theorem sets_iff {cur max : Option UInt64} {resname : Str}
    (h : checkLimits P lib args resname = .ok (cur, max)) :
    Sets args ↔ cur ≠ none ∨ max ≠ none := by
  obtain ⟨hcur, hmax⟩ := checkLimits_eq_ok.mp h
  rw [Sets, Ne, Ne, specified_iff hcur, specified_iff hmax, Bool.not_eq_true, Bool.not_eq_true]

/-- **There is no other course.** -/
theorem limitCourse_rlimit (P : LimitPlatform) (lib : CLib F U) (args : List (Value F U))
    (K : LimitKernel) (s : Limits) :
    LimitCourse P lib args K s (K.rlimit P lib args s) := by
  rw [LimitKernel.rlimit, rlimitLua]
  rcases hr : checkRtype P lib args with e | ⟨name, _ | resource⟩
  · refine .early rfl rfl (by intro name cur max h; cases h) ?_
    rintro name resource rl ⟨hnames, -⟩
    rw [checkRtype_eq_ok.mpr hnames] at hr
    cases hr
  · refine .early rfl rfl (by intro name cur max h; cases h) ?_
    rintro name resource rl ⟨hnames, -⟩
    rw [checkRtype_eq_ok.mpr hnames] at hr
    cases hr
  · have hnames := checkRtype_eq_ok.mp hr
    dsimp only
    rw [Dialogue.serve_bind]
    rcases hget : K.gets resource with _ | errno
    · rw [getlimit_serve hget]
      dsimp only
      by_cases hlen : 1 < args.length
      · rw [if_pos hlen, Dialogue.serve_bind]
        -- whatever can be asked for passes the checks
        have hno : ∀ e, checkLimits P lib args name = .error e → ∀ name' resource' rl,
            ¬LimitAccepted P lib args K s name' resource' rl := by
          rintro e he name' resource' rl ⟨-, -, hwants, -⟩
          obtain ⟨cur, max, hok, -⟩ := hwants.checkLimits name
          rw [he] at hok
          cases hok
        rcases hlimits : checkLimits P lib args name with e | ⟨cur, max⟩
        · rw [setlimit_rejects hlimits resource (s resource)]
          exact .early rfl rfl (by intro name cur max h; cases h) (hno e hlimits)
        · by_cases hsome : cur ≠ none ∨ max ≠ none
          · have hsets := (sets_iff hlimits).mpr hsome
            obtain ⟨hcur, hmax⟩ := checkLimits_eq_ok.mp hlimits
            have hwants : Wants P lib args (s resource)
                ⟨cur.getD (s resource).cur, max.getD (s resource).max⟩ :=
              ⟨asksFor_of_checkLimit hcur _, asksFor_of_checkLimit hmax _⟩
            obtain ⟨msg, hset⟩ := setlimit_specified hlimits hsome resource (s resource)
            rw [hset]
            generalize (⟨cur.getD (s resource).cur, max.getD (s resource).max⟩ : RLimit) = rl
              at hwants
            by_cases hsame : rl = s resource
            · subst hsame
              rw [if_neg (not_not.mpr rfl), getlimit_serve hget]
              exact .found rfl rfl rfl ⟨hnames, hget, hwants, .inr hsets⟩
            · rw [if_pos hsame, Dialogue.serve_ask]
              rcases hk : K.sets resource (s resource) rl with errno | rl'
              · have hreply : K.reply s (.setrlimit resource rl) = (s, ⟨-1, errno, ⟨0, 0⟩⟩) := by
                  rw [LimitKernel.reply, hk]
                rw [hreply]
                exact .refused rfl rfl rfl ⟨hnames, hget, hwants, .inr hsets⟩ hsame hk
              · have hreply : K.reply s (.setrlimit resource rl) =
                    (Function.update s resource rl', ⟨0, 0, ⟨0, 0⟩⟩) := by
                  rw [LimitKernel.reply, hk]
                rw [hreply]
                dsimp only
                rw [if_neg (not_not.mpr rfl), getlimit_serve hget, Function.update_self]
                exact .applied rfl rfl rfl ⟨hnames, hget, hwants, .inr hsets⟩ hsame hk
          · obtain ⟨rfl, rfl⟩ : cur = none ∧ max = none := by simpa using hsome
            obtain ⟨e, hset⟩ := setlimit_nothing hlimits resource (s resource)
            rw [hset]
            refine .early rfl rfl (by intro name cur max h; cases h) ?_
            rintro name' resource' rl ⟨-, -, -, hlen' | hsets⟩
            · omega
            · exact hsome ((sets_iff hlimits).mp hsets)
      · rw [if_neg hlen]
        refine .found rfl rfl rfl ⟨hnames, hget, ?_, .inl (by omega)⟩
        have hnone : ∀ idx, 2 ≤ idx → isnoneornil args idx = true := by
          intro idx hidx
          rw [isnoneornil, argument, List.getElem?_eq_none (by omega)]
        exact ⟨.inl ⟨hnone 2 le_rfl, rfl⟩, .inl ⟨hnone 3 (by omega), rfl⟩⟩
    · obtain ⟨msg, hserve⟩ := getlimit_fails hget s name
      rw [hserve]
      refine .early rfl rfl (by intro name cur max h; cases h) ?_
      rintro name' resource' rl ⟨hnames', hget', -⟩
      obtain ⟨-, rfl⟩ := hnames.unique hnames'
      rw [hget] at hget'
      cases hget'

/-! ## All or nothing -/

variable (P lib args)

/-- What a call does to the limits `s`, whatever the kernel does; `out` is what came of it. -/
structure AllOrNothing (K : LimitKernel) (s : Limits)
    (out : Dialogue.Served Limits LimitCall LimitReply LimitResult) : Prop where
  /-- Limits are set at most once. -/
  once : (setsOf out).length ≤ 1
  /-- They are limits of the named resource, and each is the requested one, or the one that there
  was if none was requested. -/
  asked : ∀ resource rl, (resource, rl) ∈ setsOf out →
    (∃ name, NamesResource P lib args name resource) ∧ Wants P lib args (s resource) rl
  /-- A call that raises or returns an error changes nothing. -/
  unchanged : (∀ name cur max, out.result ≠ .table name cur max) →
    out.state = s
  /-- No other resource is touched. -/
  others : ∀ resource, (∀ name, ¬NamesResource P lib args name resource) →
    out.state resource = s resource
  /-- A returned table has the limits that are in force afterwards. -/
  reports : ∀ name cur max, out.result = .table name cur max →
    ∃ resource, NamesResource P lib args name resource ∧
      cur = P.reported (out.state resource).cur ∧
      max = P.reported (out.state resource).max
  /-- These are the requested ones, unless the kernel clamps them. -/
  requested : ∀ name cur max, out.result = .table name cur max →
    (∀ resource old rl rl', K.sets resource old rl = .ok rl' → rl' = rl) →
    ∀ resource, NamesResource P lib args name resource →
      Wants P lib args (s resource) (out.state resource)
  /-- A valid request for the limits that there are succeeds. -/
  present : ∀ name resource, LimitAccepted P lib args K s name resource (s resource) →
    out.result = limitTable P name (s resource) ∧
      out.state = s
  /-- One that the kernel grants succeeds. -/
  granted : ∀ name resource rl rl', LimitAccepted P lib args K s name resource rl →
    rl ≠ s resource → K.sets resource (s resource) rl = .ok rl' →
    out.result = limitTable P name rl' ∧ out.state = Function.update s resource rl'

variable {P lib args}

/-- Only one limit is asked for. -/
theorem AsksFor.unique {idx : Nat} {old limit limit' : UInt64}
    (h : AsksFor P lib args idx old limit) (h' : AsksFor P lib args idx old limit') :
    limit = limit' := by
  rcases h with ⟨hnone, rfl⟩ | ⟨hsome, n, hn, -, rfl⟩
  · rcases h' with ⟨-, rfl⟩ | ⟨hsome, -⟩
    · rfl
    · rw [hnone] at hsome
      cases hsome
  · rcases h' with ⟨hnone, -⟩ | ⟨-, n', hn', -, rfl⟩
    · rw [hnone] at hsome
      cases hsome
    · rw [Except.ok.inj (hn.symm.trans hn')]

theorem Wants.unique {old rl rl' : RLimit} (h : Wants P lib args old rl)
    (h' : Wants P lib args old rl') : rl = rl' := by
  cases rl
  cases rl'
  rw [RLimit.mk.injEq]
  exact ⟨h.1.unique h'.1, h.2.unique h'.2⟩

/-- Two accepted calls are the same. -/
theorem LimitAccepted.unique {name' : Str} {resource' : Int32} {rl rl' : RLimit}
    (h : LimitAccepted P lib args K s name resource rl)
    (h' : LimitAccepted P lib args K s name' resource' rl') :
    name = name' ∧ resource = resource' ∧ rl = rl' := by
  obtain ⟨rfl, rfl⟩ := h.1.unique h'.1
  exact ⟨rfl, rfl, h.2.2.1.unique h'.2.2.1⟩

theorem LimitCourse.allOrNothing {out : Dialogue.Served Limits LimitCall LimitReply LimitResult}
    (h : LimitCourse P lib args K s out) : AllOrNothing P lib args K s out := by
  cases h with
  | early hstate hset hresult hno =>
      refine ⟨by simp [hset], by simp [hset], fun _ => hstate, fun r _ => by rw [hstate],
        ?_, ?_, ?_, ?_⟩
      · intro name cur max h
        exact absurd h (hresult name cur max)
      · intro name cur max h
        exact absurd h (hresult name cur max)
      · intro name resource h
        exact absurd h (hno name resource _)
      · intro name resource rl rl' h
        exact absurd h (hno name resource rl)
  | @found name resource hstate hset hresult hacc =>
      refine ⟨by simp [hset], by simp [hset], fun _ => hstate, fun r _ => by rw [hstate],
        ?_, ?_, ?_, ?_⟩
      · intro name' cur max h
        rw [hresult] at h
        cases h
        rw [hstate]
        exact ⟨resource, hacc.1, rfl, rfl⟩
      · intro _ _ _ _ _ resource' hnames
        obtain ⟨-, rfl⟩ := hacc.1.unique hnames
        rw [hstate]
        exact hacc.2.2.1
      · intro name' resource' h
        obtain ⟨rfl, rfl, -⟩ := hacc.unique h
        exact ⟨hresult, hstate⟩
      · intro name' resource' rl rl' h hne _
        obtain ⟨-, rfl, rfl⟩ := hacc.unique h
        exact absurd rfl hne
  | @refused name resource rl errno msg hstate hset hresult hacc hne hrefused =>
      refine ⟨by simp [hset], ?_, fun _ => hstate, fun r _ => by rw [hstate], ?_, ?_, ?_, ?_⟩
      · intro resource' rl' hmem
        rw [hset, List.mem_singleton] at hmem
        cases hmem
        exact ⟨⟨name, hacc.1⟩, hacc.2.2.1⟩
      · intro _ _ _ h
        rw [hresult] at h
        cases h
      · intro _ _ _ h
        rw [hresult] at h
        cases h
      · intro name' resource' h
        obtain ⟨rfl, rfl, heq⟩ := hacc.unique h
        exact absurd heq hne
      · intro name' resource' rl₁ rl' h _ hgrants
        obtain ⟨-, rfl, rfl⟩ := hacc.unique h
        rw [hrefused] at hgrants
        cases hgrants
  | @applied name resource rl applied hstate hset hresult hacc hne hsets =>
      refine ⟨by simp [hset], ?_, fun h => absurd hresult (h _ _ _), ?_, ?_, ?_, ?_, ?_⟩
      · intro resource' rl' hmem
        rw [hset, List.mem_singleton] at hmem
        cases hmem
        exact ⟨⟨name, hacc.1⟩, hacc.2.2.1⟩
      · intro resource' hother
        have hne' : resource' ≠ resource := by
          rintro rfl
          exact hother name hacc.1
        rw [hstate, Function.update_of_ne hne']
      · intro name' cur max h
        rw [hresult] at h
        cases h
        refine ⟨resource, hacc.1, ?_, ?_⟩
        · rw [hstate, Function.update_self]
        · rw [hstate, Function.update_self]
      · intro _ _ _ _ hexact resource' hnames
        obtain ⟨-, rfl⟩ := hacc.1.unique hnames
        rw [hstate, Function.update_self, hexact _ _ _ _ hsets]
        exact hacc.2.2.1
      · intro name' resource' h
        obtain ⟨rfl, rfl, heq⟩ := hacc.unique h
        exact absurd heq hne
      · intro name' resource' rl₁ rl' h _ hgrants
        obtain ⟨rfl, rfl, rfl⟩ := hacc.unique h
        obtain rfl := Except.ok.inj (hsets.symm.trans hgrants)
        exact ⟨hresult, hstate⟩

/-- **Setting limits is all or nothing**, for every kernel, all limits and all arguments. -/
theorem all_or_nothing (P : LimitPlatform) (lib : CLib F U) (args : List (Value F U))
    (K : LimitKernel) (s : Limits) : AllOrNothing P lib args K s (K.rlimit P lib args s) :=
  (limitCourse_rlimit P lib args K s).allOrNothing

end Setting

end Testcase
