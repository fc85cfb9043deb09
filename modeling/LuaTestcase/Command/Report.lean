import LuaTestcase.Command.Verdict

/-!
# Which load errors are reported

The main block reports the files that failed to load on two of its ways out: when no source is
registered, and behind a run that returned.  The others print nothing of the report: the command
exits when a name that was asked for does not occur, and ends where an answer stops it.

* `CommandEvent.Stops` — the answers that stop the command.
* `Prints` — the actions that print known lines, unless they are stopped.
* `reportLoadErrors_cases` — the report, and what there is of it if it is stopped.
* `testSources_cases` — the ways out of the main block, with the report and without.
* `load_errors_reported` — **when the error of every file that failed to load is reported**.
-/

namespace Testcase

variable {W F U : Type}

/-! ## Answers that stop the command -/

/-- The answer ends the command in this way. -/
inductive CommandEvent.Stops (cmd : Command W F U) : CommandEvent W F U → Halt F U → Prop where
  | run {e : Event W F U} {h : Halt F U} : e.Stops cmd.toEnv h → Stops cmd (.run e) h
  | unprintable {u : U} (v : Value F U) : Stops cmd (.tostring u (some v)) (.raise v)

/-- The event stops nothing. -/
def CommandEvent.Smooth (cmd : Command W F U) (e : CommandEvent W F U) : Prop :=
  ∀ h, ¬ e.Stops cmd h

/-- No event stops anything. -/
def AllSmooth (cmd : Command W F U) (es : List (CommandEvent W F U)) : Prop :=
  ∀ e ∈ es, e.Smooth cmd

/-- What the command printed itself, and not the runner. -/
def CommandEvent.displayed : CommandEvent W F U → Option (Printed F U)
  | .print printer args => some (printer, args)
  | _ => none

def displayed (es : List (CommandEvent W F U)) : List (Printed F U) :=
  es.filterMap CommandEvent.displayed

@[simp] theorem displayed_append (es es' : List (CommandEvent W F U)) :
    displayed (es ++ es') = displayed es ++ displayed es' := List.filterMap_append

section Smooth

variable {cmd : Command W F U} {es es' : List (CommandEvent W F U)}

@[simp] theorem allSmooth_nil : AllSmooth cmd [] := fun _ he => absurd he List.not_mem_nil

@[simp] theorem allSmooth_append :
    AllSmooth cmd (es ++ es') ↔ AllSmooth cmd es ∧ AllSmooth cmd es' := List.forall_mem_append

theorem run_stops_iff {e : Event W F U} {h : Halt F U} :
    (CommandEvent.run e).Stops cmd h ↔ e.Stops cmd.toEnv h := by
  refine ⟨?_, .run⟩
  rintro ⟨he⟩
  exact he

theorem run_smooth_iff {e : Event W F U} :
    (CommandEvent.run e).Smooth cmd ↔ e.Smooth cmd.toEnv :=
  forall_congr' fun _ => not_congr run_stops_iff

theorem allSmooth_load (ls : List (Str × Except (Value F U) Unit)) :
    AllSmooth cmd (ls.map fun l => .load l.1 l.2) := by
  rintro e he h hstops
  obtain ⟨l, _, rfl⟩ := List.mem_map.mp he
  cases hstops

theorem allSmooth_prints (h : ∀ e ∈ es, e.IsPrint) : AllSmooth cmd es := by
  rintro e he x hstops
  obtain ⟨printer, args, rfl⟩ := h e he
  cases hstops

end Smooth

/-! ## Actions that print lines -/

section Prints

variable {cmd : Command W F U}

/-- The action stops exactly at an answer that stops the command. -/
abbrev EndsAnswered (cmd : Command W F U) (α : Type) (m : Task W F U α) : Prop :=
  Act.EndsBy (CommandEvent.Stops cmd) α m

/-- If the action is not stopped, it prints the lines. -/
def Prints (cmd : Command W F U) (m : Task W F U Unit) (lines : List (Printed F U)) : Prop :=
  EndsAnswered cmd Unit m ∧ ∀ p a, (m p).result = .ok a → displayed (m p).events = lines

theorem display_endsAnswered (printer : Printer) (args : List (Value F U)) :
    EndsAnswered cmd Unit (display cmd printer args) :=
  printing_endsBy cmd.toEnv (by rintro u h ⟨⟩) (fun u v => .unprintable v)
    (by rintro printer args h ⟨⟩) printer args

/-- **What a printer does**: it prints its arguments, or is stopped and prints nothing. -/
theorem display_cases (printer : Printer) (args : List (Value F U)) (p : Proc W) :
    (∃ es p', AllSmooth cmd es ∧ displayed es = [(printer, args)] ∧
      display cmd printer args p = ⟨es, .ok (), p'⟩) ∨
    ∃ es h p', ¬ AllSmooth cmd es ∧ displayed es = [] ∧
      display cmd printer args p = ⟨es, .error h, p'⟩ := by
  have hends := @display_endsAnswered W F U cmd printer args p
  have honly : Act.OnlyEvents (fun e => CommandEvent.displayed e = none) Unit
      (Act.forEach (fun _ => convert cmd.toEnv CommandEvent.tostring) (conversions args) () :
        Task W F U Unit) := by
    refine (Act.onlyEvents_closed _).forEach (fun _ u p e he => ?_) _ _
    rw [convert_run, List.mem_singleton] at he
    rw [he]
    rfl
  have hnone := List.filterMap_eq_nil_iff.mpr (honly p)
  rw [display, printing] at hends ⊢
  rcases hrun : (Act.forEach (fun _ => convert cmd.toEnv CommandEvent.tostring)
      (conversions args) () : Task W F U Unit) p with ⟨es, h | u, p'⟩
  · rw [hrun] at hnone
    rw [Act.bind_of_error hrun] at hends ⊢
    refine .inr ⟨es, h, p', fun hsmooth => ?_, hnone, rfl⟩
    obtain ⟨a, ha⟩ := hends.returns hsmooth
    cases ha
  · rw [hrun] at hnone
    rw [Act.bind_of_ok hrun] at hends ⊢
    refine .inl ⟨_, _, hends.of_ok rfl, ?_, rfl⟩
    rw [displayed_append]
    show es.filterMap CommandEvent.displayed ++ _ = _
    rw [hnone]
    rfl

theorem Prints.pure : Prints cmd (pure () : Task W F U Unit) [] :=
  ⟨(Act.endsBy_closed _).pure _, fun _ _ _ => rfl⟩

theorem Prints.display (printer : Printer) (args : List (Value F U)) :
    Prints cmd (display cmd printer args) [(printer, args)] := by
  refine ⟨display_endsAnswered printer args, fun p a hres => ?_⟩
  rcases @display_cases W F U cmd printer args p with ⟨es, p', _, hlines, hrun⟩ |
    ⟨es, h, p', _, _, hrun⟩
  · rw [hrun]
    exact hlines
  · rw [hrun] at hres
    cases hres

theorem Prints.bind {m k : Task W F U Unit} {lines lines' : List (Printed F U)}
    (hm : Prints cmd m lines) (hk : Prints cmd k lines') :
    Prints cmd (m >>= fun _ => k) (lines ++ lines') := by
  refine ⟨(Act.endsBy_closed _).bind hm.1 fun _ => hk.1, fun p a hres => ?_⟩
  have hfirst := hm.2 p
  rcases hrun : m p with ⟨es, h | u, p'⟩
  · rw [Act.bind_of_error hrun] at hres
    cases hres
  · rw [hrun] at hfirst
    rw [Act.bind_of_ok hrun] at hres ⊢
    rw [displayed_append, hfirst u rfl, hk.2 p' a hres]

/-- The loop that prints lines for every element. -/
theorem Prints.forEach {α : Type} {body : α → Task W F U Unit} {lines : α → List (Printed F U)}
    (h : ∀ a, Prints cmd (body a) (lines a)) (as : List α) :
    Prints cmd (Act.forEach (fun _ => body) as ()) (as.flatMap lines) := by
  induction as with
  | nil => exact Prints.pure
  | cons a as ih => exact Prints.bind (h a) ih

/-- Without an answer that stops it, it returns and has printed its lines. -/
theorem Prints.of_smooth {m : Task W F U Unit} {lines : List (Printed F U)}
    (hm : Prints cmd m lines) {p : Proc W} (h : AllSmooth cmd (m p).events) :
    (m p).result = .ok () ∧ displayed (m p).events = lines := by
  obtain ⟨a, ha⟩ := (hm.1 p).returns h
  exact ⟨ha, hm.2 p a ha⟩

end Prints

/-! ## The report -/

/-- A name, with its error. -/
def errorLines (name : Str) (error : Value F U) : List (Printed F U) :=
  [(.print, [.string "- %s".toList, .string name]),
    (.printCode, [.string "%s".toList, error]), (.print, [.string []])]

/-- The line above the report. -/
def reportHeader (n : Nat) : Printed F U :=
  (.print, [.string "#### %d test files failed to load\n".toList, .integer n])

/-- What is printed of a file that failed to load. -/
def fileReport (v : Str × Value F U) : List (Printed F U) := (errorLines v.1 v.2).take 2

/-- It was printed, in the report on `n` files. -/
def Reported (es : List (CommandEvent W F U)) (n : Nat) (v : Str × Value F U) : Prop :=
  ∃ before report, displayed es = before ++ reportHeader n :: report ∧ fileReport v <:+: report

/-- The files that failed to load, with their errors. -/
def loadErrors (es : List (CommandEvent W F U)) : List (Str × Value F U) :=
  (loads es).filterMap loadError

/-- The error of every file that failed to load was printed. -/
def EveryErrorReported (es : List (CommandEvent W F U)) : Prop :=
  ∀ v ∈ loadErrors es, Reported es (loadErrors es).length v

/-- The files that failed to load. -/
def loadLines (errfiles : List (Str × Value F U)) : List (Printed F U) :=
  if errfiles = [] then []
  else reportHeader errfiles.length :: (errfiles.flatMap (fun v => errorLines v.1 v.2) ++
    [(.print, [.string "\n".toList])])

/-- The lines that were printed before a report was stopped at a file. -/
def partialLines (done : List (Str × Value F U)) (v : Str × Value F U) : List (Printed F U) :=
  done.flatMap (fun v => errorLines v.1 v.2) ++ [(.print, [.string "- %s".toList, .string v.1])]

theorem mem_of_fileReport {done : List (Str × Value F U)} {v w : Str × Value F U}
    (h : fileReport v <:+: partialLines done w) : v ∈ done := by
  induction done with
  | nil =>
      have hlen := h.length_le
      simp [fileReport, errorLines, partialLines] at hlen
  | cons d done ih =>
      simp only [partialLines, List.flatMap_cons, errorLines, List.cons_append, List.nil_append,
        List.infix_cons_iff] at h
      -- a report begins with a name and ends with a code
      rcases h with hfirst | hname | hcode | hrest
      · simp only [fileReport, errorLines, List.take, List.cons_prefix_cons, Prod.mk.injEq,
          List.cons.injEq, Value.string.injEq, true_and, and_true] at hfirst
        rw [Prod.ext hfirst.1 hfirst.2.1]
        exact List.mem_cons_self
      · simp [fileReport, errorLines] at hname
      · simp [fileReport, errorLines] at hcode
      · exact List.mem_cons_of_mem _ (ih hrest)

section Report

variable {cmd : Command W F U} {errfiles : List (Str × Value F U)}

/-- A file of the report. -/
def reportFile (cmd : Command W F U) (v : Str × Value F U) : Task W F U Unit := do
  display cmd .print [.string "- %s".toList, .string v.1]
  display cmd .printCode [.string "%s".toList, v.2]
  display cmd .print [.string []]

theorem errorLines_prints (name : Str) (error : Value F U) :
    Prints cmd (reportFile cmd (name, error)) (errorLines name error) :=
  Prints.bind (Prints.display _ _) (Prints.bind (Prints.display _ _) (Prints.display _ _))

theorem reportLoadErrors_prints (errfiles : List (Str × Value F U)) :
    Prints cmd (reportLoadErrors cmd errfiles) (loadLines errfiles) := by
  rw [reportLoadErrors, loadLines]
  split_ifs
  · exact Prints.pure
  · exact Prints.bind (Prints.display _ _) (Prints.bind
      (Prints.forEach (fun v => errorLines_prints v.1 v.2) errfiles) (Prints.display _ _))

theorem display_plain {printer : Printer} {args : List (Value F U)} (h : conversions args = [])
    (p : Proc W) : display cmd printer args p = ⟨[.print printer args], .ok (), p⟩ := by
  rw [display, printing_plain h]
  rfl

/-- A file whose error cannot be printed: only its name is. -/
theorem reportFile_stopped {v : Str × Value F U} {p : Proc W}
    (h : ¬ AllSmooth cmd (reportFile cmd v p).events) :
    displayed (reportFile cmd v p).events = partialLines [] v := by
  rw [reportFile, Act.bind_of_ok (display_plain rfl p)] at h ⊢
  rcases @display_cases W F U cmd .printCode [.string "%s".toList, v.2] p with
    ⟨es, p', hsmooth, _, hrun⟩ | ⟨es, x, p', _, hnone, hrun⟩
  · refine absurd ?_ h
    rw [Act.bind_of_ok hrun, display_plain rfl p', allSmooth_append, allSmooth_append]
    exact ⟨allSmooth_prints (by simp [CommandEvent.IsPrint]), hsmooth,
      allSmooth_prints (by simp [CommandEvent.IsPrint])⟩
  · rw [Act.bind_of_error hrun, displayed_append, hnone]
    rfl

/-- The loop of the report, where it is stopped. -/
theorem reportFiles_stopped {vs : List (Str × Value F U)} {p : Proc W}
    (h : ¬ AllSmooth cmd (Act.forEach (fun _ => reportFile cmd) vs () p).events) :
    ∃ done v rest, vs = done ++ v :: rest ∧
      displayed (Act.forEach (fun _ => reportFile cmd) vs () p).events = partialLines done v := by
  induction vs generalizing p with
  | nil => exact absurd allSmooth_nil h
  | cons v vs ih =>
      rw [Act.forEach] at h ⊢
      have hprints := @errorLines_prints W F U cmd v.1 v.2
      by_cases hsmooth : AllSmooth cmd (reportFile cmd v p).events
      · obtain ⟨hres, hlines⟩ := hprints.of_smooth hsmooth
        rcases hrun : reportFile cmd v p with ⟨es, x | u, p'⟩
        · rw [show reportFile cmd (v.1, v.2) p = _ from hrun] at hres
          cases hres
        · rw [show reportFile cmd (v.1, v.2) p = _ from hrun] at hlines
          rw [hrun] at hsmooth
          rw [Act.bind_of_ok hrun] at h ⊢
          rw [allSmooth_append, and_iff_right hsmooth] at h
          obtain ⟨done, w, rest, rfl, hrest⟩ := ih h
          refine ⟨v :: done, w, rest, rfl, ?_⟩
          rw [displayed_append, hlines, hrest, partialLines, partialLines, List.flatMap_cons,
            List.append_assoc]
      · refine ⟨[], v, vs, rfl, ?_⟩
        have hlines := reportFile_stopped hsmooth
        have hends := hprints.1 p
        rcases hrun : reportFile cmd v p with ⟨es, x | u, p'⟩
        · rw [hrun] at hlines
          rw [Act.bind_of_error hrun]
          exact hlines
        · rw [show reportFile cmd (v.1, v.2) p = _ from hrun] at hends
          rw [hrun] at hsmooth
          exact absurd (hends.of_ok rfl) hsmooth

/-- **The report**: it is printed, or stopped at the error of a file. -/
theorem reportLoadErrors_cases (hne : errfiles ≠ []) (p : Proc W) :
    (AllSmooth cmd (reportLoadErrors cmd errfiles p).events ∧
      displayed (reportLoadErrors cmd errfiles p).events = loadLines errfiles) ∨
    ¬ AllSmooth cmd (reportLoadErrors cmd errfiles p).events ∧
      ∃ done v rest, errfiles = done ++ v :: rest ∧
        displayed (reportLoadErrors cmd errfiles p).events =
          reportHeader errfiles.length :: partialLines done v := by
  by_cases hsmooth : AllSmooth cmd (reportLoadErrors cmd errfiles p).events
  · exact .inl ⟨hsmooth, ((reportLoadErrors_prints errfiles).of_smooth hsmooth).2⟩
  · refine .inr ⟨hsmooth, ?_⟩
    have hreport : reportLoadErrors cmd errfiles = (do
        display cmd .print (reportHeader errfiles.length).2
        Act.forEach (fun _ => reportFile cmd) errfiles ()
        display cmd .print [.string "\n".toList]) := if_neg hne
    have hheader := @display_plain W F U cmd .print (reportHeader errfiles.length).2 rfl p
    rw [hreport, Act.bind_of_ok hheader] at hsmooth ⊢
    rw [allSmooth_append, not_and] at hsmooth
    have hloop := hsmooth (allSmooth_prints (by simp [CommandEvent.IsPrint]))
    have hends : EndsAnswered cmd Unit (Act.forEach (fun _ => reportFile cmd) errfiles ()) :=
      (Prints.forEach (fun v => errorLines_prints v.1 v.2) errfiles).1
    rcases hrun : (Act.forEach (fun _ => reportFile cmd) errfiles () : Task W F U Unit) p with
      ⟨es, x | u, p'⟩
    · have hstopped : ¬ AllSmooth cmd
          (Act.forEach (fun _ => reportFile cmd) errfiles () p).events := by
        rw [Act.bind_of_error hrun] at hloop
        rw [hrun]
        exact hloop
      obtain ⟨done, v, rest, heq, hlines⟩ := reportFiles_stopped hstopped
      refine ⟨done, v, rest, heq, ?_⟩
      rw [hrun] at hlines
      rw [Act.bind_of_error hrun, displayed_append, hlines]
      rfl
    · refine absurd ?_ hloop
      have hes := (hends p).of_ok (a := u) (by rw [hrun])
      rw [hrun] at hes
      rw [Act.bind_of_ok hrun, display_plain rfl p', allSmooth_append]
      exact ⟨hes, allSmooth_prints (by simp [CommandEvent.IsPrint])⟩

/-- What was reported behind something without a header is in the report. -/
theorem Reported.report {es : List (CommandEvent W F U)} {n m : Nat} {v : Str × Value F U}
    {front report : List (Printed F U)} (h : Reported es n v)
    (hes : displayed es = front ++ reportHeader m :: report)
    (hfront : reportHeader n ∉ front) : fileReport v <:+: report := by
  obtain ⟨before, report', heq, hinfix⟩ := h
  rw [hes] at heq
  rcases List.append_eq_append_iff.mp heq with ⟨lines, hbefore, hrest⟩ | ⟨lines, hfront', hrest⟩
  · cases lines with
    | nil =>
        obtain rfl : report = report' := (List.cons.inj hrest).2
        exact hinfix
    | cons line lines =>
        obtain rfl : report = lines ++ reportHeader n :: report' := (List.cons.inj hrest).2
        refine hinfix.trans ?_
        exact ((List.suffix_cons _ _).trans (List.suffix_append _ _)).isInfix
  · cases lines with
    | nil =>
        obtain rfl : report' = report := (List.cons.inj hrest).2
        exact hinfix
    | cons line lines =>
        obtain rfl : reportHeader n = line := (List.cons.inj hrest).1
        exact absurd (hfront' ▸ List.mem_append_right _ List.mem_cons_self) hfront

/-- All of a report that is printed is reported. -/
theorem reported_of_loadLines {es : List (CommandEvent W F U)} {front : List (Printed F U)}
    (hes : displayed es = front ++ loadLines errfiles) {v : Str × Value F U} (hv : v ∈ errfiles) :
    Reported es errfiles.length v := by
  rw [loadLines, if_neg (List.ne_nil_of_mem hv)] at hes
  refine ⟨front, _, hes, ?_⟩
  obtain ⟨pre, post, rfl⟩ := List.mem_iff_append.mp hv
  rw [List.flatMap_append, List.flatMap_cons]
  refine List.IsInfix.trans ?_ (List.prefix_append _ _).isInfix
  refine List.IsInfix.trans ?_ (List.suffix_append _ _).isInfix
  exact ((List.take_prefix 2 _).trans (List.prefix_append _ _)).isInfix

end Report

/-! ## What prints no header -/

/-- The event prints no header of the report. -/
def CommandEvent.Unheaded (e : CommandEvent W F U) : Prop :=
  ∀ n, e.displayed ≠ some (reportHeader n)

section Unheaded

variable {cmd : Command W F U} {es : List (CommandEvent W F U)} {n : Nat} {v : Str × Value F U}

theorem header_not_mem (h : ∀ e ∈ es, e.Unheaded) : reportHeader n ∉ displayed es := by
  intro hmem
  obtain ⟨e, he, heq⟩ := List.mem_filterMap.mp hmem
  exact h e he n heq

theorem not_reported (h : ∀ e ∈ es, e.Unheaded) : ¬ Reported es n v := by
  rintro ⟨before, report, heq, _⟩
  exact header_not_mem h (heq ▸ List.mem_append_right _ List.mem_cons_self)

theorem display_unheaded {printer : Printer} {args : List (Value F U)}
    (h : ∀ n, (printer, args) ≠ reportHeader n) :
    Act.OnlyEvents CommandEvent.Unheaded Unit (display cmd printer args) := by
  refine display_onlyEvents (fun _ _ _ => nofun) fun n heq => ?_
  exact h n (Option.some.inj heq)

theorem printInfo_unheaded (list : List (Source F)) (ntest : Nat) :
    Act.OnlyEvents CommandEvent.Unheaded Unit (printInfo cmd list ntest) := by
  have hclosed := @Act.onlyEvents_closed (Proc W) _ (Halt F U)
    (CommandEvent.Unheaded (W := W) (F := F) (U := U))
  refine hclosed.bind (display_unheaded (by simp [reportHeader])) fun _ => ?_
  refine hclosed.bind (Act.OnlyEvents.reads _) fun date => ?_
  refine hclosed.bind (display_unheaded (by simp [reportHeader])) fun _ => ?_
  refine hclosed.bind (display_unheaded (by simp [reportHeader])) fun _ => ?_
  refine hclosed.bind (display_unheaded (by simp [reportHeader])) fun _ => ?_
  exact hclosed.forEach (fun _ _ => display_unheaded (by simp [reportHeader])) _ _

theorem printErrors_unheaded (errors : Errors F U) :
    Act.OnlyEvents CommandEvent.Unheaded Unit (printErrors cmd errors) := by
  have hclosed := @Act.onlyEvents_closed (Proc W) _ (Halt F U)
    (CommandEvent.Unheaded (W := W) (F := F) (U := U))
  rw [printErrors]
  split_ifs
  · refine hclosed.bind (hclosed.forEach (fun _ v => ?_) _ _) fun _ =>
      display_unheaded (by simp [reportHeader])
    refine hclosed.bind (display_unheaded (by simp [reportHeader])) fun _ =>
      hclosed.forEach (fun _ verr => ?_) _ _
    refine hclosed.bind (display_unheaded (by simp [reportHeader])) fun _ => ?_
    refine hclosed.bind (display_unheaded (by simp [reportHeader])) fun _ => ?_
    exact display_unheaded (by simp [reportHeader])
  · exact hclosed.pure _

theorem runner_unheaded {α : Type} (m : Run W F U α) :
    Act.OnlyEvents CommandEvent.Unheaded α (runner m) :=
  runner_onlyEvents fun _ _ _ _ => nofun

end Unheaded

/-! ## The ways out of the main block -/

section TestSources

variable (cmd : Command W F U) (opts : Options) (errfiles : List (Str × Value F U))

/-- What is printed and run in front of the report. -/
structure InFront (cmd : Command W F U) (es : List (CommandEvent W F U)) : Prop where
  smooth : AllSmooth cmd es
  unheaded : ∀ e ∈ es, e.Unheaded

variable {cmd} in
theorem InFront.append {es es' : List (CommandEvent W F U)} (h : InFront cmd es)
    (h' : InFront cmd es') : InFront cmd (es ++ es') :=
  ⟨allSmooth_append.mpr ⟨h.smooth, h'.smooth⟩,
    List.forall_mem_append.mpr ⟨h.unheaded, h'.unheaded⟩⟩

/-- The events are the report, behind something. -/
def EndsReported (cmd : Command W F U) (errfiles : List (Str × Value F U))
    (es : List (CommandEvent W F U)) : Prop :=
  ∃ front p, InFront cmd front ∧ es = front ++ (reportLoadErrors cmd errfiles p).events

/-- There is nothing of the report, and an answer stopped the command. -/
def EndsStopped (cmd : Command W F U) (es : List (CommandEvent W F U)) : Prop :=
  ¬ AllSmooth cmd es ∧ ∀ e ∈ es, e.Unheaded

variable {cmd errfiles} in
theorem EndsReported.behind {es es' : List (CommandEvent W F U)} (h : InFront cmd es)
    (h' : EndsReported cmd errfiles es') : EndsReported cmd errfiles (es ++ es') := by
  obtain ⟨front, p, hfront, rfl⟩ := h'
  exact ⟨es ++ front, p, h.append hfront, (List.append_assoc _ _ _).symm⟩

variable {cmd} in
theorem EndsStopped.behind {es es' : List (CommandEvent W F U)} (h : InFront cmd es)
    (h' : EndsStopped cmd es') : EndsStopped cmd (es ++ es') :=
  ⟨fun hall => h'.1 (allSmooth_append.mp hall).2, List.forall_mem_append.mpr ⟨h.unheaded, h'.2⟩⟩

/-- The report and the exit. -/
theorem reportLoadErrors_exit (k : Unit → Task W F U Unit) (hk : ∀ u p, (k u p).events = [])
    (p : Proc W) :
    EndsReported cmd errfiles ((reportLoadErrors cmd errfiles >>= k) p).events := by
  refine ⟨[], p, ⟨allSmooth_nil, by simp⟩, ?_⟩
  rcases hrun : reportLoadErrors cmd errfiles p with ⟨es, h | u, p'⟩
  · rw [Act.bind_of_error hrun]
    rfl
  · rw [Act.bind_of_ok hrun, hk, List.append_nil]
    rfl

variable {errfiles}

/-- Behind a run that returned numbers, the report comes unless an error of the run cannot be
printed. -/
theorem finish_ran (hne : errfiles ≠ []) (ns : Nat) (nf : Int) (errors : Errors F U)
    (p : Proc W) :
    EndsReported cmd errfiles (finish cmd errfiles (.ran ns nf errors) p).events ∨
      EndsStopped cmd (finish cmd errfiles (.ran ns nf errors) p).events := by
  have hpos : 0 < errfiles.length := List.length_pos_iff.mpr hne
  have hends : EndsAnswered cmd Unit (printErrors cmd errors) :=
    printErrors_closed (Act.endsBy_closed _) display_endsAnswered errors
  have hunheaded := @printErrors_unheaded W F U cmd errors p
  have htotal : InFront cmd [.print .print [.string (("### Total: %d successes, %d failures, " ++
      "%d load failures (").toList ++ (cmd.total p.world).2 ++ [')']), .integer ns, .integer nf,
      .integer errfiles.length, .object .float (cmd.total p.world).1, .string "\n".toList]] :=
    ⟨allSmooth_prints (by simp [CommandEvent.IsPrint]),
      by simp [CommandEvent.Unheaded, CommandEvent.displayed, reportHeader]⟩
  rw [finish, Act.reads_bind_run]
  simp only
  rw [Act.bind_of_ok (display_plain rfl p), if_pos hpos]
  rcases hends.cases p with ⟨es, u, p', hsmooth, hrun⟩ | ⟨es, h, p', hsmooth, hrun⟩
  · rw [hrun] at hunheaded
    rw [Act.bind_of_ok hrun]
    refine .inl (.behind htotal (.behind ⟨hsmooth, hunheaded⟩ ?_))
    refine reportLoadErrors_exit cmd errfiles _ (fun u p => ?_) p'
    rw [if_pos (Or.inr (Or.inr hpos))]
    rfl
  · rw [hrun] at hunheaded
    rw [Act.bind_of_error hrun]
    exact .inr (.behind htotal ⟨hsmooth, hunheaded⟩)

/-- Behind the sources that are printed, they are run. -/
theorem runSources_cases (hne : errfiles ≠ []) (list : List (Source F)) {p : Proc W}
    (hp : p.doNotRun = false) {es : List (CommandEvent W F U)}
    (hes : es = ((runner (run cmd.toEnv list (some opts.testcase)) >>=
      finish cmd errfiles : Task W F U Unit) p).events) :
    (AllOccur list (some opts.testcase) ∧ EndsReported cmd errfiles es) ∨
      (¬ AllOccur list (some opts.testcase) ∨ ¬ AllSmooth cmd es) ∧ ∀ e ∈ es, e.Unheaded := by
  subst hes
  have hends : EndsAnswered cmd _ (runner (run cmd.toEnv list (some opts.testcase))) :=
    Act.EndsBy.mapEvents (fun _ _ => run_stops_iff) (run_endsBy list (some opts.testcase))
  have hunheaded := runner_unheaded (run cmd.toEnv list (some opts.testcase)) p
  rcases hends.cases p with ⟨es, res, p', hsmooth, hrun⟩ | ⟨es, h, p', hsmooth, hrun⟩
  · rw [hrun] at hunheaded
    rw [Act.bind_of_ok hrun]
    have hres : (run cmd.toEnv list (some opts.testcase) p).result = .ok res :=
      congrArg Outcome.result hrun
    rcases run_cases cmd.toEnv list (some opts.testcase) p with
      ⟨hblocked | hnot, prints, err, _, hrefused⟩ | ⟨hall, prints, _, hran⟩
    · rw [hp] at hblocked
      cases hblocked
    · rw [hrefused] at hres
      cases hres
      refine .inr ⟨.inl hnot, List.forall_mem_append.mpr ⟨hunheaded, ?_⟩⟩
      refine (Act.onlyEvents_closed _).bind (display_unheaded ?_)
        (fun _ => Act.OnlyEvents.halt _) p'
      simp [reportHeader]
    · rw [hran] at hres
      obtain ⟨ns, nf, errors, rfl⟩ := runList_ran cmd.toEnv _ p res hres
      rcases finish_ran cmd hne ns nf errors p' with hreported | hstopped
      · exact .inl ⟨hall, .behind ⟨hsmooth, hunheaded⟩ hreported⟩
      · have h := hstopped.behind ⟨hsmooth, hunheaded⟩
        exact .inr ⟨.inr h.1, h.2⟩
  · rw [hrun] at hunheaded
    rw [Act.bind_of_error hrun]
    exact .inr ⟨.inr hsmooth, hunheaded⟩

/-- **The ways out of the main block**, with a file that failed to load.  The report is begun, and
then no source is registered or the names that were asked for occur; or it is not, because a name
does not occur or an answer stopped the command. -/
theorem testSources_cases (hne : errfiles ≠ []) (p : Proc W) :
    (((sourceList cmd p.world).1 = [] ∨
        AllOccur (sourceList cmd p.world).1 (some opts.testcase)) ∧
      EndsReported cmd errfiles (testSources cmd opts errfiles p).events) ∨
    (((sourceList cmd p.world).1 ≠ [] ∧
        ¬ AllOccur (sourceList cmd p.world).1 (some opts.testcase)) ∨
        ¬ AllSmooth cmd (testSources cmd opts errfiles p).events) ∧
      ∀ e ∈ (testSources cmd opts errfiles p).events, e.Unheaded := by
  have hpos : 0 < errfiles.length := List.length_pos_iff.mpr hne
  obtain ⟨infos, hinfos, hinfo⟩ :=
    printInfo_emits cmd (sourceList cmd p.world).1 (sourceList cmd p.world).2 p
  have hunheaded := @printInfo_unheaded W F U cmd
    (sourceList cmd p.world).1 (sourceList cmd p.world).2 p
  rw [hinfo] at hunheaded
  have hfront : InFront cmd infos := ⟨allSmooth_prints hinfos, hunheaded⟩
  rw [testSources, Act.reads_bind_run]
  simp only
  rw [Act.bind_of_ok hinfo]
  by_cases hempty : (sourceList cmd p.world).1 = []
  · have hzero : 0 < errfiles.length ∧ (sourceList cmd p.world).1.length = 0 :=
      ⟨hpos, List.length_eq_zero_iff.mpr hempty⟩
    rw [if_pos hzero, Act.bind_of_ok (display_plain rfl p)]
    refine .inl ⟨.inl hempty, .behind hfront (.behind ⟨?_, ?_⟩ ?_)⟩
    · exact allSmooth_prints (by simp [CommandEvent.IsPrint])
    · simp [CommandEvent.Unheaded, CommandEvent.displayed, reportHeader]
    · exact reportLoadErrors_exit cmd errfiles _ (fun _ _ => rfl) p
  · have hsome : ¬ (0 < errfiles.length ∧ (sourceList cmd p.world).1.length = 0) :=
      fun hzero => hempty (List.length_eq_zero_iff.mp hzero.2)
    have hunblock : (runner unblock : Task W F U Unit) p = ⟨[], .ok (), ⟨p.world, false⟩⟩ := rfl
    rw [if_neg hsome, Act.bind_of_ok hunblock, List.nil_append]
    rcases runSources_cases cmd opts hne (sourceList cmd p.world).1
      (p := ⟨p.world, false⟩) rfl rfl with ⟨hall, hreported⟩ | ⟨hnot, hrest⟩
    · exact .inl ⟨.inr hall, .behind hfront hreported⟩
    · refine .inr ⟨?_, List.forall_mem_append.mpr ⟨hunheaded, hrest⟩⟩
      refine hnot.imp (fun h => ⟨hempty, h⟩) fun h hall => h (allSmooth_append.mp hall).2

end TestSources

/-! ## The command -/

section Main

variable {cmd : Command W F U} {arg : List Str} {p p' : Proc W} {opts : Options} {files : List Str}
  {es : List (CommandEvent W F U)}

/-- The load errors of a list of files. -/
def Command.errfiles (cmd : Command W F U) (files : List Str) (w : W) : List (Str × Value F U) :=
  (cmd.loadAll files w).1.filterMap loadError

theorem loadError_names (ls : List (Str × Except (Value F U) Unit)) :
    ((ls.filterMap loadError).map Prod.fst).Sublist (ls.map Prod.fst) := by
  induction ls with
  | nil => exact .slnil
  | cons l ls ih =>
      obtain ⟨filename, err | u⟩ := l
      · exact ih.cons_cons filename
      · exact ih.cons filename

/-- No file is collected twice, so none fails twice. -/
theorem errfiles_nodup (hfiles : getFiles cmd opts p = ⟨[], .ok files, p'⟩) (w : W) :
    (cmd.errfiles files w).Nodup := by
  have hnodup : files.Nodup := by
    rcases getFiles_cases cmd opts p with ⟨paths, lists, _, hrun⟩ | ⟨_, _, h, hrun, _⟩
    · rw [hfiles] at hrun
      obtain rfl : files = _ := Except.ok.inj (congrArg Outcome.result hrun)
      exact (firsts_keys_nodup _).of_map
    · rw [hfiles] at hrun
      cases hrun
  have hnames := loadError_names (cmd.loadAll files w).1
  rw [loadAll_files] at hnames
  exact (hnodup.sublist hnames).of_map

theorem exit_leaves {α : Type} {R : List (CommandEvent W F U) → α → Prop} (code : Int)
    (msg : List (Value F U)) : Act.Leaves R (exit cmd code msg : Task W F U α) := by
  cases msg with
  | nil => exact Act.Leaves.halt
  | cons v msg =>
      have hdisplay : Act.Leaves (fun _ _ => True) (display cmd .print (v :: msg)) :=
        fun _ _ _ => trivial
      exact hdisplay.bind fun _ _ _ => Act.Leaves.halt

/-- Nothing is printed if the options are accepted. -/
theorem checkOpts_silent (arg : List Str) :
    Act.Leaves (fun es _ => es = []) (checkOpts cmd arg) := by
  rw [checkOpts]
  cases getopts arg with
  | error err => exact exit_leaves _ _
  | ok opts =>
      have houtside : Act.Leaves (fun es _ => es = [])
          (outside cmd.requireLuacov : Task W F U _) := fun _ _ _ => rfl
      simp only
      split_ifs
      · exact exit_leaves _ _
      · exact exit_leaves _ _
      · refine houtside.bind ?_
        rintro es res rfl
        cases res with
        | error loaderr => exact exit_leaves _ _
        | ok _ => exact Act.Leaves.pure rfl
      · exact Act.Leaves.pure rfl

/-- The files are loaded behind the options, and the rest is that of the main block. -/
theorem main_events (hopts : checkOpts cmd arg p = ⟨es, .ok opts, p'⟩)
    (hfiles : getFiles cmd opts p' = ⟨[], .ok files, p'⟩) :
    loadErrors (main cmd arg p).events = cmd.errfiles files p'.world ∧
    ∃ before, InFront cmd before ∧ (main cmd arg p).events = before ++
      (testSources cmd opts (cmd.errfiles files p'.world) (cmd.loadedProc files p')).events := by
  obtain rfl : es = [] := by
    have h := checkOpts_silent arg p opts (by rw [hopts])
    rwa [hopts] at h
  rw [main_run hopts hfiles]
  refine ⟨?_, _, ⟨allSmooth_load _, ?_⟩, rfl⟩
  · rw [List.nil_append, loadErrors, loads_append, loads_load,
      (testSources_noLoad cmd _ _).loads, List.append_nil]
    rfl
  · intro e he
    obtain ⟨l, _, rfl⟩ := List.mem_map.mp he
    exact fun _ => nofun

/-- **The report**, behind something in front of it. -/
theorem reported_iff {errfiles : List (Str × Value F U)} (hne : errfiles ≠ [])
    (hnodup : errfiles.Nodup) {es : List (CommandEvent W F U)}
    (h : EndsReported cmd errfiles es) :
    (∀ v ∈ errfiles, Reported es errfiles.length v) ↔ AllSmooth cmd es := by
  obtain ⟨front, p, hfront, rfl⟩ := h
  rw [allSmooth_append, and_iff_right hfront.smooth]
  rcases reportLoadErrors_cases hne p with ⟨hsmooth, hlines⟩ |
    ⟨hstopped, done, v, rest, heq, hlines⟩
  · have hes : displayed (front ++ (reportLoadErrors cmd errfiles p).events)
        = displayed front ++ loadLines errfiles := by
      rw [displayed_append, hlines]
    exact iff_of_true (fun v hv => reported_of_loadLines hes hv) hsmooth
  · refine iff_of_false (fun hall => ?_) hstopped
    have hreport := (hall v (heq ▸ by simp)).report
      (by rw [displayed_append, hlines]) (header_not_mem hfront.unheaded)
    -- the file at which the report was stopped is not one of those before it
    rw [heq] at hnodup
    exact (List.nodup_append.mp hnodup).2.2 v (mem_of_fileReport hreport) v List.mem_cons_self rfl

/-- In calm surroundings nothing stops the command behind the collection of the files. -/
theorem Calm.main_smooth (h : Calm cmd.toEnv)
    (hopts : checkOpts cmd arg p = ⟨es, .ok opts, p'⟩)
    (hfiles : getFiles cmd opts p' = ⟨[], .ok files, p'⟩) :
    AllSmooth cmd (main cmd arg p).events := by
  obtain ⟨_, before, hbefore, hevents⟩ := main_events hopts hfiles
  have hdisplay : ∀ printer args,
      Act.OnlyEvents (CommandEvent.Smooth cmd) Unit (display cmd printer args) :=
    fun printer args => h.printing (by rintro u x ⟨⟩) (by rintro printer args x ⟨⟩) printer args
  rw [hevents, allSmooth_append]
  refine ⟨hbefore.smooth, testSources_onlyEvents hdisplay (fun list testcases p e he => ?_) _ _ _⟩
  exact run_smooth_iff.mpr (h.run list testcases p e he)

end Main

/-- **When the error of every file that failed to load is reported.**  Behind the options and the
collection of the files, that is the case exactly if every file loaded; or nothing that the command
was answered stopped it, and no source is registered or the names that were asked for occur. -/
theorem load_errors_reported (cmd : Command W F U) (arg : List Str) (p p' : Proc W)
    (opts : Options) (files : List Str) (es : List (CommandEvent W F U))
    (hopts : checkOpts cmd arg p = ⟨es, .ok opts, p'⟩)
    (hfiles : getFiles cmd opts p' = ⟨[], .ok files, p'⟩) :
    EveryErrorReported (main cmd arg p).events ↔
      cmd.errfiles files p'.world = [] ∨
      AllSmooth cmd (main cmd arg p).events ∧
      ((sourceList cmd (cmd.loadAll files p'.world).2).1 = [] ∨
        AllOccur (sourceList cmd (cmd.loadAll files p'.world).2).1 (some opts.testcase)) := by
  obtain ⟨hload, before, hbefore, hevents⟩ := main_events hopts hfiles
  rw [EveryErrorReported, hload, hevents]
  rcases eq_or_ne (cmd.errfiles files p'.world) [] with hnil | hne
  · rw [hnil]
    simp
  · rw [or_iff_right hne]
    rcases testSources_cases cmd opts hne (cmd.loadedProc files p') with ⟨hlist, hreported⟩ |
      ⟨hnot, hunheaded⟩
    · exact (reported_iff hne (errfiles_nodup hfiles _) (hreported.behind hbefore)).trans
        (and_iff_left hlist).symm
    · refine iff_of_false (fun hall => ?_) ?_
      · obtain ⟨v, hv⟩ := List.exists_mem_of_ne_nil _ hne
        exact not_reported (List.forall_mem_append.mpr ⟨hbefore.unheaded, hunheaded⟩) (hall v hv)
      · rintro ⟨hsmooth, hlist⟩
        rcases hnot with ⟨hsome, hmissing⟩ | hstopped
        · exact hlist.elim hsome hmissing
        · exact hstopped (allSmooth_append.mp hsmooth).2

/-! ### One of two files does not load -/

/-- The command of `oneTest`, but the second file does not load. -/
def brokenFile : Command Unit Bool Unit :=
  { oneTest true with
    eval := fun filename w =>
      (if filename = "t/y_test.lua".toList then .error (.string "unexpected symbol".toList)
        else .ok (), w) }

theorem brokenFile_calm : Calm brokenFile.toEnv where
  getcwd _ := Option.some_ne_none _
  chdir _ _ _ := nofun
  getpid _ := rfl
  collect _ := rfl
  tostring _ _ := rfl

/-- All tests are run, and the report is printed. -/
theorem brokenFile_reported :
    EveryErrorReported (main brokenFile ["t".toList] ⟨(), false⟩).events := by
  have hopts : checkOpts brokenFile ["t".toList] ⟨(), false⟩
      = ⟨[], .ok ⟨false, false, false, [], ["t".toList]⟩, ⟨(), false⟩⟩ := rfl
  have hfiles : getFiles brokenFile ⟨false, false, false, [], ["t".toList]⟩ ⟨(), false⟩
      = ⟨[], .ok ["t/x_test.lua".toList, "t/y_test.lua".toList], ⟨(), false⟩⟩ := rfl
  refine (load_errors_reported brokenFile ["t".toList] ⟨(), false⟩ ⟨(), false⟩
    ⟨false, false, false, [], ["t".toList]⟩ ["t/x_test.lua".toList, "t/y_test.lua".toList] []
    hopts hfiles).mpr (.inr ⟨brokenFile_calm.main_smooth hopts hfiles, .inr ?_⟩)
  simp [AllOccur]

/-- A test of the file that does not load is asked for, and nothing is reported. -/
theorem brokenFile_unreported :
    ¬ EveryErrorReported
      (main brokenFile ["--testcase=test_2".toList, "t".toList] ⟨(), false⟩).events := by
  have hopts : checkOpts brokenFile ["--testcase=test_2".toList, "t".toList] ⟨(), false⟩
      = ⟨[], .ok ⟨false, false, false, ["test_2".toList], ["t".toList]⟩, ⟨(), false⟩⟩ := by
    have hnames : parseTestcase "test_2".toList = .ok ["test_2".toList] := by
      rw [parseTestcase, if_neg (by decide), parseNames]
      rfl
    have hgetopt : getopt (⟨false, false, false, [], []⟩, false) "--testcase=test_2".toList
        = .ok (⟨false, false, false, ["test_2".toList], []⟩, true) :=
      getopt_testcase rfl rfl rfl hnames
    rw [checkOpts, getopts, List.foldlM_cons, hgetopt]
    rfl
  have hfiles : getFiles brokenFile ⟨false, false, false, ["test_2".toList], ["t".toList]⟩
      ⟨(), false⟩ = ⟨[], .ok ["t/x_test.lua".toList, "t/y_test.lua".toList], ⟨(), false⟩⟩ := rfl
  obtain ⟨hload, before, hbefore, hevents⟩ := main_events hopts hfiles
  have hnames : ((sourceList brokenFile ()).1.flatMap fun src => src.tests.map Test.name)
      = ["test_1".toList] := rfl
  have hne : brokenFile.errfiles ["t/x_test.lua".toList, "t/y_test.lua".toList] () ≠ [] :=
    List.cons_ne_nil _ _
  have hnone : ¬ AllOccur (sourceList brokenFile ()).1 (some ["test_2".toList]) := by
    intro hall
    obtain ⟨src, hsrc, t, ht, hname⟩ := hall "test_2".toList (by simp)
    have hmem : "test_2".toList ∈ ["test_1".toList] := by
      rw [← hnames, ← hname]
      exact List.mem_flatMap.mpr ⟨src, hsrc, List.mem_map_of_mem ht⟩
    exact absurd hmem (by decide)
  rcases testSources_cases brokenFile ⟨false, false, false, ["test_2".toList], ["t".toList]⟩ hne
    (brokenFile.loadedProc ["t/x_test.lua".toList, "t/y_test.lua".toList] ⟨(), false⟩) with
    ⟨hempty | hall, _⟩ | ⟨_, hunheaded⟩
  · cases hempty
  · exact absurd hall hnone
  · rw [EveryErrorReported, hload, hevents]
    intro hreported
    obtain ⟨v, hv⟩ := List.exists_mem_of_ne_nil _ hne
    exact not_reported (List.forall_mem_append.mpr ⟨hbefore.unheaded, hunheaded⟩)
      (hreported v hv)

end Testcase
