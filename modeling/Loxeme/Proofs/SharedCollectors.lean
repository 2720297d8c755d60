/-
# Shared collectors

Scanners may share a collector, and reports may come to it from outside.  Whatever the order in
which the scanners read their pieces, finish and are interrupted by reports, no scanner notices
the others, and a collector loses nothing.

* `Merges` says that a list is a merge of several streams, each in its order.
* `Station.run_held`: a scanner does not look at what its collector holds, and
  `Station.settled_run`: reading pieces does not change what finishing comes to.
* `scanner_performAll`: a scanner of a session goes the way that it goes alone.
* `collectorAt_performAll`: a collector gets what is reported to it, and nothing else.
* `collectors_merge` puts these together for every order of the work.
-/
import Loxeme.Session
import Loxeme.Proofs.Parts

namespace Loxeme

/-! ## 1. Merges -/

/-- The list is a merge of the streams: its items can be labelled so that those with one label
are the stream of that label, in order.  So no item of a stream is lost, and none is there
twice. -/
def Merges {ι α : Type} [DecidableEq ι] (streams : ι → List α) (l : List α) : Prop :=
  ∃ labelled : List (ι × α), labelled.map Prod.snd = l ∧
    ∀ i, (labelled.filter fun x => x.1 = i).map Prod.snd = streams i

/-! ## 2. A scanner by itself -/

theorem Collector.report_nil (c : Collector) : c.report [] = c := by
  simp [report]

theorem Collector.report_report (c : Collector) (ds es : List Diagnostic) :
    (c.report ds).report es = c.report (ds ++ es) := by
  simp [report]

namespace Station

theorem perform_held (s : Scanner) (held : Collector) (a : Action) :
    (perform ⟨s, held⟩ a).1 =
      ⟨(perform ⟨s, .empty⟩ a).1.scanner,
        held.report (perform ⟨s, .empty⟩ a).1.collector.diagnostics⟩ := by
  cases a with
  | finish =>
    cases hf : s.finished with
    | true => simp [perform, hf, Collector.empty, Collector.report_nil]
    | false => simp [perform, hf, after, Collector.empty]
  | step =>
    cases hs : s.step? with
    | none => simp [perform, hs, Collector.empty, Collector.report_nil]
    | some r => simp [perform, hs, after, Collector.empty]
  | skip =>
    cases hs : s.skip? with
    | none => simp [perform, hs, Collector.empty, Collector.report_nil]
    | some r => simp [perform, hs, Collector.empty, Collector.report_nil]
  | _ => simp [perform, Collector.empty, Collector.report_nil]

/-- **A scanner does not look at what its collector holds**, it only adds to it. -/
theorem run_held (s : Scanner) (held : Collector) (actions : List Action) :
    run ⟨s, held⟩ actions =
      ⟨(run ⟨s, .empty⟩ actions).scanner,
        held.report (run ⟨s, .empty⟩ actions).collector.diagnostics⟩ := by
  induction actions generalizing s held with
  | nil => exact congrArg (Station.mk s) held.report_nil.symm
  | cons a actions ih =>
    have hstep : ∀ st : Station, run st (a :: actions) = run (st.perform a).1 actions :=
      fun _ => rfl
    generalize hst : (perform ⟨s, .empty⟩ a).1 = st
    have hst' : run st actions = _ := ih st.scanner st.collector
    rw [hstep, hstep, perform_held, hst, ih, hst', Collector.report_report]
    rfl

/-- The action reads one piece or all that is left. -/
def Reads (a : Action) : Prop := a = .step ∨ a = .finish

/-- What finishing comes to, or came to if the scanner has finished. -/
def settled (st : Station) : List Token × List Diagnostic :=
  if st.scanner.finished then (st.scanner.tokens, st.collector.diagnostics) else st.outcome

section Settled

variable {st : Station}

theorem finished_finish (st : Station) : (st.perform .finish).1.scanner.finished = true := by
  rw [perform]
  split
  · assumption
  · rfl

theorem settled_perform (h : st.scanner.Sound) {a : Action} (ha : Reads a) :
    (st.perform a).1.settled = st.settled := by
  cases hf : st.scanner.finished with
  | true =>
    obtain ⟨htokens, -, -, hfinished, hcollector⟩ :=
      frozen_of_change (change_perform st a) h hf
    rw [settled, settled, if_pos hfinished, if_pos hf, htokens, hcollector]
  | false =>
    rcases ha with rfl | rfl
    · rw [settled, settled, finished_step, hf, outcome_step]
      rfl
    · obtain ⟨-, htokens, hdiagnostics, -⟩ := perform_finish hf
      rw [settled, settled, finished_finish, hf, htokens, hdiagnostics]
      rfl

theorem settled_run (h : st.scanner.Sound) {actions : List Action}
    (hactions : ∀ a ∈ actions, Reads a) : (st.run actions).settled = st.settled := by
  induction actions generalizing st with
  | nil => rfl
  | cons a actions ih =>
    have hsound := sound_of_change (change_perform st a) h
    have htail := ih hsound fun b hb => hactions b (List.mem_cons_of_mem _ hb)
    exact htail.trans (settled_perform h (hactions a List.mem_cons_self))

theorem finished_run {actions : List Action} (hactions : ∀ a ∈ actions, Reads a) :
    (st.run actions).scanner.finished = true ↔
      st.scanner.finished = true ∨ .finish ∈ actions := by
  induction actions generalizing st with
  | nil => simp [run]
  | cons a actions ih =>
    have htail := @ih (st.perform a).1 fun b hb => hactions b (List.mem_cons_of_mem _ hb)
    refine htail.trans ?_
    rcases hactions a List.mem_cons_self with rfl | rfl
    · simp [finished_step]
    · simp [finished_finish]

end Settled

/-- **A scanner that only reads** reports what comes first in a scan of its source.  If it was
told to finish, it has all tokens and has reported all. -/
theorem run_ofSource (source : Text) {actions : List Action} (hactions : ∀ a ∈ actions, Reads a) :
    let st := (ofSource source .empty).run actions
    let scan := Scan.ofSource source
    (st.scanner.finished = true ↔ .finish ∈ actions) ∧
      st.collector.diagnostics <+: scan.diagnostics ∧
      (st.scanner.finished = true →
        st.scanner.tokens = scan.tokens ∧ st.collector.diagnostics = scan.diagnostics) := by
  intro st scan
  have hsettled : st.settled = (scan.tokens, scan.diagnostics) :=
    settled_run (Scanner.sound_ofSource source) hactions
  have hnew : (ofSource source .empty).scanner.finished ≠ true := by
    simp [ofSource, Scanner.ofSource]
  refine ⟨(finished_run hactions).trans (or_iff_right hnew), ?_, ?_⟩
  · have hdiagnostics : st.settled.2 = scan.diagnostics := congrArg Prod.snd hsettled
    rw [← hdiagnostics, settled]
    split
    · exact List.prefix_refl _
    · exact List.prefix_append _ _
  · intro hf
    rw [settled, if_pos hf] at hsettled
    exact ⟨congrArg Prod.fst hsettled, congrArg Prod.snd hsettled⟩

end Station

/-! ## 3. Work in a session -/

/-- The scanner after some actions, at the same collector. -/
def Attached.after (a : Attached) (actions : List Action) : Attached :=
  ⟨(Station.run ⟨a.scanner, .empty⟩ actions).scanner, a.collector⟩

/-- What the scanner reports during some actions. -/
def Attached.reported (a : Attached) (actions : List Action) : List Diagnostic :=
  (Station.run ⟨a.scanner, .empty⟩ actions).collector.diagnostics

theorem Station.run_append (st : Station) (as bs : List Action) :
    st.run (as ++ bs) = (st.run as).run bs :=
  List.foldl_append

theorem Attached.after_append (a : Attached) (as bs : List Action) :
    a.after (as ++ bs) = (a.after as).after bs := by
  rw [after, Station.run_append, Station.run_held]
  rfl

theorem Attached.reported_append (a : Attached) (as bs : List Action) :
    a.reported (as ++ bs) = a.reported as ++ (a.after as).reported bs := by
  rw [reported, Station.run_append, Station.run_held]
  rfl

namespace Session

/-- The step reads a piece or all that is left, or reports something from outside. -/
def Step.isWork : Step → Bool
  | .report .. | .act _ .step | .act _ .finish => true
  | _ => false

/-- What a scanner is told to do. -/
def actionsOf (name : Text) (work : List Step) : List Action :=
  work.filterMap fun
    | .act name' a => if name' = name then some a else none
    | _ => none

/-- Whether a reference leads to a place. -/
def refersTo (s : Session) (r : CollectorRef) (i : Nat) : Bool :=
  match s.placeOf r with
  | .ok j => j = i
  | .error _ => false

/-- What is reported from outside to the collector at a place. -/
def outside (s : Session) (i : Nat) (work : List Step) : List Diagnostic :=
  work.filterMap fun
    | .report r d => if s.refersTo r i then some d else none
    | _ => none

theorem actionsOf_cons (name : Text) (step : Step) (work : List Step) :
    actionsOf name (step :: work) = actionsOf name [step] ++ actionsOf name work :=
  List.filterMap_append (l := [step])

theorem outside_cons (s : Session) (i : Nat) (step : Step) (work : List Step) :
    s.outside i (step :: work) = s.outside i [step] ++ s.outside i work :=
  List.filterMap_append (l := [step])

section Perform

theorem scanner_cons (s : Session) (name : Text) (a : Attached) (other : Text) :
    ({ s with scanners := (name, a) :: s.scanners }).scanner other =
      if other = name then .ok a else s.scanner other := by
  rw [scanner, scanner, List.lookup_cons]
  by_cases h : other = name
  · rw [if_pos h, beq_iff_eq.mpr h]
  · rw [if_neg h, beq_eq_false_iff_ne.mpr h]

/-- Of all scanners only the one that acts changes, and it goes on as it does alone. -/
theorem scanner_act (s : Session) (name : Text) (a : Action) (other : Text) :
    (s.act name a).1.scanner other =
      (s.scanner other).map (·.after (if name = other then [a] else [])) := by
  have hnone : ∀ x : Except StepError Attached, x = x.map (·.after []) := by
    intro x
    cases x <;> rfl
  rw [act]
  cases hname : s.scanner name with
  | error e =>
    by_cases h : name = other
    · subst h
      rw [hname]
      rfl
    · rw [if_neg h]
      exact hnone _
  | ok x =>
    dsimp only
    rw [scanner_cons, stationOf, Station.perform_held]
    by_cases h : name = other
    · subst h
      rw [if_pos rfl, if_pos rfl, hname]
      rfl
    · rw [if_neg (Ne.symm h), if_neg h]
      exact hnone _

variable {s : Session} {step : Step}

theorem scanner_perform (h : step.isWork = true) (name : Text) :
    (s.perform step).1.scanner name =
      (s.scanner name).map (·.after (actionsOf name [step])) := by
  cases step with
  | act name' a =>
    refine (scanner_act s name' a name).trans ?_
    by_cases hname : name' = name <;> simp [actionsOf, hname]
  | report r d =>
    have hkept : (s.perform (.report r d)).1.scanner name = s.scanner name := by
      rw [perform, updateCollector]
      split <;> rfl
    rw [hkept]
    cases s.scanner name <;> rfl
  | _ => exact absurd h (by simp [Step.isWork])

theorem placeOf_perform (h : step.isWork = true) (r : CollectorRef) :
    (s.perform step).1.placeOf r = s.placeOf r := by
  cases r with
  | named name =>
    have hnames : (s.perform step).1.collectorNames = s.collectorNames := by
      cases step with
      | act name' a =>
        rw [perform, act]
        split <;> rfl
      | report r d =>
        rw [perform, updateCollector]
        split <;> rfl
      | _ => exact absurd h (by simp [Step.isWork])
    rw [placeOf, hnames, placeOf]
  | usedBy name =>
    rw [placeOf, scanner_perform h, placeOf]
    cases s.scanner name <;> rfl

theorem refersTo_perform (h : step.isWork = true) (r : CollectorRef) (i : Nat) :
    (s.perform step).1.refersTo r i = s.refersTo r i := by
  rw [refersTo, placeOf_perform h, refersTo]

/-- What the scanner with a given name reports during some actions. -/
def reportedBy (s : Session) (name : Text) (actions : List Action) : List Diagnostic :=
  match s.scanner name with
  | .ok a => a.reported actions
  | .error _ => []

/-- What of that goes to the collector at a place. -/
def reportedTo (s : Session) (i : Nat) (name : Text) (actions : List Action) : List Diagnostic :=
  if s.refersTo (.usedBy name) i then s.reportedBy name actions else []

/-- What a step of work reports to the collector at a place, each diagnostic with the scanner
that reports it, if one does. -/
def reportsAt (s : Session) (i : Nat) : Step → List (Option Text × Diagnostic)
  | .report r d => if s.refersTo r i then [(none, d)] else []
  | .act name a => (s.reportedTo i name [a]).map (Prod.mk (some name))
  | _ => []

/-- Every reference leads to a collector. -/
def Bound (s : Session) : Prop := ∀ r i, s.placeOf r = .ok i → i < s.collectors.length

theorem collectorAt_setCollector {i j : Nat} (hj : j < s.collectors.length) (c : Collector) :
    (s.setCollector j c).collectorAt i = if j = i then c else s.collectorAt i := by
  rw [collectorAt, setCollector, List.getElem?_set]
  by_cases h : j = i
  · subst h
    simp [hj]
  · simp [h, collectorAt]

/-- **A collector gets what is reported to it, and nothing else.** -/
theorem collectorAt_perform (hs : s.Bound) (h : step.isWork = true) (i : Nat) :
    (s.perform step).1.collectorAt i =
      (s.collectorAt i).report ((s.reportsAt i step).map Prod.snd) := by
  cases step with
  | act name a =>
    change (s.act name a).1.collectorAt i = _
    rw [act, reportsAt, reportedTo, refersTo, placeOf, reportedBy]
    cases hname : s.scanner name with
    | error e => exact (Collector.report_nil _).symm
    | ok x =>
      have hx : x.collector < s.collectors.length := by
        refine hs (.usedBy name) _ ?_
        rw [placeOf, hname]
        rfl
      dsimp only
      rw [stationOf, Station.perform_held]
      refine (collectorAt_setCollector hx _).trans ?_
      by_cases hi : x.collector = i
      · subst hi
        rw [if_pos rfl, Except.map, if_pos (by simp), List.map_map]
        exact congrArg (s.collectorAt x.collector).report (List.map_id _).symm
      · rw [if_neg hi, Except.map, if_neg (by simpa using hi)]
        exact (Collector.report_nil _).symm
  | report r d =>
    rw [perform, updateCollector, reportsAt, refersTo]
    cases hr : s.placeOf r with
    | error e => exact (Collector.report_nil _).symm
    | ok j =>
      refine (collectorAt_setCollector (hs r j hr) _).trans ?_
      by_cases hi : j = i
      · subst hi
        simp
      · simp [hi, Collector.report_nil]
  | _ => exact absurd h (by simp [Step.isWork])

theorem length_collectors_perform (h : step.isWork = true) :
    (s.perform step).1.collectors.length = s.collectors.length := by
  cases step with
  | act name a =>
    rw [perform, act]
    split
    · rfl
    · exact List.length_set
  | report r d =>
    rw [perform, updateCollector]
    split
    · rfl
    · exact List.length_set
  | _ => exact absurd h (by simp [Step.isWork])

theorem bound_perform (hs : s.Bound) (h : step.isWork = true) : (s.perform step).1.Bound := by
  intro r i hi
  rw [placeOf_perform h] at hi
  rw [length_collectors_perform h]
  exact hs r i hi

end Perform

/-! ## 4. Any order of the work -/

/-- The reports of one origin to the collector at a place: those from outside, or those of a
scanner. -/
def stream (s : Session) (i : Nat) (work : List Step) : Option Text → List Diagnostic
  | none => s.outside i work
  | some name => s.reportedTo i name (actionsOf name work)

/-- The reports of some work to the collector at a place. -/
def reportsOf (s : Session) (i : Nat) : List Step → List (Option Text × Diagnostic)
  | [] => []
  | step :: work => s.reportsAt i step ++ (s.perform step).1.reportsOf i work

section Work

variable {s : Session} {step : Step} {work : List Step}

theorem stream_cons (h : step.isWork = true) (i : Nat) (work : List Step) (origin : Option Text) :
    s.stream i (step :: work) origin =
      s.stream i [step] origin ++ (s.perform step).1.stream i work origin := by
  cases origin with
  | none =>
    have hrefs : (s.perform step).1.outside i work = s.outside i work := by
      simp only [outside, refersTo_perform h]
    rw [stream, stream, stream, outside_cons, hrefs]
  | some name =>
    have hown : s.reportedBy name (actionsOf name (step :: work)) =
        s.reportedBy name (actionsOf name [step]) ++
          (s.perform step).1.reportedBy name (actionsOf name work) := by
      rw [actionsOf_cons, reportedBy, reportedBy, reportedBy, scanner_perform h]
      cases s.scanner name with
      | error e => rfl
      | ok a => exact a.reported_append _ _
    simp only [stream, reportedTo, refersTo_perform h]
    by_cases hi : s.refersTo (.usedBy name) i = true
    · rw [if_pos hi, if_pos hi, if_pos hi, hown]
    · rw [if_neg hi, if_neg hi, if_neg hi]
      rfl

/-- Items under one label, and those of them with a given label. -/
theorem filter_label {ι α : Type} [DecidableEq ι] (label origin : ι) (l : List α) :
    ((l.map (Prod.mk label)).filter fun x => x.1 = origin).map Prod.snd =
      if label = origin then l else [] := by
  by_cases h : label = origin
  · simp [List.filter_map, Function.comp_def, h]
  · simp [List.filter_map, Function.comp_def, h]

theorem reportedTo_nil (s : Session) (i : Nat) (name : Text) : s.reportedTo i name [] = [] := by
  have hown : s.reportedBy name [] = [] := by
    rw [reportedBy]
    split <;> rfl
  rw [reportedTo, hown, ite_self]

/-- The reports of a step with one origin are the stream of that origin. -/
theorem filter_reportsAt (h : step.isWork = true) (i : Nat) (origin : Option Text) :
    ((s.reportsAt i step).filter fun x => x.1 = origin).map Prod.snd =
      s.stream i [step] origin := by
  cases step with
  | report r d =>
    cases origin with
    | none =>
      rw [reportsAt, stream, outside]
      by_cases hr : s.refersTo r i = true <;> simp [hr]
    | some name =>
      refine Eq.trans ?_ (s.reportedTo_nil i name).symm
      rw [reportsAt]
      by_cases hr : s.refersTo r i = true <;> simp [hr]
  | act name a =>
    rw [reportsAt, filter_label]
    cases origin with
    | none => rfl
    | some other =>
      by_cases hname : name = other
      · subst hname
        simp [stream, actionsOf]
      · simp [stream, actionsOf, hname, reportedTo_nil]
  | _ => exact absurd h (by simp [Step.isWork])

variable {work : List Step}

theorem performAll_cons (s : Session) (step : Step) (work : List Step) :
    (s.performAll (step :: work)).1 = ((s.perform step).1.performAll work).1 := rfl

/-- A scanner of a session goes the way that it goes alone. -/
theorem scanner_performAll (h : ∀ step ∈ work, step.isWork = true) (name : Text) :
    (s.performAll work).1.scanner name =
      (s.scanner name).map (·.after (actionsOf name work)) := by
  induction work generalizing s with
  | nil =>
    cases hname : s.scanner name <;> simp [performAll, hname] <;> rfl
  | cons step work ih =>
    have hstep := h step List.mem_cons_self
    rw [performAll_cons, ih fun x hx => h x (List.mem_cons_of_mem _ hx), scanner_perform hstep,
      actionsOf_cons name step work]
    cases s.scanner name with
    | error e => rfl
    | ok a => exact congrArg Except.ok (a.after_append _ _).symm

/-- A collector gets what is reported to it by some work, and nothing else. -/
theorem collectorAt_performAll (hs : s.Bound) (h : ∀ step ∈ work, step.isWork = true) (i : Nat) :
    (s.performAll work).1.collectorAt i =
      (s.collectorAt i).report ((s.reportsOf i work).map Prod.snd) := by
  induction work generalizing s with
  | nil => exact (Collector.report_nil _).symm
  | cons step work ih =>
    have hstep := h step List.mem_cons_self
    have htail := ih (bound_perform hs hstep) fun x hx => h x (List.mem_cons_of_mem _ hx)
    rw [performAll_cons, htail, collectorAt_perform hs hstep, Collector.report_report,
      ← List.map_append, ← reportsOf]

/-- **The reports to a collector merge the streams of their origins.** -/
theorem merges_reportsOf (h : ∀ step ∈ work, step.isWork = true) (i : Nat) :
    Merges (s.stream i work) ((s.reportsOf i work).map Prod.snd) := by
  refine ⟨s.reportsOf i work, rfl, ?_⟩
  intro origin
  induction work generalizing s with
  | nil =>
    cases origin with
    | none => rfl
    | some name => exact (s.reportedTo_nil i name).symm
  | cons step work ih =>
    have hstep := h step List.mem_cons_self
    have htail := @ih (s.perform step).1 fun x hx => h x (List.mem_cons_of_mem _ hx)
    rw [reportsOf, List.filter_append, List.map_append, filter_reportsAt hstep, htail,
      ← stream_cons hstep]

theorem reads_actionsOf (h : ∀ step ∈ work, step.isWork = true) (name : Text) :
    ∀ a ∈ actionsOf name work, Station.Reads a := by
  intro a ha
  obtain ⟨step, hstep, hsome⟩ := List.mem_filterMap.mp ha
  have hwork := h step hstep
  cases step with
  | act name' b =>
    obtain rfl : b = a := by simpa using (Option.ite_none_right_eq_some.mp hsome).2
    cases b with
    | step => exact Or.inl rfl
    | finish => exact Or.inr rfl
    | _ => exact absurd hwork (by simp [Step.isWork])
  | _ => exact absurd hsome (by simp)

theorem mem_actionsOf {name : Text} {a : Action} :
    a ∈ actionsOf name work ↔ .act name a ∈ work := by
  rw [actionsOf, List.mem_filterMap]
  constructor
  · rintro ⟨step, hstep, hsome⟩
    cases step with
    | act name' b =>
      obtain ⟨rfl, hb⟩ := Option.ite_none_right_eq_some.mp hsome
      obtain rfl := Option.some.inj hb
      exact hstep
    | _ => exact absurd hsome (by simp)
  · intro h
    exact ⟨_, h, if_pos rfl⟩

end Work

/-! ## 5. Sessions of new scanners -/

/-- The step makes a collector or a scanner, or reports something. -/
def Step.isSetup : Step → Bool
  | .newCollector _ | .newScanner .. | .report .. => true
  | _ => false

/-- Every reference leads to a collector, and no scanner was told to do anything yet. -/
structure Fresh (s : Session) : Prop where
  bound : s.Bound
  new : ∀ name a, s.scanner name = .ok a → a.scanner = .ofSource a.scanner.source

theorem fresh_empty : empty.Fresh where
  bound := by
    intro r i h
    cases r <;> exact absurd h (by simp [placeOf, scanner, empty, Except.map])
  new := by
    intro name a h
    exact absurd h (by simp [scanner, empty])

section Setup

variable {s : Session} {i : Nat}

theorem bound_iff :
    s.Bound ↔ (∀ name j, s.collectorNames.lookup name = some j → j < s.collectors.length) ∧
      ∀ name a, s.scanner name = .ok a → a.collector < s.collectors.length := by
  constructor
  · intro h
    refine ⟨?_, ?_⟩
    · intro name j hj
      exact h (.named name) j (by rw [placeOf, hj])
    · intro name a ha
      exact h (.usedBy name) a.collector (by rw [placeOf, ha]; rfl)
  · rintro ⟨hnames, hscanners⟩ r j hj
    cases r with
    | named name =>
      cases hname : s.collectorNames.lookup name with
      | none => exact absurd hj (by simp [placeOf, hname])
      | some k =>
        obtain rfl : k = j := by simpa [placeOf, hname] using hj
        exact hnames name k hname
    | usedBy name =>
      cases hname : s.scanner name with
      | error e => exact absurd hj (by simp [placeOf, hname, Except.map])
      | ok a =>
        obtain rfl : a.collector = j := by simpa [placeOf, hname, Except.map] using hj
        exact hscanners name a hname

theorem fresh_setCollector (hs : s.Fresh) (c : Collector) : (s.setCollector i c).Fresh where
  bound := by
    intro r j hj
    have hlt := hs.bound r j hj
    rwa [setCollector, List.length_set]
  new := hs.new

theorem fresh_addCollector (hs : s.Fresh) : s.addCollector.1.Fresh where
  bound := by
    intro r j hj
    have hlt := hs.bound r j hj
    simp only [addCollector, List.length_append, List.length_singleton]
    omega
  new := hs.new

/-- A new name for a collector. -/
theorem fresh_nameCollector (hs : s.Fresh) (hi : i < s.collectors.length) (name : Text) :
    ({ s with collectorNames := (name, i) :: s.collectorNames }).Fresh where
  bound := by
    obtain ⟨hnames, hscanners⟩ := bound_iff.mp hs.bound
    refine bound_iff.mpr ⟨?_, hscanners⟩
    intro name' j hj
    rw [List.lookup_cons] at hj
    cases hname : name' == name with
    | true =>
      obtain rfl : i = j := by simpa [hname] using hj
      exact hi
    | false => exact hnames name' j (by simpa [hname] using hj)
  new := hs.new

/-- A new scanner at a collector. -/
theorem fresh_addScanner (hs : s.Fresh) (hi : i < s.collectors.length) (name source : Text) :
    ({ s with scanners := (name, ⟨.ofSource source, i⟩) :: s.scanners }).Fresh where
  bound := by
    obtain ⟨hnames, hscanners⟩ := bound_iff.mp hs.bound
    refine bound_iff.mpr ⟨hnames, ?_⟩
    intro name' a ha
    rw [scanner_cons] at ha
    split at ha
    · obtain rfl := Except.ok.inj ha
      exact hi
    · exact hscanners name' a ha
  new := by
    intro name' a ha
    rw [scanner_cons] at ha
    split at ha
    · obtain rfl := Except.ok.inj ha
      rfl
    · exact hs.new name' a ha

theorem fresh_perform (hs : s.Fresh) {step : Step} (h : step.isSetup = true) :
    (s.perform step).1.Fresh := by
  cases step with
  | newCollector name =>
    refine fresh_nameCollector (fresh_addCollector hs) ?_ name
    simp [addCollector]
  | report r d =>
    rw [perform, updateCollector]
    split
    · exact hs
    · exact fresh_setCollector hs _
  | newScanner name source r =>
    cases r with
    | none =>
      refine fresh_addScanner (fresh_addCollector hs) ?_ name source
      simp [addCollector]
    | some r =>
      rw [perform, placeOrNew]
      cases hr : s.placeOf r with
      | error e => exact hs
      | ok i => exact fresh_addScanner hs (hs.bound r i hr) name source
  | _ => exact absurd h (by simp [Step.isSetup])

/-- **Whatever is set up is fresh.** -/
theorem fresh_performAll (hs : s.Fresh) {setup : List Step}
    (h : ∀ step ∈ setup, step.isSetup = true) : (s.performAll setup).1.Fresh := by
  induction setup generalizing s with
  | nil => exact hs
  | cons step setup ih =>
    rw [performAll_cons]
    exact ih (fresh_perform hs (h step List.mem_cons_self))
      fun x hx => h x (List.mem_cons_of_mem _ hx)

end Setup

/-! ## 6. The law -/

/-- **Shared collectors lose nothing.**  Take any session of new scanners, at whatever
collectors and whatever these hold; collectors and scanners that are set up in any way make one.
Let the scanners read pieces and finish, and reports come from outside, in any order.  Then
every scanner is still at its collector, it has finished exactly if it was told to, and then it
has the tokens of a scan of its source.  And every collector holds what it held before, and
behind that a merge of the reports from outside and of what its scanners report: the first
diagnostics of a scan of the source, and all of them once the scanner has finished. -/
theorem collectors_merge :
    (∀ setup : List Step, (∀ step ∈ setup, step.isSetup = true) →
      (empty.performAll setup).1.Fresh) ∧
    ∀ (s : Session) (work : List Step), s.Fresh → (∀ step ∈ work, step.isWork = true) →
      let s' := (s.performAll work).1
      ∃ own : Text → List Diagnostic,
        (∀ name a, s.scanner name = .ok a →
          let scan := Scan.ofSource a.scanner.source
          ∃ a', s'.scanner name = .ok a' ∧ a'.collector = a.collector ∧
            (a'.scanner.finished = true ↔ .act name .finish ∈ work) ∧
            own name <+: scan.diagnostics ∧
            (a'.scanner.finished = true →
              a'.scanner.tokens = scan.tokens ∧ own name = scan.diagnostics)) ∧
        ∀ i, ∃ added,
          (s'.collectorAt i).diagnostics = (s.collectorAt i).diagnostics ++ added ∧
            Merges
              (fun origin : Option Text => origin.elim (s.outside i work) fun name =>
                if s.refersTo (.usedBy name) i then own name else [])
              added := by
  refine ⟨fun setup h => fresh_performAll fresh_empty h, ?_⟩
  intro s work hs hwork s'
  refine ⟨fun name => s.reportedBy name (actionsOf name work), ?_, ?_⟩
  · intro name a ha scan
    have ha' : s'.scanner name = .ok (a.after (actionsOf name work)) := by
      rw [scanner_performAll hwork, ha]
      rfl
    have halone := Station.run_ofSource a.scanner.source (reads_actionsOf hwork name)
    rw [Station.ofSource, ← hs.new name a ha, mem_actionsOf] at halone
    dsimp only
    rw [reportedBy, ha]
    exact ⟨_, ha', rfl, halone⟩
  · intro i
    refine ⟨(s.reportsOf i work).map Prod.snd, ?_, ?_⟩
    · rw [collectorAt_performAll hs.bound hwork]
      rfl
    · have hmerges := merges_reportsOf (s := s) hwork i
      have hstream : s.stream i work = fun origin : Option Text =>
          origin.elim (s.outside i work) fun name => s.reportedTo i name (actionsOf name work) := by
        funext origin
        cases origin <;> rfl
      rw [hstream] at hmerges
      exact hmerges

/-- Two scanners at one collector, one of them referred to by the other's name; a report came
before they began, and another comes while they are at work. -/
theorem collectors_merge_two_scanners :
    let setup : List Step := [.newCollector ['c'],
      .newScanner ['a'] "1#".toList (some (.named ['c'])),
      .newScanner ['b'] "\"".toList (some (.usedBy ['a'])), .report (.named ['c']) ⟨7, ['!']⟩]
    let work : List Step := [.act ['a'] .step, .report (.usedBy ['b']) ⟨9, ['?']⟩,
      .act ['b'] .finish, .act ['a'] .finish]
    let s := (empty.performAll setup).1
    let s' := (s.performAll work).1
    (∀ step ∈ setup, step.isSetup = true) ∧ s.Fresh ∧ (∀ step ∈ work, step.isWork = true) ∧
      (∃ a b, s'.scanner ['a'] = .ok a ∧ s'.scanner ['b'] = .ok b ∧
        a.scanner.tokens = (Scan.ofSource "1#".toList).tokens ∧
        b.scanner.tokens = (Scan.ofSource "\"".toList).tokens) ∧
      (s'.collectorAt 0).diagnostics =
        [⟨7, ['!']⟩, ⟨9, ['?']⟩, .ofFault 1 .unterminatedString, .ofFault 1 (.unexpected '#')] := by
  intro setup work s s'
  have hsetup : ∀ step ∈ setup, step.isSetup = true := by decide
  have hwork : ∀ step ∈ work, step.isWork = true := by decide
  have hs : s.Fresh := collectors_merge.1 setup hsetup
  obtain ⟨own, hscanners, -⟩ := collectors_merge.2 s work hs hwork
  obtain ⟨a, ha, -, hfa, -, hta⟩ := hscanners ['a'] ⟨.ofSource "1#".toList, 0⟩ (by decide +kernel)
  obtain ⟨b, hb, -, hfb, -, htb⟩ := hscanners ['b'] ⟨.ofSource "\"".toList, 0⟩ (by decide +kernel)
  refine ⟨hsetup, hs, hwork, ⟨a, b, ha, hb, ?_, ?_⟩, ?_⟩
  · exact (hta (hfa.mpr (by decide))).1
  · exact (htb (hfb.mpr (by decide))).1
  · decide +kernel

end Session
end Loxeme
