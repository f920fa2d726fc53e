import CourseCompletion.Operation.Enrolment
import CourseCompletion.Operation.Sweep
import CourseCompletion.Proofs.Calm

/-!
# Commits

An operation loads a record and then commits: it changes the record, evaluates it if need be, and
stores it.  A `Commit` is that second half, applied to a record that may be out of date by then.

* `Commit.run`     the commit as an action; every operation is a load and a commit
                   (`Action.markEnrolled_eq` and what follows it);
* `Commit.plan`    what the commit decides to do, from the record, the clock and the tables other
                   than that of completions;
* `Plan.run`       the decision carried out.

On a calm session a commit does what it decides (`Commit.run_eq`).
-/

namespace CourseCompletion

namespace Outcome

/-- the outcome for a record that was stored without being completed by it -/
def stored (r : Record) : Outcome := if r.isComplete then .alreadyComplete r else .saved r

theorem stored_of_isComplete {r : Record} (h : r.isComplete = true) :
    stored r = .alreadyComplete r := if_pos h

theorem stored_of_not_isComplete {r : Record} (h : r.isComplete = false) :
    stored r = .saved r := if_neg (by simp [h])

theorem justCompleted_stored (r : Record) : (stored r).justCompleted = false := by
  unfold stored
  split <;> rfl

end Outcome

/-! ## what is decided and how it is carried out -/

/-- What a commit decides to do: nothing, to store a record, to store it and publish a completion,
or to begin a record unless there is one. -/
inductive Plan where
  | leave (o : Outcome)
  | store (w : Record)
  | finish (w : Record) (c : Completion)
  | first (w : Record)

namespace Plan

def written? : Plan → Option Record
  | leave _ => none
  | store w | finish w _ | first w => some w

def completion? : Plan → Option Completion
  | finish _ c => some c
  | _ => none

def run : Plan → Session → Except ServiceError Outcome × Session
  | leave o, s => (.ok o, s)
  | store w, s =>
    match s.put w with
    | (.ok saved, s) => (.ok (.stored saved), s)
    | (.error e, s) => (.error e, s)
  | finish w c, s =>
    match s.put w with
    | (.ok saved, s) => (.ok (.completed saved), s.announced c)
    | (.error e, s) => (.error e, s)
  | first w, s =>
    match s.put w with
    | (.ok saved, s) => (.ok (.saved saved), s)
    | (.error _, s) => (.ok .notApplicable, s)

end Plan

namespace Session

/-- to complete a record at a time, or now if that is unknown -/
def completing (s : Session) (r : Record) (time : Option Instant) : Plan :=
  let time := (known? time).getD s.now
  match r.completion? time with
  | none => .leave (.alreadyComplete r)
  | some c => .finish (s.enrolled (r.markComplete time)) (c.restamped s.now)

/-- to complete a record if the criteria of its course say so, and to store it either way -/
def evaluating (s : Session) (r : Record) (settings : TrackingSettings) : Plan :=
  let criteria := s.store.criteriaFor r.key
  let result := evaluate settings.method criteria
  if criteria ≠ [] ∧ result.isComplete then s.completing r result.completed
  else .store (s.enrolled r)

/-- to store a complete record, and to evaluate any other if its course tracks completion -/
def aggregating (s : Session) (r : Record) (untracked : Plan) : Plan :=
  if r.isComplete then .store (s.enrolled r)
  else (s.tracking? r.course).elim untracked (s.evaluating r)

end Session

/-! ## commits -/

inductive Commit where
  | enrol (time : Option Instant)
  | start (time : Option Instant)
  | complete (time : Option Instant)
  | aggregate
  | join (time : Instant)
  | flag (time : Instant)
  | sweep
  | first (earliest : Option Instant) (startOnEnrol : Bool)

namespace Commit

def run (m : Commit) (r : Record) : Action Outcome :=
  match m with
  | enrol time => do Action.saveAndEvaluate (r.markEnrolled (← Action.timeOrNow time))
  | start time => do Action.saveAndEvaluate (r.markStarted (← Action.timeOrNow time))
  | complete time => do
    if r.isComplete then return .alreadyComplete r
    Action.completeRecord r time
  | aggregate => Action.aggregateRecord r
  | join time => Action.aggregateRecord ((r.markEnrolled time).markStarted time)
  | flag time => do return .stored (← Action.save (r.flag time))
  | sweep => Action.aggregateRecord r.unflag
  | first earliest startOnEnrol => do
    let r := Action.firstRecord r.key earliest startOnEnrol (← Action.now)
    match ← ((Fetch.insert r).run : StateM Session _) with
    | .ok saved => return .saved saved
    | .error (.duplicate _ _) => return .notApplicable
    | .error e => throw e.toServiceError

def plan (m : Commit) (r : Record) (s : Session) : Plan :=
  match m with
  | enrol time =>
    let r := r.markEnrolled ((known? time).getD s.now)
    s.aggregating r (.store (s.enrolled r))
  | start time =>
    let r := r.markStarted ((known? time).getD s.now)
    s.aggregating r (.store (s.enrolled r))
  | complete time => s.completing r time
  | aggregate => s.aggregating r (.leave .notApplicable)
  | join time => s.aggregating ((r.markEnrolled time).markStarted time) (.leave .notApplicable)
  | flag time => .store (s.enrolled (r.flag time))
  | sweep => s.aggregating r.unflag (.leave .notApplicable)
  | first earliest startOnEnrol => .first (Action.firstRecord r.key earliest startOnEnrol s.now)

end Commit

/-! ## operations are loads and commits -/

namespace Action

theorem markEnrolled_eq (k : Key) (time : Option Instant) :
    markEnrolled k time = load k >>= (Commit.enrol time).run := rfl

theorem markStarted_eq (k : Key) (time : Option Instant) :
    markStarted k time = load k >>= (Commit.start time).run := rfl

theorem markComplete_eq (k : Key) (time : Option Instant) :
    markComplete k time = load k >>= (Commit.complete time).run := rfl

theorem aggregate_eq (k : Key) : aggregate k = load k >>= Commit.aggregate.run := rfl

theorem join_eq (k : Key) (time : Instant) :
    (do
      let r ← load k
      return EnrolmentOutcome.started
        (← aggregateRecord ((r.markEnrolled time).markStarted time)) : Action EnrolmentOutcome) =
      EnrolmentOutcome.started <$> (load k >>= (Commit.join time).run) := by
  simp only [map_eq_pure_bind, bind_assoc]
  rfl

theorem record?_stored (r : Record) : (Outcome.stored r).record? = some r := by
  unfold Outcome.stored
  split <;> rfl

theorem flag_eq (k : Key) :
    flag k = do
      match ← get? k with
      | none => return none
      | some r => return (← (Commit.flag (← now)).run r).record? := by
  unfold flag
  refine congrArg (get? k >>= ·) (funext fun found => ?_)
  cases found with
  | none => rfl
  | some r => simp only [Commit.run, bind_assoc, pure_bind, record?_stored]

theorem flagEach_cons (now : Instant) (r : Record) (rs : List Record) :
    flagEach now (r :: rs) = (Commit.flag now).run r >>= fun _ => flagEach now rs := by
  simp only [flagEach, Commit.run, discard, map_const, bind_assoc, pure_bind, Function.comp_apply,
    map_eq_pure_bind]

theorem sweepEach_cons (r : Record) (rs : List Record) (summary : SweepSummary) :
    sweepEach (r :: rs) summary = Commit.sweep.run r >>= fun outcome =>
      sweepEach rs ⟨summary.processed + 1,
        summary.completed + if outcome.justCompleted then 1 else 0⟩ := rfl

theorem startUser_eq (k : Key) (earliest : Option Instant) (startOnEnrol : Bool) :
    startUser k earliest startOnEnrol = get? k >>= fun found =>
      if found.isSome then return false
      else Outcome.isApplicable <$> (Commit.first earliest startOnEnrol).run (.new k) := by
  unfold startUser
  refine congrArg (get? k >>= ·) (funext fun found => ?_)
  cases found with
  | some r => rfl
  | none =>
    simp only [Commit.run, map_eq_pure_bind, bind_assoc]
    refine congrArg (now >>= ·) (funext fun t => congrArg (_ >>= ·) (funext fun res => ?_))
    rcases res with e | saved
    · cases e <;> rfl
    · rfl

end Action

/-! ## plans carried out -/

namespace Plan

variable {s : Session} {w saved : Record} {t : CompletionTable} {e : SourceError}

theorem run_store_ok (h : s.table.save w = .ok (saved, t)) :
    (store w).run s = (.ok (.stored saved), s.withTable t) := by
  simp only [run, Session.put_of_ok h]

theorem run_store_error (h : s.table.save w = .error e) :
    (store w).run s = (.error e.toServiceError, s) := by
  simp only [run, Session.put_of_error h]

theorem run_finish_ok (c : Completion) (h : s.table.save w = .ok (saved, t)) :
    (finish w c).run s = (.ok (.completed saved), (s.withTable t).announced c) := by
  simp only [run, Session.put_of_ok h]

theorem run_finish_error (c : Completion) (h : s.table.save w = .error e) :
    (finish w c).run s = (.error e.toServiceError, s) := by
  simp only [run, Session.put_of_error h]

theorem run_first_ok (h : s.table.save w = .ok (saved, t)) :
    (first w).run s = (.ok (.saved saved), s.withTable t) := by
  simp only [run, Session.put_of_ok h]

theorem run_first_error (h : s.table.save w = .error e) :
    (first w).run s = (.ok .notApplicable, s) := by
  simp only [run, Session.put_of_error h]

end Plan

/-! ## a commit does what it decides -/

namespace Action

variable {s : Session}

theorem isComplete_enrolled (s : Session) (r : Record) :
    (s.enrolled r).isComplete = r.isComplete := by
  unfold Session.enrolled Record.markEnrolled
  split
  · rfl
  · split <;> rfl

/-- a save, with its answer put into an outcome that fits it -/
theorem saveAs_run (hs : s.Calm) {r : Record} {f : Record → Outcome}
    (hf : ∀ saved : Record, saved.isComplete = r.isComplete → f saved = .stored saved) :
    (do return f (← save r) : Action Outcome).run s = (Plan.store (s.enrolled r)).run s := by
  refine (run_bind _ _ s).trans ?_
  rw [save_run hs]
  cases h : s.table.save (s.enrolled r) with
  | error e =>
    rw [Plan.run_store_error h, Session.put_of_error h]
  | ok p =>
    obtain ⟨saved, t⟩ := p
    obtain ⟨id, hsaved⟩ := (CompletionTable.saved_of_save h).saved_eq
    have hc : saved.isComplete = r.isComplete := by
      rw [hsaved]
      exact isComplete_enrolled s r
    rw [Plan.run_store_ok h, Session.put_of_ok h, ← hf saved hc]
    rfl

theorem isStored_markEnrolled (r : Record) (t : Instant) :
    (r.markEnrolled t).isStored = r.isStored := by
  unfold Record.markEnrolled
  split <;> rfl

theorem isStored_markStarted (r : Record) (t : Instant) :
    (r.markStarted t).isStored = r.isStored := by
  unfold Record.markStarted
  split <;> rfl

theorem isStored_firstRecord (k : Key) (earliest : Option Instant) (startOnEnrol : Bool)
    (now : Instant) : (firstRecord k earliest startOnEnrol now).isStored = false := by
  unfold firstRecord
  cases startOnEnrol with
  | false => exact isStored_markEnrolled (.new k) _
  | true => exact (isStored_markStarted _ now).trans (isStored_markEnrolled (.new k) _)

/-- a record begun, unless there is one -/
theorem beginRecord_run (hs : s.Calm) {r : Record} (hr : r.isStored = false) :
    (do
      match ← ((Fetch.insert r).run : StateM Session _) with
      | .ok saved => return .saved saved
      | .error (.duplicate _ _) => return .notApplicable
      | .error e => throw e.toServiceError : Action Outcome).run s = (Plan.first r).run s := by
  have hsave : s.table.save r = s.table.insert r := if_neg (by simp [hr])
  have hrun : (liftM (m := StateM Session) (n := Action) (Fetch.insert r).run).run s =
      (.ok ((Fetch.insert r).run s).1, ((Fetch.insert r).run s).2) := rfl
  refine (run_bind_ok hrun _).trans ?_
  rw [insert_run hs]
  cases h : s.table.insert r with
  | error e =>
    rw [Plan.run_first_error (hsave.trans h)]
    rcases CompletionTable.refusal_of_save (hsave.trans h) with
      ⟨-, -, entity, key, rfl⟩ | ⟨hst, -⟩ | ⟨hst, -⟩
    · rfl
    · rw [hr] at hst; cases hst
    · rw [hr] at hst; cases hst
  | ok p =>
    rw [Plan.run_first_ok (hsave.trans h)]
    rfl

theorem completeRecord_run (hs : s.Calm) (r : Record) (time : Option Instant) :
    (completeRecord r time).run s = (s.completing r time).run s := by
  unfold completeRecord Session.completing
  refine (run_bind_ok (timeOrNow_run time s) _).trans ?_
  cases hc : r.completion? ((known? time).getD s.now) with
  | none =>
    simp only [hc]
    rfl
  | some c =>
    simp only [hc]
    refine (run_bind _ _ s).trans ?_
    rw [save_run hs]
    cases h : s.table.save (s.enrolled (r.markComplete ((known? time).getD s.now))) with
    | error e => rw [Plan.run_finish_error _ h, Session.put_of_error h]
    | ok p =>
      rw [Plan.run_finish_ok _ h, Session.put_of_ok h]
      rfl

theorem evaluateRecord_run (hs : s.Calm) {r : Record} (hr : r.isComplete = false)
    (settings : TrackingSettings) :
    (evaluateRecord r settings).run s = (s.evaluating r settings).run s := by
  have hsave : (do return .saved (← save r) : Action Outcome).run s =
      (Plan.store (s.enrolled r)).run s :=
    saveAs_run hs fun saved hc => (Outcome.stored_of_not_isComplete (hc.trans hr)).symm
  unfold evaluateRecord
  refine (run_bind_ok (ask_run hs .criteria _) _).trans ?_
  by_cases hcs : s.store.criteriaFor r.key = []
  · have hp : s.evaluating r settings = .store (s.enrolled r) := if_neg fun h => h.1 hcs
    rw [if_pos hcs, hp]
    exact hsave
  · rw [if_neg hcs]
    by_cases he : (evaluate settings.method (s.store.criteriaFor r.key)).isComplete
    · have hp : s.evaluating r settings = s.completing r
          (evaluate settings.method (s.store.criteriaFor r.key)).completed := if_pos ⟨hcs, he⟩
      rw [if_pos he, hp]
      exact completeRecord_run hs r _
    · have hp : s.evaluating r settings = .store (s.enrolled r) := if_neg fun h => he h.2
      rw [if_neg he, hp]
      exact hsave

/-- A record is stored if it is complete, evaluated if its course tracks completion, and treated in
another way if it does not; only the memory of settings may change besides. -/
theorem aggregating_run (hs : s.Calm) (r : Record) {x : Action Outcome} {p : Plan}
    (hx : r.isComplete = false → ∀ m, x.run (s.withMemory m) = p.run (s.withMemory m)) :
    ∃ m, (do
      if r.isComplete then return .alreadyComplete (← save r)
      match ← tracking? r.course with
      | some settings => evaluateRecord r settings
      | none => x : Action Outcome).run s = (s.aggregating r p).run (s.withMemory m) := by
  unfold Session.aggregating
  by_cases hr : r.isComplete
  · refine ⟨s.remembered, ?_⟩
    rw [if_pos hr, if_pos hr]
    exact saveAs_run hs fun saved hc => (Outcome.stored_of_isComplete (hc.trans hr)).symm
  · have hr' : r.isComplete = false := by simpa using hr
    refine ⟨s.recalled r.course, ?_⟩
    rw [if_neg hr, if_neg hr]
    refine (run_bind_ok (tracking?_run hs r.course) _).trans ?_
    cases s.tracking? r.course with
    | none => exact hx hr' _
    | some settings => exact evaluateRecord_run (s := s.lookedUp r.course) hs hr' settings

theorem saveAndEvaluate_run (hs : s.Calm) (r : Record) :
    ∃ m, (saveAndEvaluate r).run s =
      (s.aggregating r (.store (s.enrolled r))).run (s.withMemory m) :=
  aggregating_run hs r fun hr m => saveAs_run (s := s.withMemory m) hs fun _ hc =>
    (Outcome.stored_of_not_isComplete (hc.trans hr)).symm

theorem aggregateRecord_run (hs : s.Calm) (r : Record) :
    ∃ m, (aggregateRecord r).run s =
      (s.aggregating r (.leave .notApplicable)).run (s.withMemory m) :=
  aggregating_run hs r fun _ _ => rfl

end Action

namespace Commit

/-- **On a calm session a commit does what it decides**, and only the memory of settings may change
besides. -/
theorem run_eq {s : Session} (hs : s.Calm) (m : Commit) (r : Record) :
    ∃ memory, (m.run r).run s = (m.plan r s).run (s.withMemory memory) := by
  cases m with
  | enrol time =>
    obtain ⟨memory, h⟩ := Action.saveAndEvaluate_run hs (r.markEnrolled ((known? time).getD s.now))
    exact ⟨memory, (Action.run_bind_ok (Action.timeOrNow_run time s) _).trans h⟩
  | start time =>
    obtain ⟨memory, h⟩ := Action.saveAndEvaluate_run hs (r.markStarted ((known? time).getD s.now))
    exact ⟨memory, (Action.run_bind_ok (Action.timeOrNow_run time s) _).trans h⟩
  | complete time =>
    refine ⟨s.remembered, ?_⟩
    unfold run plan
    by_cases hr : r.isComplete
    · have hc : r.completion? ((known? time).getD s.now) = none := if_pos hr
      have hp : s.completing r time = .leave (.alreadyComplete r) := by
        unfold Session.completing
        simp only [hc]
      simp only [hp]
      rw [if_pos hr]
      rfl
    · exact (congrArg (fun x : Action Outcome => x.run s) (if_neg hr)).trans
        (Action.completeRecord_run hs r time)
  | aggregate => exact Action.aggregateRecord_run hs r
  | join time => exact Action.aggregateRecord_run hs _
  | flag time =>
    refine ⟨s.remembered, ?_⟩
    exact Action.saveAs_run (f := Outcome.stored) hs fun _ _ => rfl
  | sweep => exact Action.aggregateRecord_run hs _
  | first earliest startOnEnrol =>
    refine ⟨s.remembered, ?_⟩
    exact (Action.run_bind_ok (Action.now_run s) _).trans
      (Action.beginRecord_run hs (Action.isStored_firstRecord _ _ _ _))

end Commit

/-! ## first records -/

section

variable {s : Session} {w : Record}

theorem Session.completing_ne_first (r : Record) (time : Option Instant) :
    s.completing r time ≠ .first w := by
  simp only [completing]
  cases r.completion? ((known? time).getD s.now) with
  | none =>
    intro h
    cases h
  | some c =>
    intro h
    cases h

theorem Session.aggregating_ne_first (r : Record) {p : Plan} (hp : p ≠ .first w) :
    s.aggregating r p ≠ .first w := by
  unfold aggregating
  split
  · intro h
    cases h
  · cases s.tracking? r.course with
    | none => exact hp
    | some settings =>
      simp only [Option.elim_some, evaluating]
      split
      · exact completing_ne_first r _
      · intro h
        cases h

/-- only a first record is passed over when it is refused -/
theorem Commit.eq_first_of_plan {m : Commit} {r : Record} (h : m.plan r s = .first w) :
    ∃ earliest startOnEnrol, m = .first earliest startOnEnrol := by
  cases m with
  | first earliest startOnEnrol => exact ⟨_, _, rfl⟩
  | enrol time => exact absurd h (Session.aggregating_ne_first _ fun h => by cases h)
  | start time => exact absurd h (Session.aggregating_ne_first _ fun h => by cases h)
  | complete time => exact absurd h (Session.completing_ne_first r time)
  | aggregate => exact absurd h (Session.aggregating_ne_first _ fun h => by cases h)
  | join time => exact absurd h (Session.aggregating_ne_first _ fun h => by cases h)
  | flag time => cases h
  | sweep => exact absurd h (Session.aggregating_ne_first _ fun h => by cases h)

end

end CourseCompletion
