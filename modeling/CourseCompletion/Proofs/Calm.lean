import CourseCompletion.Operation.Record
import CourseCompletion.Proofs.Table

/-!
# Actions on calm sessions

A session is `Calm` when no outage is left.  There an action is a function of the session, and this
file computes the actions that operations are made of:

* `Session.settings?`, `Session.tracking?`   the settings that a lookup gives, and
  `Session.lookedUp`                         the session after it (only the memory changes);
* `Session.enrolled`                         the record that a save writes;
* `Session.put`                              the save itself (`Action.save_run`).

`Action.run_bind` runs two actions one after the other.
-/

namespace CourseCompletion

/-! ## one action after the other -/

namespace Action

section
variable {ε α β : Type}

theorem run_bind (x : ExceptT ε (StateM Session) α) (f : α → ExceptT ε (StateM Session) β)
    (s : Session) :
    (x >>= f).run s = match x.run s with
      | (.ok a, s') => (f a).run s'
      | (.error e, s') => (.error e, s') := by
  show (match x.run s with | (a, s') => ExceptT.bindCont f a s') = _
  rcases x.run s with ⟨a | e, s'⟩ <;> rfl

theorem run_bind_ok {x : ExceptT ε (StateM Session) α} {s s' : Session} {a : α}
    (h : x.run s = (.ok a, s')) (f : α → ExceptT ε (StateM Session) β) :
    (x >>= f).run s = (f a).run s' := by
  rw [run_bind, h]

theorem run_bind_error {x : ExceptT ε (StateM Session) α} {s s' : Session} {e : ε}
    (h : x.run s = (.error e, s')) (f : α → ExceptT ε (StateM Session) β) :
    (x >>= f).run s = (.error e, s') := by
  rw [run_bind, h]

theorem run_map (f : α → β) (x : ExceptT ε (StateM Session) α) (s : Session) :
    (f <$> x).run s = ((x.run s).1.map f, (x.run s).2) := by
  rw [ExceptT.run_map]
  rfl

/-- a use of the tables as part of an operation keeps its answer, or tells its error -/
theorem toAction_run (x : Fetch α) (s : Session) :
    (Fetch.toAction x).run s =
      ((x.run s).1.mapError SourceError.toServiceError, (x.run s).2) := by
  show (match x.run s with | (a, s') => (a.mapError _, s')) = _
  rcases x.run s with ⟨a | e, s'⟩ <;> rfl

end

theorem now_run (s : Session) : now.run s = (.ok s.now, s) := rfl

theorem timeOrNow_run (time : Option Instant) (s : Session) :
    (timeOrNow time).run s = (.ok ((known? time).getD s.now), s) := rfl

/-- a time or now lies after the epoch where now does -/
theorem isKnown_timeOrNow (time : Option Instant) {now : Instant} (h : now.IsKnown) :
    ((known? time).getD now).IsKnown := by
  cases hk : known? time with
  | none => exact h
  | some t => exact (known?_eq_some_iff.1 hk).2

end Action

/-! ## calm sessions -/

namespace Session

/-- no outage is left -/
def Calm (s : Session) : Prop := s.outages = []

def withMemory (s : Session) (remembered : List CourseSettings) : Session := { s with remembered }

def withTable (s : Session) (completions : CompletionTable) : Session :=
  { s with store := { s.store with completions } }

def table (s : Session) : CompletionTable := s.store.completions

end Session

namespace Action

variable {α : Type} {s : Session}

theorem ask_run (hs : s.Calm) (a : Access) (question : Store → α) :
    (Fetch.toAction (ask a question)).run s = (.ok (question s.store), s) := by
  have hask : (ask a question).run s = (.ok (question s.store), s) :=
    run_bind_ok (access_calm a hs) _
  rw [toAction_run, hask]
  rfl

theorem get?_run (hs : s.Calm) (k : Key) :
    (get? k).run s = ((s.table.find k).mapError SourceError.toServiceError, s) := by
  have hfind : (Fetch.find k).run s = (s.table.find k, s) :=
    run_bind_ok (access_calm .find hs) _
  exact (toAction_run (Fetch.find k) s).trans (by rw [hfind])

theorem findByCourse_run (hs : s.Calm) (course : Int) :
    (Fetch.toAction (Fetch.findByCourse course)).run s =
      ((s.table.findByCourse course).mapError SourceError.toServiceError, s) := by
  have hfind : (Fetch.findByCourse course).run s = (s.table.findByCourse course, s) :=
    run_bind_ok (access_calm .findByCourse hs) _
  rw [toAction_run, hfind]

end Action

/-! ## settings -/

namespace Session

/-- the settings of a course, from the memory or from the store -/
def settings? (s : Session) (course : Int) : Option TrackingSettings :=
  (remembered? course s.remembered).or (s.store.settings? course)

/-- the settings of a course that tracks completion -/
def tracking? (s : Session) (course : Int) : Option TrackingSettings :=
  (s.settings? course).filter TrackingSettings.enabled

/-- Where the same settings are found, a course tracks completion in the same way. -/
theorem tracking?_congr {s s' : Session} {course : Int}
    (h : s'.settings? course = s.settings? course) : s'.tracking? course = s.tracking? course :=
  congrArg (Option.filter TrackingSettings.enabled) h

/-- what the memory holds after the settings of a course were looked up -/
def recalled (s : Session) (course : Int) : List CourseSettings :=
  match remembered? course s.remembered, s.store.settings? course with
  | none, some settings => remember course settings s.remembered
  | _, _ => s.remembered

/-- the session after the settings of a course were looked up -/
def lookedUp (s : Session) (course : Int) : Session := s.withMemory (s.recalled course)

end Session

theorem remembered?_remember (course course' : Int) (settings : TrackingSettings)
    (memory : List CourseSettings) :
    remembered? course' (remember course settings memory) =
      if course' = course then some settings else remembered? course' memory := by
  unfold remembered? remember
  rw [Keyed.get?_put]
  split <;> rfl

/-- A look-up changes nothing about what is looked up. -/
theorem Session.settings?_lookedUp (s : Session) (course course' : Int) :
    (s.lookedUp course).settings? course' = s.settings? course' := by
  show (remembered? course' (s.recalled course)).or (s.store.settings? course') = _
  unfold recalled settings?
  cases hold : remembered? course s.remembered with
  | some old => rfl
  | none =>
    cases hfound : s.store.settings? course with
    | none => rfl
    | some found =>
      show (remembered? course' (remember course found s.remembered)).or _ = _
      rw [remembered?_remember]
      by_cases hc : course' = course
      · rw [if_pos hc, hc, hold, hfound]
        rfl
      · rw [if_neg hc]

namespace Action

variable {s : Session}

theorem settings?_run (hs : s.Calm) (course : Int) :
    (settings? course).run s = (.ok (s.settings? course), s.lookedUp course) := by
  unfold settings? Session.settings? Session.lookedUp Session.recalled
  rw [run_bind_ok (rfl : (get : Action Session).run s = (.ok s, s))]
  cases remembered? course s.remembered with
  | some settings => rfl
  | none =>
    refine (run_bind_ok (ask_run hs .settings _) _).trans ?_
    cases s.store.settings? course with
    | some settings => rfl
    | none => rfl

theorem tracking?_run (hs : s.Calm) (course : Int) :
    (tracking? course).run s = (.ok (s.tracking? course), s.lookedUp course) := by
  unfold tracking?
  rw [run_bind_ok (settings?_run hs course)]
  rfl

end Action

/-! ## saving a record -/

namespace Session

/-- a record as it is saved: a new one has an enrolment time -/
def enrolled (s : Session) (r : Record) : Record :=
  if r.isStored then r
  else r.markEnrolled ((earliestCurrentStart (s.store.windowsOf r.key) s.now).getD s.now)

theorem enrolled_of_isStored {s : Session} {r : Record} (h : r.isStored = true) :
    s.enrolled r = r := if_pos h

theorem enrolled_of_isEnrolled {s : Session} {r : Record} (h : r.isEnrolled = true) :
    s.enrolled r = r := by
  unfold enrolled Record.markEnrolled
  rw [if_pos h, ite_self]

/-- a record written to the table: what is stored, or why it is not -/
def put (s : Session) (r : Record) : Except ServiceError Record × Session :=
  match s.table.save r with
  | .ok (saved, completions) => (.ok saved, s.withTable completions)
  | .error e => (.error e.toServiceError, s)

theorem put_of_ok {s : Session} {r saved : Record} {t : CompletionTable}
    (h : s.table.save r = .ok (saved, t)) : s.put r = (.ok saved, s.withTable t) := by
  unfold put
  rw [h]

theorem put_of_error {s : Session} {r : Record} {e : SourceError}
    (h : s.table.save r = .error e) : s.put r = (.error e.toServiceError, s) := by
  unfold put
  rw [h]

/-- the session after a completion was published -/
def announced (s : Session) (c : Completion) : Session :=
  { s with published := s.published ++ [.courseCompleted ⟨c, s.nextEventId⟩] }

end Session

namespace Action

variable {s : Session}

/-- a change of the table, as far as it is not refused -/
theorem write_run (change : CompletionTable → Except SourceError (Record × CompletionTable))
    (s : Session) :
    (Fetch.write change).run s = match change s.table with
      | .ok (saved, completions) => (.ok saved, s.withTable completions)
      | .error e => (.error e, s) := by
  unfold Session.table
  show Fetch.write change s = _
  unfold Fetch.write
  rcases change s.store.completions with e | ⟨saved, completions⟩ <;> rfl

theorem insert_run (hs : s.Calm) (r : Record) :
    (Fetch.insert r).run s = match s.table.insert r with
      | .ok (saved, completions) => (.ok saved, s.withTable completions)
      | .error e => (.error e, s) :=
  (run_bind_ok (access_calm .insert hs) _).trans (write_run _ s)

theorem update_run (hs : s.Calm) (r : Record) :
    (Fetch.update r).run s = match s.table.update r with
      | .ok (saved, completions) => (.ok saved, s.withTable completions)
      | .error e => (.error e, s) :=
  (run_bind_ok (access_calm .update hs) _).trans (write_run _ s)

theorem withEnrolment_run (hs : s.Calm) {r : Record} (h : r.isStored = false) :
    (withEnrolment r).run s = (.ok (s.enrolled r), s) := by
  have hn : ¬r.isStored = true := by simp [h]
  unfold withEnrolment Session.enrolled
  rw [if_neg hn]
  by_cases he : r.isEnrolled
  · have hr : ∀ t, r.markEnrolled t = r := fun t => if_pos he
    rw [if_pos he, hr]
    rfl
  · rw [if_neg he]
    refine (run_bind_ok (now_run s) _).trans ?_
    refine (run_bind_ok (ask_run hs .userWindows _) _).trans ?_
    rfl

theorem save_run (hs : s.Calm) (r : Record) : (save r).run s = s.put (s.enrolled r) := by
  unfold save Session.put CompletionTable.save
  by_cases h : r.isStored
  · have he : s.enrolled r = r := if_pos h
    rw [if_pos h, he, if_pos h]
    refine (toAction_run (Fetch.update r) s).trans ?_
    rw [update_run hs]
    rcases s.table.update r with e | ⟨saved, completions⟩ <;> rfl
  · have h' : r.isStored = false := by simpa using h
    have hn : ¬(s.enrolled r).isStored = true := by
      rw [Session.enrolled, if_neg h]
      unfold Record.markEnrolled
      split <;> exact h
    rw [if_neg h, if_neg hn]
    refine (run_bind_ok (withEnrolment_run hs h') _).trans ?_
    refine (toAction_run (Fetch.insert _) s).trans ?_
    rw [insert_run hs]
    rcases s.table.insert (s.enrolled r) with e | ⟨saved, completions⟩ <;> rfl

end Action

end CourseCompletion
