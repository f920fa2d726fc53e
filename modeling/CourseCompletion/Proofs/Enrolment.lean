import CourseCompletion.Proofs.Refusal
import CourseCompletion.Proofs.Sweep

/-!
# Enrolments

An enrolment is ignored for the first reason that applies to it, and starts its user if there is
none (`enrolment_starts_user_unless_ignored`):

* `IgnoreReason.order`   the reasons in the order in which they are looked for, and
  `IgnoreReason.applies` when each of them applies;
* `Record.joined`        the record of a user that is enrolled and started at a time;
* `Row.Joined`           what is left of a row when that record is evaluated and stored, and
  `Row.blank`            the row that stands for none;
* `Session.Starts`       what the enrolment leaves.

As the course tracks completion, the record is stored whether its criteria complete it or not.
-/

namespace CourseCompletion

/-! ## reasons to ignore an enrolment -/

namespace IgnoreReason

/-- the reasons in the order in which they are looked for -/
def order : List IgnoreReason :=
  [unknownCourse, unknownUser, completionDisabled, startOnEnrolDisabled]

/-- the reason applies to an enrolment, as the tables say -/
def applies (s : Store) (e : UserEnrolled) : IgnoreReason → Bool
  | unknownCourse => (s.course? e.course).isNone
  | unknownUser => (s.user? e.user).isNone
  | completionDisabled => !s.tracks e.course
  | startOnEnrolDisabled => (s.settings? e.course).any fun settings => !settings.startOnEnrol

end IgnoreReason

/-- An enrolment is ignored for the first reason that applies. -/
theorem Session.ignored?_eq_find? {s : Session} (hf : s.Faithful) (e : UserEnrolled) :
    s.ignored? e = IgnoreReason.order.find? (IgnoreReason.applies s.store e) := by
  unfold Session.ignored? Session.tracking? IgnoreReason.order
  rw [hf.settings?_eq]
  simp only [List.find?_cons, List.find?_nil, IgnoreReason.applies, Store.tracks]
  cases (s.store.course? e.course).isNone with
  | true => rfl
  | false =>
    cases (s.store.user? e.user).isNone with
    | true => rfl
    | false =>
      cases s.store.settings? e.course with
      | none => rfl
      | some settings =>
        obtain ⟨enabled, method, startOnEnrol⟩ := settings
        cases enabled <;> cases startOnEnrol <;> rfl

/-! ## times that are set if they were not -/

/-- the second of a column of times, or of another time where none is set -/
def columnOr (s : Int) (time : Instant) : Int := if 0 < s then s else time.seconds

theorem column_getD {s : Int} {o : Option Instant} (h : ofColumn s = .ok o) (time : Instant) :
    column (some (o.getD time)) = columnOr s time := by
  unfold columnOr
  rcases ofColumn_eq_ok_iff.1 h with ⟨hneg, rfl⟩ | ⟨hpos, t, rfl, ht, -⟩
  · rw [if_neg (by omega)]
    rfl
  · rw [if_pos hpos]
    exact ht

/-- A time that is set no later than another one is lowered to it only where it is not set. -/
theorem columnOr_min {s : Int} {u : Instant} (h : 0 < s → s ≤ u.seconds) (time : Instant) :
    columnOr s (min time u) = min (columnOr s time) u.seconds := by
  unfold columnOr
  rw [Instant.seconds_min]
  split
  · next hs =>
    have hle := h hs
    omega
  · rfl

namespace Record

theorem enrolled_markEnrolled (r : Record) (t : Instant) :
    (r.markEnrolled t).enrolled = some (r.enrolled.getD t) := by
  unfold markEnrolled isEnrolled
  cases h : r.enrolled with
  | none => rfl
  | some u => exact h

theorem started_markStarted (r : Record) (t : Instant) :
    (r.markStarted t).started = some (r.started.getD ((r.completed.map (min t)).getD t)) := by
  unfold markStarted isStarted
  cases h : r.started with
  | none => rfl
  | some u => exact h

/-- the record of a user that is enrolled and started at a time -/
def joined (r : Record) (time : Instant) : Record := (r.markEnrolled time).markStarted time

section

variable (r : Record) (time : Instant)

theorem key_joined : (r.joined time).key = r.key := by
  unfold joined
  rw [key_markStarted, key_markEnrolled]

theorem enrolled_joined : (r.joined time).enrolled = some (r.enrolled.getD time) := by
  have hstays : ∀ x : Record, (x.markStarted time).enrolled = x.enrolled := by
    intro x
    unfold markStarted
    split <;> rfl
  unfold joined
  rw [hstays, enrolled_markEnrolled]

theorem completed_joined : (r.joined time).completed = r.completed :=
  ((Grown.markEnrolled (K := False) r False.elim).trans (.markStarted _ time)).completed

theorem started_joined : (r.joined time).started =
    some (r.started.getD ((r.completed.map (min time)).getD time)) := by
  have hstays : (r.markEnrolled time).started = r.started ∧
      (r.markEnrolled time).completed = r.completed := by
    unfold markEnrolled
    split <;> exact ⟨rfl, rfl⟩
  unfold joined
  rw [started_markStarted, hstays.1, hstays.2]

theorem reaggregate_joined : (r.joined time).reaggregate = r.reaggregate := by
  unfold joined
  rw [Commit.reaggregate_markStarted, Commit.reaggregate_markEnrolled]

end

end Record

namespace Row

/-- the row that stands for none, where no time is set -/
def blank (k : Key) : Row := ⟨0, k.user, k.course, 0, 0, 0, 0, 0⟩

/-- the row holds the times of a record, under its key -/
structure Holds (row : Row) (r : Record) : Prop where
  key : r.key = row.key
  enrolled : ofColumn row.enrolled = .ok r.enrolled
  started : ofColumn row.started = .ok r.started
  completed : ofColumn row.completed = .ok r.completed
  reaggregate : ofColumn row.reaggregate = .ok r.reaggregate

end Row

theorem Key.Loads.holds {k : Key} {found : Option Row} {r : Record} (h : k.Loads found r) :
    (found.getD (.blank k)).Holds r := by
  cases found with
  | none =>
    obtain rfl : r = .new k := h
    exact ⟨rfl, rfl, rfl, rfl, rfl⟩
  | some row => exact ⟨h.2.key, h.2.enrolled, h.2.started, h.2.completed, h.2.reaggregate⟩

/-- what is left of a row by an enrolment at a time -/
structure Row.Joined (old : Row) (time : Instant) (row : Row) : Prop where
  enrolled : row.enrolled = columnOr old.enrolled time
  started : row.started =
    if 0 < row.completed then min (columnOr old.started time) row.completed
    else columnOr old.started time
  completed : 0 < old.completed → row.completed = old.completed
  reaggregate : row.reaggregate = max old.reaggregate 0

/-- The row of a user that is enrolled and started, and evaluated with that. -/
theorem Row.joined_reviewed {s : Session} (hnow : s.now.IsKnown) {old : Row} {r : Record}
    (h : old.Holds r) (ho : old.Ordered) (settings : TrackingSettings) (time : Instant) (id : Int)
    (version : Nat) :
    old.Joined time (.ofRecord (s.reviewed settings (r.joined time)) id version) := by
  have henrolled : column (r.joined time).enrolled = columnOr old.enrolled time := by
    rw [r.enrolled_joined, column_getD h.enrolled]
  have hreaggregate : column (r.joined time).reaggregate = max old.reaggregate 0 := by
    rw [r.reaggregate_joined, column_of_ofColumn h.reaggregate]
  have hcompleted := column_of_ofColumn h.completed
  rcases Session.reviewed_cases hnow settings (r.joined time) with hsame | ⟨hopen, t, ht, hdone⟩
  · rw [hsame]
    refine ⟨henrolled, ?_, fun hpos => ?_, hreaggregate⟩
    · show column (r.joined time).started = if 0 < column (r.joined time).completed then
        min (columnOr old.started time) (column (r.joined time).completed)
        else columnOr old.started time
      rw [r.started_joined, r.completed_joined, column_getD h.started, hcompleted]
      cases hc : r.completed with
      | none =>
        rw [hc, column_none] at hcompleted
        rw [if_neg (by omega)]
        rfl
      | some c =>
        have hset := isSome_of_column h.completed
        rw [hc] at hset
        have hpos : 0 < old.completed := by simpa using hset
        rw [hc, column_some] at hcompleted
        have hsecond : c.seconds = old.completed := by omega
        rw [if_pos (by omega), ← hcompleted]
        refine columnOr_min (fun hs => ?_) time
        rw [hsecond]
        exact ho hs hpos
    · show column (r.joined time).completed = old.completed
      rw [r.completed_joined, hcompleted]
      omega
  · rw [r.completed_joined] at hopen
    rw [hdone]
    refine ⟨henrolled, ?_, fun hpos => ?_, hreaggregate⟩
    · show column (some (((r.joined time).started.map (min · t)).getD t)) =
        if 0 < column (some t) then min (columnOr old.started time) (column (some t))
        else columnOr old.started time
      have hstart := column_getD h.started time
      rw [column_some] at hstart
      rw [r.started_joined, hopen, column_some, column_some, if_pos (show 0 < t.seconds from ht),
        ← hstart]
      exact Instant.seconds_min _ t
    · rw [hopen, column_none] at hcompleted
      omega

/-! ## enrolments -/

namespace Session

variable {s : Session} {k : Key} {r : Record} {settings : TrackingSettings}

/-- A user that joins is evaluated with the record that is loaded, and that is written in any
case. -/
theorem join_written (htrack : s.tracking? k.course = some settings)
    (hloads : k.Loads (s.table.row? k) r) (time : Instant) :
    ((Commit.join time).plan r s).written? = some (s.reviewed settings (r.joined time)) ∧
      ((Commit.join time).plan r s).completion?.isSome = s.completes settings (r.joined time) := by
  have hcourse : (r.joined time).course = k.course :=
    congrArg Key.course ((r.key_joined time).trans hloads.key)
  have hplan := aggregating_of_tracking (r := r.joined time) (hcourse ▸ htrack)
    (.leave .notApplicable)
  have henrolled : (s.reviewed settings (r.joined time)).isEnrolled = true := by
    unfold Record.isEnrolled
    rw [(s.reviewed_keeps settings _).2.2.2, r.enrolled_joined]
    rfl
  rw [enrolled_of_isEnrolled henrolled] at hplan
  exact hplan

theorem completes_joined (s : Session) (settings : TrackingSettings) (r : Record)
    (time : Instant) : s.completes settings (r.joined time) = s.completes settings r := by
  unfold completes Record.isComplete
  rw [r.completed_joined, r.key_joined]

/-- what the enrolment of a user at a time leaves: its row, and all other rows as they were -/
structure Starts (s : Session) (k : Key) (settings : TrackingSettings) (time : Instant)
    (o : Outcome) (s' : Session) : Prop where
  applicable : o ≠ .notApplicable
  completed : (∃ r, o = .completed r) ↔
    s.Completes settings ((s.table.row? k).getD (.blank k))
  row : ∃ row, s'.table.row? k = some row ∧ ((s.table.row? k).getD (.blank k)).Joined time row
  others : ∀ k', k' ≠ k → s'.table.row? k' = s.table.row? k'
  store : s'.store = { s.store with completions := s'.table }

end Session

theorem Row.Holds.completes_iff {row : Row} {r : Record} (h : row.Holds r) (s : Session)
    (settings : TrackingSettings) : s.completes settings r = true ↔ s.Completes settings row := by
  have hcomplete : r.isComplete = row.isComplete := isSome_of_column h.completed
  unfold Session.completes
  rw [hcomplete, h.key, Session.completes_iff, Bool.and_eq_true, Bool.not_eq_true']

theorem Outcome.justCompleted_iff {o : Outcome} :
    o.justCompleted = true ↔ ∃ r, o = .completed r := by
  cases o <;> simp [justCompleted]

namespace Action

variable {s : Session} {k : Key} {r : Record} {settings : TrackingSettings}

/-- A user joins: its record is loaded, and stored in any case. -/
theorem starts_load (hs : s.Calm) (hnow : s.now.IsKnown)
    (htrack : s.tracking? k.course = some settings) (hloads : k.Loads (s.table.row? k) r)
    (ho : ∀ row, s.table.row? k = some row → row.Ordered) (time : Instant) :
    ∃ o s', (load k >>= (Commit.join time).run).run s = (.ok o, s') ∧
      s.Starts k settings time o s' := by
  obtain ⟨hwritten, hcompletes⟩ := Session.join_written htrack hloads time
  have hholds := hloads.holds
  have hordered : ((s.table.row? k).getD (.blank k)).Ordered := by
    cases hrow : s.table.row? k with
    | none => exact fun hs _ => absurd hs (Int.lt_irrefl 0)
    | some row => exact ho row hrow
  rw [run_bind_ok (load_of_loads hs hloads)]
  rcases Commit.run_loaded hs (.join time) hloads (fun _ _ h => by cases h) with
    ⟨o, memory, hp, -⟩ | ⟨w, saved, t, memory, hw, hsave, hrun⟩
  · rw [hp] at hwritten
    cases hwritten
  · obtain rfl := Option.some.inj (hwritten.symm.trans hw)
    have hkey : (s.reviewed settings (r.joined time)).key = k :=
      (s.reviewed_keeps settings _).1.trans ((r.key_joined time).trans hloads.key)
    have hsaved := CompletionTable.saved_of_save hsave
    obtain ⟨id, hid⟩ := hsaved.saved_eq
    have hrow := (hsaved.row? k).trans (if_pos hkey.symm)
    rw [hid, CompletionTable.rowOf_storedAs] at hrow
    rw [Session.announcing_eq] at hrun
    refine ⟨_, _, hrun, ?_, ?_, ⟨_, hrow, ?_⟩, fun k' hk' => ?_, rfl⟩
    · intro hnot
      have happlies := Plan.isApplicable_outcome hw saved
      rw [hnot] at happlies
      cases happlies
    · rw [← Outcome.justCompleted_iff, Plan.justCompleted_outcome hw, hcompletes,
        Session.completes_joined]
      exact hholds.completes_iff s settings
    · exact Row.joined_reviewed hnow hholds hordered settings time id _
    · exact (hsaved.row? k').trans (if_neg (hkey.symm ▸ hk'))

end Action

/-- **An enrolment starts its user unless there is a reason to ignore it.**  It is ignored for the
first reason that applies, and then nothing changes that is stored or published.  Else it has an
answer, wherever the row of the user can be read and is in order or there is none, and the user is
enrolled and started at the time of the enrolment, or now: that time is taken for the times that
are not set, and a start is lowered to the completion. -/
theorem enrolment_starts_user_unless_ignored {s : Session} (hs : s.Calm) (hf : s.Faithful)
    (hnow : s.now.IsKnown) (e : UserEnrolled) :
    match IgnoreReason.order.find? (IgnoreReason.applies s.store e) with
    | some reason =>
      ∃ memory, (Action.userEnrolled e).run s = (.ok (.ignored reason), s.withMemory memory)
    | none =>
      (∀ row, s.table.row? e.key = some row → row.Readable ∧ row.Ordered) →
        ∃ settings o s', s.store.settings? e.course = some settings ∧
          (Action.userEnrolled e).run s = (.ok (.started o), s') ∧
          s.Starts e.key settings ((known? e.starts).getD s.now) o s' := by
  have hrun := Action.userEnrolled_eq hs e
  rw [s.ignored?_eq_find? hf e] at hrun
  cases hreason : IgnoreReason.order.find? (IgnoreReason.applies s.store e) with
  | some reason =>
    rw [hreason] at hrun
    exact hrun
  | none =>
    rw [hreason] at hrun
    intro hrow
    have htracks : s.store.tracks e.course = true := by
      have hnot := List.find?_eq_none.1 hreason .completionDisabled (by decide)
      simpa [IgnoreReason.applies] using hnot
    rw [← Action.tracking?_isSome hf] at htracks
    obtain ⟨settings, htrack⟩ := Option.isSome_iff_exists.1 htracks
    have hsettings : s.store.settings? e.course = some settings :=
      (hf.settings?_eq e.course).symm.trans (Option.filter_eq_some_iff.1 htrack).1
    obtain ⟨r, hloads⟩ := CompletionTable.exists_loads fun row h => (hrow row h).1
    have htrack' : (s.lookedUp e.course).tracking? e.key.course = some settings :=
      (Session.tracking?_congr (s.settings?_lookedUp e.course e.course)).trans htrack
    obtain ⟨o, s', hload, hstarts⟩ := Action.starts_load (s := s.lookedUp e.course) hs hnow htrack'
      hloads (fun row h => (hrow row h).2) ((known? e.starts).getD s.now)
    obtain ⟨happlicable, hcompleted, hrow', hothers, hstore⟩ := hstarts
    refine ⟨settings, o, s', hsettings, ?_, happlicable, hcompleted, hrow', hothers, hstore⟩
    rw [hrun, Action.run_map, hload]
    rfl

/-- an unknown user is ignored in a course that does not start users either; a known one, whose row
is complete without a start, is started at the completion -/
theorem start_lowered_to_completion :
    let row : Row := ⟨4, 3, 7, -5, 0, 120, 500, 2⟩
    let store : Store :=
      { Store.ofSnapshot { Snapshot.empty with completions := [row] } true with
        courses := [⟨7, "al", "algebra"⟩, ⟨8, "an", "analysis"⟩]
        users := [⟨3, "ada"⟩]
        settings := [⟨7, (TrackingSettings.on .all).withStartOnEnrol true⟩, ⟨8, .on .all⟩] }
    let s : Session := .start store ⟨900, 20, by decide, by decide⟩
    (∃ memory, (Action.userEnrolled ⟨5, 8, none⟩).run s =
      (.ok (.ignored .unknownUser), s.withMemory memory)) ∧
    ∃ o s' after, (Action.userEnrolled ⟨3, 7, some ⟨150, 7, by decide, by decide⟩⟩).run s =
        (.ok (.started o), s') ∧ (¬∃ r, o = .completed r) ∧
      s'.table.row? ⟨3, 7⟩ = some after ∧ after.enrolled = 150 ∧ after.started = 120 ∧
      after.completed = 120 ∧ after.reaggregate = 500 := by
  intro row store s
  have hf : s.Faithful := .of_nil rfl
  have hignored := enrolment_starts_user_unless_ignored (s := s) rfl hf (by decide) ⟨5, 8, none⟩
  rw [show IgnoreReason.order.find? (IgnoreReason.applies s.store ⟨5, 8, none⟩) =
    some .unknownUser by decide] at hignored
  let e : UserEnrolled := ⟨3, 7, some ⟨150, 7, by decide, by decide⟩⟩
  have hstarted := enrolment_starts_user_unless_ignored (s := s) rfl hf (by decide) e
  rw [show IgnoreReason.order.find? (IgnoreReason.applies s.store e) = none by decide] at hstarted
  have hrow : s.table.row? e.key = some row := by decide
  obtain ⟨settings, o, s', -, hrun, hstarts⟩ := hstarted fun row' h => by
    obtain rfl := Option.some.inj (hrow.symm.trans h)
    exact ⟨by decide, fun hs => absurd hs (by decide)⟩
  obtain ⟨after, hafter, hjoined⟩ := hstarts.row
  have hcompleted := hstarts.completed
  rw [hrow] at hjoined hcompleted
  have hdone : after.completed = 120 := hjoined.completed (by decide)
  have hstart := hjoined.started
  rw [hdone] at hstart
  refine ⟨hignored, o, s', after, hrun, ?_, hafter, hjoined.enrolled, hstart, hdone,
    hjoined.reaggregate⟩
  rw [hcompleted]
  exact fun h => absurd h.1 (by decide)

end CourseCompletion
