import CourseCompletion.Proofs.Progress

/-!
# What commits do to rows

* `Commit.run_cases`    a commit leaves the table alone, is refused, or stores what it decided to,
                        and is not refused if its record is as old as its row (`run_loaded`);
* `Commit.Effect`       what a commit does to the row of its key, and what it publishes about it.

A row that is there stays, and what is left of it is `Row.Rewritten` (`Effect.of_some`); a new one
is an enrolment (`Effect.of_none`).  A completion is published when an incomplete row becomes
complete, and only then (`Effect.count`).
-/

namespace CourseCompletion

/-! ## completions among events -/

def completionsIn (events : List Event) : List Completion := events.filterMap Event.completion?

/-- the completions of a key that events tell of -/
def completionsOf (k : Key) (events : List Event) : List Completion :=
  (completionsIn events).filter (·.key = k)

theorem completionsIn_append (as bs : List Event) :
    completionsIn (as ++ bs) = completionsIn as ++ completionsIn bs := List.filterMap_append

theorem completionsOf_append (k : Key) (as bs : List Event) :
    completionsOf k (as ++ bs) = completionsOf k as ++ completionsOf k bs := by
  unfold completionsOf
  rw [completionsIn_append, List.filter_append]

theorem mem_completionsOf {k : Key} {c : Completion} {events : List Event} :
    c ∈ completionsOf k events ↔ c ∈ completionsIn events ∧ c.key = k := by
  unfold completionsOf
  rw [List.mem_filter]
  simp

/-! ## the ways in which a commit can end -/

namespace Plan

/-- the answer when what is to be written is refused -/
def refused : Plan → SourceError → Except ServiceError Outcome
  | first _, _ => .ok .notApplicable
  | _, e => .error e.toServiceError

/-- the outcome when what is to be written is stored -/
def outcome : Plan → Record → Outcome
  | leave o, _ => o
  | store _, saved => .stored saved
  | finish _ _, saved => .completed saved
  | first _, saved => .saved saved

theorem justCompleted_outcome {p : Plan} {w : Record} (hw : p.written? = some w)
    (saved : Record) : (p.outcome saved).justCompleted = p.completion?.isSome := by
  cases p with
  | leave o => cases hw
  | store w' => exact Outcome.justCompleted_stored saved
  | finish w' c => rfl
  | first w' => rfl

/-- What is stored is not passed over. -/
theorem isApplicable_outcome {p : Plan} {w : Record} (hw : p.written? = some w)
    (saved : Record) : (p.outcome saved).isApplicable = true := by
  cases p with
  | leave o => cases hw
  | store w' =>
    show (Outcome.stored saved).isApplicable = true
    unfold Outcome.stored
    split <;> rfl
  | finish w' c | first w' => rfl

end Plan

namespace Session

/-- the session after a completion was published, if there is one -/
def announcing (s : Session) (c : Option Completion) : Session := c.elim s s.announced

/-- the events that tell of a completion, if there is one -/
def news (s : Session) (c : Option Completion) : List Event :=
  (c.map fun c => Event.courseCompleted ⟨c, s.nextEventId⟩).toList

variable {s : Session}

theorem published_announcing (s : Session) (c : Option Completion) :
    (s.announcing c).published = s.published ++ s.news c := by
  cases c with
  | none => exact (List.append_nil _).symm
  | some c => rfl

theorem announcing_eq (s : Session) (c : Option Completion) :
    s.announcing c = { s with published := s.published ++ s.news c } := by
  rw [← published_announcing]
  cases c <;> rfl

theorem completions_news (s : Session) (c : Option Completion) :
    completionsIn (s.news c) = c.toList := by
  cases c <;> rfl

theorem completionsOf_news (s : Session) {c : Option Completion} {k : Key}
    (hk : ∀ x ∈ c, x.key = k) (k' : Key) :
    completionsOf k' (s.news c) = if k' = k then c.toList else [] := by
  unfold completionsOf
  rw [completions_news]
  cases c with
  | none => split <;> rfl
  | some x =>
    have hx : x.key = k := hk x rfl
    by_cases hk' : k' = k
    · simp [hx, hk']
    · simp [hx, hk', Ne.symm hk']

end Session

namespace Commit

/-- **A commit leaves the table as it is, is refused, or stores what it decided to write** and
publishes the completion that belongs to it. -/
theorem run_cases {s : Session} (hs : s.Calm) (m : Commit) (r : Record) :
    (∃ o memory, m.plan r s = .leave o ∧ (m.run r).run s = (.ok o, s.withMemory memory)) ∨
    (∃ w e memory, (m.plan r s).written? = some w ∧ s.table.save w = .error e ∧
      (m.run r).run s = ((m.plan r s).refused e, s.withMemory memory)) ∨
    (∃ w saved t memory, (m.plan r s).written? = some w ∧ s.table.save w = .ok (saved, t) ∧
      (m.run r).run s = (.ok ((m.plan r s).outcome saved),
        ((s.withMemory memory).withTable t).announcing (m.plan r s).completion?)) := by
  obtain ⟨memory, hrun⟩ := m.run_eq hs r
  rw [hrun]
  have htable : (s.withMemory memory).table = s.table := rfl
  cases hp : m.plan r s with
  | leave o => exact .inl ⟨o, memory, rfl, rfl⟩
  | store w =>
    refine .inr ?_
    cases hsave : s.table.save w with
    | error e => exact .inl ⟨w, e, memory, rfl, hsave, Plan.run_store_error (htable ▸ hsave)⟩
    | ok q => exact .inr ⟨w, q.1, q.2, memory, rfl, hsave, Plan.run_store_ok (htable ▸ hsave)⟩
  | finish w c =>
    refine .inr ?_
    cases hsave : s.table.save w with
    | error e => exact .inl ⟨w, e, memory, rfl, hsave, Plan.run_finish_error c (htable ▸ hsave)⟩
    | ok q => exact .inr ⟨w, q.1, q.2, memory, rfl, hsave, Plan.run_finish_ok c (htable ▸ hsave)⟩
  | first w =>
    refine .inr ?_
    cases hsave : s.table.save w with
    | error e => exact .inl ⟨w, e, memory, rfl, hsave, Plan.run_first_error (htable ▸ hsave)⟩
    | ok q => exact .inr ⟨w, q.1, q.2, memory, rfl, hsave, Plan.run_first_ok (htable ▸ hsave)⟩

/-- **A commit of a record that is as old as its row is never refused.** -/
theorem run_loaded {s : Session} (hs : s.Calm) (m : Commit) {k : Key} {r : Record}
    (hr : k.Loads (s.table.row? k) r) (hfirst : ∀ e b, m = first e b → r = .new r.key) :
    (∃ o memory, m.plan r s = .leave o ∧ (m.run r).run s = (.ok o, s.withMemory memory)) ∨
    (∃ w saved t memory, (m.plan r s).written? = some w ∧ s.table.save w = .ok (saved, t) ∧
      (m.run r).run s = (.ok ((m.plan r s).outcome saved),
        ((s.withMemory memory).withTable t).announcing (m.plan r s).completion?)) := by
  rcases run_cases hs m r with hleft | ⟨w, e, memory, hw, he, -⟩ | hwritten
  · exact .inl hleft
  · -- a refusal would need a record that is older than its row
    have hplan := continues (K := False) False.elim (s := s) False.elim r hfirst
    have hp := hplan.progress w hw
    obtain ⟨saved, t, hsave⟩ := hr.exists_save (hp.key.trans hr.key) hp.isStored hp.version
    rw [he] at hsave
    cases hsave
  · exact .inr hwritten

/-- a plan that publishes no completion tells of none -/
theorem justCompleted_of_run {s s' : Session} (hs : s.Calm) {m : Commit} {r : Record} {o : Outcome}
    (hrun : (m.run r).run s = (.ok o, s')) (hquiet : ∀ o, m.plan r s = .leave o →
      o.justCompleted = false) (hp : (m.plan r s).completion? = none) :
    o.justCompleted = false := by
  rcases run_cases hs m r with ⟨o', memory, hplan, h⟩ | ⟨w, e, memory, hw, -, h⟩ |
    ⟨w, saved, t, memory, hw, -, h⟩
  · obtain rfl := Except.ok.inj (congrArg Prod.fst (hrun.symm.trans h))
    exact hquiet _ hplan
  · have ho := congrArg Prod.fst (hrun.symm.trans h)
    cases hplan : m.plan r s with
    | first w =>
      rw [hplan] at ho
      rw [Except.ok.inj ho]
      rfl
    | leave o | store w | finish w c =>
      rw [hplan] at ho
      cases ho
  · obtain rfl := Except.ok.inj (congrArg Prod.fst (hrun.symm.trans h))
    rw [Plan.justCompleted_outcome hw, hp]
    rfl

theorem justCompleted_flag {s s' : Session} (hs : s.Calm) {t : Instant} {r : Record} {o : Outcome}
    (hrun : ((flag t).run r).run s = (.ok o, s')) : o.justCompleted = false :=
  justCompleted_of_run hs hrun (fun _ h => by cases h) rfl

theorem justCompleted_first {s s' : Session} (hs : s.Calm) {earliest : Option Instant}
    {startOnEnrol : Bool} {r : Record} {o : Outcome}
    (hrun : ((first earliest startOnEnrol).run r).run s = (.ok o, s')) : o.justCompleted = false :=
  justCompleted_of_run hs hrun (fun _ h => by cases h) rfl

/-! ## one row -/

/-- What a commit does to the row of its key, and the completions that it publishes: nothing, or one
record is written that follows from the row. -/
inductive Effect (m : Commit) (now : Instant) (k : Key) (o : Option Row) :
    Option Row → List Completion → Prop
  | left : Effect m now k o o []
  | wrote {r w : Record} {c : Option Completion} {id : Int} (loads : k.Loads o r)
      (progress : r.Progress True now w c) (flag : w.reaggregate = m.flagged r)
      (enrolled : o = none → w.isEnrolled = true) (number : ∀ row ∈ o, id = row.id) :
      Effect m now k o (some (.ofRecord w id ((o.map Row.version).getD 0 + 1))) c.toList

end Commit

/-! ### what is left of a row -/

namespace Row

/-- What is left of a row that was written over: its number, the next version, and the times that
were set, but for a start that a completion takes the place of. -/
structure Rewritten (row row' : Row) : Prop where
  id : row'.id = row.id
  version : row'.version = row.version + 1
  enrolled : 0 < row.enrolled → row'.enrolled = row.enrolled
  completed : 0 < row.completed → row'.completed = row.completed
  started : 0 < row.started → row'.started =
    if row.completed ≤ 0 ∧ 0 < row'.completed then min row.started row'.completed else row.started
  ordered : row.Ordered → row'.Ordered

variable {row : Row} {r w : Record} {now : Instant} {c : Option Completion}

theorem rewritten_of_progress (hread : row.Reads r) (h : r.Progress True now w c) :
    row.Rewritten (.ofRecord w row.id (row.version + 1)) where
  id := rfl
  version := rfl
  enrolled he := by
    obtain ⟨t, ht, hs, -⟩ := eq_some_of_column hread.enrolled he
    show column w.enrolled = _
    rw [h.enrolled ht]
    exact hs
  completed hc := by
    obtain ⟨t, ht, hs, -⟩ := eq_some_of_column hread.completed hc
    show column w.completed = _
    cases c with
    | none =>
      rw [h.completed_none, ht]
      exact hs
    | some x =>
      rw [h.completed_some.1] at ht
      cases ht
  started hs := by
    obtain ⟨t, ht, hts, -⟩ := eq_some_of_column hread.started hs
    show column w.started = if row.completed ≤ 0 ∧ 0 < column w.completed then
      min row.started (column w.completed) else row.started
    rw [h.started ht]
    cases c with
    | none =>
      -- the column of the completion is as it was, so it was not set just now
      rw [h.completed_none, column_of_ofColumn hread.completed, if_neg (by omega)]
      exact hts
    | some x =>
      obtain ⟨hopen, hcomplete, hknown⟩ := h.completed_some
      have hrow : row.completed ≤ 0 := by
        have hc := isSome_of_column hread.completed
        rw [hopen] at hc
        simpa using hc
      rw [hcomplete, column_some, if_pos ⟨hrow, hknown⟩, ← hts]
      exact Instant.seconds_min t x.completed
  ordered ho := ordered_ofRecord (h.ordered (hread.ordered ho)) _ _

end Row

namespace Commit

/-- the column of the flag that the commit leaves in a row -/
def flagColumn (m : Commit) (row : Row) : Int :=
  match m with
  | flag time => time.seconds
  | sweep => 0
  | _ => max row.reaggregate 0

theorem column_flagged (m : Commit) {row : Row} {r : Record} (h : row.Reads r) :
    column (m.flagged r) = m.flagColumn row := by
  cases m with
  | flag time => rfl
  | sweep => rfl
  | enrol _ | start _ | complete _ | aggregate | join _ | first _ _ =>
    exact column_of_ofColumn h.reaggregate

namespace Effect

variable {m : Commit} {now : Instant} {k : Key} {o o' : Option Row} {row : Row}
  {cs : List Completion}

/-- A row that is there is left alone or written over. -/
theorem of_some (h : m.Effect now k (some row) o' cs) :
    o' = some row ∨
      ∃ row', o' = some row' ∧ row.Rewritten row' ∧ row'.reaggregate = m.flagColumn row := by
  cases h with
  | left => exact .inl rfl
  | @wrote r w c id loads progress flag enrolled number =>
    obtain rfl : id = row.id := number row rfl
    refine .inr ⟨_, rfl, Row.rewritten_of_progress loads.2 progress, ?_⟩
    show column w.reaggregate = _
    rw [flag, column_flagged m loads.2]

/-- A row that is new is an enrolment. -/
theorem of_none (h : m.Effect now k none o' cs) :
    o' = none ∨ ∃ row', o' = some row' ∧ row'.version = 1 ∧ 0 < row'.enrolled ∧ row'.Ordered := by
  cases h with
  | left => exact .inl rfl
  | @wrote r w c id loads progress flag enrolled number =>
    obtain rfl : r = .new k := loads
    refine .inr ⟨_, rfl, rfl, ?_, ?_⟩
    · obtain ⟨t, ht⟩ := Option.isSome_iff_exists.1 (enrolled rfl)
      show 0 < column w.enrolled
      rw [ht]
      rcases progress.isKnown_enrolled ht with hnew | hknown
      · cases hnew
      · exact hknown
    · refine Row.ordered_ofRecord (progress.ordered ?_) _ _
      intro t u ht
      cases ht

/-- **A completion is published when an incomplete row becomes complete, and only then.** -/
theorem count (h : m.Effect now k o o' cs) :
    (o'.any Row.isComplete).toNat = (o.any Row.isComplete).toNat + cs.length := by
  cases h with
  | left => rfl
  | @wrote r w c id loads progress flag enrolled number =>
    have hr : o.any Row.isComplete = r.isComplete := by
      cases o with
      | none => exact (congrArg Record.isComplete loads).symm
      | some row => exact loads.2.isComplete.symm
    rw [hr]
    show (decide (0 < column w.completed)).toNat = _
    cases c with
    | none =>
      rw [progress.completed_none]
      cases o with
      | none =>
        obtain rfl : r = .new k := loads
        rfl
      | some row =>
        rw [column_of_ofColumn loads.2.completed, loads.2.isComplete]
        have hmax : 0 < max row.completed 0 ↔ 0 < row.completed := by omega
        simp [hmax, Row.isComplete]
    | some x =>
      obtain ⟨hopen, hcomplete, hknown⟩ := progress.completed_some
      have hnot : r.isComplete = false := by rw [Record.isComplete, hopen]; rfl
      have hpos : 0 < column w.completed := by rw [hcomplete]; exact hknown
      rw [hnot, decide_eq_true hpos]
      rfl

/-- A completion that is published tells what the row holds. -/
theorem completion (h : m.Effect now k o o' cs) {c : Completion} (hc : c ∈ cs) :
    c.key = k ∧ c.occurred = now ∧
      ∃ row', o' = some row' ∧ 0 < row'.completed ∧ row'.completed = c.completed.seconds := by
  cases h with
  | left => cases hc
  | @wrote r w x id loads progress flag enrolled number =>
    obtain rfl : x = some c := by simpa using hc
    obtain ⟨-, hcomplete, hknown⟩ := progress.completed_some
    refine ⟨progress.key_completion.trans loads.key, progress.occurred_completion, _, rfl, ?_⟩
    show 0 < column w.completed ∧ column w.completed = _
    rw [hcomplete]
    exact ⟨hknown, rfl⟩

end Effect

end Commit

end CourseCompletion
