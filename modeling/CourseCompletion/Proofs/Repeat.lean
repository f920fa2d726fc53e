import CourseCompletion.Proofs.Commuting
import CourseCompletion.Proofs.Readback
import CourseCompletion.Proofs.Untracked

/-!
# Operations that are repeated

An operation on one record that is called again, at another time and by another clock, finds all
that it would do done.  It stores the record as it is or leaves it alone, so the version of its row
is all that can change (`repeated_operation_changes_version_only`):

* `Operation.Again`     the same operation on the same record, at another time;
* `Session.RuledAs`     another session with the same settings and tables, but for completions;
* `Plan.Quiet`          to store a record as it is, or to leave it alone;
* `Session.Touches`     nothing changes but the version of one row.

The second call reads a row in whole seconds, and decides for itself; that its decision is quiet
follows from what the first one wrote (`Commit.quiet_of_written`) or left alone
(`Commit.quiet_of_left`).
-/

namespace CourseCompletion

/-! ## the same again -/

/-- a commit again, at another time -/
inductive Commit.Again : Commit → Commit → Prop
  | enrol (time time' : Option Instant) : Again (enrol time) (enrol time')
  | start (time time' : Option Instant) : Again (start time) (start time')
  | complete (time time' : Option Instant) : Again (complete time) (complete time')
  | aggregate : Again aggregate aggregate
  | join (time time' : Instant) : Again (join time) (join time')

/-- an operation on the record of a key again, at another time -/
inductive Operation.Again (k : Key) : Operation → Operation → Prop
  | markEnrolled (time time' : Option Instant) :
      Again k (markEnrolled k time) (markEnrolled k time')
  | markStarted (time time' : Option Instant) : Again k (markStarted k time) (markStarted k time')
  | markComplete (time time' : Option Instant) :
      Again k (markComplete k time) (markComplete k time')
  | aggregate : Again k (aggregate k) (aggregate k)
  | userEnrolled (time time' : Option Instant) :
      Again k (userEnrolled ⟨k.user, k.course, time⟩) (userEnrolled ⟨k.user, k.course, time'⟩)

/-- two sessions with the same settings, whose stores differ in completions only -/
structure Session.RuledAs (s s' : Session) : Prop where
  store : s'.store = { s.store with completions := s'.table }
  settings? : ∀ course, s'.settings? course = s.settings? course

namespace Session.RuledAs

variable {s s' : Session}

theorem tracking? (h : s.RuledAs s') (course : Int) : s'.tracking? course = s.tracking? course :=
  tracking?_congr (h.settings? course)

theorem criteriaFor (h : s.RuledAs s') (k : Key) :
    s'.store.criteriaFor k = s.store.criteriaFor k := by
  rw [h.store]
  rfl

theorem ignored? (h : s.RuledAs s') {e e' : UserEnrolled} (hkey : e'.key = e.key) :
    s'.ignored? e' = s.ignored? e := by
  obtain ⟨huser, hcourse⟩ := Key.mk.inj hkey
  unfold Session.ignored?
  rw [huser, hcourse, h.tracking?, h.store]
  rfl

theorem lookedUp (h : s.RuledAs s') (course : Int) :
    (s.lookedUp course).RuledAs (s'.lookedUp course) where
  store := h.store
  settings? course' := by
    rw [s'.settings?_lookedUp, s.settings?_lookedUp]
    exact h.settings? course'

end Session.RuledAs

/-! ## plans that are quiet -/

/-- The plan stores a record as it is, or leaves it alone without completing it. -/
inductive Plan.Quiet (x : Record) : Plan → Prop
  | store : Quiet x (.store x)
  | leave {o : Outcome} (ho : o.justCompleted = false) : Quiet x (.leave o)

namespace Record

variable {r w : Record}

theorem markEnrolled_of_isEnrolled (h : r.isEnrolled = true) (t : Instant) :
    r.markEnrolled t = r := if_pos h

theorem markStarted_of_isStarted (h : r.isStarted = true) (t : Instant) :
    r.markStarted t = r := if_pos h

theorem isEnrolled_markEnrolled (r : Record) (t : Instant) :
    (r.markEnrolled t).isEnrolled = true := by
  by_cases h : r.isEnrolled
  · rw [markEnrolled_of_isEnrolled h, h]
  · unfold markEnrolled
    rw [if_neg h]
    rfl

theorem isStarted_markStarted (r : Record) (t : Instant) :
    (r.markStarted t).isStarted = true := by
  by_cases h : r.isStarted
  · rw [markStarted_of_isStarted h, h]
  · unfold markStarted
    rw [if_neg h]
    rfl

theorem isComplete_markEnrolled (r : Record) (t : Instant) :
    (r.markEnrolled t).isComplete = r.isComplete := by
  unfold markEnrolled
  split <;> rfl

theorem isComplete_markStarted (r : Record) (t : Instant) :
    (r.markStarted t).isComplete = r.isComplete := by
  unfold markStarted
  split <;> rfl

/-- What is written over a record is enrolled if that was. -/
theorem Progress.isEnrolled {K : Prop} {now : Instant} {c : Option Completion}
    (h : r.Progress K now w c) (hr : r.isEnrolled = true) : w.isEnrolled = true := by
  obtain ⟨t, ht⟩ := Option.isSome_iff_exists.1 hr
  exact Option.isSome_iff_exists.2 ⟨t, h.enrolled ht⟩

/-- What is written over a record is started if that was. -/
theorem Progress.isStarted {K : Prop} {now : Instant} {c : Option Completion}
    (h : r.Progress K now w c) (hr : r.isStarted = true) : w.isStarted = true := by
  obtain ⟨t, ht⟩ := Option.isSome_iff_exists.1 hr
  exact Option.isSome_iff_exists.2 ⟨_, h.started ht⟩

/-- a stored record that stands where another was written -/
structure Stands (x w : Record) : Prop where
  key : x.key = w.key
  isStored : x.isStored = true
  isEnrolled : x.isEnrolled = w.isEnrolled
  isStarted : x.isStarted = w.isStarted
  isComplete : x.isComplete = w.isComplete

/-- the record that a row reads as, for the one that was written to it -/
theorem stands_wholeSeconds (w : Record) (id : Int) (version : Nat) :
    (w.storedAs id version).wholeSeconds.Stands w where
  key := rfl
  isStored := rfl
  isEnrolled := Option.isSome_map
  isStarted := Option.isSome_map
  isComplete := Option.isSome_map

end Record

namespace Session

variable {s s' : Session} {r w x : Record} {p p' : Plan}

/-- A complete record is not completed again. -/
theorem completing_of_isComplete (hr : r.isComplete = true) (time : Option Instant) :
    s.completing r time = .leave (.alreadyComplete r) := by
  have hnone : r.completion? ((known? time).getD s.now) = none := if_pos hr
  unfold completing
  simp only [hnone]

/-- A record that is completed is written complete. -/
theorem isComplete_of_completing {time : Option Instant}
    (hw : (s.completing r time).written? = some w) : w.isComplete = true := by
  unfold completing at hw
  cases hc : r.completion? ((known? time).getD s.now) with
  | none =>
    simp only [hc] at hw
    cases hw
  | some c =>
    simp only [hc] at hw
    obtain rfl := Option.some.inj hw
    rw [Action.isComplete_enrolled]
    unfold Record.isComplete
    rw [Record.completed_markComplete]
    rfl

/-- What was written is not written otherwise when it is aggregated again: it is complete, or its
course does not track completion, or its criteria did not say that it is. -/
theorem quiet_aggregating (h : s.RuledAs s') (hw : (s.aggregating r p).written? = some w)
    (hkey : x.key = r.key) (hx : x.Stands w) (hp' : p'.Quiet x) :
    (s'.aggregating x p').Quiet x := by
  have hstore : (Plan.store (s'.enrolled x)).Quiet x := by
    rw [enrolled_of_isStored hx.isStored]
    exact .store
  have hcourse : x.course = r.course := congrArg Key.course hkey
  unfold aggregating at hw ⊢
  by_cases hc : x.isComplete
  · rw [if_pos hc]
    exact hstore
  rw [if_neg hc, hcourse, h.tracking?]
  rw [hx.isComplete] at hc
  split at hw
  · next hr =>
    obtain rfl := Option.some.inj hw
    exact absurd ((Action.isComplete_enrolled s r).trans hr) hc
  · cases ht : s.tracking? r.course with
    | none => exact hp'
    | some settings =>
      rw [ht] at hw
      simp only [Option.elim_some, evaluating, hkey, h.criteriaFor] at hw ⊢
      split at hw
      · exact absurd (isComplete_of_completing hw) hc
      · next hnot =>
        rw [if_neg hnot]
        exact hstore

end Session

namespace Commit

variable {s s' : Session} {m m' : Commit} {r w x : Record}

/-- To read what a commit wrote and commit it again is quiet. -/
theorem quiet_of_written (h : s.RuledAs s') (hagain : m.Again m')
    (hw : (m.plan r s).written? = some w) (hx : x.Stands w) : (m'.plan x s').Quiet x := by
  have hkey : x.key = r.key := by
    refine hx.key.trans ((continues (K := False) False.elim False.elim r ?_).progress w hw).key
    rintro _ _ rfl
    cases hagain
  have hstore : (Plan.store (s'.enrolled x)).Quiet x := by
    rw [Session.enrolled_of_isStored hx.isStored]
    exact .store
  cases hagain with
  | enrol time time' =>
    have hp := (Session.aggregating_continues (K := False) False.elim _
      (Session.store_continues False.elim _)).progress w hw
    have hsame := Record.markEnrolled_of_isEnrolled
      (hx.isEnrolled.trans (hp.isEnrolled (r.isEnrolled_markEnrolled _)))
    simp only [plan, hsame]
    exact Session.quiet_aggregating h hw (hkey.trans (r.key_markEnrolled _).symm) hx hstore
  | start time time' =>
    have hp := (Session.aggregating_continues (K := False) False.elim _
      (Session.store_continues False.elim _)).progress w hw
    have hsame := Record.markStarted_of_isStarted
      (hx.isStarted.trans (hp.isStarted (r.isStarted_markStarted _)))
    simp only [plan, hsame]
    exact Session.quiet_aggregating h hw (hkey.trans (r.key_markStarted _).symm) hx hstore
  | complete time time' =>
    have hcomplete := hx.isComplete.trans (Session.isComplete_of_completing hw)
    simp only [plan, Session.completing_of_isComplete hcomplete]
    exact .leave rfl
  | aggregate => exact Session.quiet_aggregating h hw hkey hx (.leave rfl)
  | join time time' =>
    have hp := (Session.aggregating_continues (K := False) False.elim
      ((r.markEnrolled time).markStarted time) .leave_notApplicable).progress w hw
    have hgrown := hp.after_grown (.markStarted _ time)
    have henrolled := Record.markEnrolled_of_isEnrolled
      (hx.isEnrolled.trans (hgrown.isEnrolled (r.isEnrolled_markEnrolled time)))
    have hstarted := Record.markStarted_of_isStarted
      (hx.isStarted.trans (hp.isStarted ((r.markEnrolled time).isStarted_markStarted time)))
    simp only [plan, henrolled, hstarted]
    refine Session.quiet_aggregating h hw ?_ hx (.leave rfl)
    rw [Record.key_markStarted, Record.key_markEnrolled, hkey]

/-- A commit that left a record alone leaves it alone again. -/
theorem quiet_of_left (h : s.RuledAs s') (hagain : m.Again m') {o : Outcome}
    (hleft : m.plan r s = .leave o) :
    ∃ o', m'.plan r s' = .leave o' ∧ o'.justCompleted = false := by
  have haggregating : ∀ x : Record, x.isComplete = r.isComplete → x.course = r.course →
      r.isComplete = false → s.tracking? r.course = none →
        s'.aggregating x (.leave .notApplicable) = .leave .notApplicable := by
    intro x hx hcourse hr ht
    unfold Session.aggregating
    rw [if_neg (by simp [hx, hr]), hcourse, h.tracking?, ht]
    rfl
  cases hagain with
  | enrol time time' | start time time' => cases (Session.left_aggregating hleft).2.2
  | complete time time' =>
    exact ⟨_, Session.completing_of_isComplete (Session.left_completing hleft).2 time', rfl⟩
  | aggregate =>
    obtain ⟨hr, ht, -⟩ := Session.left_aggregating hleft
    exact ⟨_, haggregating r rfl rfl hr ht, rfl⟩
  | join time time' =>
    have hsame : ∀ t : Instant, ((r.markEnrolled t).markStarted t).isComplete = r.isComplete ∧
        ((r.markEnrolled t).markStarted t).course = r.course := by
      intro t
      refine ⟨?_, ?_⟩
      · rw [Record.isComplete_markStarted, Record.isComplete_markEnrolled]
      · show ((r.markEnrolled t).markStarted t).key.course = r.key.course
        rw [Record.key_markStarted, Record.key_markEnrolled]
    obtain ⟨hr, ht, -⟩ := Session.left_aggregating hleft
    rw [(hsame time).1] at hr
    rw [(hsame time).2] at ht
    exact ⟨_, haggregating _ (hsame time').1 (hsame time').2 hr ht, rfl⟩

end Commit

/-! ## what a quiet commit does -/

/-- nothing changes but the version of the row of a key -/
structure Session.Touches (s : Session) (k : Key) (s' : Session) : Prop where
  published : s'.published = s.published
  store : s'.store = { s.store with completions := s'.table }
  locking : s'.table.locking = s.table.locking
  lastId : s'.table.lastId = s.table.lastId
  rows : ∃ version, ∀ k', s'.table.row? k' =
    if k' = k then (s.table.row? k).map ({ · with version }) else s.table.row? k'

namespace Session.Touches

variable {s : Session} {k : Key}

/-- no row changes at all -/
theorem memory (s : Session) (k : Key) (memory : List CourseSettings) :
    s.Touches k (s.withMemory memory) := by
  refine ⟨rfl, rfl, rfl, rfl, ((s.table.row? k).map Row.version).getD 0, fun k' => ?_⟩
  show s.table.row? k' = _
  split
  · next hk =>
    rw [hk]
    cases s.table.row? k <;> rfl
  · rfl

theorem of_withMemory {memory : List CourseSettings} {s' : Session}
    (h : (s.withMemory memory).Touches k s') : s.Touches k s' :=
  ⟨h.published, h.store, h.locking, h.lastId, h.rows⟩

end Session.Touches

/-- A row that a record with known times was written to is stored again as it is. -/
theorem Record.Known.restored {r : Record} (h : r.Known) (id : Int) (version : Nat) :
    (Row.ofRecord r id version).restored =
      { Row.ofRecord r id version with version := version + 1 } := by
  have hcolumn : ∀ {o : Option Instant}, (∀ t, o = some t → t.IsKnown) →
      max (column o) 0 = column o := by
    intro o ho
    rw [← column_of_ofColumn (ofColumn_of_known ho)]
    cases o <;> rfl
  unfold Row.restored Row.cleared Row.ofRecord
  simp only [hcolumn h.enrolled, hcolumn h.started, hcolumn h.completed, hcolumn h.reaggregate]

namespace Commit

variable {s s' : Session} {m : Commit} {k : Key} {r w : Record}

/-- A commit that leaves its record alone changes no row. -/
theorem touches_of_left (hs : s.Calm) {o : Outcome} (hp : m.plan r s = .leave o) (k : Key) :
    ∃ s', (m.run r).run s = (.ok o, s') ∧ s.Touches k s' := by
  obtain ⟨memory, hrun⟩ := m.run_eq hs r
  rw [hp] at hrun
  exact ⟨_, hrun, .memory s k memory⟩

/-- A quiet commit of a record that is as it was written changes the version of its row only. -/
theorem touches_of_quiet (hs : s.Calm) {id : Int} {version : Nat} (hw : w.Known)
    (hrow : s.table.row? k = some (.ofRecord w id version))
    (hq : (m.plan (w.storedAs id version).wholeSeconds s).Quiet
      (w.storedAs id version).wholeSeconds) :
    ∃ o s', (m.run (w.storedAs id version).wholeSeconds).run s = (.ok o, s') ∧
      o.justCompleted = false ∧ s.Touches k s' := by
  generalize hx : (w.storedAs id version).wholeSeconds = x at hq
  have hread : (Row.ofRecord w id version).Reads x := hx ▸ hw.reads id version
  cases hplan : m.plan x s with
  | leave o =>
    rw [hplan] at hq
    obtain ⟨s', hrun, htouches⟩ := touches_of_left hs hplan k
    cases hq with
    | leave ho => exact ⟨o, s', hrun, ho, htouches⟩
  | store y =>
    rw [hplan] at hq
    cases hq
    obtain ⟨saved, t, hsave, hrows⟩ := CompletionTable.save_read hrow hread
    obtain ⟨memory, hrun⟩ := m.run_eq hs x
    rw [hplan, Plan.run_store_ok (s := s.withMemory memory) hsave] at hrun
    have hsaved := CompletionTable.saved_of_save hsave
    have hkey : x.key = k := hread.key.trans (CompletionTable.key_of_row? hrow)
    refine ⟨_, _, hrun, Outcome.justCompleted_stored saved, rfl, rfl, hsaved.locking, ?_,
      version + 1, fun k' => ?_⟩
    · refine hsaved.lastId ?_
      rw [hkey, hrow]
      rfl
    · show t.row? k' = _
      rw [hrows k', hrow, hw.restored]
      rfl
  | finish y c | first y =>
    rw [hplan] at hq
    cases hq

end Commit

/-! ## operations -/

namespace Action

variable {s s₁ s₂ : Session} {m m' : Commit} {k : Key}

/-- A record is loaded and a commit of it follows; the same again touches its row. -/
theorem touches_load (hs : s.Calm) (hnow : s.now.IsKnown) (hm : m.Timely) (hagain : m.Again m')
    {o : Outcome} (hrun : (load k >>= m.run).run s = (.ok o, s₁)) (hs₂ : s₂.Calm)
    (hruled : s.RuledAs s₂) (htable : s₂.table = s₁.table) :
    ∃ o' s₃, (load k >>= m'.run).run s₂ = (.ok o', s₃) ∧ o'.justCompleted = false ∧
      s₂.Touches k s₃ := by
  have hnext : ∀ {x : Record}, k.Loads (s₂.table.row? k) x →
      (load k >>= m'.run).run s₂ = (m'.run x).run s₂ :=
    fun hx => run_bind_ok (load_of_loads hs₂ hx) _
  have hload := load_run hs k
  cases hl : s.table.load k with
  | error e =>
    rw [hl] at hload
    rw [run_bind_error hload] at hrun
    cases hrun
  | ok r =>
    rw [hl] at hload
    rw [run_bind_ok hload] at hrun
    have hloads := CompletionTable.load_eq_ok_iff.1 hl
    have hfirst : ∀ e b, m = .first e b → r = .new r.key := by
      rintro e b rfl
      cases hagain
    rcases m.run_loaded hs hloads hfirst with ⟨o₁, memory, hleft, hcommit⟩ |
      ⟨w, saved, t, memory, hw, hsave, hcommit⟩
    · obtain rfl : s.withMemory memory = s₁ := congrArg Prod.snd (hcommit.symm.trans hrun)
      obtain ⟨o', hleft', ho'⟩ := Commit.quiet_of_left hruled hagain hleft
      obtain ⟨s₃, hrun', htouches⟩ := Commit.touches_of_left hs₂ hleft' k
      rw [hnext (htable.symm ▸ hloads), hrun']
      exact ⟨o', s₃, rfl, ho', htouches⟩
    · have htable' : s₂.table = t := by
        obtain ⟨-, rfl⟩ := Prod.mk.inj (hcommit.symm.trans hrun)
        rw [htable, Session.announcing_eq]
        rfl
      have hknown := Commit.known hm hnow hloads.known hw
      have hsaved := CompletionTable.saved_of_save hsave
      have hkey : w.key = k :=
        ((Commit.continues (K := False) False.elim False.elim r hfirst).progress w hw).key.trans
          hloads.key
      obtain ⟨id, rfl⟩ := hsaved.saved_eq
      obtain ⟨version, hrow⟩ : ∃ version, s₂.table.row? k = some (.ofRecord w id version) := by
        rw [htable', hsaved.row?, hkey, if_pos rfl]
        exact ⟨_, rfl⟩
      have hloads₂ : k.Loads (s₂.table.row? k) (w.storedAs id version).wholeSeconds := by
        rw [hrow]
        exact ⟨hkey, hknown.reads id version⟩
      rw [hnext hloads₂]
      exact Commit.touches_of_quiet hs₂ hknown hrow
        (Commit.quiet_of_written hruled hagain hw (w.stands_wholeSeconds id version))

/-- The same, with the outcome as part of a reply that tells whether it completed the record. -/
theorem touches_reply (hs : s.Calm) (hnow : s.now.IsKnown) (hm : m.Timely) (hagain : m.Again m')
    {f : Outcome → Reply} (hf : ∀ o, (f o).completions = o.justCompleted.toNat) {reply : Reply}
    (hrun : (f <$> (load k >>= m.run)).run s = (.ok reply, s₁)) (hs₂ : s₂.Calm)
    (hruled : s.RuledAs s₂) (htable : s₂.table = s₁.table) :
    ∃ reply' s₃, (f <$> (load k >>= m'.run)).run s₂ = (.ok reply', s₃) ∧
      reply'.completions = 0 ∧ s₂.Touches k s₃ := by
  rw [run_map] at hrun
  obtain ⟨hanswer, hs₁⟩ := Prod.mk.inj hrun
  cases hx : ((load k >>= m.run).run s).1 with
  | error e =>
    rw [hx] at hanswer
    cases hanswer
  | ok o =>
    obtain ⟨o', s₃, hrun', ho', htouches⟩ :=
      touches_load hs hnow hm hagain (Prod.ext hx hs₁) hs₂ hruled htable
    refine ⟨f o', s₃, ?_, ?_, htouches⟩
    · rw [run_map, hrun']
      rfl
    · rw [hf, ho']
      rfl

/-- An enrolment that is not ignored loads a record, and a commit of it follows. -/
theorem started_run (hs : s.Calm) {e : UserEnrolled} (h : s.ignored? e = none) :
    (Reply.enrolment <$> userEnrolled e).run s =
      ((fun o => Reply.enrolment (.started o)) <$>
        (load e.key >>= (Commit.join ((known? e.starts).getD s.now)).run)).run
          (s.lookedUp e.course) := by
  have hrun := userEnrolled_eq hs e
  rw [h] at hrun
  rw [run_map, hrun, ← run_map, Functor.map_map]

/-- An enrolment that was ignored is ignored again, and one that was not starts its user again. -/
theorem touches_userEnrolled (hs : s.Calm) (hnow : s.now.IsKnown) {e e' : UserEnrolled}
    (hkey : e'.key = e.key) {reply : Reply}
    (hrun : (Reply.enrolment <$> userEnrolled e).run s = (.ok reply, s₁)) (hs₂ : s₂.Calm)
    (hruled : s.RuledAs s₂) (htable : s₂.table = s₁.table) :
    ∃ reply' s₃, (Reply.enrolment <$> userEnrolled e').run s₂ = (.ok reply', s₃) ∧
      reply'.completions = 0 ∧ s₂.Touches e.key s₃ := by
  have hsame := hruled.ignored? hkey
  cases hignored : s.ignored? e with
  | some reason =>
    have hagain := userEnrolled_eq hs₂ e'
    rw [hsame, hignored] at hagain
    obtain ⟨memory, hagain⟩ := hagain
    refine ⟨.enrolment (.ignored reason), _, ?_, rfl, .memory s₂ e.key memory⟩
    rw [run_map, hagain]
    rfl
  | none =>
    have hcourse : e'.course = e.course := congrArg Key.course hkey
    rw [started_run hs hignored] at hrun
    rw [started_run hs₂ (hsame.trans hignored), hkey, hcourse]
    have hcalm : (s₂.lookedUp e.course).Calm := hs₂
    obtain ⟨reply', s₃, hagain, hcompletions, htouches⟩ :=
      touches_reply (m := .join _) (s := s.lookedUp e.course) hs hnow
        (isKnown_timeOrNow e.starts hnow) (.join _ ((known? e'.starts).getD s₂.now))
        (fun _ => rfl) hrun hcalm (hruled.lookedUp e.course) htable
    exact ⟨reply', s₃, hagain, hcompletions, htouches.of_withMemory⟩

end Action

/-- **An operation that is repeated changes nothing but a version.**  Where an operation on one
record succeeded, the same operation at any other time succeeds by any other clock, as long as the
store is as the first call left it and the same settings are found.  It completes nothing and
publishes nothing, and every row stays as it was, but for the version of the row of its key. -/
theorem repeated_operation_changes_version_only {s s₁ s₂ : Session} (hs : s.Calm)
    (hnow : s.now.IsKnown) {k : Key} {op op' : Operation} (hagain : op.Again k op')
    {reply : Reply} (hrun : op.action.run s = (.ok reply, s₁)) (hs₂ : s₂.Calm)
    (hstore : s₂.store = s₁.store)
    (hsettings : ∀ course, s₂.settings? course = s₁.settings? course) :
    ∃ reply' s₃, op'.action.run s₂ = (.ok reply', s₃) ∧ reply'.completions = 0 ∧
      s₂.Touches k s₃ := by
  have htable : s₂.table = s₁.table := congrArg Store.completions hstore
  have hruled : s.RuledAs s₂ := by
    have hkey : op.key? = some k := by cases hagain <;> rfl
    obtain ⟨d, hd⟩ := Operation.exists_deed hkey s
    have hleft := (Operation.leaves_of_does hd ⟨rfl, rfl, fun _ => rfl, rfl, rfl⟩ hs).store
    have hknows := (op.knows_run hs).2
    rw [hrun] at hleft hknows
    refine ⟨?_, fun course => (hsettings course).trans (hknows course)⟩
    rw [hstore, hleft, htable]
  cases hagain with
  | markEnrolled time time' =>
    exact Action.touches_reply (m := .enrol time) hs hnow trivial (.enrol time time')
      (fun _ => rfl) hrun hs₂ hruled htable
  | markStarted time time' =>
    exact Action.touches_reply (m := .start time) hs hnow trivial (.start time time')
      (fun _ => rfl) hrun hs₂ hruled htable
  | markComplete time time' =>
    exact Action.touches_reply (m := .complete time) hs hnow trivial (.complete time time')
      (fun _ => rfl) hrun hs₂ hruled htable
  | aggregate =>
    exact Action.touches_reply (m := .aggregate) hs hnow trivial .aggregate
      (fun _ => rfl) hrun hs₂ hruled htable
  | userEnrolled time time' =>
    exact Action.touches_userEnrolled (e := ⟨k.user, k.course, time⟩) hs hnow rfl hrun hs₂ hruled
      htable

/-- a user enrolled again, earlier and by a later clock, after the first enrolment completed the
course and a row with times before the epoch was written over -/
theorem completed_user_enrolled_again :
    let k : Key := ⟨3, 7⟩
    let row : Row := ⟨4, 3, 7, -5, -8, 0, 0, 2⟩
    let store : Store :=
      { Store.ofSnapshot { Snapshot.empty with completions := [row] } true with
        courses := [⟨7, "al", "algebra"⟩]
        users := [⟨3, "ada"⟩]
        settings := [⟨7, (TrackingSettings.on .any).withStartOnEnrol true⟩]
        criteria := [⟨1, 7, .activity, "quiz"⟩]
        marks := [⟨3, 1, some ⟨150, 5, by decide, by decide⟩⟩] }
    let s : Session := .start store ⟨900, 20, by decide, by decide⟩
    let first : Operation := .userEnrolled ⟨3, 7, some ⟨100, 3, by decide, by decide⟩⟩
    let again : Operation := .userEnrolled ⟨3, 7, some ⟨80, 0, by decide, by decide⟩⟩
    ∃ reply s₁, first.action.run s = (.ok reply, s₁) ∧ reply.completions = 1 ∧
      s₁.table.row? k = some ⟨4, 3, 7, 100, 100, 150, 0, 3⟩ ∧
      ∃ reply' s₃, again.action.run { s₁ with now := ⟨950, 0, by decide, by decide⟩ } =
          (.ok reply', s₃) ∧ reply'.completions = 0 ∧ s₃.published = s₁.published ∧
        ∃ version, s₃.table.row? k = some ⟨4, 3, 7, 100, 100, 150, 0, version⟩ := by
  intro k row store s first again
  have hrow : (first.action.run s).2.table.row? k = some ⟨4, 3, 7, 100, 100, 150, 0, 3⟩ := by decide
  have hanswer : (first.action.run s).1 = .ok (.enrolment (.started (.completed
      ⟨some 4, 3, 7, some ⟨100, 3, by decide, by decide⟩, some ⟨100, 3, by decide, by decide⟩,
        some ⟨150, 5, by decide, by decide⟩, none, 3⟩))) := by
    decide
  let later : Session := { (first.action.run s).2 with now := ⟨950, 0, by decide, by decide⟩ }
  have hcalm : later.Calm := (first.knows_run (s := s) rfl).1
  obtain ⟨reply', s₃, hagain, hnone, htouches⟩ :=
    repeated_operation_changes_version_only (s := s) (k := k) rfl (by decide)
      (.userEnrolled _ (some ⟨80, 0, by decide, by decide⟩)) (Prod.ext hanswer rfl) hcalm rfl
      fun _ => rfl
  obtain ⟨version, hrows⟩ := htouches.rows
  refine ⟨_, _, Prod.ext hanswer rfl, rfl, hrow, reply', s₃, hagain, hnone,
    htouches.published, version, ?_⟩
  rw [hrows k, if_pos rfl]
  exact congrArg (Option.map _) hrow

end CourseCompletion
