import CourseCompletion.Proofs.Operations

/-!
# What is reported and what is read

A record that an operation reports is the one in hand, with times of any precision, while its row
keeps whole seconds.  So whoever looks right afterwards finds `Record.wholeSeconds` of it
(`reported_reads_whole`): the same record exactly if none of its times has a fraction.

* `Record.Known`       every time of a record lies after the epoch, so its row holds it;
* `Commit.known`       a commit writes such a record only;
* `Action.Reports`     the record that an action reports is found afterwards, as far as rows go.
-/

namespace CourseCompletion

/-! ## times that a row can hold -/

namespace Record

def times (r : Record) : List Instant :=
  r.enrolled.toList ++ r.started.toList ++ r.completed.toList ++ r.reaggregate.toList

theorem forall_mem_times {r : Record} {P : Instant → Prop} : (∀ t ∈ r.times, P t) ↔
    (∀ t ∈ r.enrolled, P t) ∧ (∀ t ∈ r.started, P t) ∧ (∀ t ∈ r.completed, P t) ∧
      ∀ t ∈ r.reaggregate, P t := by
  unfold times
  simp only [List.forall_mem_append, Option.mem_toList, Option.mem_def, and_assoc]

/-- the record with each of its times cut to its second -/
def wholeSeconds (r : Record) : Record :=
  { r with
    enrolled := r.enrolled.map Instant.wholeSecond
    started := r.started.map Instant.wholeSecond
    completed := r.completed.map Instant.wholeSecond
    reaggregate := r.reaggregate.map Instant.wholeSecond }

theorem map_wholeSecond_eq_self_iff {o : Option Instant} :
    o.map Instant.wholeSecond = o ↔ ∀ t ∈ o, t.nanos = 0 := by
  cases o with
  | none => simp
  | some t =>
    simp only [Option.map_some, Option.some.injEq, Option.mem_def, forall_eq']
    constructor
    · intro h
      exact (congrArg Instant.nanos h).symm
    · intro h
      exact Instant.ext_fields rfl h.symm

/-- A record is whole if none of its times has a fraction. -/
theorem wholeSeconds_eq_self_iff {r : Record} :
    r.wholeSeconds = r ↔ ∀ t ∈ r.times, t.nanos = 0 := by
  rw [forall_mem_times, ← map_wholeSecond_eq_self_iff, ← map_wholeSecond_eq_self_iff,
    ← map_wholeSecond_eq_self_iff, ← map_wholeSecond_eq_self_iff]
  obtain ⟨id, user, course, enrolled, started, completed, reaggregate, version⟩ := r
  simp only [wholeSeconds, Record.mk.injEq, true_and, and_true]

/-- every time of the record lies after the epoch -/
structure Known (r : Record) : Prop where
  enrolled : ∀ t, r.enrolled = some t → t.IsKnown
  started : ∀ t, r.started = some t → t.IsKnown
  completed : ∀ t, r.completed = some t → t.IsKnown
  reaggregate : ∀ t, r.reaggregate = some t → t.IsKnown

theorem known_new (k : Key) : (new k).Known := by
  constructor <;> intro t ht <;> cases ht

theorem isKnown_min {t u : Instant} (ht : t.IsKnown) (hu : u.IsKnown) : (min t u).IsKnown := by
  unfold Instant.IsKnown at ht hu ⊢
  rw [Instant.seconds_min]
  omega

namespace Known

variable {r : Record} {t : Instant}

theorem markEnrolled (h : r.Known) (ht : t.IsKnown) : (r.markEnrolled t).Known := by
  unfold Record.markEnrolled
  split
  · exact h
  · refine ⟨fun u hu => ?_, h.started, h.completed, h.reaggregate⟩
    obtain rfl := Option.some.inj hu
    exact ht

theorem markStarted (h : r.Known) (ht : t.IsKnown) : (r.markStarted t).Known := by
  unfold Record.markStarted
  split
  · exact h
  · refine ⟨h.enrolled, fun u hu => ?_, h.completed, h.reaggregate⟩
    obtain rfl := Option.some.inj hu
    cases hc : r.completed with
    | none => exact ht
    | some c => exact isKnown_min ht (h.completed c hc)

theorem markComplete (h : r.Known) (ht : t.IsKnown) : (r.markComplete t).Known := by
  unfold Record.markComplete
  split
  · exact h
  · refine ⟨h.enrolled, fun u hu => ?_, fun u hu => ?_, h.reaggregate⟩
    · obtain rfl := Option.some.inj hu
      cases hs : r.started with
      | none => exact ht
      | some u => exact isKnown_min (h.started u hs) ht
    · obtain rfl := Option.some.inj hu
      exact ht

theorem flag (h : r.Known) (ht : t.IsKnown) : (r.flag t).Known := by
  refine ⟨h.enrolled, h.started, h.completed, fun u hu => ?_⟩
  obtain rfl := Option.some.inj hu
  exact ht

theorem unflag (h : r.Known) : r.unflag.Known :=
  ⟨h.enrolled, h.started, h.completed, fun _ hu => by cases hu⟩

end Known

end Record

/-! ### rows -/

theorem ofColumn_of_known {o : Option Instant} (h : ∀ t, o = some t → t.IsKnown) :
    ofColumn (column o) = .ok (o.map Instant.wholeSecond) := by
  rw [ofColumn_column]
  cases o with
  | none => rfl
  | some t => rw [known?_of_isKnown (h t rfl)]

/-- A row reads as the record that it was made from, cut to whole seconds. -/
theorem Record.Known.reads {r : Record} (h : r.Known) (id : Int) (version : Nat) :
    (Row.ofRecord r id version).Reads (r.storedAs id version).wholeSeconds where
  id := rfl
  key := rfl
  enrolled := ofColumn_of_known h.enrolled
  started := ofColumn_of_known h.started
  completed := ofColumn_of_known h.completed
  reaggregate := ofColumn_of_known h.reaggregate
  version := rfl

theorem known_of_ofColumn {s : Int} {o : Option Instant} (h : ofColumn s = .ok o) :
    ∀ t, o = some t → t.IsKnown ∧ t.nanos = 0 := by
  rintro t rfl
  rcases ofColumn_eq_ok_iff.1 h with ⟨-, hn⟩ | ⟨hpos, u, hu, hus, hun⟩
  · cases hn
  · obtain rfl := Option.some.inj hu
    refine ⟨?_, hun⟩
    unfold Instant.IsKnown
    omega

namespace Row.Reads

variable {row : Row} {r : Record}

theorem known (h : row.Reads r) : r.Known where
  enrolled t ht := (known_of_ofColumn h.enrolled t ht).1
  started t ht := (known_of_ofColumn h.started t ht).1
  completed t ht := (known_of_ofColumn h.completed t ht).1
  reaggregate t ht := (known_of_ofColumn h.reaggregate t ht).1

/-- A record that is read has no fraction to lose. -/
theorem wholeSeconds (h : row.Reads r) : r.wholeSeconds = r := by
  have hwhole : ∀ {s o}, ofColumn s = .ok o → o.map Instant.wholeSecond = o := by
    intro s o ho
    exact Record.map_wholeSecond_eq_self_iff.2 fun t ht => (known_of_ofColumn ho t ht).2
  unfold Record.wholeSeconds
  rw [hwhole h.enrolled, hwhole h.started, hwhole h.completed, hwhole h.reaggregate]

end Row.Reads

theorem Key.Loads.known {k : Key} {o : Option Row} {r : Record} (h : k.Loads o r) : r.Known := by
  cases o with
  | none =>
    obtain rfl : r = .new k := h
    exact Record.known_new k
  | some row => exact h.2.known

/-! ## what commits write -/

namespace Session

variable {s : Session} {r w : Record}

theorem known_enrolled (hs : s.now.IsKnown) (h : r.Known) : (s.enrolled r).Known := by
  unfold enrolled
  split
  · exact h
  · refine h.markEnrolled ?_
    cases hw : earliestCurrentStart (s.store.windowsOf r.key) s.now with
    | none => exact hs
    | some t => exact isKnown_earliestCurrentStart hw

theorem known_completing (hs : s.now.IsKnown) (h : r.Known) {time : Option Instant}
    (hw : (s.completing r time).written? = some w) : w.Known := by
  unfold completing at hw
  cases hc : r.completion? ((known? time).getD s.now) with
  | none =>
    simp only [hc] at hw
    cases hw
  | some c =>
    simp only [hc] at hw
    obtain rfl := Option.some.inj hw
    exact known_enrolled hs (h.markComplete (Action.isKnown_timeOrNow time hs))

theorem known_evaluating (hs : s.now.IsKnown) (h : r.Known) {settings : TrackingSettings}
    (hw : (s.evaluating r settings).written? = some w) : w.Known := by
  simp only [evaluating] at hw
  split at hw
  · exact known_completing hs h hw
  · obtain rfl := Option.some.inj hw
    exact known_enrolled hs h

theorem known_aggregating (hs : s.now.IsKnown) (h : r.Known) {p : Plan}
    (hp : ∀ w, p.written? = some w → w.Known)
    (hw : (s.aggregating r p).written? = some w) : w.Known := by
  unfold aggregating at hw
  split at hw
  · obtain rfl := Option.some.inj hw
    exact known_enrolled hs h
  · cases ht : s.tracking? r.course with
    | none =>
      rw [ht] at hw
      exact hp w hw
    | some settings =>
      rw [ht] at hw
      exact known_evaluating hs h hw

theorem known_store (hs : s.now.IsKnown) (h : r.Known) :
    ∀ w, (Plan.store (s.enrolled r)).written? = some w → w.Known := by
  intro w hw
  obtain rfl := Option.some.inj hw
  exact known_enrolled hs h

/-! ### records that are left alone -/

/-- A plan leaves a record alone only if it is complete. -/
theorem left_completing {time : Option Instant} {o : Outcome}
    (h : s.completing r time = .leave o) : o = .alreadyComplete r ∧ r.isComplete = true := by
  unfold completing at h
  have hsome := r.completion?_isSome ((known? time).getD s.now)
  cases hc : r.completion? ((known? time).getD s.now) with
  | none =>
    simp only [hc] at h
    rw [hc] at hsome
    exact ⟨(Plan.leave.inj h).symm, by simpa using hsome.symm⟩
  | some c =>
    simp only [hc] at h
    cases h

/-- What is evaluated is not left alone, and neither is a complete record. -/
theorem left_aggregating {p : Plan} {o : Outcome} (h : s.aggregating r p = .leave o) :
    r.isComplete = false ∧ s.tracking? r.course = none ∧ p = .leave o := by
  unfold aggregating at h
  split at h
  · cases h
  · next hr =>
    cases ht : s.tracking? r.course with
    | none =>
      rw [ht] at h
      exact ⟨by simpa using hr, rfl, h⟩
    | some settings =>
      rw [ht] at h
      simp only [Option.elim_some, evaluating] at h
      split at h
      · exact absurd (left_completing h).2 hr
      · cases h

end Session

namespace Commit

variable {s : Session} {m : Commit} {r w : Record}

/-- **Every time that a commit writes lies after the epoch.** -/
theorem known (hm : m.Timely) (hs : s.now.IsKnown) (h : r.Known)
    (hw : (m.plan r s).written? = some w) : w.Known := by
  have hleave : ∀ w, (Plan.leave .notApplicable).written? = some w → w.Known := fun _ h => by
    cases h
  cases m with
  | enrol time =>
    have h' := h.markEnrolled (Action.isKnown_timeOrNow time hs)
    exact Session.known_aggregating hs h' (Session.known_store hs h') hw
  | start time =>
    have h' := h.markStarted (Action.isKnown_timeOrNow time hs)
    exact Session.known_aggregating hs h' (Session.known_store hs h') hw
  | complete time => exact Session.known_completing hs h hw
  | aggregate => exact Session.known_aggregating hs h hleave hw
  | join time =>
    exact Session.known_aggregating hs ((h.markEnrolled hm).markStarted hm) hleave hw
  | flag time => exact Session.known_store hs (h.flag hm) w hw
  | sweep => exact Session.known_aggregating hs h.unflag hleave hw
  | first earliest startOnEnrol =>
    obtain rfl := Option.some.inj hw
    have hstart : (earliest.getD s.now).IsKnown := by
      cases earliest with
      | none => exact hs
      | some t => exact hm t rfl
    have hnew := (Record.known_new r.key).markEnrolled hstart
    cases startOnEnrol with
    | false => exact hnew
    | true => exact hnew.markStarted hs

/-- A commit leaves the loaded record alone if it is complete, or says that it does not apply. -/
theorem left {o : Outcome} (h : m.plan r s = .leave o) :
    o = .notApplicable ∨ o = .alreadyComplete r ∧ r.isComplete = true := by
  have hleave : ∀ {r : Record}, s.aggregating r (.leave .notApplicable) = .leave o →
      o = .notApplicable := fun h => (Plan.leave.inj (Session.left_aggregating h).2.2).symm
  cases m with
  | enrol time | start time => cases (Session.left_aggregating h).2.2
  | complete time => exact .inr (Session.left_completing h)
  | aggregate | join time | sweep => exact .inl (hleave h)
  | flag time => cases h
  | first earliest startOnEnrol => cases h

end Commit

/-! ## what is found afterwards -/

theorem Plan.record?_outcome {p : Plan} {w : Record} (hw : p.written? = some w) (saved : Record) :
    (p.outcome saved).record? = some saved := by
  cases p with
  | leave o => cases hw
  | store w' => exact Action.record?_stored saved
  | finish w' c | first w' => rfl

/-- A record that was reported is found in whole seconds, and the completions that were published
meanwhile are of that record. -/
structure Session.Holds (s s' : Session) (r : Record) : Prop where
  calm : s'.Calm
  found : s'.table.find r.key = .ok (some r.wholeSeconds)
  published : ∃ new, s'.published = s.published ++ new ∧
    ∀ c ∈ completionsIn new, c.key = r.key ∧ r.completed = some c.completed

namespace Session

variable {s : Session} {k : Key} {r : Record}

/-- A complete record was loaded from a row; if that is left alone, the record is found. -/
theorem holds_of_left (hs : s.Calm) (memory : List CourseSettings)
    (hr : k.Loads (s.table.row? k) r) (hcomplete : r.isComplete = true) :
    s.Holds (s.withMemory memory) r := by
  have hkey := hr.key
  cases hrow : s.table.row? k with
  | none =>
    rw [hrow] at hr
    obtain rfl : r = .new k := hr
    cases hcomplete
  | some row =>
    rw [hrow] at hr
    refine ⟨hs, ?_, [], (List.append_nil _).symm, fun c hc => by cases hc⟩
    rw [hkey, hr.2.wholeSeconds]
    exact CompletionTable.find_eq_some_iff.2 ⟨row, hrow, hr.2⟩

/-- A record that follows from the loaded one is found once it is stored. -/
theorem holds_of_saved (hs : s.Calm) (memory : List CourseSettings)
    {w saved : Record} {c : Option Completion} {t : CompletionTable}
    (progress : r.Progress True s.now w c) (known : w.Known)
    (hsave : s.table.save w = .ok (saved, t)) :
    s.Holds (((s.withMemory memory).withTable t).announcing c) saved := by
  have hsaved := CompletionTable.saved_of_save hsave
  obtain ⟨id, rfl⟩ := hsaved.saved_eq
  rw [announcing_eq]
  refine ⟨hs, ?_, s.news c, rfl, fun x hx => ?_⟩
  · have hrow : t.row? w.key = _ := (hsaved.row? w.key).trans (if_pos rfl)
    exact CompletionTable.find_eq_some_iff.2 ⟨_, hrow, known.reads _ _⟩
  · rw [completions_news] at hx
    obtain rfl : c = some x := by simpa using hx
    exact ⟨progress.key_completion.trans progress.key.symm, progress.completed_some.2.1⟩

end Session

namespace Commit

/-- **The record that a commit reports is found in whole seconds.** -/
theorem reports {m : Commit} (hm : m.Timely) {s s' : Session} (hs : s.Calm) (hnow : s.now.IsKnown)
    {k : Key} {r : Record} (hr : k.Loads (s.table.row? k) r)
    (hfirst : ∀ e b, m = first e b → r = .new r.key) {o : Outcome}
    (hrun : (m.run r).run s = (.ok o, s')) {x : Record} (hx : o.record? = some x) :
    x.key = k ∧ s.Holds s' x := by
  rcases run_cases hs m r with ⟨o', memory, hplan, h⟩ | ⟨w, e, memory, hw, -, h⟩ |
    ⟨w, saved, t, memory, hw, hsave, h⟩
  · obtain ⟨ho, rfl⟩ := Prod.mk.inj (hrun.symm.trans h)
    obtain rfl := Except.ok.inj ho
    rcases left hplan with rfl | ⟨rfl, hcomplete⟩
    · cases hx
    · obtain rfl : r = x := Option.some.inj hx
      exact ⟨hr.key, Session.holds_of_left hs memory hr hcomplete⟩
  · obtain ⟨ho, -⟩ := Prod.mk.inj (hrun.symm.trans h)
    cases hp : m.plan r s with
    | first w =>
      rw [hp] at ho
      obtain rfl := Except.ok.inj ho
      cases hx
    | leave o' | store w | finish w c =>
      rw [hp] at ho
      cases ho
  · obtain ⟨ho, rfl⟩ := Prod.mk.inj (hrun.symm.trans h)
    obtain rfl := Except.ok.inj ho
    rw [Plan.record?_outcome hw] at hx
    obtain rfl := Option.some.inj hx
    have hprogress := (continues (K := True) (fun _ => hm) (fun _ => hnow) r hfirst).progress w hw
    obtain ⟨id, hid⟩ := (CompletionTable.saved_of_save hsave).saved_eq
    have hkey : saved.key = k := by
      rw [hid]
      exact hprogress.key.trans hr.key
    exact ⟨hkey, Session.holds_of_saved hs memory hprogress (known hm hnow hr.known hw) hsave⟩

end Commit

/-! ## operations -/

def Reply.record? : Reply → Option Record
  | outcome o | enrolment (.started o) => o.record?
  | record r => r
  | _ => none

namespace Action

variable {α β : Type} {s : Session}

/-- the record that an action answers with is found afterwards, and of a key that it concerns -/
def Reports (x : Action α) (s : Session) (concerns : Key → Prop) (record : α → Option Record) :
    Prop :=
  ∀ a s' r, x.run s = (.ok a, s') → record a = some r → concerns r.key ∧ s.Holds s' r

namespace Reports

variable {x : Action α} {concerns : Key → Prop}

theorem of_none {record : α → Option Record} (h : ∀ a, record a = none) :
    Reports x s concerns record := by
  intro a s' r _ hr
  rw [h a] at hr
  cases hr

theorem map {f : α → β} {record : β → Option Record} (h : Reports x s concerns (record ∘ f)) :
    Reports (f <$> x) s concerns record := by
  intro b s' r hrun hr
  rw [run_map] at hrun
  obtain ⟨ha, rfl⟩ := Prod.mk.inj hrun
  cases hx : (x.run s).1 with
  | error e =>
    rw [hx] at ha
    cases ha
  | ok a =>
    rw [hx] at ha
    obtain rfl := Except.ok.inj ha
    exact h a _ r (Prod.ext hx rfl) hr

/-- an action that does what another one does, but for the memory -/
theorem of_run_eq {y : Action α} {record : α → Option Record} {memory : List CourseSettings}
    (hx : x.run s = y.run (s.withMemory memory))
    (h : Reports y (s.withMemory memory) concerns record) : Reports x s concerns record := by
  intro a s' r hrun hr
  obtain ⟨hkey, hcalm, hfound, hpublished⟩ := h a s' r (hx.symm.trans hrun) hr
  exact ⟨hkey, hcalm, hfound, hpublished⟩

/-- an action that answers with no record -/
theorem of_answer {a : α} {s₁ : Session} {record : α → Option Record}
    (hx : x.run s = (.ok a, s₁)) (ha : record a = none) : Reports x s concerns record := by
  intro b s' r hrun hr
  obtain rfl := Except.ok.inj (congrArg Prod.fst (hx.symm.trans hrun))
  rw [ha] at hr
  cases hr

theorem of_error {e : ServiceError} {s₁ : Session} {record : α → Option Record}
    (hx : x.run s = (.error e, s₁)) : Reports x s concerns record := by
  intro b s' r hrun
  cases congrArg Prod.fst (hx.symm.trans hrun)

end Reports

theorem reports_load {m : Commit} (hm : m.Timely) (hs : s.Calm) (hnow : s.now.IsKnown) (k : Key)
    (hfirst : ∀ e b, m ≠ .first e b) :
    Reports (load k >>= m.run) s (· = k) Outcome.record? := by
  have hload := load_run hs k
  cases hl : s.table.load k with
  | error e =>
    rw [hl] at hload
    exact .of_error (run_bind_error hload _)
  | ok r =>
    rw [hl] at hload
    refine .of_run_eq (y := Commit.run m r) (run_bind_ok hload _) fun o s' x hrun hx => ?_
    exact Commit.reports hm hs hnow (CompletionTable.load_eq_ok_iff.1 hl)
      (fun e b h => absurd h (hfirst e b)) hrun hx

theorem reports_flag (hs : s.Calm) (hnow : s.now.IsKnown) (k : Key) :
    Reports (flag k) s (· = k) id := by
  rcases flag_run hs k with ⟨e, hrun⟩ | hrun | ⟨r, hl, hrun⟩
  · exact .of_error hrun
  · exact .of_answer hrun rfl
  · have hcommit : Reports ((Commit.flag s.now).run r) s (· = k) Outcome.record? :=
      fun o s' x hrun hx => Commit.reports (m := .flag s.now) hnow hs hnow hl
        (fun _ _ h => by cases h) hrun hx
    exact .of_run_eq hrun (.map hcommit)

theorem reports_userEnrolled (hs : s.Calm) (hnow : s.now.IsKnown) (e : UserEnrolled) :
    Reports (userEnrolled e) s (· = e.key) fun o => (Reply.enrolment o).record? := by
  obtain ⟨memory, ⟨reason, hrun⟩ | hrun⟩ := userEnrolled_run hs e
  · exact .of_answer hrun rfl
  · refine .of_run_eq hrun (.map ?_)
    exact reports_load (m := .join _) (s := s.withMemory memory) (isKnown_timeOrNow e.starts hnow)
      hs hnow e.key fun _ _ h => by cases h

end Action

theorem Operation.reports (op : Operation) {s : Session} (hs : s.Calm) (hnow : s.now.IsKnown) :
    Action.Reports op.action s op.Concerns Reply.record? := by
  cases op with
  | markEnrolled k time =>
    exact .map (Action.reports_load (m := .enrol time) trivial hs hnow k fun _ _ h => by cases h)
  | markStarted k time =>
    exact .map (Action.reports_load (m := .start time) trivial hs hnow k fun _ _ h => by cases h)
  | markComplete k time =>
    exact .map (Action.reports_load (m := .complete time) trivial hs hnow k fun _ _ h => by cases h)
  | aggregate k =>
    exact .map (Action.reports_load (m := .aggregate) trivial hs hnow k fun _ _ h => by cases h)
  | flag k => exact .map (Action.reports_flag hs hnow k)
  | userEnrolled e => exact .map (Action.reports_userEnrolled hs hnow e)
  | startUsers course | flagCourse course | runPending course | report user course =>
    exact .map (.of_none fun _ => rfl)

/-- **What is reported reads in whole seconds.**  Whoever looks right after a call for the record
that it reported finds it with each time cut to its second: the very record exactly if no time has
a fraction.  A completion that the call published carries the time of the reported record, and so
the one that is found exactly if that has no fraction. -/
theorem reported_reads_whole {s s' : Session} (hs : s.Calm) (hnow : s.now.IsKnown)
    {op : Operation} {reply : Reply} {r : Record} (hrun : op.action.run s = (.ok reply, s'))
    (hr : reply.record? = some r) :
    op.Concerns r.key ∧
    (Action.get? r.key).run s' = (.ok (some r.wholeSeconds), s') ∧
    ((Action.get? r.key).run s' = (.ok (some r), s') ↔ ∀ t ∈ r.times, t.nanos = 0) ∧
    ∃ new, s'.published = s.published ++ new ∧
      ∀ c ∈ completionsIn new, c.key = r.key ∧ r.completed = some c.completed ∧
        (r.wholeSeconds.completed = some c.completed ↔ c.completed.nanos = 0) := by
  obtain ⟨hconcerns, hcalm, hfound, new, hpublished, hnews⟩ := op.reports hs hnow reply s' r hrun hr
  have hget : (Action.get? r.key).run s' = (.ok (some r.wholeSeconds), s') := by
    rw [Action.get?_run hcalm, hfound]
    rfl
  refine ⟨hconcerns, hget, ?_, new, hpublished, fun c hc => ?_⟩
  · rw [hget, ← Record.wholeSeconds_eq_self_iff]
    constructor
    · intro h
      exact Option.some.inj (Except.ok.inj (congrArg Prod.fst h))
    · intro h
      rw [h]
  · obtain ⟨hkey, hcompleted⟩ := hnews c hc
    have hcut := Record.map_wholeSecond_eq_self_iff (o := r.completed)
    rw [hcompleted] at hcut
    refine ⟨hkey, hcompleted, ?_⟩
    show r.completed.map Instant.wholeSecond = some c.completed ↔ _
    rw [hcompleted]
    simpa using hcut

/-- an enrolment at a whole second reads as it was reported -/
theorem enrolment_reads_as_reported :
    let s : Session := .start (.empty true) ⟨900, 0, by decide, by decide⟩
    let op : Operation := .markEnrolled ⟨3, 7⟩ (some ⟨77, 0, by decide, by decide⟩)
    ∃ r s', op.action.run s = (.ok (.outcome (.saved r)), s') ∧
      (Action.get? ⟨3, 7⟩).run s' = (.ok (some r), s') := by
  intro s op
  have hanswer : (op.action.run s).1 = .ok (.outcome (.saved
      ⟨some 1, 3, 7, some ⟨77, 0, by decide, by decide⟩, none, none, none, 1⟩)) := by
    decide
  have hrun := Prod.ext hanswer (rfl : (op.action.run s).2 = (op.action.run s).2)
  obtain ⟨-, -, hiff, -⟩ := reported_reads_whole (s := s) rfl (by decide) hrun rfl
  exact ⟨_, _, hrun, hiff.2 (by decide)⟩

/-- a completion at half a second: neither the record that is reported nor the time that is
published is found afterwards -/
theorem completion_reported_with_fraction :
    let half : Instant := ⟨100, 500000000, by decide, by decide⟩
    let s : Session := .start (.empty true) ⟨900, 0, by decide, by decide⟩
    let op : Operation := .markComplete ⟨3, 7⟩ (some half)
    ∃ r r' s', op.action.run s = (.ok (.outcome (.completed r)), s') ∧
      (Action.get? ⟨3, 7⟩).run s' = (.ok (some r'), s') ∧ r' ≠ r ∧
      (completionsIn s'.published).map Completion.completed = [half] ∧ r'.completed ≠ some half := by
  intro half s op
  let second : Instant := ⟨100, 0, by decide, by decide⟩
  let reported : Record := ⟨some 1, 3, 7, some s.now, some half, some half, none, 1⟩
  let found : Record := ⟨some 1, 3, 7, some s.now, some second, some second, none, 1⟩
  have hanswer : (op.action.run s).1 = .ok (.outcome (.completed reported)) := by decide
  have hget : ((Action.get? ⟨3, 7⟩).run (op.action.run s).2).1 = .ok (some found) := by decide
  exact ⟨reported, found, (op.action.run s).2, Prod.ext hanswer rfl, Prod.ext hget rfl, by decide,
    by decide, by decide⟩

end CourseCompletion
