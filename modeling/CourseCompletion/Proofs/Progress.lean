import CourseCompletion.Proofs.Commit

/-!
# What commits do to records

`Record.Grown` relates a record to one that follows from it by transitions that do not complete it:
times that are set stay, and a start that is new lies no later than the completion.  A commit writes
a record that has grown from the loaded one, or completes it on the way (`Record.Progress`):

* `Commit.continues`     every record that a commit decides to write;
* `Commit.Timely`        the times that a commit carries with it lie after the epoch.

That a new time lies after the epoch is all that depends on the clock.  It is said under a condition
`K`, which stands for what is known of the clock.
-/

namespace CourseCompletion

/-! ## the smaller of two instants -/

theorem Instant.min_le_right (a b : Instant) : min a b ≤ b := by
  rw [min_def]
  split
  · assumption
  · exact le_refl b

theorem Instant.seconds_min (a b : Instant) : (min a b).seconds = min a.seconds b.seconds := by
  rw [min_def]
  split
  · next h => rw [le_def] at h; omega
  · next h => rw [le_def] at h; omega

/-! ## growing -/

namespace Record

/-- a record follows from another by transitions that do not complete it -/
structure Grown (K : Prop) (r w : Record) : Prop where
  key : w.key = r.key
  id : w.id = r.id
  version : w.version = r.version
  enrolled : ∀ t, r.enrolled = some t → w.enrolled = some t
  known : K → ∀ t, w.enrolled = some t → r.enrolled = some t ∨ t.IsKnown
  started : ∀ t, r.started = some t → w.started = some t
  completed : w.completed = r.completed
  ordered : r.started = none → ∀ t u, w.started = some t → w.completed = some u → t ≤ u

namespace Grown

variable {K : Prop} {r w x : Record}

theorem refl (r : Record) : r.Grown K r := by
  refine ⟨rfl, rfl, rfl, fun _ h => h, fun _ _ h => .inl h, fun _ h => h, rfl, ?_⟩
  intro hn t u ht
  rw [hn] at ht
  cases ht

theorem trans (h : r.Grown K w) (h' : w.Grown K x) : r.Grown K x where
  key := h'.key.trans h.key
  id := h'.id.trans h.id
  version := h'.version.trans h.version
  enrolled t ht := h'.enrolled t (h.enrolled t ht)
  known hK t ht := (h'.known hK t ht).elim (h.known hK t) .inr
  started t ht := h'.started t (h.started t ht)
  completed := h'.completed.trans h.completed
  ordered := by
    intro hn t u ht hu
    cases hw : w.started with
    | none => exact h'.ordered hw t u ht hu
    | some v =>
      -- the start is the one that came first, so it stands under the same completion
      rw [h'.started v hw] at ht
      obtain rfl := Option.some.inj ht
      exact h.ordered hn v u hw (h'.completed.symm.trans hu)

/-- what is known of the clock, once it is -/
theorem of_known (h : r.Grown K w) (hK : K) : r.Grown True w where
  key := h.key
  id := h.id
  version := h.version
  enrolled := h.enrolled
  known _ := h.known hK
  started := h.started
  completed := h.completed
  ordered := h.ordered

theorem markEnrolled (r : Record) {t : Instant} (ht : K → t.IsKnown) :
    r.Grown K (r.markEnrolled t) := by
  unfold Record.markEnrolled isEnrolled
  cases he : r.enrolled with
  | some u => exact refl r
  | none =>
    refine ⟨rfl, rfl, rfl, ?_, ?_, fun _ h => h, rfl, ?_⟩
    · intro u hu
      rw [he] at hu
      cases hu
    · intro hK u hu
      obtain rfl := Option.some.inj hu
      exact .inr (ht hK)
    · intro hn u v hu
      rw [show _ = r.started from rfl, hn] at hu
      cases hu

theorem markStarted (r : Record) (t : Instant) : r.Grown K (r.markStarted t) := by
  unfold Record.markStarted isStarted
  cases hs : r.started with
  | some u => exact refl r
  | none =>
    refine ⟨rfl, rfl, rfl, fun _ h => h, fun _ _ h => .inl h, ?_, rfl, ?_⟩
    · intro u hu
      rw [hs] at hu
      cases hu
    · intro _ u v hu hv
      have hv' : r.completed = some v := hv
      have hu' : ((r.completed.map (min t)).getD t) = u := Option.some.inj hu
      rw [hv'] at hu'
      rw [← hu']
      exact Instant.min_le_right t v

theorem flag (r : Record) (t : Instant) : r.Grown K (r.flag t) := by
  obtain ⟨hk, hi, hv, he, hkn, hs, hc, ho⟩ := refl (K := K) r
  exact ⟨hk, hi, hv, he, hkn, hs, hc, ho⟩

theorem unflag (r : Record) : r.Grown K r.unflag := by
  obtain ⟨hk, hi, hv, he, hkn, hs, hc, ho⟩ := refl (K := K) r
  exact ⟨hk, hi, hv, he, hkn, hs, hc, ho⟩

theorem isStored (h : r.Grown K w) : w.isStored = r.isStored := congrArg Option.isSome h.id

end Grown

end Record

/-! ## enrolment on the first save -/

theorem isKnown_minimum? {ts : List Instant} (h : ∀ t ∈ ts, t.IsKnown) :
    ∀ t, Instant.minimum? ts = some t → t.IsKnown := by
  induction ts with
  | nil => intro t ht; cases ht
  | cons u us ih =>
    intro t ht
    have hu := h u List.mem_cons_self
    have ih' := ih fun v hv => h v (List.mem_cons_of_mem _ hv)
    unfold Instant.minimum? at ht
    cases hm : Instant.minimum? us with
    | none =>
      rw [hm] at ht
      rw [← Option.some.inj ht]
      exact hu
    | some v =>
      rw [hm] at ht
      rw [← Option.some.inj ht]
      show (min u v).IsKnown
      rw [Instant.min_def]
      split
      · exact hu
      · exact ih' v hm

theorem isKnown_earliestCurrentStart {windows : List Window} {now t : Instant}
    (h : earliestCurrentStart windows now = some t) : t.IsKnown := by
  refine isKnown_minimum? ?_ t h
  intro u hu
  obtain ⟨w, -, hw⟩ := List.mem_filterMap.1 hu
  exact (known?_eq_some_iff.1 hw).2

namespace Session

variable {K : Prop} {s : Session}

theorem grown_enrolled (hs : K → s.now.IsKnown) (r : Record) : r.Grown K (s.enrolled r) := by
  unfold enrolled
  split
  · exact .refl r
  · refine .markEnrolled r ?_
    cases h : earliestCurrentStart (s.store.windowsOf r.key) s.now with
    | none => exact hs
    | some t => exact fun _ => isKnown_earliestCurrentStart h

/-- a new record is saved with an enrolment time -/
theorem isEnrolled_enrolled (s : Session) {r : Record} (hr : r.isStored = false) :
    (s.enrolled r).isEnrolled = true := by
  unfold enrolled
  rw [if_neg (by simp [hr])]
  unfold Record.markEnrolled
  by_cases he : r.isEnrolled
  · rw [if_pos he]
    exact he
  · rw [if_neg he]
    rfl

theorem reaggregate_enrolled (s : Session) (r : Record) :
    (s.enrolled r).reaggregate = r.reaggregate := by
  unfold enrolled Record.markEnrolled
  split
  · rfl
  · split <;> rfl

end Session

/-! ## what a commit writes -/

/-- A record is written over another, and a completion of it published or none: it has grown from
it, or it was incomplete, was completed at some time, and has grown around that. -/
inductive Record.Progress (K : Prop) (now : Instant) (r w : Record) : Option Completion → Prop
  | grown (h : r.Grown K w) : Progress K now r w none
  | completed {r₁ : Record} {c : Completion} (before : r.Grown K r₁) (open_ : r₁.completed = none)
      (known : K → c.completed.IsKnown) (after : (r₁.markComplete c.completed).Grown K w)
      (key : c.key = r.key) (occurred : c.occurred = now) : Progress K now r w (some c)

namespace Record.Progress

variable {K : Prop} {now : Instant} {r r' w : Record} {c : Option Completion}

theorem after_grown (h : r.Grown K r') (h' : r'.Progress K now w c) : r.Progress K now w c := by
  cases h' with
  | grown hw => exact .grown (h.trans hw)
  | completed before hopen known after hkey hnow =>
    exact .completed (h.trans before) hopen known after (hkey.trans h.key) hnow

theorem of_known (h : r.Progress K now w c) (hK : K) : r.Progress True now w c := by
  cases h with
  | grown h => exact .grown (h.of_known hK)
  | completed before hopen known after hkey hnow =>
    exact .completed (before.of_known hK) hopen (fun _ => known hK) (after.of_known hK) hkey hnow

/-! ### what stays as it is -/

theorem key (h : r.Progress K now w c) : w.key = r.key := by
  cases h with
  | grown h => exact h.key
  | completed before _ _ after _ _ =>
    exact after.key.trans ((key_markComplete _ _).trans before.key)

theorem isStored (h : r.Progress K now w c) : w.isStored = r.isStored := by
  cases h with
  | grown h => exact h.isStored
  | completed before _ _ after _ _ =>
    refine after.isStored.trans (Eq.trans ?_ before.isStored)
    unfold markComplete
    split <;> rfl

theorem version (h : r.Progress K now w c) : w.version = r.version := by
  cases h with
  | grown h => exact h.version
  | completed before _ _ after _ _ =>
    refine after.version.trans (Eq.trans ?_ before.version)
    unfold markComplete
    split <;> rfl

theorem key_completion {c : Completion} (h : r.Progress K now w (some c)) : c.key = r.key := by
  cases h with
  | completed _ _ _ _ key _ => exact key

theorem occurred_completion {c : Completion} (h : r.Progress K now w (some c)) :
    c.occurred = now := by
  cases h with
  | completed _ _ _ _ _ occurred => exact occurred

theorem enrolled (h : r.Progress K now w c) {t : Instant} (ht : r.enrolled = some t) :
    w.enrolled = some t := by
  cases h with
  | grown h => exact h.enrolled t ht
  | completed before _ _ after _ _ =>
    refine after.enrolled t (Eq.trans ?_ (before.enrolled t ht))
    unfold markComplete
    split <;> rfl

/-- an enrolment that is new lies after the epoch -/
theorem isKnown_enrolled (h : r.Progress True now w c) {t : Instant} (ht : w.enrolled = some t) :
    r.enrolled = some t ∨ t.IsKnown := by
  cases h with
  | grown h => exact h.known trivial t ht
  | @completed r₁ c before _ _ after _ _ =>
    have hr : (r₁.markComplete c.completed).enrolled = r₁.enrolled := by
      unfold markComplete
      split <;> rfl
    rcases after.known trivial t ht with h | h
    · exact before.known trivial t (hr.symm.trans h)
    · exact .inr h

/-! ### start and completion -/

theorem completed_none (h : r.Progress K now w none) : w.completed = r.completed := by
  cases h with
  | grown h => exact h.completed

/-- A completion is published for a record that was incomplete and is written complete. -/
theorem completed_some {c : Completion} (h : r.Progress True now w (some c)) :
    r.completed = none ∧ w.completed = some c.completed ∧ c.completed.IsKnown := by
  cases h with
  | completed before hopen known after _ _ =>
    refine ⟨before.completed.symm.trans hopen, ?_, known trivial⟩
    rw [after.completed, completed_markComplete, hopen]
    rfl

/-- A start stays, but that a completion before it takes its place. -/
theorem started (h : r.Progress K now w c) {t : Instant} (ht : r.started = some t) :
    w.started = some ((c.map fun x => min t x.completed).getD t) := by
  cases h with
  | grown h => exact h.started t ht
  | completed before hopen _ after _ _ =>
    refine after.started _ ?_
    unfold markComplete
    rw [if_neg (by simp [isComplete, hopen])]
    show some _ = some _
    rw [before.started t ht]
    rfl

/-- What is written keeps the order of start and completion. -/
theorem ordered (h : r.Progress K now w c) (hr : r.Ordered) : w.Ordered := by
  have grows : ∀ {r w : Record}, r.Grown K w → r.Ordered → w.Ordered := by
    intro r w h hr t u ht hu
    cases hs : r.started with
    | none => exact h.ordered hs t u ht hu
    | some v =>
      rw [h.started v hs] at ht
      obtain rfl := Option.some.inj ht
      exact hr v u hs (h.completed.symm.trans hu)
  cases h with
  | grown h => exact grows h hr
  | @completed r₁ c before hopen _ after _ _ =>
    refine grows after fun t u ht hu => ?_
    have hm : r₁.markComplete c.completed = { r₁ with
        started := some ((r₁.started.map (min · c.completed)).getD c.completed)
        completed := some c.completed } := if_neg (by simp [isComplete, hopen])
    rw [hm] at ht hu
    obtain rfl := Option.some.inj ht
    obtain rfl := Option.some.inj hu
    cases r₁.started with
    | none => exact Instant.le_refl _
    | some v => exact Instant.min_le_right v c.completed

end Record.Progress

/-- a plan writes what follows from a record, with its flag or without -/
structure Plan.Continues (K : Prop) (p : Plan) (now : Instant) (r : Record)
    (flag : Option Instant) : Prop where
  progress : ∀ w, p.written? = some w → r.Progress K now w p.completion?
  reaggregate : ∀ w, p.written? = some w → w.reaggregate = flag
  enrolled : ∀ w, p.written? = some w → w.isStored = false → w.isEnrolled = true
  quiet : ∀ o, p = .leave o → o.justCompleted = false

namespace Plan.Continues

variable {K : Prop} {p : Plan} {now : Instant} {r r' : Record} {flag : Option Instant}

theorem leave {o : Outcome} (ho : o.justCompleted = false) :
    (Plan.leave o).Continues K now r flag := by
  refine ⟨fun _ h => ?_, fun _ h => ?_, fun _ h => ?_, fun o' h => ?_⟩
  · cases h
  · cases h
  · cases h
  · obtain rfl := Plan.leave.inj h
    exact ho

/-- a record that is left alone because its course does not track completion -/
theorem leave_notApplicable : (Plan.leave .notApplicable).Continues K now r flag := leave rfl

theorem after_grown (h : r.Grown K r') (h' : p.Continues K now r' flag) :
    p.Continues K now r flag :=
  ⟨fun w hw => (h'.progress w hw).after_grown h, h'.reaggregate, h'.enrolled, h'.quiet⟩

end Plan.Continues

namespace Session

variable {K : Prop} {s : Session}

theorem store_continues (hs : K → s.now.IsKnown) (r : Record) :
    (Plan.store (s.enrolled r)).Continues K s.now r r.reaggregate := by
  refine ⟨fun w hw => ?_, fun w hw => ?_, fun w hw hst => ?_, fun o ho => ?_⟩
  · obtain rfl := Option.some.inj hw
    exact .grown (grown_enrolled hs r)
  · obtain rfl := Option.some.inj hw
    exact reaggregate_enrolled s r
  · obtain rfl := Option.some.inj hw
    exact isEnrolled_enrolled s ((grown_enrolled (K := K) hs r).isStored.symm.trans hst)
  · cases ho

theorem completing_continues (hs : K → s.now.IsKnown) (r : Record) (time : Option Instant) :
    (s.completing r time).Continues K s.now r r.reaggregate := by
  unfold completing
  by_cases hr : r.isComplete
  · have hc : r.completion? ((known? time).getD s.now) = none := if_pos hr
    simp only [hc]
    exact .leave rfl
  · have hc : r.completion? ((known? time).getD s.now) =
        some ⟨r.user, r.course, (known? time).getD s.now, (known? time).getD s.now⟩ := if_neg hr
    have hopen : r.completed = none := by simpa [Record.isComplete] using hr
    have hm : r.markComplete ((known? time).getD s.now) =
        { r with
          started := some ((r.started.map (min · ((known? time).getD s.now))).getD
            ((known? time).getD s.now))
          completed := some ((known? time).getD s.now) } := if_neg hr
    simp only [hc]
    refine ⟨fun w hw => ?_, fun w hw => ?_, fun w hw hst => ?_, fun o ho => ?_⟩
    · obtain rfl := Option.some.inj hw
      exact .completed (.refl r) hopen (fun hK => Action.isKnown_timeOrNow time (hs hK))
        (grown_enrolled hs _) rfl rfl
    · obtain rfl := Option.some.inj hw
      rw [reaggregate_enrolled, hm]
    · obtain rfl := Option.some.inj hw
      exact isEnrolled_enrolled s ((grown_enrolled (K := K) hs _).isStored.symm.trans hst)
    · cases ho

theorem evaluating_continues (hs : K → s.now.IsKnown) (r : Record) (settings : TrackingSettings) :
    (s.evaluating r settings).Continues K s.now r r.reaggregate := by
  simp only [evaluating]
  split
  · exact completing_continues hs r _
  · exact store_continues hs r

theorem aggregating_continues (hs : K → s.now.IsKnown) (r : Record) {p : Plan}
    (hp : p.Continues K s.now r r.reaggregate) :
    (s.aggregating r p).Continues K s.now r r.reaggregate := by
  unfold aggregating
  split
  · exact store_continues hs r
  · cases s.tracking? r.course with
    | none => exact hp
    | some settings => exact evaluating_continues hs r settings

end Session

namespace Commit

/-- the times that the commit carries with it lie after the epoch -/
def Timely : Commit → Prop
  | join time | flag time => time.IsKnown
  | first earliest _ => ∀ t ∈ earliest, t.IsKnown
  | _ => True

/-- the flag that the commit leaves on a record -/
def flagged (m : Commit) (r : Record) : Option Instant :=
  match m with
  | flag time => some time
  | sweep => none
  | _ => r.reaggregate

theorem reaggregate_markEnrolled (r : Record) (t : Instant) :
    (r.markEnrolled t).reaggregate = r.reaggregate := by
  unfold Record.markEnrolled
  split <;> rfl

theorem reaggregate_markStarted (r : Record) (t : Instant) :
    (r.markStarted t).reaggregate = r.reaggregate := by
  unfold Record.markStarted
  split <;> rfl

theorem grown_firstRecord {K : Prop} (k : Key) {earliest : Option Instant} {now : Instant}
    (ht : K → (earliest.getD now).IsKnown) (startOnEnrol : Bool) :
    (Record.new k).Grown K (Action.firstRecord k earliest startOnEnrol now) := by
  have hg := Record.Grown.markEnrolled (.new k) ht
  cases startOnEnrol with
  | false => exact hg
  | true => exact hg.trans (.markStarted _ now)

theorem reaggregate_firstRecord (k : Key) (earliest : Option Instant) (startOnEnrol : Bool)
    (now : Instant) : (Action.firstRecord k earliest startOnEnrol now).reaggregate = none := by
  cases startOnEnrol <;> rfl

theorem isEnrolled_firstRecord (k : Key) (earliest : Option Instant) (startOnEnrol : Bool)
    (now : Instant) : (Action.firstRecord k earliest startOnEnrol now).isEnrolled = true := by
  cases startOnEnrol <;> rfl

/-- **What a commit decides to write follows from the record that it is given**, which is a new one
for a record to begin. -/
theorem continues {K : Prop} {m : Commit} (hm : K → m.Timely) {s : Session}
    (hs : K → s.now.IsKnown) (r : Record)
    (hr : ∀ e b, m = first e b → r = .new r.key) :
    (m.plan r s).Continues K s.now r (m.flagged r) := by
  cases m with
  | enrol time =>
    have hg := Record.Grown.markEnrolled r (fun hK => Action.isKnown_timeOrNow time (hs hK))
    have h := Session.aggregating_continues hs _ (Session.store_continues hs
      (r.markEnrolled ((known? time).getD s.now)))
    rw [reaggregate_markEnrolled] at h
    exact h.after_grown hg
  | start time =>
    have hg := Record.Grown.markStarted (K := K) r ((known? time).getD s.now)
    have h := Session.aggregating_continues hs _ (Session.store_continues hs
      (r.markStarted ((known? time).getD s.now)))
    rw [reaggregate_markStarted] at h
    exact h.after_grown hg
  | complete time => exact Session.completing_continues hs r time
  | aggregate => exact Session.aggregating_continues hs r .leave_notApplicable
  | join time =>
    have hg := (Record.Grown.markEnrolled r hm).trans (.markStarted _ time)
    have h := Session.aggregating_continues hs ((r.markEnrolled time).markStarted time)
      .leave_notApplicable
    rw [reaggregate_markStarted, reaggregate_markEnrolled] at h
    exact h.after_grown hg
  | flag time => exact (Session.store_continues hs (r.flag time)).after_grown (.flag r time)
  | sweep =>
    exact (Session.aggregating_continues hs r.unflag .leave_notApplicable).after_grown (.unflag r)
  | first earliest startOnEnrol =>
    have hn : r = .new r.key := hr earliest startOnEnrol rfl
    have ht : K → (earliest.getD s.now).IsKnown := by
      intro hK
      cases earliest with
      | none => exact hs hK
      | some t => exact hm hK t rfl
    refine ⟨fun w hw => ?_, fun w hw => ?_, fun w hw _ => ?_, fun o ho => ?_⟩
    · obtain rfl := Option.some.inj hw
      rw [hn]
      exact .grown (grown_firstRecord r.key ht startOnEnrol)
    · obtain rfl := Option.some.inj hw
      rw [reaggregate_firstRecord, hn]
      rfl
    · obtain rfl := Option.some.inj hw
      exact isEnrolled_firstRecord r.key earliest startOnEnrol s.now
    · cases ho

end Commit

end CourseCompletion
