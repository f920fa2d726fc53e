import CourseCompletion.Proofs.Agreement
import CourseCompletion.Proofs.Operations
import CourseCompletion.Proofs.Snapshot

/-!
# What commands keep

A command whose numbers fit, on a session where every row can be read, either fails and leaves the
store as it was, or changes rows of the table of completions only, under keys that fit
(`Command.run_sound`).  The clock does not matter here: it may stand before the epoch.

`Session.Sound` is what every command keeps of a session, up to the numbers and versions of rows,
which grow without end.
-/

namespace CourseCompletion

namespace Action

/-! ## actions that fail before they write -/

/-- the action keeps what it should; where every row can be read, it fails only before it wrote
anything -/
def Safe {α : Type} (x : Action α) (s : Session) (P : Key → Prop) : Prop :=
  ∃ answer s', x.run s = (answer, s') ∧ s.Keeps P s' ∧
    (s.table.Valid → s.table.Readable → ∀ e, answer = .error e → s'.store = s.store)

variable {α β : Type} {x : Action α} {s : Session} {P : Key → Prop}

theorem Performs.safe {A : Key → Commit → Prop} {count : α → Nat} (h : Performs x s A count)
    (hP : ∀ k m, A k m → P k) : Safe x s P := by
  obtain ⟨answer, s', new, hrun, hw, -, hc⟩ := h
  exact ⟨answer, s', hrun, hw.toKeeps.mono fun k ⟨m, hm⟩ => hP k m hm, hc⟩

/-- an action that does no more than one commit of one key -/
theorem Performs.safe_at {k : Key} {m : Commit} {count : α → Nat}
    (h : Performs x s (fun k' m' => k' = k ∧ m' = m) count) (hk : P k) : Safe x s P :=
  h.safe fun _ _ hk' => hk'.1 ▸ hk

theorem Safe.map (h : Safe x s P) (f : α → β) : Safe (f <$> x) s P := by
  obtain ⟨answer, s', hrun, hk, hc⟩ := h
  refine ⟨answer.map f, s', by rw [run_map, hrun], hk, fun hv hr e he => ?_⟩
  cases answer with
  | error e' => exact hc hv hr e' rfl
  | ok a => cases he

end Action

/-! ## commands -/

namespace Session

/-- a key that fits, or has a row -/
def Covers (s : Session) (k : Key) : Prop := k.Fits ∨ (s.table.row? k).isSome

theorem Keeps.covers {s s' : Session} (h : s.Keeps s.Covers s') {k : Key} (hk : s'.Covers k) :
    s.Covers k := by
  rcases hk with hk | hk
  · exact .inl hk
  · rcases h.rows k with hrow | ⟨hcovers, -⟩
    · rw [hrow] at hk
      exact .inr hk
    · exact hcovers

end Session

/-- A live participant has a window. -/
theorem user_of_mem_liveStarts {windows : List Window} {now : Instant}
    {u : Int × Option Instant} (hu : u ∈ liveStarts windows now) : ∃ w ∈ windows, w.user = u.1 := by
  have step : ∀ (ws : List Window) (us : List (Int × Option Instant)),
      u ∈ ws.foldl (fun us w => insertStart w.user (known? w.starts) us) us →
      (∃ w ∈ ws, w.user = u.1) ∨ ∃ v ∈ us, v.1 = u.1 := by
    intro ws
    induction ws with
    | nil => exact fun us h => .inr ⟨u, h, rfl⟩
    | cons w ws ih =>
      intro us h
      rcases ih _ h with ⟨w', hw', he⟩ | ⟨v, hv, he⟩
      · exact .inl ⟨w', List.mem_cons_of_mem w hw', he⟩
      · rcases Action.user_of_mem_insertStart hv with hv | ⟨y, hy, hyv⟩
        · exact .inl ⟨w, List.mem_cons_self, hv.symm.trans he⟩
        · exact .inr ⟨y, hy, hyv.trans he⟩
  rcases step _ [] hu with ⟨w, hw, he⟩ | ⟨v, hv, -⟩
  · exact ⟨w, (List.mem_filter.1 hw).1, he⟩
  · cases hv

namespace Command

/-- the numbers have room in 64 bits -/
def Fits : Command → Prop
  | enrol k _ | start k _ | complete k _ | aggregate k | showRecord k => k.Fits
  | bulkStart course | reaggregate course _ => fitsSigned64 course
  | report user course => fitsSigned64 user ∧ ∀ c ∈ course, fitsSigned64 c

section

variable {s : Session}

theorem safe_bulkStart (hs : s.Calm) {course : Int} (hc : fitsSigned64 course)
    (hw : ∀ w ∈ s.store.windows, w.Fits) :
    Action.Safe (Action.startUsers course) s s.Covers := by
  refine (Action.performs_startUsers hs course).safe fun k m hm => .inl ?_
  obtain ⟨_, hk, u, hu, huser, -⟩ := hm
  obtain ⟨w, hmem, he⟩ := user_of_mem_liveStarts hu
  refine ⟨?_, by rw [hk]; exact hc⟩
  rw [← huser, ← he]
  exact (hw w (List.mem_filter.1 hmem).1).1

theorem safe_runPending (hs : s.Calm) (hv : s.table.Valid) (course : Int) :
    Action.Safe (Action.runPending course) s s.Covers := by
  refine (Action.performs_runPending hs hv course).safe fun k m hm => .inr ?_
  obtain ⟨-, -, row, hrow, -⟩ := hm
  rw [hrow]
  rfl

/-- A sweep after the flags were set has nothing left to fail for. -/
theorem safe_reaggregation (hs : s.Calm) (hv : s.table.Valid) (course : Int) (all : Bool) :
    Action.Safe (reaggregation course all) s s.Covers := by
  cases all with
  | false => exact (safe_runPending hs hv course).map (Answer.sweep 0)
  | true =>
    obtain ⟨answer, s₁, hrun, hk, hc⟩ := (Action.performs_flagCourse hs hv course).safe
      (P := s.Covers) fun k m hm => .inr hm.2.2
    cases answer with
    | error e => exact ⟨_, s₁, Action.run_bind_error hrun _, hk, fun hv hr _ _ => hc hv hr e rfl⟩
    | ok flagged =>
      obtain ⟨answer, s', hrun', hk', -⟩ :=
        (safe_runPending (hk.calm hs) (hk.valid hv) course).map (Answer.sweep flagged)
      refine ⟨answer, s', (Action.run_bind_ok hrun _).trans hrun',
        hk.trans (hk'.mono fun k => hk.covers), fun hv hr e he => ?_⟩
      obtain ⟨summary, s'', hsweep⟩ :=
        Action.runPending_isOk (hk.calm hs) (hk.valid hv) (hk.readable hv hr) course
      rw [Action.run_map, hsweep, he] at hrun'
      cases congrArg Prod.fst hrun'

theorem storedRecord_run (hs : s.Calm) (k : Key) :
    ∃ answer, (storedRecord k).run s = (answer, s) := by
  have hget := Action.get?_run hs k
  cases hf : s.table.find k with
  | error e =>
    rw [hf] at hget
    exact ⟨_, Action.run_bind_error hget _⟩
  | ok found =>
    rw [hf] at hget
    cases found <;> exact ⟨_, Action.run_bind_ok hget _⟩

theorem safe_storedRecord (hs : s.Calm) (k : Key) : Action.Safe (storedRecord k) s s.Covers := by
  obtain ⟨answer, hrun⟩ := storedRecord_run hs k
  exact ⟨answer, s, hrun, .memory s s.remembered, fun _ _ _ _ => rfl⟩

theorem safe_action {c : Command} (hc : c.Fits) (hs : s.Calm) (hv : s.table.Valid)
    (hw : ∀ w ∈ s.store.windows, w.Fits) {action : Action Answer} (ha : c.action = .ok action) :
    Action.Safe action s s.Covers := by
  cases c with
  | enrol k time =>
    obtain ⟨starts, rfl⟩ := exists_of_time ha
    exact .map ((Action.performs_userEnrolled hs ⟨k.user, k.course, starts⟩).safe_at (.inl hc)) _
  | start k time =>
    obtain ⟨time, rfl⟩ := exists_of_time ha
    exact .map ((Action.performs_markStarted hs k time).safe_at (.inl hc)) _
  | complete k time =>
    obtain ⟨time, rfl⟩ := exists_of_time ha
    exact .map ((Action.performs_markComplete hs k time).safe_at (.inl hc)) _
  | aggregate k =>
    obtain rfl := Except.ok.inj ha
    exact .map ((Action.performs_aggregate hs k).safe_at (.inl hc)) _
  | bulkStart course =>
    obtain rfl := Except.ok.inj ha
    exact (safe_bulkStart hs hc hw).map _
  | reaggregate course all =>
    obtain rfl := Except.ok.inj ha
    exact safe_reaggregation hs hv course all
  | report user course =>
    obtain rfl := Except.ok.inj ha
    exact .map ((Action.performs_report hs user course).safe fun _ _ h => h.elim) _
  | showRecord k =>
    obtain rfl := Except.ok.inj ha
    exact safe_storedRecord hs k

end

end Command

/-! ## sessions -/

theorem fitsSigned64_column (o : Option Instant) : fitsSigned64 (column o) = true := by
  refine fitsSigned64_iff.2 ?_
  cases o with
  | none => exact ⟨by decide, by decide⟩
  | some t =>
    have h := t.seconds_mem
    unfold earliestSecond latestSecond at h
    rw [column_some]
    omega

namespace Session

/-- what every command keeps of a session: it can be written to a file as far as the numbers and
versions of rows have room there -/
structure Sound (s : Session) : Prop where
  calm : s.Calm
  valid : s.store.Valid
  readable : s.table.Readable
  settled : s.table.Settled
  sized : ∀ row ∈ s.table.rows, row.Sized
  others : s.store.clearCompletions.snapshot.Fits

namespace Keeps

variable {s s' : Session}

/-- Rows that are written fit, if their keys do. -/
theorem sized (h : s.Keeps s.Covers s') (hv : s.table.Valid)
    (hs : ∀ row ∈ s.table.rows, row.Sized) : ∀ row ∈ s'.table.rows, row.Sized := by
  intro row hrow
  have hrow' := (h.valid hv).row?_of_mem hrow
  rcases h.rows row.key with hsame | ⟨hcovers, r, id, version, hwritten⟩
  · exact hs row (CompletionTable.mem_of_row? (hsame.symm.trans hrow'))
  · have hkey : row.key.Fits := by
      rcases hcovers with hfits | hsome
      · exact hfits
      · obtain ⟨old, hold⟩ := Option.isSome_iff_exists.1 hsome
        rw [← CompletionTable.key_of_row? hold]
        exact (hs old (CompletionTable.mem_of_row? hold)).key
    obtain rfl := Option.some.inj (hwritten.symm.trans hrow')
    exact ⟨hkey, fitsSigned64_column _, fitsSigned64_column _, fitsSigned64_column _,
      fitsSigned64_column _⟩

/-- All tables but that of completions stay as they are. -/
theorem clearCompletions {P : Key → Prop} (h : s.Keeps P s') :
    s'.store.clearCompletions = s.store.clearCompletions := by
  have hlock : s'.table.clear = s.table.clear := by
    unfold CompletionTable.clear
    rw [h.locking]
  rw [h.store]
  exact congrArg (fun t => { s.store with completions := t }) hlock

theorem sound (h : s.Keeps s.Covers s') (hs : s.Sound) : s'.Sound where
  calm := h.calm hs.calm
  valid := by
    rw [h.store]
    exact { hs.valid with completions := h.valid hs.valid.completions }
  readable := h.readable hs.valid.completions hs.readable
  settled := h.settled hs.valid.completions hs.settled
  sized := h.sized hs.valid.completions hs.sized
  others := by
    rw [h.clearCompletions]
    exact hs.others

end Keeps

end Session

/-! ### what is written to a file -/

/-- The tables of a store fit, if the rows of completions and the other tables do. -/
theorem Store.fits_snapshot {s : Store} (hrows : ∀ row ∈ s.completions.rows, row.Fits)
    (hothers : s.clearCompletions.snapshot.Fits) : s.snapshot.Fits :=
  { hothers with completions := fun row hrow => hrows row (List.mem_mergeSort.1 hrow) }

namespace Snapshot.Fits

variable {snapshot : Snapshot} (h : snapshot.Fits) (locking : Bool)

include h

/-- A store that is filled from a snapshot has no other rows. -/
theorem rows : ∀ row ∈ (Store.ofSnapshot snapshot locking).completions.rows, row.Fits :=
  fun row hrow => h.completions row (Keyed.mem_of_mem_ofList hrow)

theorem others : (Store.ofSnapshot snapshot locking).clearCompletions.snapshot.Fits where
  courses c hc := h.courses c (Keyed.mem_of_mem_ofList hc)
  users u hu := h.users u (Keyed.mem_of_mem_ofList hu)
  settings c hc := h.settings c (Keyed.mem_of_mem_ofList (List.mem_mergeSort.1 hc))
  criteria := h.criteria
  methods m hm := h.methods m (Keyed.mem_of_mem_ofList (List.mem_mergeSort.1 hm))
  marks m hm := h.marks m (Keyed.mem_of_mem_ofList (List.mem_mergeSort.1 hm))
  windows := h.windows
  completions row hrow := by cases List.mem_mergeSort.1 hrow

end Snapshot.Fits

namespace Session

namespace Sound

variable {s : Session}

theorem windows (h : s.Sound) : ∀ w ∈ s.store.windows, w.Fits := h.others.windows

/-- The tables of a sound session fit, if the numbers and versions of rows do. -/
theorem fits (h : s.Sound) (hn : ∀ row ∈ s.table.rows, row.Numbered) : s.store.snapshot.Fits :=
  Store.fits_snapshot (fun row hrow => ⟨h.sized row hrow, hn row hrow⟩) h.others

theorem start {snapshot : Snapshot} (hfits : snapshot.Fits)
    (hkeys : Keyed.Unique Row.key snapshot.completions)
    (hread : ∀ row ∈ snapshot.completions, row.Readable) (locking : Bool) (now : Instant) :
    (Session.start (.ofSnapshot snapshot locking) now).Sound := by
  have hrows : (CompletionTable.ofRows snapshot.completions locking).rows =
      snapshot.completions := Keyed.ofList_of_unique hkeys
  have hsized := fun row hrow => (hfits.rows locking row hrow).sized
  refine ⟨rfl, Store.valid_ofSnapshot _ _, ?_, ?_, hsized, hfits.others locking⟩
  · intro row hrow
    exact hread row (hrows ▸ hrow)
  · show largest _ = largest ((CompletionTable.ofRows snapshot.completions locking).rows.map _)
    rw [hrows]

end Sound

end Session

namespace Command

variable {c : Command} {s : Session}

/-- A command runs its operation with nothing remembered. -/
theorem run_of_action {action : Action Answer} (ha : c.action = .ok action)
    {answer : Except ServiceError Answer} {s' : Session}
    (hrun : action.run (s.withMemory []) = (answer, s')) :
    c.run s = (answer.mapError CommandError.service, s') := by
  unfold run
  rw [ha]
  exact congrArg (fun p => (p.1.mapError CommandError.service, p.2)) hrun

/-- **A command keeps what it should**, whatever the rows hold. -/
theorem run_keeps (hc : c.Fits) (hs : s.Calm) (hv : s.table.Valid)
    (hw : ∀ w ∈ s.store.windows, w.Fits) : s.Keeps s.Covers (c.run s).2 := by
  cases ha : c.action with
  | error e =>
    have hrun : (c.run s).2 = s := by
      unfold run
      rw [ha]
    rw [hrun]
    exact .memory s s.remembered
  | ok action =>
    have hs' : (s.withMemory []).Calm := hs
    obtain ⟨answer, s', hrun, hk, -⟩ := safe_action hc hs' hv hw ha
    rw [run_of_action ha hrun]
    have hmemory : s.Keeps s.Covers (s.withMemory []) := .memory s []
    exact hmemory.trans hk

/-- **A command keeps a session sound**, and leaves the store as it was if it fails. -/
theorem run_sound (hc : c.Fits) (hs : s.Sound) :
    (c.run s).2.Sound ∧ (c.run s).2.store.completions.locking = s.store.completions.locking ∧
      ∀ e, (c.run s).1 = .error e → (c.run s).2.store = s.store := by
  have hk := run_keeps hc hs.calm hs.valid.completions hs.windows
  refine ⟨hk.sound hs, hk.locking, ?_⟩
  cases ha : c.action with
  | error e =>
    unfold run
    rw [ha]
    exact fun _ _ => rfl
  | ok action =>
    have hs' : (s.withMemory []).Calm := hs.calm
    obtain ⟨answer, s', hrun, -, hfail⟩ :=
      safe_action hc hs' hs.valid.completions hs.windows ha
    rw [run_of_action ha hrun]
    intro e he
    cases answer with
    | error e' => exact hfail hs.valid.completions hs.readable e' rfl
    | ok a => cases he

end Command

end CourseCompletion
