import CourseCompletion.Proofs.Respect

/-!
# What an operation on one record does

An operation on the record of a key (`Operation.key?`) reads and writes no other row.  All that it
does is a `Deed`:

* `Deed.still`   it answers and writes nothing;
* `Deed.replace` it writes over the row of its key;
* `Deed.new`     it stores a record under the next number, which shows in its answer.

Sessions that are `Session.LikeAt` a key differ in other rows, in what they remember and in what
was published: there the operation does the same deed (`Operation.exists_deed`).
-/

namespace CourseCompletion

/-! ## other numbers -/

/-- the record under another number, if it has one -/
def Record.renumbered (f : Int → Int) (r : Record) : Record := { r with id := r.id.map f }

theorem Record.renumbered_self (r : Record) : r.renumbered (fun n => n) = r := by
  unfold Record.renumbered
  rw [Option.map_id']

def Row.renumbered (f : Int → Int) (row : Row) : Row := { row with id := f row.id }

namespace Outcome

def renumbered (f : Int → Int) : Outcome → Outcome
  | saved r => saved (r.renumbered f)
  | completed r => completed (r.renumbered f)
  | alreadyComplete r => alreadyComplete (r.renumbered f)
  | notApplicable => notApplicable

theorem renumbered_self (o : Outcome) : o.renumbered (fun n => n) = o := by
  cases o with
  | saved r => exact congrArg saved r.renumbered_self
  | completed r => exact congrArg completed r.renumbered_self
  | alreadyComplete r => exact congrArg alreadyComplete r.renumbered_self
  | notApplicable => rfl

theorem renumbered_stored (f : Int → Int) (r : Record) :
    (stored r).renumbered f = stored (r.renumbered f) := by
  have hsame : (r.renumbered f).isComplete = r.isComplete := rfl
  unfold stored
  rw [hsame]
  split <;> rfl

theorem record?_renumbered (f : Int → Int) (o : Outcome) :
    (o.renumbered f).record? = o.record?.map (Record.renumbered f) := by
  cases o <;> rfl

end Outcome

namespace Reply

/-- the answer with other numbers on the records that it shows -/
def renumbered (f : Int → Int) : Reply → Reply
  | outcome o => outcome (o.renumbered f)
  | record r => record (r.map (Record.renumbered f))
  | enrolment (.started o) => enrolment (.started (o.renumbered f))
  | reply => reply

theorem renumbered_self (r : Reply) : r.renumbered (fun n => n) = r := by
  cases r with
  | outcome o => exact congrArg outcome o.renumbered_self
  | record r =>
    have hself : Record.renumbered (fun n => n) = fun r => r := funext Record.renumbered_self
    show record (r.map (Record.renumbered fun n => n)) = record r
    rw [hself, Option.map_id']
  | enrolment o =>
    cases o with
    | started o => exact congrArg (fun o => enrolment (.started o)) o.renumbered_self
    | ignored reason => rfl
  | begun | flagged | swept | report => rfl

end Reply

/-! ## deeds -/

/-- All that an operation on one record does. -/
inductive Deed where
  | still (answer : Except ServiceError Reply)
  | replace (row : Row) (reply : Reply) (news : Option Completion)
  | new (w : Record) (reply : Record → Reply) (news : Option Completion)

namespace Deed

/-- the deed takes a number for a new row -/
def draws : Deed → Bool
  | new .. => true
  | still _ | replace .. => false

/-- the answer, if the next number is the given one -/
def answer : Deed → Int → Except ServiceError Reply
  | still answer, _ => answer
  | replace _ reply _, _ => .ok reply
  | new w reply _, id => .ok (reply (w.storedAs id 1))

/-- the row that is written, if the next number is the given one -/
def row? : Deed → Int → Option Row
  | still _, _ => none
  | replace row _ _, _ => some row
  | new w _ _, id => some (.ofRecord w id 1)

def news : Deed → Option Completion
  | still _ => none
  | replace _ _ news | new _ _ news => news

def table (d : Deed) (t : CompletionTable) : CompletionTable :=
  match d with
  | still _ => t
  | replace row _ _ => t.put row
  | new w _ _ => { t.put (.ofRecord w (t.lastId + 1) 1) with lastId := t.lastId + 1 }

def run (d : Deed) (s : Session) : Except ServiceError Reply × Session :=
  (d.answer (s.table.lastId + 1), (s.withTable (d.table s.table)).announcing d.news)

/-- the deed writes no row but that of a key: over the one that is there, or a new one if there is
none, with an answer that shows its number -/
def Fits (k : Key) (found : Option Row) : Deed → Prop
  | still _ => True
  | replace row _ _ => row.key = k ∧ found.isSome
  | new w reply _ => w.key = k ∧ found = none ∧
      ∀ f r, reply (Record.renumbered f r) = (reply r).renumbered f

variable {d : Deed} {k : Key} {t : CompletionTable} {found : Option Row}

theorem locking_table (d : Deed) (t : CompletionTable) : (d.table t).locking = t.locking := by
  cases d <;> rfl

theorem lastId_table (d : Deed) (t : CompletionTable) :
    (d.table t).lastId = t.lastId + d.draws.toNat := by
  cases d with
  | still | replace => exact (Int.add_zero _).symm
  | new => rfl

/-- A deed changes no row but that of its key. -/
theorem row?_table (hd : d.Fits k found) (t : CompletionTable) (k' : Key) :
    (d.table t).row? k' =
      if k' = k then (d.row? (t.lastId + 1)).or (t.row? k) else t.row? k' := by
  cases d with
  | still answer =>
    show t.row? k' = if k' = k then t.row? k else t.row? k'
    split
    · next h => rw [h]
    · rfl
  | replace row reply news =>
    obtain ⟨rfl, -⟩ := hd
    exact CompletionTable.row?_put t row k'
  | new w reply news =>
    obtain ⟨rfl, -⟩ := hd
    exact CompletionTable.row?_put t (.ofRecord w (t.lastId + 1) 1) k'

/-- A deed takes a number exactly if a row begins by it. -/
theorem draws_eq_true_iff (hd : d.Fits k found) (id : Int) :
    d.draws = true ↔ found = none ∧ ((d.row? id).or found).isSome := by
  cases d with
  | still answer =>
    constructor
    · intro h
      cases h
    · rintro ⟨rfl, hsome⟩
      cases hsome
  | replace row reply news =>
    constructor
    · intro h
      cases h
    · rintro ⟨rfl, -⟩
      cases hd.2
  | new w reply news => exact ⟨fun _ => ⟨hd.2.1, rfl⟩, fun _ => rfl⟩

/-! ### the same deed under another number -/

/-- A deed that takes no number is the same whichever is next. -/
theorem fixed (h : d.draws = false) (id id' : Int) :
    d.answer id' = d.answer id ∧ d.row? id' = d.row? id := by
  cases d with
  | still | replace => exact ⟨rfl, rfl⟩
  | new => cases h

/-- A deed that takes another number shows it. -/
theorem drawn (hd : d.Fits k found) (h : d.draws = true) (f : Int → Int) (id : Int) :
    d.answer (f id) = (d.answer id).map (Reply.renumbered f) ∧
      d.row? (f id) = (d.row? id).map (Row.renumbered f) := by
  cases d with
  | still | replace => cases h
  | new w reply news =>
    refine ⟨?_, rfl⟩
    exact congrArg Except.ok (hd.2.2 f (w.storedAs id 1))

/-! ### deeds that write a record -/

/-- to write a record, as far as the table lets it -/
def write (t : CompletionTable) (w : Record) (reply : Record → Reply)
    (news : Option Completion) : Deed :=
  match t.save w with
  | .error e => still (.error e.toServiceError)
  | .ok (saved, _) =>
    if w.isStored then replace (CompletionTable.rowOf saved) (reply saved) news
    else new w reply news

variable {w : Record} {reply : Record → Reply} {news : Option Completion}

theorem fits_write (hk : w.key = k)
    (hreply : ∀ f r, reply (Record.renumbered f r) = (reply r).renumbered f) :
    (write t w reply news).Fits k (t.row? k) := by
  subst hk
  unfold write
  cases h : t.save w with
  | error e => trivial
  | ok p =>
    obtain ⟨saved, t'⟩ := p
    have hs := CompletionTable.saved_of_save h
    obtain ⟨id, hsaved⟩ := hs.saved_eq
    have hover := hs.overwrites
    show Fits w.key (t.row? w.key) (if w.isStored then
      replace (CompletionTable.rowOf saved) (reply saved) news else new w reply news)
    by_cases hw : w.isStored
    · rw [if_pos hw]
      rw [hw] at hover
      refine ⟨?_, hover.symm⟩
      rw [hsaved]
      rfl
    · rw [if_neg hw]
      rw [show w.isStored = false by simpa using hw] at hover
      exact ⟨rfl, by simpa using hover.symm, hreply⟩

/-- To write a record is the same deed wherever its row and the locking are the same. -/
theorem run_write {s : Session} (hrow : s.table.row? w.key = t.row? w.key)
    (hlock : s.table.locking = t.locking) :
    (write t w reply news).run s = match s.put w with
      | (.ok saved, s') => (.ok (reply saved), s'.announcing news)
      | (.error e, s') => (.error e, s') := by
  unfold write Session.put CompletionTable.save
  by_cases hw : w.isStored
  · simp only [if_pos hw]
    rcases CompletionTable.update_alike hrow hlock with ⟨e, hs, ht⟩ | ⟨row, hs, ht⟩
    · rw [hs, ht]
      rfl
    · rw [hs, ht]
      rfl
  · simp only [if_neg hw]
    rcases CompletionTable.insert_alike hrow with ⟨e, hs, ht⟩ | ⟨hs, ht⟩
    · rw [hs, ht]
      rfl
    · rw [hs, ht]
      rfl

end Deed

/-! ## sessions that are alike at one record -/

/-- a session with the same row under a key, which is the same in all but other rows, what it
remembers, and what was published -/
structure Session.LikeAt (k : Key) (s s' : Session) : Prop where
  now : s'.now = s.now
  store : s'.store = { s.store with completions := s'.table }
  settings? : ∀ course, s'.settings? course = s.settings? course
  row? : s'.table.row? k = s.table.row? k
  locking : s'.table.locking = s.table.locking

namespace Session.LikeAt

variable {k : Key} {s s' : Session}

theorem tracking? (h : s.LikeAt k s') (course : Int) :
    s'.tracking? course = s.tracking? course := tracking?_congr (h.settings? course)

theorem lookedUp (h : s.LikeAt k s') (course : Int) : s.LikeAt k (s'.lookedUp course) where
  now := h.now
  store := h.store
  settings? course' := (s'.settings?_lookedUp course course').trans (h.settings? course')
  row? := h.row?
  locking := h.locking

theorem load (h : s.LikeAt k s') : s'.table.load k = s.table.load k := by
  unfold CompletionTable.load CompletionTable.find
  rw [h.row?]

theorem ignored? (h : s.LikeAt k s') (e : UserEnrolled) : s'.ignored? e = s.ignored? e := by
  unfold Session.ignored?
  rw [h.tracking?, h.store]
  rfl

/-! ### what a commit decides -/

theorem enrolled (h : s.LikeAt k s') (r : Record) : s'.enrolled r = s.enrolled r := by
  unfold Session.enrolled
  rw [h.store, h.now]
  rfl

theorem completing (h : s.LikeAt k s') (r : Record) (time : Option Instant) :
    s'.completing r time = s.completing r time := by
  unfold Session.completing
  rw [h.now]
  simp only [h.enrolled]

theorem evaluating (h : s.LikeAt k s') (r : Record) (settings : TrackingSettings) :
    s'.evaluating r settings = s.evaluating r settings := by
  have hcriteria : s'.store.criteriaFor r.key = s.store.criteriaFor r.key := by
    rw [h.store]
    rfl
  unfold Session.evaluating
  simp only [h.completing, h.enrolled, hcriteria]

theorem aggregating (h : s.LikeAt k s') (r : Record) (p : Plan) :
    s'.aggregating r p = s.aggregating r p := by
  have hevaluating : s'.evaluating r = s.evaluating r := funext (h.evaluating r)
  unfold Session.aggregating
  rw [h.enrolled, h.tracking?, hevaluating]

/-- A commit decides the same in sessions that are alike at a record. -/
theorem plan (h : s.LikeAt k s') (m : Commit) (r : Record) : m.plan r s' = m.plan r s := by
  cases m with
  | enrol time | start time =>
    unfold Commit.plan
    simp only [h.now, h.enrolled, h.aggregating]
  | complete time => exact h.completing r time
  | aggregate => exact h.aggregating r _
  | join time => exact h.aggregating _ _
  | flag time => exact congrArg Plan.store (h.enrolled _)
  | sweep => exact h.aggregating _ _
  | first earliest startOnEnrol =>
    unfold Commit.plan
    rw [h.now]

end Session.LikeAt

/-! ## what is decided, as a deed -/

/-- an answer that shows the record of an outcome under its number -/
def Outcome.Shows (f : Outcome → Reply) : Prop :=
  ∀ g o, f (Outcome.renumbered g o) = (f o).renumbered g

namespace Plan

/-- what is decided as a deed, with the outcome as part of a reply -/
def deed (f : Outcome → Reply) (t : CompletionTable) : Plan → Deed
  | leave o => .still (.ok (f o))
  | store w => .write t w (fun saved => f (.stored saved)) none
  | finish w c => .write t w (fun saved => f (.completed saved)) (some c)
  | first w => .write t w (fun saved => f (.saved saved)) none

variable {p : Plan} {f : Outcome → Reply} {t : CompletionTable} {k : Key}

theorem fits_deed (hf : Outcome.Shows f) (hk : ∀ w, p.written? = some w → w.key = k) :
    (p.deed f t).Fits k (t.row? k) := by
  cases p with
  | leave o => trivial
  | store w =>
    refine Deed.fits_write (hk w rfl) fun g r => ?_
    rw [← Outcome.renumbered_stored]
    exact hf g _
  | finish w c => exact Deed.fits_write (hk w rfl) fun g r => hf g (.completed r)
  | first w => exact Deed.fits_write (hk w rfl) fun g r => hf g (.saved r)

/-- What is decided is the same deed wherever its row and the locking are the same. -/
theorem run_deed {s : Session} (hp : ∀ w, p ≠ .first w)
    (hk : ∀ w, p.written? = some w → w.key = k) (hrow : s.table.row? k = t.row? k)
    (hlock : s.table.locking = t.locking) :
    (p.deed f t).run s = ((p.run s).1.map f, (p.run s).2) := by
  cases p with
  | leave o => rfl
  | store w =>
    obtain rfl := hk w rfl
    refine (Deed.run_write hrow hlock).trans ?_
    simp only [run]
    rcases s.put w with ⟨e | saved, s'⟩ <;> rfl
  | finish w c =>
    obtain rfl := hk w rfl
    refine (Deed.run_write hrow hlock).trans ?_
    simp only [run]
    rcases s.put w with ⟨e | saved, s'⟩ <;> rfl
  | first w => exact absurd rfl (hp w)

end Plan

/-! ## operations on one record -/

namespace Operation

/-- the key of the record that an operation is about, if it is about one -/
def key? : Operation → Option Key
  | markEnrolled k _ | markStarted k _ | markComplete k _ | aggregate k | flag k => some k
  | userEnrolled e => some e.key
  | startUsers _ | flagCourse _ | runPending _ | report .. => none

end Operation

namespace Action

/-- the action does a deed at a key, in every calm session that is like this one there -/
def Does (x : Action Reply) (k : Key) (s : Session) (d : Deed) : Prop :=
  d.Fits k (s.table.row? k) ∧ ∀ s', s.LikeAt k s' → s'.Calm →
    ∃ memory, x.run s' = d.run (s'.withMemory memory)

variable {s : Session} {k : Key} {f : Outcome → Reply}

/-- an answer that is given at once -/
theorem does_still {x : Action Reply} {a : Except ServiceError Reply}
    (h : ∀ s', s.LikeAt k s' → s'.Calm → ∃ memory, x.run s' = (a, s'.withMemory memory)) :
    ∃ d, Does x k s d :=
  ⟨.still a, trivial, h⟩

theorem exists_does_commit {m : Commit} (hm : ∀ e b, m ≠ .first e b) {r : Record} (hr : r.key = k)
    (hf : Outcome.Shows f) : ∃ d, Does (f <$> m.run r) k s d := by
  have hplan := Commit.continues (K := False) (m := m) (s := s) (fun h => h.elim)
    (fun h => h.elim) r fun e b h => absurd h (hm e b)
  have hk : ∀ w, (m.plan r s).written? = some w → w.key = k := fun w hw =>
    (hplan.progress w hw).key.trans hr
  have hfirst : ∀ w, m.plan r s ≠ .first w := by
    intro w hw
    obtain ⟨e, b, hmfirst⟩ := Commit.eq_first_of_plan hw
    exact hm e b hmfirst
  refine ⟨(m.plan r s).deed f s.table, Plan.fits_deed hf hk, fun s' h hs' => ?_⟩
  obtain ⟨memory, hrun⟩ := m.run_eq hs' r
  refine ⟨memory, ?_⟩
  rw [run_map, hrun, h.plan]
  exact (Plan.run_deed (s := s'.withMemory memory) hfirst hk h.row? h.locking).symm

/-- an action after one that reads the same in all sessions that are alike there -/
theorem exists_does_read {γ : Type} {x : Action γ} {f : γ → Action Reply}
    {a : Except SourceError γ} (hx : ∀ s', s.LikeAt k s' → s'.Calm →
      x.run s' = (a.mapError SourceError.toServiceError, s'))
    (hf : ∀ c, a = .ok c → ∃ d, Does (f c) k s d) : ∃ d, Does (x >>= f) k s d := by
  cases a with
  | error e =>
    refine does_still (a := .error e.toServiceError) fun s' h hs' => ⟨s'.remembered, ?_⟩
    exact run_bind_error (hx s' h hs') f
  | ok c =>
    obtain ⟨d, hfits, hd⟩ := hf c rfl
    refine ⟨d, hfits, fun s' h hs' => ?_⟩
    obtain ⟨memory, hrun⟩ := hd s' h hs'
    exact ⟨memory, (run_bind_ok (hx s' h hs') f).trans hrun⟩

theorem exists_does_load (k : Key) {m : Commit} (hm : ∀ e b, m ≠ .first e b)
    (hf : Outcome.Shows f) : ∃ d, Does (f <$> (load k >>= m.run)) k s d := by
  have hload : ∀ s', s.LikeAt k s' → s'.Calm →
      (load k).run s' = ((s.table.load k).mapError SourceError.toServiceError, s') := by
    intro s' h hs'
    rw [load_run hs', h.load]
  rw [map_bind]
  refine exists_does_read hload fun r hr => ?_
  exact exists_does_commit hm (CompletionTable.load_eq_ok_iff.1 hr).key hf

theorem shows_outcome : Outcome.Shows Reply.outcome := fun _ _ => rfl

theorem exists_does_flag (k : Key) : ∃ d, Does (Reply.record <$> flag k) k s d := by
  have hget : ∀ s', s.LikeAt k s' → s'.Calm →
      (get? k).run s' = ((s.table.find k).mapError SourceError.toServiceError, s') := by
    intro s' h hs'
    have hfind : s'.table.find k = s.table.find k := by
      unfold CompletionTable.find
      rw [h.row?]
    rw [get?_run hs', hfind]
  rw [flag_eq, map_bind]
  refine exists_does_read hget fun found hfind => ?_
  cases found with
  | none => exact does_still (a := .ok (.record none)) fun s' _ _ => ⟨s'.remembered, rfl⟩
  | some r =>
    have hkey : r.key = k := (CompletionTable.loads_of_find hfind).key
    have hshows : Outcome.Shows fun o => Reply.record o.record? := fun g o =>
      congrArg Reply.record (o.record?_renumbered g)
    have hnow : ∀ s', s.LikeAt k s' → s'.Calm →
        now.run s' = ((Except.ok s.now).mapError SourceError.toServiceError, s') := by
      intro s' h _
      rw [now_run, h.now]
      rfl
    simp only [map_bind, map_pure]
    refine exists_does_read hnow fun time _ => ?_
    have hcommit := exists_does_commit (s := s) (m := .flag time) (fun _ _ h => by cases h) hkey
      hshows
    rwa [map_eq_pure_bind] at hcommit

theorem exists_does_userEnrolled (e : UserEnrolled) :
    ∃ d, Does (Reply.enrolment <$> userEnrolled e) e.key s d := by
  cases hignored : s.ignored? e with
  | some reason =>
    refine does_still (a := .ok (.enrolment (.ignored reason))) fun s' h hs' => ?_
    have hrun := userEnrolled_eq hs' e
    rw [h.ignored?, hignored] at hrun
    obtain ⟨memory, hrun⟩ := hrun
    refine ⟨memory, ?_⟩
    rw [run_map, hrun]
    rfl
  | none =>
    have hshows : Outcome.Shows fun o => Reply.enrolment (.started o) := fun _ _ => rfl
    obtain ⟨d, hfits, hd⟩ := exists_does_load (s := s) e.key
      (m := .join ((known? e.starts).getD s.now)) (fun _ _ h => by cases h) hshows
    refine ⟨d, hfits, fun s' h hs' => ?_⟩
    obtain ⟨memory, hload⟩ := hd (s'.lookedUp e.course) (h.lookedUp e.course) hs'
    refine ⟨memory, ?_⟩
    have hjoin := userEnrolled_eq hs' e
    rw [h.ignored?, hignored, h.now] at hjoin
    rw [run_map, hjoin, ← run_map, Functor.map_map]
    exact hload

end Action

namespace Operation

/-- **An operation on one record does the same deed in all sessions that are alike there.** -/
theorem exists_deed {op : Operation} {k : Key} (hk : op.key? = some k) (s : Session) :
    ∃ d, Action.Does op.action k s d := by
  cases op with
  | markEnrolled k' time =>
    obtain rfl := Option.some.inj hk
    exact Action.exists_does_load k' (m := .enrol time) (fun _ _ h => by cases h)
      Action.shows_outcome
  | markStarted k' time =>
    obtain rfl := Option.some.inj hk
    exact Action.exists_does_load k' (m := .start time) (fun _ _ h => by cases h)
      Action.shows_outcome
  | markComplete k' time =>
    obtain rfl := Option.some.inj hk
    exact Action.exists_does_load k' (m := .complete time) (fun _ _ h => by cases h)
      Action.shows_outcome
  | aggregate k' =>
    obtain rfl := Option.some.inj hk
    exact Action.exists_does_load k' (m := .aggregate) (fun _ _ h => by cases h)
      Action.shows_outcome
  | flag k' =>
    obtain rfl := Option.some.inj hk
    exact Action.exists_does_flag k'
  | userEnrolled e =>
    obtain rfl := Option.some.inj hk
    exact Action.exists_does_userEnrolled e
  | startUsers | flagCourse | runPending | report => cases hk

end Operation

end CourseCompletion
