import CourseCompletion.Proofs.Refusal
import CourseCompletion.Proofs.Starts

/-!
# Records created for many users

`Action.startEach` goes through participants one by one; each is looked up in the table as the ones
before left it.  As no user comes twice, this comes to the same as to look all of them up first:

* `CompletionTable.append`      the table with rows for some records at its end, which have the next
                                numbers in order;
* `CompletionTable.newcomers`   the first records of the participants that have no row.

Up to a participant whose row cannot be read, all newcomers are appended (`startEach_append`).
There the loop ends; the rows that were appended stay (`startUsers_error`).
-/

namespace CourseCompletion

/-! ## rows at the end of a table -/

namespace CompletionTable

variable {t t' : CompletionTable} {r : Record} {rs : List Record} {row : Row} {k : Key}

/-- new rows of records, under the numbers that follow the last one -/
def rowsAfter (last : Int) (rs : List Record) : List Row :=
  rs.mapIdx fun i r => .ofRecord r (last + 1 + i) 1

/-- the table with new rows of records at its end -/
def append (t : CompletionTable) (rs : List Record) : CompletionTable :=
  { t with rows := t.rows ++ rowsAfter t.lastId rs, lastId := t.lastId + rs.length }

theorem append_nil (t : CompletionTable) : t.append [] = t := by
  obtain ⟨rows, lastId, locking⟩ := t
  simp [append, rowsAfter]

theorem append_append (t : CompletionTable) (rs rs' : List Record) :
    (t.append rs).append rs' = t.append (rs ++ rs') := by
  have hnumber : ∀ i : Nat,
      t.lastId + rs.length + 1 + i = t.lastId + 1 + (i + rs.length : Nat) := by
    intro i
    omega
  have hlast : t.lastId + rs.length + rs'.length = t.lastId + (rs ++ rs').length := by
    rw [List.length_append]
    omega
  unfold append rowsAfter
  simp only [List.mapIdx_append, List.append_assoc, hnumber, hlast]

theorem length_rowsAfter (last : Int) (rs : List Record) :
    (rowsAfter last rs).length = rs.length := List.length_mapIdx

theorem ids_rowsAfter (last : Int) (rs : List Record) :
    (rowsAfter last rs).map Row.id = (List.range rs.length).map fun i : Nat => last + 1 + i := by
  refine List.ext_getElem (by simp [rowsAfter]) fun i hi hi' => ?_
  simp [rowsAfter, Row.ofRecord]

theorem users_rowsAfter (last : Int) (rs : List Record) :
    (rowsAfter last rs).map Row.user = rs.map Record.user := by
  refine List.ext_getElem (by simp [rowsAfter]) fun i hi hi' => ?_
  simp [rowsAfter, Row.ofRecord]

theorem of_mem_rowsAfter {last : Int} (h : row ∈ rowsAfter last rs) :
    ∃ r ∈ rs, ∃ id, row = .ofRecord r id 1 := by
  obtain ⟨i, hi, rfl⟩ := List.mem_mapIdx.1 h
  exact ⟨rs[i], List.getElem_mem hi, _, rfl⟩

theorem exists_mem_rowsAfter (last : Int) (h : r ∈ rs) :
    ∃ id, .ofRecord r id 1 ∈ rowsAfter last rs := by
  obtain ⟨i, hi, rfl⟩ := List.mem_iff_getElem.1 h
  exact ⟨_, List.mem_mapIdx.2 ⟨i, hi, rfl⟩⟩

/-- New rows have 64-bit numbers, if there are enough left. -/
theorem numbered_of_mem_rowsAfter {last : Int} (hlast : fitsSigned64 last)
    (hroom : fitsSigned64 (last + rs.length)) (h : row ∈ rowsAfter last rs) : row.Numbered := by
  obtain ⟨i, hi, rfl⟩ := List.mem_mapIdx.1 h
  refine ⟨?_, rfl⟩
  have hleast := fitsSigned64_iff.1 hlast
  have hmost := fitsSigned64_iff.1 hroom
  show fitsSigned64 (last + 1 + i) = true
  exact fitsSigned64_iff.2 (by omega)

theorem Numbered.append (h : t.Numbered) (hroom : fitsSigned64 (t.lastId + rs.length)) :
    (t.append rs).Numbered :=
  ⟨hroom, fun row hrow => (List.mem_append.1 hrow).elim (h.rows row)
    (numbered_of_mem_rowsAfter h.lastId hroom)⟩

theorem row?_append (t : CompletionTable) (rs : List Record) (k : Key) :
    (t.append rs).row? k = (t.row? k).or (Keyed.get? Row.key k (rowsAfter t.lastId rs)) :=
  List.find?_append

theorem unreadable_eq_true_iff :
    t.unreadable k = true ↔ ∃ row, t.row? k = some row ∧ ¬row.Readable := by
  simp only [unreadable, Option.any_eq_true, decide_eq_true_iff]

theorem unreadable_eq_false_iff :
    t.unreadable k = false ↔ ∀ row, t.row? k = some row → row.Readable := by
  rw [← Bool.not_eq_true, unreadable_eq_true_iff]
  push Not
  rfl

/-- Either all rows of some users can be read, or there is a first that cannot. -/
theorem unreadable_cases (t : CompletionTable) (course : Int) (us : List (Int × Option Instant)) :
    (∀ u ∈ us, t.unreadable ⟨u.1, course⟩ = false) ∨
      ∃ before u rest, us = before ++ u :: rest ∧
        (∀ v ∈ before, t.unreadable ⟨v.1, course⟩ = false) ∧
        t.unreadable ⟨u.1, course⟩ = true := by
  cases hfind : us.find? fun u => t.unreadable ⟨u.1, course⟩ with
  | none =>
    left
    simpa using hfind
  | some u =>
    right
    obtain ⟨hu, before, rest, hus, hbefore⟩ := List.find?_eq_some_iff_append.1 hfind
    exact ⟨before, u, rest, hus, fun v hv => by simpa using hbefore v hv, hu⟩

/-- A row that is there stays. -/
theorem row?_append_of_some (h : t.row? k = some row) (rs : List Record) :
    (t.append rs).row? k = some row := by
  rw [row?_append, h]
  rfl

theorem row?_append_of_ne (h : ∀ r ∈ rs, r.key ≠ k) : (t.append rs).row? k = t.row? k := by
  have hnone : Keyed.get? Row.key k (rowsAfter t.lastId rs) = none := by
    refine List.find?_eq_none.2 fun row hrow => ?_
    obtain ⟨r, hr, id, rfl⟩ := of_mem_rowsAfter hrow
    rw [Row.key_ofRecord, decide_eq_true_iff]
    exact h r hr
  rw [row?_append, hnone, Option.or_none]

/-- The key of a new record finds a row. -/
theorem exists_row?_append (t : CompletionTable) (h : r ∈ rs) :
    ∃ row, (t.append rs).row? r.key = some row := by
  obtain ⟨id, hrow⟩ := exists_mem_rowsAfter t.lastId h
  refine Option.isSome_iff_exists.1 (List.find?_isSome.2 ⟨_, List.mem_append_right t.rows hrow, ?_⟩)
  exact decide_eq_true (Row.key_ofRecord r id 1)

theorem readable_of_row?_append (h : (t.append rs).row? k = some row) :
    t.row? k = some row ∨ row.Readable := by
  rw [row?_append] at h
  cases hrow : t.row? k with
  | some row' =>
    rw [hrow] at h
    exact .inl h
  | none =>
    rw [hrow] at h
    obtain ⟨r, -, id, rfl⟩ := of_mem_rowsAfter (Keyed.mem_of_get? h)
    exact .inr (Row.readable_ofRecord r id 1)

/-- A record of a key without a row is inserted at the end. -/
theorem insert_of_none (h : t.row? r.key = none) :
    t.insert r = .ok (r.storedAs (t.lastId + 1) 1, t.append [r]) := by
  have habsent : Keyed.erase Row.key r.key t.rows = t.rows :=
    List.filter_eq_self.2 fun row hrow => by simpa using List.find?_eq_none.1 h row hrow
  have hput : ∀ row : Row, row.key = r.key → t.put row = { t with rows := t.rows ++ [row] } := by
    rintro row hkey
    unfold put Keyed.put
    rw [hkey, habsent]
  have hnumber : t.lastId + 1 + (0 : Nat) = t.lastId + 1 := Int.add_zero _
  refine insert_eq_ok_iff.2 ⟨h, rfl, ?_⟩
  unfold append rowsAfter
  rw [List.mapIdx_singleton, hnumber, hput _ (Row.key_ofRecord r _ 1)]
  rfl

/-- the first records of participants without a row -/
def newcomers (t : CompletionTable) (course : Int) (startOnEnrol : Bool) (now : Instant)
    (us : List (Int × Option Instant)) : List Record :=
  (us.filter fun u => (t.row? ⟨u.1, course⟩).isNone).map fun u =>
    Action.firstRecord ⟨u.1, course⟩ u.2 startOnEnrol now

/-- the participants that have a row -/
def settled (t : CompletionTable) (course : Int) (us : List (Int × Option Instant)) :
    List (Int × Option Instant) :=
  us.filter fun u => (t.row? ⟨u.1, course⟩).isSome

section

variable {course : Int} {startOnEnrol : Bool} {now : Instant} {us : List (Int × Option Instant)}
  {u : Int × Option Instant}

theorem newcomers_cons_of_some (h : t.row? ⟨u.1, course⟩ = some row) :
    t.newcomers course startOnEnrol now (u :: us) = t.newcomers course startOnEnrol now us := by
  unfold newcomers
  rw [List.filter_cons_of_neg (by simp [h])]

theorem newcomers_cons_of_none (h : t.row? ⟨u.1, course⟩ = none) :
    t.newcomers course startOnEnrol now (u :: us) =
      Action.firstRecord ⟨u.1, course⟩ u.2 startOnEnrol now ::
        t.newcomers course startOnEnrol now us := by
  unfold newcomers
  rw [List.filter_cons_of_pos (by simp [h]), List.map_cons]

theorem mem_newcomers (hu : u ∈ us) (h : t.row? ⟨u.1, course⟩ = none) :
    Action.firstRecord ⟨u.1, course⟩ u.2 startOnEnrol now ∈
      t.newcomers course startOnEnrol now us :=
  List.mem_map.2 ⟨u, List.mem_filter.2 ⟨hu, by simp [h]⟩, rfl⟩

theorem settled_cons_of_some (h : t.row? ⟨u.1, course⟩ = some row) :
    t.settled course (u :: us) = u :: t.settled course us :=
  List.filter_cons_of_pos (by simp [h])

theorem settled_cons_of_none (h : t.row? ⟨u.1, course⟩ = none) :
    t.settled course (u :: us) = t.settled course us :=
  List.filter_cons_of_neg (by simp [h])

/-- Who is new depends on the rows of the participants only. -/
theorem newcomers_congr (h : ∀ u ∈ us, t'.row? ⟨u.1, course⟩ = t.row? ⟨u.1, course⟩) :
    t'.newcomers course startOnEnrol now us = t.newcomers course startOnEnrol now us := by
  unfold newcomers
  rw [List.filter_congr fun u hu => by rw [h u hu]]

theorem settled_congr (h : ∀ u ∈ us, t'.row? ⟨u.1, course⟩ = t.row? ⟨u.1, course⟩) :
    t'.settled course us = t.settled course us :=
  List.filter_congr fun u hu => by rw [h u hu]

end

end CompletionTable

/-- the session after it was made known how many records a start created, if any -/
def Session.telling (s : Session) (course : Int) (created : Nat) : Session :=
  { s with published :=
      s.published ++ if 0 < created then [.usersStarted course created s.now] else [] }

theorem Session.telling_zero (s : Session) (course : Int) : s.telling course 0 = s := by
  obtain ⟨store, now, outages, remembered, published⟩ := s
  exact congrArg (Session.mk store now outages remembered) (List.append_nil published)

/-! ## one participant -/

namespace Action

open CompletionTable

variable {s : Session} {k : Key} {course : Int} {us rest : List (Int × Option Instant)}

theorem key_firstRecord (k : Key) (earliest : Option Instant) (startOnEnrol : Bool)
    (now : Instant) : (firstRecord k earliest startOnEnrol now).key = k := by
  unfold firstRecord
  split <;> simp

/-- the row that a first record begins -/
theorem ofRecord_firstRecord (k : Key) (earliest : Option Instant) (startOnEnrol : Bool)
    (now : Instant) (id : Int) (version : Nat) :
    Row.ofRecord (Action.firstRecord k earliest startOnEnrol now) id version =
      ⟨id, k.user, k.course, (earliest.getD now).seconds, if startOnEnrol then now.seconds else 0,
        0, 0, version⟩ := by
  cases startOnEnrol <;> rfl

/-- A participant without a row gets one, at the end of the table. -/
theorem startUser_new (hs : s.Calm) (h : s.table.row? k = none) (earliest : Option Instant)
    (startOnEnrol : Bool) : (startUser k earliest startOnEnrol).run s = (.ok true,
      s.withTable (s.table.append [firstRecord k earliest startOnEnrol s.now])) := by
  have hget : (get? k).run s = (.ok none, s) := by
    rw [get?_run hs, find_of_none h]
    rfl
  have hnot := isStored_firstRecord k earliest startOnEnrol s.now
  have hsave := (if_neg (by simp [hnot]) : s.table.save _ = s.table.insert _).trans <|
    insert_of_none (r := firstRecord k earliest startOnEnrol s.now) (by rwa [key_firstRecord])
  have hcommit : ((Commit.first earliest startOnEnrol).run (.new k)).run s =
      (Plan.first (firstRecord k earliest startOnEnrol s.now)).run s :=
    (run_bind_ok (now_run s) _).trans (beginRecord_run hs hnot)
  rw [startUser_eq, run_bind_ok hget]
  refine (run_map _ _ s).trans ?_
  rw [hcommit, Plan.run_first_ok hsave]
  rfl

/-- A participant with a row that can be read is left alone. -/
theorem startUser_settled (hs : s.Calm) (h : (s.table.row? k).isSome)
    (hread : s.table.unreadable k = false) (earliest : Option Instant) (startOnEnrol : Bool) :
    (startUser k earliest startOnEnrol).run s = (.ok false, s) := by
  cases hfind : s.table.find k with
  | error e =>
    rw [(unreadable_of_find hfind).1] at hread
    cases hread
  | ok found =>
    cases found with
    | none =>
      rw [find_eq_none_iff.1 hfind] at h
      cases h
    | some r =>
      have hget : (get? k).run s = (.ok (some r), s) := by
        rw [get?_run hs, hfind]
        rfl
      rw [startUser_eq, run_bind_ok hget]
      rfl

theorem startUser_unreadable (hs : s.Calm) (h : s.table.unreadable k = true)
    (earliest : Option Instant) (startOnEnrol : Bool) :
    ∃ e, (startUser k earliest startOnEnrol).run s = (.error e, s) ∧
      Refusal.unreadable.Tells e := by
  cases hfind : s.table.find k with
  | ok found =>
    rw [readable_of_find hfind] at h
    cases h
  | error e =>
    have hget : (get? k).run s = (.error e.toServiceError, s) := by
      rw [get?_run hs, hfind]
      rfl
    refine ⟨_, ?_, (unreadable_of_find hfind).2⟩
    rw [startUser_eq]
    exact run_bind_error hget _

/-! ## all participants -/

/-- Participants whose rows can be read, before any others: those without a row get one, and all of
them are counted. -/
theorem startEach_append (hs : s.Calm) (startOnEnrol : Bool)
    (hus : us.Pairwise fun a b => a.1 < b.1)
    (hread : ∀ u ∈ us, s.table.unreadable ⟨u.1, course⟩ = false)
    (rest : List (Int × Option Instant)) (summary : BulkSummary) :
    (startEach course startOnEnrol (us ++ rest) summary).run s =
      (startEach course startOnEnrol rest
        ⟨summary.created + (s.table.newcomers course startOnEnrol s.now us).length,
          summary.skipped + (s.table.settled course us).length⟩).run
        (s.withTable (s.table.append (s.table.newcomers course startOnEnrol s.now us))) := by
  induction us generalizing s summary with
  | nil =>
    show _ = (startEach course startOnEnrol rest summary).run (s.withTable (s.table.append []))
    rw [append_nil]
    rfl
  | cons u us ih =>
    obtain ⟨hlt, hus⟩ := List.pairwise_cons.1 hus
    have hread' : ∀ v ∈ us, s.table.unreadable ⟨v.1, course⟩ = false := fun v hv =>
      hread v (List.mem_cons_of_mem _ hv)
    cases hrow : s.table.row? ⟨u.1, course⟩ with
    | some row =>
      have hstart := startUser_settled hs (by rw [hrow]; rfl)
        (hread u List.mem_cons_self) u.2 startOnEnrol
      have hcount : summary.skipped + 1 + (s.table.settled course us).length =
          summary.skipped + (s.table.settled course (u :: us)).length := by
        rw [settled_cons_of_some hrow, List.length_cons]
        omega
      rw [newcomers_cons_of_some hrow, ← hcount]
      exact (run_bind_ok hstart _).trans (ih hs hus hread' _)
    | none =>
      let first := firstRecord ⟨u.1, course⟩ u.2 startOnEnrol s.now
      have hstart := startUser_new hs hrow u.2 startOnEnrol
      -- the new row is of another user than all that follow
      have hsame : ∀ v ∈ us,
          (s.table.append [first]).row? ⟨v.1, course⟩ = s.table.row? ⟨v.1, course⟩ := by
        intro v hv
        refine row?_append_of_ne fun r hr heq => ?_
        obtain rfl := List.mem_singleton.1 hr
        rw [key_firstRecord] at heq
        exact Int.ne_of_lt (hlt v hv) (congrArg Key.user heq)
      have hread₁ : ∀ v ∈ us, (s.table.append [first]).unreadable ⟨v.1, course⟩ = false := by
        intro v hv
        unfold unreadable
        rw [hsame v hv]
        exact hread' v hv
      have hrest := ih (s := s.withTable (s.table.append [first])) hs hus hread₁
        ⟨summary.created + 1, summary.skipped⟩
      have hnew : s.table.newcomers course startOnEnrol s.now (u :: us) =
          [first] ++ (s.table.append [first]).newcomers course startOnEnrol s.now us := by
        rw [newcomers_cons_of_none hrow, newcomers_congr hsame]
        rfl
      have hold : s.table.settled course (u :: us) =
          (s.table.append [first]).settled course us := by
        rw [settled_cons_of_none hrow, settled_congr hsame]
      rw [hnew, hold, ← append_append, List.length_append, ← Nat.add_assoc]
      exact (run_bind_ok hstart _).trans hrest

theorem tell_run (s : Session) (course : Int) (summary : BulkSummary) :
    (do
      if 0 < summary.created then publish (.usersStarted course summary.created s.now)
      return summary : Action BulkSummary).run s =
      (.ok summary, s.telling course summary.created) := by
  obtain ⟨created, skipped⟩ := summary
  cases created with
  | zero => exact congrArg (Prod.mk _) (s.telling_zero course).symm
  | succ n => rfl

/-- In a course that tracks completion the participants are gone through, and it is made known how
many were started. -/
theorem startUsers_of_tracking (hs : s.Calm) {settings : TrackingSettings}
    (htrack : s.tracking? course = some settings) :
    (startUsers course).run s = (do
      let summary ← startEach course settings.startOnEnrol
        (liveStarts (s.store.courseWindows course) s.now) ⟨0, 0⟩
      if 0 < summary.created then publish (.usersStarted course summary.created s.now)
      return summary : Action BulkSummary).run (s.lookedUp course) := by
  have hask := ask_run (s := s.lookedUp course) hs .courseWindows (·.courseWindows course)
  unfold startUsers
  rw [run_bind_ok (tracking?_run hs course), htrack]
  exact (run_bind_ok (now_run _) _).trans (run_bind_ok hask _)

/-- A course that tracks completion, where every participant's row can be read: the newcomers are
appended, and made known if there are any. -/
theorem startUsers_run (hs : s.Calm) {settings : TrackingSettings}
    (htrack : s.tracking? course = some settings)
    (hus : liveStarts (s.store.courseWindows course) s.now = us)
    (hread : ∀ u ∈ us, s.table.unreadable ⟨u.1, course⟩ = false) :
    (startUsers course).run s =
      (.ok ⟨(s.table.newcomers course settings.startOnEnrol s.now us).length,
          (s.table.settled course us).length⟩,
        ((s.lookedUp course).withTable
          (s.table.append (s.table.newcomers course settings.startOnEnrol s.now us))).telling course
            (s.table.newcomers course settings.startOnEnrol s.now us).length) := by
  subst hus
  let us := liveStarts (s.store.courseWindows course) s.now
  let new := s.table.newcomers course settings.startOnEnrol s.now us
  have heach := startEach_append (s := s.lookedUp course) hs settings.startOnEnrol
    (participants_liveStarts _ _).ascending hread [] ⟨0, 0⟩
  rw [List.append_nil] at heach
  simp only [Nat.zero_add] at heach
  rw [startUsers_of_tracking hs htrack]
  exact (run_bind_ok heach _).trans (tell_run ((s.lookedUp course).withTable (s.table.append new))
    course ⟨new.length, (s.table.settled course us).length⟩)

/-- The first participant whose row cannot be read ends it: the newcomers before are appended, and
nothing is made known. -/
theorem startUsers_error (hs : s.Calm) {settings : TrackingSettings}
    (htrack : s.tracking? course = some settings) {u : Int × Option Instant}
    (hus : liveStarts (s.store.courseWindows course) s.now = us ++ u :: rest)
    (hread : ∀ v ∈ us, s.table.unreadable ⟨v.1, course⟩ = false)
    (hu : s.table.unreadable ⟨u.1, course⟩ = true) :
    ∃ e, (startUsers course).run s = (.error e, (s.lookedUp course).withTable
        (s.table.append (s.table.newcomers course settings.startOnEnrol s.now us))) ∧
      Refusal.unreadable.Tells e := by
  let new := s.table.newcomers course settings.startOnEnrol s.now us
  have hascending := (participants_liveStarts (s.store.courseWindows course) s.now).ascending
  rw [hus] at hascending
  have heach := startEach_append (s := s.lookedUp course) hs settings.startOnEnrol
    (List.pairwise_append.1 hascending).1 hread (u :: rest) ⟨0, 0⟩
  -- the row that cannot be read is still there
  have hstays : (s.table.append new).unreadable ⟨u.1, course⟩ = true := by
    obtain ⟨row, hrow, hnot⟩ := unreadable_eq_true_iff.1 hu
    exact unreadable_eq_true_iff.2 ⟨row, row?_append_of_some hrow _, hnot⟩
  obtain ⟨e, hstart, he⟩ := startUser_unreadable (s := (s.lookedUp course).withTable _) hs hstays
    u.2 settings.startOnEnrol
  refine ⟨e, ?_, he⟩
  rw [startUsers_of_tracking hs htrack, hus]
  refine run_bind_error ?_ _
  rw [heach]
  exact run_bind_error hstart _

end Action

end CourseCompletion
