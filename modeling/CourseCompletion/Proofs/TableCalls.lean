import CourseCompletion.Proofs.Calm

/-!
# Calls of the table of completions

A `TableCall` inserts or updates a record, which need not come from the table: it may carry any
number, any version and any times.  `TableCall.Step` is all that a call can do, and an invariant of
its own, `CompletionTable.Kept`, goes along: one row to a key, and no number above the last.

After any calls, on the table of any rows, the table keeps its contract
(`table_keeps_contract`): `Session.Contract` says when the next call succeeds, what it answers, and
which row it changes.
-/

namespace CourseCompletion

/-! ## calls -/

inductive TableCall where
  | insert (r : Record)
  | update (r : Record)

namespace TableCall

def record : TableCall → Record
  | insert r | update r => r

def fetch : TableCall → Fetch Record
  | insert r => Fetch.insert r
  | update r => Fetch.update r

/-- the number that an insert gives out -/
def given : TableCall → Except SourceError Record → List Int
  | insert _, .ok saved => saved.id.toList
  | _, _ => []

/-- All that a call can do: what it answers, and the table that it leaves. -/
inductive Step (t : CompletionTable) :
    TableCall → Except SourceError Record → CompletionTable → Prop
  | inserted {r : Record} (free : t.row? r.key = none) :
      Step t (.insert r) (.ok (r.storedAs (t.lastId + 1) 1))
        { t.put (.ofRecord r (t.lastId + 1) 1) with lastId := t.lastId + 1 }
  | duplicate {r : Record} {row : Row} (found : t.row? r.key = some row) :
      Step t (.insert r) (.error (.duplicate CompletionTable.entity r.key.text)) t
  | updated {r : Record} {row : Row} (found : t.row? r.key = some row)
      (current : t.locking = false ∨ row.version = r.version) :
      Step t (.update r) (.ok (r.storedAs row.id (row.version + 1)))
        (t.put (.ofRecord r row.id (row.version + 1)))
  | stale {r : Record} {row : Row} (found : t.row? r.key = some row)
      (locked : t.locking = true) (other : row.version ≠ r.version) :
      Step t (.update r) (.error (.conflict
        s!"{r.key.text} (stored version {row.version}, given {r.version})")) t
  | missing {r : Record} (free : t.row? r.key = none) :
      Step t (.update r) (.error (.notFound CompletionTable.entity r.key.text)) t

/-- A call does what its step says. -/
theorem run_of_step {s : Session} (hs : s.Calm) {c : TableCall} {a : Except SourceError Record}
    {t : CompletionTable} (h : Step s.table c a t) : c.fetch.run s = (a, s.withTable t) := by
  cases h with
  | @inserted r free =>
    refine (Action.insert_run hs r).trans ?_
    rw [CompletionTable.insert_eq_ok_iff.2 ⟨free, rfl, rfl⟩]
  | @duplicate r row found =>
    refine (Action.insert_run hs r).trans ?_
    rw [CompletionTable.insert_eq_error_iff.2 ⟨by rw [found]; rfl, rfl⟩]
    rfl
  | @updated r row found current =>
    have hagree : s.table.locking = true → row.version = r.version := fun hlock =>
      current.resolve_left fun hopen => Bool.false_ne_true (hopen.symm.trans hlock)
    refine (Action.update_run hs r).trans ?_
    rw [CompletionTable.update_eq_ok_iff.2 ⟨row, found, hagree, rfl, rfl⟩]
  | @stale r row found locked other =>
    refine (Action.update_run hs r).trans ?_
    rw [CompletionTable.update_eq_error_iff.2 (.inr ⟨row, found, locked, other, rfl⟩)]
    rfl
  | @missing r free =>
    refine (Action.update_run hs r).trans ?_
    rw [CompletionTable.update_eq_error_iff.2 (.inl ⟨free, rfl⟩)]
    rfl

theorem exists_step (t : CompletionTable) (c : TableCall) : ∃ a t', Step t c a t' := by
  cases c with
  | insert r =>
    cases hrow : t.row? r.key with
    | none => exact ⟨_, _, .inserted hrow⟩
    | some row => exact ⟨_, _, .duplicate hrow⟩
  | update r =>
    cases hrow : t.row? r.key with
    | none => exact ⟨_, _, .missing hrow⟩
    | some row =>
      by_cases hversion : row.version = r.version
      · exact ⟨_, _, .updated hrow (.inr hversion)⟩
      · cases hlock : t.locking with
        | false => exact ⟨_, _, .updated hrow (.inl hlock)⟩
        | true => exact ⟨_, _, .stale hrow hlock hversion⟩

theorem exists_run {s : Session} (hs : s.Calm) (c : TableCall) :
    ∃ a t, c.fetch.run s = (a, s.withTable t) ∧ Step s.table c a t := by
  obtain ⟨a, t, h⟩ := exists_step s.table c
  exact ⟨a, t, run_of_step hs h, h⟩

/-- A call changes no row but that of its record. -/
theorem Step.row?_of_ne {t t' : CompletionTable} {c : TableCall} {a : Except SourceError Record}
    (h : Step t c a t') {k : Key} (hk : k ≠ c.record.key) : t'.row? k = t.row? k := by
  have hput : ∀ row : Row, row.key = c.record.key → (t.put row).row? k = t.row? k := by
    intro row hrow
    rw [CompletionTable.row?_put, if_neg (by rw [hrow]; exact hk)]
  cases h with
  | inserted free => exact hput _ rfl
  | updated found current => exact hput _ rfl
  | duplicate | stale | missing => rfl

end TableCall

/-! ## what every call keeps -/

/-- One row to a key, locking as it was set, and the last number not below any of some others. -/
structure CompletionTable.Kept (t : CompletionTable) (locking : Bool) (numbers : List Int) :
    Prop where
  valid : t.Valid
  locking : t.locking = locking
  numbers : ∀ n ∈ numbers, n ≤ t.lastId

namespace CompletionTable.Kept

variable {t t' : CompletionTable} {locking : Bool} {numbers : List Int}

theorem ofRows (rows : List Row) (locking : Bool) :
    (CompletionTable.ofRows rows locking).Kept locking (rows.map Row.id) where
  valid := valid_ofRows rows locking
  locking := rfl
  numbers _ hn := le_largest hn

theorem step (h : t.Kept locking numbers) {c : TableCall} {a : Except SourceError Record}
    (hc : c.Step t a t') : t'.Kept locking (numbers ++ c.given a) := by
  have hsame : (numbers ++ []) = numbers := List.append_nil numbers
  cases hc with
  | inserted free =>
    refine ⟨h.valid.put _, h.locking, fun n hn => ?_⟩
    show n ≤ t.lastId + 1
    rcases List.mem_append.1 hn with hn | hn
    · have hle := h.numbers n hn
      omega
    · obtain rfl : n = t.lastId + 1 := List.mem_singleton.1 hn
      exact Int.le_refl _
  | updated found current =>
    refine ⟨h.valid.put _, h.locking, fun n hn => ?_⟩
    exact h.numbers n (hsame ▸ hn)
  | duplicate | stale | missing =>
    refine ⟨h.valid, h.locking, fun n hn => ?_⟩
    exact h.numbers n (hsame ▸ hn)

end CompletionTable.Kept

namespace Session

/-- the session after calls, one after the other -/
def afterCalls (s : Session) (calls : List TableCall) : Session :=
  calls.foldl (fun s c => (c.fetch.run s).2) s

/-- the numbers that calls give out on the way -/
def numbersGiven (s : Session) : List TableCall → List Int
  | [] => []
  | c :: calls => c.given (c.fetch.run s).1 ++ numbersGiven (c.fetch.run s).2 calls

theorem kept_afterCalls {s : Session} (hs : s.Calm) {locking : Bool} {numbers : List Int}
    (h : s.table.Kept locking numbers) (calls : List TableCall) :
    (s.afterCalls calls).Calm ∧
      (s.afterCalls calls).table.Kept locking (numbers ++ s.numbersGiven calls) := by
  induction calls generalizing s numbers with
  | nil =>
    refine ⟨hs, ?_⟩
    show s.table.Kept locking (numbers ++ [])
    rw [List.append_nil]
    exact h
  | cons c calls ih =>
    obtain ⟨a, t, hrun, hstep⟩ := c.exists_run hs
    have hafter : s.afterCalls (c :: calls) = (s.withTable t).afterCalls calls := by
      show (c.fetch.run s).2.afterCalls calls = _
      rw [hrun]
    have hgiven : s.numbersGiven (c :: calls) =
        c.given a ++ (s.withTable t).numbersGiven calls := by
      show c.given (c.fetch.run s).1 ++ (c.fetch.run s).2.numbersGiven calls = _
      rw [hrun]
    rw [hafter, hgiven, ← List.append_assoc]
    exact ih (s := s.withTable t) hs (h.step hstep)

end Session

/-! ## the records of a course -/

namespace CompletionTable

variable {t : CompletionTable} {course : Int} {rs : List Record} {r : Record}

/-- The rows of a course stand in ascending order of their users. -/
theorem Valid.ascending_courseRows (hv : t.Valid) (course : Int) :
    (t.courseRows course).Pairwise fun a b => a.user < b.user := by
  have hsorted : (t.courseRows course).Pairwise fun a b => decide (a.user ≤ b.user) = true := by
    refine List.pairwise_mergeSort ?_ ?_ _
    · intro a b c hab hbc
      simp only [decide_eq_true_eq] at hab hbc ⊢
      omega
    · intro a b
      simp only [Bool.or_eq_true, decide_eq_true_eq]
      omega
  have hkeys : (t.courseRows course).Pairwise fun a b => a.key ≠ b.key :=
    List.pairwise_map.1 (hv.nodup_courseRows course)
  refine (hsorted.and hkeys).imp_of_mem fun {a b} ha hb hab => ?_
  obtain ⟨hle, hne⟩ := hab
  have hcourse : a.course = b.course :=
    (mem_courseRows.1 ha).2.trans (mem_courseRows.1 hb).2.symm
  have huser : a.user ≠ b.user := fun heq => hne (Key.mk.injEq .. ▸ ⟨heq, hcourse⟩)
  have hle' := of_decide_eq_true hle
  omega

theorem ascending_findByCourse (hv : t.Valid) (h : t.findByCourse course = .ok rs) :
    rs.Pairwise fun a b => a.user < b.user := by
  have hkeys : (rs.map Record.key).Pairwise fun a b => a.user < b.user := by
    rw [keys_of_reads (reads_of_findByCourse h)]
    exact List.pairwise_map.2 (hv.ascending_courseRows course)
  exact (List.pairwise_map (f := Record.key)).1 hkeys

/-- The records of a course are the ones that are found there. -/
theorem mem_findByCourse (hv : t.Valid) (h : t.findByCourse course = .ok rs) :
    r ∈ rs ↔ r.course = course ∧ t.find r.key = .ok (some r) := by
  constructor
  · intro hr
    obtain ⟨row, hrow, hread, hc⟩ := loads_of_findByCourse hv h hr
    exact ⟨hc, find_eq_some_iff.2 ⟨row, hrow, hread⟩⟩
  · rintro ⟨hc, hfind⟩
    obtain ⟨row, hrow, hread⟩ := find_eq_some_iff.1 hfind
    have hcourse : row.course = course := (course_of_row? hrow).trans hc
    obtain ⟨r', hr', hread'⟩ := record_of_reads (reads_of_findByCourse h)
      (mem_courseRows.2 ⟨mem_of_row? hrow, hcourse⟩)
    obtain rfl : r' = r := hread'.unique hread
    exact hr'

/-- A course is listed unless one of its rows cannot be read. -/
theorem findByCourse_isOk_iff :
    (∃ rs, t.findByCourse course = .ok rs) ↔
      ∀ row ∈ t.rows, row.course = course → row.Readable := by
  constructor
  · rintro ⟨rs, h⟩ row hrow hc
    obtain ⟨r, -, hread⟩ := record_of_reads (reads_of_findByCourse h) (mem_courseRows.2 ⟨hrow, hc⟩)
    exact Row.readable_iff.2 ⟨r, hread⟩
  · intro h
    refine exists_mapM_recordOf fun row hrow => ?_
    obtain ⟨hm, hc⟩ := mem_courseRows.1 hrow
    exact h row hm hc

end CompletionTable

/-! ## the contract -/

/-- What holds of the table of a session, and of the next call to it, where some numbers were given
out already. -/
structure Session.Contract (s : Session) (locking : Bool) (numbers : List Int) : Prop where
  /-- no two rows have the same user and course -/
  unique : (s.table.rows.map Row.key).Nodup
  /-- a row stands under its own user and course -/
  own : ∀ k row, s.table.row? k = some row ↔ row ∈ s.table.rows ∧ row.key = k
  /-- without a row there, a record is inserted under a new number and version `1` -/
  inserts : ∀ r, s.table.row? r.key = none → ∃ id s',
    (Fetch.insert r).run s = (.ok (r.storedAs id 1), s') ∧ (∀ n ∈ numbers, n < id) ∧
      s'.table.row? r.key = some (.ofRecord r id 1)
  /-- with a row there, an insert is refused -/
  duplicate : ∀ r row, s.table.row? r.key = some row →
    (Fetch.insert r).run s = (.error (.duplicate CompletionTable.entity r.key.text), s)
  /-- a row is written over under its number and the next version -/
  updates : ∀ r row, s.table.row? r.key = some row → locking = false ∨ row.version = r.version →
    ∃ s', (Fetch.update r).run s = (.ok (r.storedAs row.id (row.version + 1)), s') ∧
      s'.table.row? r.key = some (.ofRecord r row.id (row.version + 1))
  /-- with locking, a record of another version is refused -/
  stale : ∀ r row, s.table.row? r.key = some row → locking = true → row.version ≠ r.version →
    (Fetch.update r).run s = (.error (.conflict
      s!"{r.key.text} (stored version {row.version}, given {r.version})"), s)
  /-- without a row, an update is refused -/
  missing : ∀ r, s.table.row? r.key = none →
    (Fetch.update r).run s = (.error (.notFound CompletionTable.entity r.key.text), s)
  /-- a call changes no other row -/
  others : ∀ (c : TableCall) k, k ≠ c.record.key →
    (c.fetch.run s).2.table.row? k = s.table.row? k
  /-- a course lists its records once each, in the order of their users -/
  course : ∀ course, ∃ answer, (Fetch.findByCourse course).run s = (answer, s) ∧
    ((∃ rs, answer = .ok rs) ↔ ∀ row ∈ s.table.rows, row.course = course → row.Readable) ∧
    ∀ rs, answer = .ok rs → (rs.Pairwise fun a b => a.user < b.user) ∧
      ∀ r, r ∈ rs ↔ r.course = course ∧ (Fetch.find r.key).run s = (.ok (some r), s)

namespace Session

variable {s : Session} {locking : Bool} {numbers : List Int}

theorem contract_of_kept (hs : s.Calm) (h : s.table.Kept locking numbers) :
    s.Contract locking numbers where
  unique := List.pairwise_map.2 h.valid
  own k row := by
    constructor
    · intro hrow
      exact ⟨CompletionTable.mem_of_row? hrow, CompletionTable.key_of_row? hrow⟩
    · rintro ⟨hm, rfl⟩
      exact h.valid.row?_of_mem hm
  inserts r hfree := by
    refine ⟨_, _, TableCall.run_of_step hs (.inserted hfree), fun n hn => ?_, ?_⟩
    · have hle := h.numbers n hn
      omega
    · exact (CompletionTable.row?_put _ _ _).trans (if_pos rfl)
  duplicate r row hrow := TableCall.run_of_step hs (.duplicate hrow)
  updates r row hrow hversion := by
    rw [← h.locking] at hversion
    refine ⟨_, TableCall.run_of_step hs (.updated hrow hversion), ?_⟩
    exact (CompletionTable.row?_put _ _ _).trans (if_pos rfl)
  stale r row hrow hlocked hother :=
    TableCall.run_of_step hs (.stale hrow (h.locking.trans hlocked) hother)
  missing r hfree := TableCall.run_of_step hs (.missing hfree)
  others c k hk := by
    obtain ⟨a, t, hrun, hstep⟩ := c.exists_run hs
    rw [hrun]
    exact hstep.row?_of_ne hk
  course course := by
    have hfind : ∀ k, (Fetch.find k).run s = (s.table.find k, s) := fun k =>
      Action.run_bind_ok (access_calm .find hs) _
    refine ⟨s.table.findByCourse course, Action.run_bind_ok (access_calm .findByCourse hs) _,
      CompletionTable.findByCourse_isOk_iff, fun rs hrs => ?_⟩
    refine ⟨CompletionTable.ascending_findByCourse h.valid hrs, fun r => ?_⟩
    rw [CompletionTable.mem_findByCourse h.valid hrs, hfind]
    refine and_congr_right fun _ => ⟨fun hr => ?_, fun hr => congrArg Prod.fst hr⟩
    rw [hr]

end Session

/-- **The table keeps its contract.**  Whatever rows it begins with, and whatever records are
inserted and updated one after the other: the next call succeeds and fails as it should, and no
number is given out twice. -/
theorem table_keeps_contract (rows : List Row) (locking : Bool) (now : Instant)
    (calls : List TableCall) :
    let s : Session :=
      .start { Store.empty locking with completions := .ofRows rows locking } now
    (s.afterCalls calls).Contract locking (rows.map Row.id ++ s.numbersGiven calls) := by
  intro s
  have hkept := Session.kept_afterCalls (s := s) rfl (.ofRows rows locking) calls
  exact Session.contract_of_kept hkept.1 hkept.2

/-- numbers go on from the largest that was ever given, also one that another row replaced -/
example :
    let rows : List Row := [⟨-4, 1, 2, 0, 0, 0, 0, 1⟩, ⟨-9, 1, 2, 0, 0, 0, 0, 1⟩]
    ((CompletionTable.ofRows rows true).insert (.new ⟨3, 7⟩)).map (fun p => p.1.id) =
      .ok (some (-3)) := by
  decide

end CourseCompletion
