import CourseCompletion.Proofs.Readback

/-!
# What rows hold of records

A record has times of any precision, and may have them at any moment, while the columns of its row
hold whole seconds after the epoch and `0` for every other time.

* `kept?`         what a column keeps of a time: its second, if that lies after the epoch;
* `Record.kept`   what a row keeps of a record.

A row can be read unless a column lies beyond the last instant, and what was read goes back into
its columns.  A record can always be stored and read again, and what it loses is lost the first
time (`rows_keep_seconds_after_epoch`).
-/

namespace CourseCompletion

/-! ## one column -/

/-- what a column keeps of a time -/
def kept? (o : Option Instant) : Option Instant := (known? o).map Instant.wholeSecond

theorem mem_kept? {o : Option Instant} {t : Instant} (h : t ∈ kept? o) :
    0 < t.seconds ∧ t.nanos = 0 := by
  obtain ⟨u, hu, rfl⟩ := Option.map_eq_some_iff.1 h
  exact ⟨(known?_eq_some_iff.1 hu).2, rfl⟩

theorem kept?_eq_self_iff {o : Option Instant} :
    kept? o = o ↔ ∀ t ∈ o, 0 < t.seconds ∧ t.nanos = 0 := by
  constructor
  · intro h t ht
    rw [← h] at ht
    exact mem_kept? ht
  · intro h
    cases o with
    | none => rfl
    | some t =>
      obtain ⟨hknown, hnanos⟩ := h t rfl
      show (known? (some t)).map Instant.wholeSecond = some t
      rw [known?_of_isKnown hknown]
      exact congrArg some (Instant.ext_fields rfl hnanos.symm)

/-- A column that was read keeps its time. -/
theorem kept?_of_ofColumn {s : Int} {o : Option Instant} (h : ofColumn s = .ok o) : kept? o = o :=
  kept?_eq_self_iff.2 fun t ht => known_of_ofColumn h t ht

/-! ## whole records -/

namespace Record

/-- what a row keeps of a record -/
def kept (r : Record) : Record :=
  { r with
    enrolled := kept? r.enrolled
    started := kept? r.started
    completed := kept? r.completed
    reaggregate := kept? r.reaggregate }

/-- A row keeps all of a record exactly if its times are whole seconds after the epoch. -/
theorem kept_eq_self_iff {r : Record} :
    r.kept = r ↔ ∀ t ∈ r.times, 0 < t.seconds ∧ t.nanos = 0 := by
  rw [forall_mem_times, ← kept?_eq_self_iff, ← kept?_eq_self_iff, ← kept?_eq_self_iff,
    ← kept?_eq_self_iff]
  obtain ⟨id, user, course, enrolled, started, completed, reaggregate, version⟩ := r
  simp only [kept, Record.mk.injEq, true_and, and_true]

theorem times_storedAs (r : Record) (id : Int) (version : Nat) :
    (r.storedAs id version).times = r.times := rfl

/-- **The row of a record reads as what it keeps of the record.** -/
theorem reads_kept (r : Record) (id : Int) (version : Nat) :
    (Row.ofRecord r id version).Reads (r.storedAs id version).kept where
  id := rfl
  key := rfl
  enrolled := ofColumn_column r.enrolled
  started := ofColumn_column r.started
  completed := ofColumn_column r.completed
  reaggregate := ofColumn_column r.reaggregate
  version := rfl

end Record

namespace Row.Reads

variable {row : Row} {r : Record}

/-- A record that was read has nothing left to lose. -/
theorem kept (h : row.Reads r) : r.kept = r := by
  unfold Record.kept
  rw [kept?_of_ofColumn h.enrolled, kept?_of_ofColumn h.started, kept?_of_ofColumn h.completed,
    kept?_of_ofColumn h.reaggregate]

theorem storedAs (h : row.Reads r) : r.storedAs row.id row.version = r := by
  unfold Record.storedAs
  rw [← h.id, ← h.version]

/-- So it reads the same when it is stored again under its number and version. -/
theorem again (h : row.Reads r) : (Row.ofRecord r row.id row.version).Reads r := by
  have hagain := r.reads_kept row.id row.version
  rw [h.storedAs, h.kept] at hagain
  exact hagain

end Row.Reads

/-- **Rows keep the seconds of records that lie after the epoch.**  A row cannot be read exactly if
a column of it lies beyond the last instant, and the error tells of the first that does.  Any other
row reads as a record whose row it is, with `0` for every column at or before the epoch.  A record
that is stored can always be read: as the record under its number and version, with each time cut
to its second, and without the times at or before the epoch.  So nothing is lost exactly if every
time is a whole second after the epoch, and nothing more is lost when it is stored again. -/
theorem rows_keep_seconds_after_epoch :
    (∀ row : Row,
      ((∃ e, row.toRecord = .error e) ↔ ∃ s ∈ row.columns, latestSecond < s) ∧
      (∀ e, row.toRecord = .error e → ∃ s : Int, row.columns.find? (latestSecond < ·) = some s ∧
        e = .invalidRow s!"timestamp out of range: {s}") ∧
      ((∀ s ∈ row.columns, s ≤ latestSecond) →
        ∃ r, row.toRecord = .ok r ∧ Row.ofRecord r row.id row.version = row.cleared)) ∧
    ∀ (r : Record) (id : Int) (version : Nat),
      (Row.ofRecord r id version).toRecord = .ok (r.storedAs id version).kept ∧
      ((Row.ofRecord r id version).toRecord = .ok (r.storedAs id version) ↔
        ∀ t ∈ r.times, 0 < t.seconds ∧ t.nanos = 0) ∧
      ∀ read, (Row.ofRecord r id version).toRecord = .ok read →
        (Row.ofRecord read id version).toRecord = .ok read := by
  refine ⟨fun row => ⟨?_, fun e he => Row.toRecord_error he, fun hcolumns => ?_⟩,
    fun r id version => ⟨?_, ?_, fun read hread => ?_⟩⟩
  · constructor
    · rintro ⟨e, he⟩
      obtain ⟨s, hfirst, -⟩ := Row.toRecord_error he
      exact ⟨s, List.mem_of_find?_eq_some hfirst, by simpa using List.find?_some hfirst⟩
    · rintro ⟨s, hs, hlate⟩
      cases hread : row.toRecord with
      | error e => exact ⟨e, rfl⟩
      | ok r =>
        have hreadable := Row.readable_iff.2 ⟨r, Row.toRecord_eq_ok_iff.1 hread⟩
        have hle := Row.readable_iff_columns.1 hreadable s hs
        omega
  · obtain ⟨r, hr⟩ := Row.readable_iff.1 (Row.readable_iff_columns.2 hcolumns)
    exact ⟨r, Row.toRecord_eq_ok_iff.2 hr, hr.ofRecord_eq row.version⟩
  · exact Row.toRecord_eq_ok_iff.2 (r.reads_kept id version)
  · rw [Row.toRecord_eq_ok_iff.2 (r.reads_kept id version), Except.ok.injEq,
      Record.kept_eq_self_iff, Record.times_storedAs]
  · exact Row.toRecord_eq_ok_iff.2 (Row.toRecord_eq_ok_iff.1 hread).again

/-- a start half a second before 1970 is dropped and a completion inside a leap second is cut to the
second before it; a row is told of by the first of two columns beyond the last instant -/
theorem leap_second_kept_as_second_before :
    let start : Instant := ⟨-1, 500000000, by decide, by decide⟩
    let leap : Instant := ⟨119, 1500000000, by decide, by decide⟩
    let r : Record := ⟨none, 3, 7, none, some start, some leap, none, 0⟩
    let beyond : Row := ⟨4, 3, 7, -5, 50, 8210266876800, 9000000000000, 2⟩
    let last : Row := ⟨4, 3, 7, -30, 0, 8210266876799, 1, 2⟩
    (Row.ofRecord r 9 1).toRecord =
        .ok ⟨some 9, 3, 7, none, none, some leap.wholeSecond, none, 1⟩ ∧
      (Row.ofRecord r 9 1).toRecord ≠ .ok (r.storedAs 9 1) ∧
      (∃ e, beyond.toRecord = .error e ∧ e = .invalidRow "timestamp out of range: 8210266876800") ∧
      ∃ read, last.toRecord = .ok read ∧
        Row.ofRecord read 4 2 = ⟨4, 3, 7, 0, 0, 8210266876799, 1, 2⟩ := by
  intro start leap r beyond last
  obtain ⟨hrow, hrecord⟩ := rows_keep_seconds_after_epoch
  obtain ⟨hread, hsame, -⟩ := hrecord r 9 1
  obtain ⟨hfails, htells, -⟩ := hrow beyond
  obtain ⟨e, he⟩ := hfails.2 ⟨8210266876800, by decide, by decide⟩
  obtain ⟨s, hs, rfl⟩ := htells e he
  have hfirst : beyond.columns.find? (latestSecond < ·) = some 8210266876800 := by decide
  obtain rfl := Option.some.inj (hfirst.symm.trans hs)
  refine ⟨hread, fun h => ?_, ⟨_, he, rfl⟩, (hrow last).2.2 (by decide)⟩
  have hwhole := hsame.1 h leap (by decide)
  exact absurd hwhole.2 (by decide)

end CourseCompletion
