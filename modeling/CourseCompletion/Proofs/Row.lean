import CourseCompletion.Row

/-!
# What rows read as

`Row.Reads` says which record a row holds (`Row.toRecord_eq_ok_iff`), column by column, and
`ofColumn_eq_ok_iff` says what one column holds.

A row is `Row.Readable` unless a column lies beyond the last instant (`Row.readable_iff`), and then
the first such column is what its error tells of (`Row.toRecord_error`).  It is `Row.Due` once the
time that it is flagged for has come.
-/

namespace CourseCompletion

/-! ## one column -/

theorem ofColumn_eq_ok_iff {s : Int} {o : Option Instant} :
    ofColumn s = .ok o ↔
      (s ≤ 0 ∧ o = none) ∨ (0 < s ∧ ∃ t, o = some t ∧ t.seconds = s ∧ t.nanos = 0) := by
  unfold ofColumn
  by_cases h : s ≤ 0
  · rw [if_pos h]
    constructor
    · intro ho
      exact .inl ⟨h, (Except.ok.inj ho).symm⟩
    · rintro (⟨-, rfl⟩ | ⟨hpos, -⟩)
      · rfl
      · omega
  · rw [if_neg h]
    cases ht : Instant.ofSeconds? s with
    | none =>
      constructor
      · intro ho
        cases ho
      · rintro (⟨hneg, -⟩ | ⟨-, t, -, rfl, -⟩)
        · exact absurd hneg h
        · exact absurd t.seconds_mem (Instant.ofSeconds?_eq_none_iff.1 ht)
    | some t =>
      have hs := Instant.seconds_of_ofSeconds? ht
      constructor
      · intro ho
        exact .inr ⟨by omega, t, (Except.ok.inj ho).symm, hs.1, hs.2⟩
      · rintro (⟨hneg, -⟩ | ⟨-, u, rfl, hu, hn⟩)
        · exact absurd hneg h
        · exact congrArg _ (congrArg _ (Instant.ext_fields (hs.1.trans hu.symm)
            (hs.2.trans hn.symm)))

/-- a column that is set reads as the whole second that it holds -/
theorem eq_some_of_column {s : Int} {o : Option Instant} (h : ofColumn s = .ok o) (hs : 0 < s) :
    ∃ t, o = some t ∧ t.seconds = s ∧ t.nanos = 0 := by
  rcases ofColumn_eq_ok_iff.1 h with ⟨hneg, -⟩ | ⟨-, ht⟩
  · omega
  · exact ht

/-- a time that was read goes back into its column as it stood -/
theorem column_of_ofColumn {s : Int} {o : Option Instant} (h : ofColumn s = .ok o) :
    column o = max s 0 := by
  rcases ofColumn_eq_ok_iff.1 h with ⟨hneg, rfl⟩ | ⟨hpos, t, rfl, ht, -⟩
  · rw [column_none]
    omega
  · rw [column_some]
    omega

theorem isSome_of_column {s : Int} {o : Option Instant} (h : ofColumn s = .ok o) :
    o.isSome = decide (0 < s) := by
  rcases ofColumn_eq_ok_iff.1 h with ⟨hneg, rfl⟩ | ⟨hpos, t, rfl, -, -⟩
  · simpa using hneg
  · simpa using hpos

/-- A column that cannot be read lies beyond the last instant. -/
theorem ofColumn_error {s : Int} {e : TableError} (h : ofColumn s = .error e) :
    latestSecond < s ∧ e = .invalidRow s!"timestamp out of range: {s}" := by
  have hlate : latestSecond < s := by
    apply Int.not_le.1
    intro hle
    obtain ⟨t, ht⟩ := (ofColumn_isOk_iff s).2 hle
    rw [ht] at h
    cases h
  refine ⟨hlate, ?_⟩
  unfold ofColumn at h
  split at h
  · cases h
  · cases hs : Instant.ofSeconds? s with
    | some t =>
      rw [hs] at h
      cases h
    | none =>
      rw [hs] at h
      exact (Except.error.inj h).symm

/-! ## whole rows -/

/-- the start lies no later than the completion -/
def Record.Ordered (r : Record) : Prop :=
  ∀ t u, r.started = some t → r.completed = some u → t ≤ u

namespace Row

structure Reads (row : Row) (r : Record) : Prop where
  id : r.id = some row.id
  key : r.key = row.key
  enrolled : ofColumn row.enrolled = .ok r.enrolled
  started : ofColumn row.started = .ok r.started
  completed : ofColumn row.completed = .ok r.completed
  reaggregate : ofColumn row.reaggregate = .ok r.reaggregate
  version : r.version = row.version

theorem toRecord_eq_ok_iff {row : Row} {r : Record} : row.toRecord = .ok r ↔ row.Reads r := by
  unfold toRecord
  constructor
  · intro h
    cases he : ofColumn row.enrolled with
    | error e => rw [he] at h; cases h
    | ok enrolled =>
    cases hs : ofColumn row.started with
    | error e => rw [he, hs] at h; cases h
    | ok started =>
    cases hc : ofColumn row.completed with
    | error e => rw [he, hs, hc] at h; cases h
    | ok completed =>
    cases hr : ofColumn row.reaggregate with
    | error e => rw [he, hs, hc, hr] at h; cases h
    | ok reaggregate =>
    rw [he, hs, hc, hr] at h
    obtain rfl := Except.ok.inj h
    exact ⟨rfl, rfl, he, hs, hc, hr, rfl⟩
  · rintro ⟨hid, hkey, he, hs, hc, hr, hv⟩
    rw [he, hs, hc, hr]
    obtain ⟨hu, hco⟩ := Key.mk.inj hkey
    obtain ⟨id, user, course, enrolled, started, completed, reaggregate, version⟩ := r
    subst hid hu hco hv
    rfl

/-- A row reads as one record only. -/
theorem Reads.unique {row : Row} {r r' : Record} (h : row.Reads r) (h' : row.Reads r') : r = r' :=
  Except.ok.inj ((toRecord_eq_ok_iff.2 h).symm.trans (toRecord_eq_ok_iff.2 h'))

/-- every column of times lies in the range of instants -/
def Readable (row : Row) : Prop :=
  row.enrolled ≤ latestSecond ∧ row.started ≤ latestSecond ∧ row.completed ≤ latestSecond ∧
    row.reaggregate ≤ latestSecond

instance (row : Row) : Decidable row.Readable := inferInstanceAs (Decidable (_ ∧ _ ∧ _ ∧ _))

theorem readable_iff {row : Row} : row.Readable ↔ ∃ r, row.Reads r := by
  unfold Readable
  constructor
  · rintro ⟨he, hs, hc, hr⟩
    obtain ⟨enrolled, he⟩ := (ofColumn_isOk_iff _).2 he
    obtain ⟨started, hs⟩ := (ofColumn_isOk_iff _).2 hs
    obtain ⟨completed, hc⟩ := (ofColumn_isOk_iff _).2 hc
    obtain ⟨reaggregate, hr⟩ := (ofColumn_isOk_iff _).2 hr
    exact ⟨⟨some row.id, row.user, row.course, enrolled, started, completed, reaggregate,
      row.version⟩, rfl, rfl, he, hs, hc, hr, rfl⟩
  · rintro ⟨r, h⟩
    exact ⟨(ofColumn_isOk_iff _).1 ⟨_, h.enrolled⟩, (ofColumn_isOk_iff _).1 ⟨_, h.started⟩,
      (ofColumn_isOk_iff _).1 ⟨_, h.completed⟩, (ofColumn_isOk_iff _).1 ⟨_, h.reaggregate⟩⟩

/-- the columns of times, in the order in which they are read -/
def columns (row : Row) : List Int := [row.enrolled, row.started, row.completed, row.reaggregate]

theorem readable_iff_columns {row : Row} : row.Readable ↔ ∀ s ∈ row.columns, s ≤ latestSecond := by
  simp [Readable, columns]

/-- The error of a row tells of its first column beyond the last instant. -/
theorem toRecord_error {row : Row} {e : TableError} (h : row.toRecord = .error e) :
    ∃ s : Int, row.columns.find? (latestSecond < ·) = some s ∧
      e = .invalidRow s!"timestamp out of range: {s}" := by
  have hok : ∀ {s o}, ofColumn s = .ok o → ¬latestSecond < s := by
    intro s o ho
    exact Int.not_lt.2 ((ofColumn_isOk_iff s).1 ⟨o, ho⟩)
  unfold toRecord at h
  cases he : ofColumn row.enrolled with
  | error e' =>
    rw [he] at h
    obtain rfl := Except.error.inj h
    obtain ⟨hlate, rfl⟩ := ofColumn_error he
    exact ⟨row.enrolled, by simp [columns, hlate], rfl⟩
  | ok enrolled =>
  cases hs : ofColumn row.started with
  | error e' =>
    rw [he, hs] at h
    obtain rfl := Except.error.inj h
    obtain ⟨hlate, rfl⟩ := ofColumn_error hs
    exact ⟨row.started, by simp [columns, hok he, hlate], rfl⟩
  | ok started =>
  cases hc : ofColumn row.completed with
  | error e' =>
    rw [he, hs, hc] at h
    obtain rfl := Except.error.inj h
    obtain ⟨hlate, rfl⟩ := ofColumn_error hc
    exact ⟨row.completed, by simp [columns, hok he, hok hs, hlate], rfl⟩
  | ok completed =>
  cases hr : ofColumn row.reaggregate with
  | error e' =>
    rw [he, hs, hc, hr] at h
    obtain rfl := Except.error.inj h
    obtain ⟨hlate, rfl⟩ := ofColumn_error hr
    exact ⟨row.reaggregate, by simp [columns, hok he, hok hs, hok hc, hlate], rfl⟩
  | ok reaggregate =>
    rw [he, hs, hc, hr] at h
    cases h

/-- the row with `0` for every column at or before the epoch -/
def cleared (row : Row) : Row :=
  { row with
    enrolled := max row.enrolled 0
    started := max row.started 0
    completed := max row.completed 0
    reaggregate := max row.reaggregate 0 }

/-- A record that was read goes back into its row as it stood, with cleared columns. -/
theorem Reads.ofRecord_eq {row : Row} {r : Record} (h : row.Reads r) (version : Nat) :
    ofRecord r row.id version = { row.cleared with version } := by
  obtain ⟨huser, hcourse⟩ := Key.mk.inj h.key
  unfold ofRecord cleared
  rw [column_of_ofColumn h.enrolled, column_of_ofColumn h.started, column_of_ofColumn h.completed,
    column_of_ofColumn h.reaggregate, huser, hcourse]

theorem Reads.isStored {row : Row} {r : Record} (h : row.Reads r) : r.isStored = true := by
  unfold Record.isStored
  rw [h.id]
  rfl

theorem column_le (o : Option Instant) : column o ≤ latestSecond := by
  cases o with
  | none => decide
  | some t => exact t.seconds_mem.2

theorem readable_ofRecord (r : Record) (id : Int) (version : Nat) :
    (ofRecord r id version).Readable :=
  ⟨column_le _, column_le _, column_le _, column_le _⟩

/-! ## due rows -/

/-- the row is flagged for a time that has come -/
def Due (row : Row) (now : Instant) : Prop :=
  0 < row.reaggregate ∧ row.reaggregate ≤ now.seconds

instance (row : Row) (now : Instant) : Decidable (row.Due now) :=
  inferInstanceAs (Decidable (_ ∧ _))

/-- A record is due exactly if its row is. -/
theorem Reads.isDue_iff {row : Row} {r : Record} (h : row.Reads r) (now : Instant) :
    r.isDue now = true ↔ row.Due now := by
  unfold Record.isDue Due
  rcases ofColumn_eq_ok_iff.1 h.reaggregate with ⟨hneg, hnone⟩ | ⟨hpos, t, hsome, hsec, hnanos⟩
  · rw [hnone]
    refine ⟨fun hdue => ?_, fun hdue => ?_⟩
    · cases hdue
    · omega
  · rw [hsome, Option.any_some, decide_eq_true_iff, Instant.le_def]
    omega

/-! ## start and completion -/

def isComplete (row : Row) : Bool := decide (0 < row.completed)

/-- the start lies no later than the completion, where both are set -/
def Ordered (row : Row) : Prop :=
  0 < row.started → 0 < row.completed → row.started ≤ row.completed

/-- a record is complete when its row is -/
theorem Reads.isComplete {row : Row} {r : Record} (h : row.Reads r) :
    r.isComplete = row.isComplete := isSome_of_column h.completed

theorem Reads.ordered {row : Row} {r : Record} (h : row.Reads r) (ho : row.Ordered) :
    r.Ordered := by
  intro t u ht hu
  rcases ofColumn_eq_ok_iff.1 h.started with ⟨-, hn⟩ | ⟨hs, t', ht', hts, htn⟩
  · rw [ht] at hn
    cases hn
  rcases ofColumn_eq_ok_iff.1 h.completed with ⟨-, hn⟩ | ⟨hc, u', hu', hus, hun⟩
  · rw [hu] at hn
    cases hn
  obtain rfl := Option.some.inj (ht.symm.trans ht')
  obtain rfl := Option.some.inj (hu.symm.trans hu')
  have hle := ho hs hc
  rw [Instant.le_def]
  omega

theorem ordered_ofRecord {r : Record} (h : r.Ordered) (id : Int) (version : Nat) :
    (ofRecord r id version).Ordered := by
  intro hs hc
  show column r.started ≤ column r.completed
  cases ht : r.started with
  | none =>
    have hzero : column r.started = 0 := by rw [ht]; rfl
    exact absurd hs (by rw [show (ofRecord r id version).started = 0 from hzero]; omega)
  | some t =>
    cases hu : r.completed with
    | none =>
      have hzero : column r.completed = 0 := by rw [hu]; rfl
      exact absurd hc (by rw [show (ofRecord r id version).completed = 0 from hzero]; omega)
    | some u =>
      have hle := h t u ht hu
      rw [Instant.le_def] at hle
      rw [column_some, column_some]
      omega

end Row

end CourseCompletion
