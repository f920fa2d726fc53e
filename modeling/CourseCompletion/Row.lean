import CourseCompletion.Error
import CourseCompletion.Record
import CourseCompletion.Text.Digits

/-!
# Stored rows

The table of completions holds its times as whole seconds since 1970, with `0` for a time that is
not set.

* `Row.ofRecord`    the row of a record: times lose their fraction;
* `Row.toRecord`    the record of a row: a column at or below `0` is no time, and one beyond the
                    last instant makes the row unreadable;
* `Row.held`        the row as 64 bits hold it: the same if it is `Row.Numbered`.
-/

namespace CourseCompletion

structure Row where
  id : Int
  user : Int
  course : Int
  enrolled : Int
  started : Int
  completed : Int
  reaggregate : Int
  version : Nat
deriving DecidableEq

/-- the column of a time -/
def column : Option Instant → Int
  | some t => t.seconds
  | none => 0

/-- the time of a column -/
def ofColumn (seconds : Int) : Except TableError (Option Instant) :=
  if seconds ≤ 0 then .ok none
  else match Instant.ofSeconds? seconds with
    | some t => .ok (some t)
    | none => .error (.invalidRow s!"timestamp out of range: {seconds}")

namespace Row

def key (row : Row) : Key := ⟨row.user, row.course⟩

/-- the row of a record that is stored under a number with a version -/
def ofRecord (r : Record) (id : Int) (version : Nat) : Row where
  id
  user := r.user
  course := r.course
  enrolled := column r.enrolled
  started := column r.started
  completed := column r.completed
  reaggregate := column r.reaggregate
  version

/-- the record that a row holds -/
def toRecord (row : Row) : Except TableError Record := do
  let enrolled ← ofColumn row.enrolled
  let started ← ofColumn row.started
  let completed ← ofColumn row.completed
  let reaggregate ← ofColumn row.reaggregate
  return ⟨some row.id, row.user, row.course, enrolled, started, completed, reaggregate, row.version⟩

@[simp]
theorem key_ofRecord (r : Record) (id : Int) (v : Nat) : (ofRecord r id v).key = r.key := rfl

/-! ### numbers in 64 bits -/

/-- the number and the version have room in 64 bits -/
def Numbered (r : Row) : Prop := fitsSigned64 r.id ∧ fitsUnsigned64 r.version

instance (r : Row) : Decidable r.Numbered := inferInstanceAs (Decidable (_ ∧ _))

/-- the row as 64 bits hold it: its number and its version wrap around -/
def held (r : Row) : Row :=
  { r with id := wrapSigned64 r.id, version := wrapUnsigned64 r.version }

theorem held_of_numbered {r : Row} (h : r.Numbered) : r.held = r := by
  unfold held
  rw [wrapSigned64_of_fits h.1, wrapUnsigned64_of_fits h.2]

end Row

/-! ## columns and times -/

@[simp]
theorem column_none : column none = 0 := rfl

@[simp]
theorem column_some (t : Instant) : column (some t) = t.seconds := rfl

theorem ofColumn_of_nonpos {s : Int} (h : s ≤ 0) : ofColumn s = .ok none := if_pos h

theorem ofColumn_seconds {t : Instant} (h : t.IsKnown) :
    ofColumn t.seconds = .ok (some t.wholeSecond) := by
  have h' : ¬t.seconds ≤ 0 := by unfold Instant.IsKnown at h; omega
  simp [ofColumn, h', Instant.ofSeconds?_seconds]

/-- A column is unreadable exactly when it lies beyond the last instant. -/
theorem ofColumn_isOk_iff (s : Int) : (∃ t, ofColumn s = .ok t) ↔ s ≤ latestSecond := by
  unfold ofColumn
  by_cases h : s ≤ 0
  · have : s ≤ latestSecond := by unfold latestSecond; omega
    simp [h, this]
  · rw [if_neg h]
    by_cases hs : s ≤ latestSecond
    · have hm : earliestSecond ≤ s ∧ s ≤ latestSecond := ⟨by unfold earliestSecond; omega, hs⟩
      simp [Instant.ofSeconds?_of_mem hm, hs]
    · have hn : Instant.ofSeconds? s = none :=
        Instant.ofSeconds?_eq_none_iff.2 fun hm => hs hm.2
      simp [hn, hs]

/-- Storing a time drops its fraction, and a time at or before the epoch altogether. -/
theorem ofColumn_column (t : Option Instant) :
    ofColumn (column t) = .ok ((known? t).map Instant.wholeSecond) := by
  cases t with
  | none => rfl
  | some t =>
    by_cases h : t.IsKnown
    · rw [column_some, ofColumn_seconds h, known?_of_isKnown h]
      rfl
    · rw [column_some, known?_of_not_isKnown h,
        ofColumn_of_nonpos (by unfold Instant.IsKnown at h; omega)]
      rfl

end CourseCompletion
