import CourseCompletion.Keyed
import CourseCompletion.Row

/-!
# The table of completions

A `CompletionTable` holds one row for a user in a course.

* `CompletionTable.ofRows`        the table of given rows, of which later ones replace earlier;
* `find`, `findByCourse`          the records of rows, unless a row is unreadable;
* `insert`                        a new row, with the next number and version `1`;
* `update`                        a row written over, with its number and the next version.

With `locking` on, an update must carry the version that the row has.  Numbers go on from the
largest that was ever given, also one of a row that another replaced.

Numbers and versions are counted without a bound here; a program has 64 bits for each.  As long as
the table is `Numbered` there is no difference (`Numbered.insert`, `Numbered.update`).  Beyond,
`CompletionTable.held` is what 64 bits hold of the table: it counts on around their ends
(`held_insert`, `held_update`), where a program that checks its sums would stop instead.
-/

namespace CourseCompletion

structure CompletionTable where
  rows : List Row
  lastId : Int
  locking : Bool
deriving DecidableEq

/-- the largest of some numbers, `0` if there are none -/
def largest : List Int → Int
  | [] => 0
  | n :: ns => ns.foldl max n

namespace CompletionTable

/-- the name of the entries of this table in errors -/
def entity : String := "CompletionRecord"

def ofRows (rows : List Row) (locking : Bool) : CompletionTable :=
  ⟨Keyed.ofList Row.key rows, largest (rows.map Row.id), locking⟩

/-- no rows, and numbers from the start -/
def clear (t : CompletionTable) : CompletionTable := { t with rows := [], lastId := 0 }

def row? (t : CompletionTable) (k : Key) : Option Row := Keyed.get? Row.key k t.rows

/-- the table with a row in the place of any other of its user and course -/
def put (t : CompletionTable) (row : Row) : CompletionTable :=
  { t with rows := Keyed.put Row.key row t.rows }

/-! ## order of rows -/

/-- rows by number, then user, then course -/
def rowLe (a b : Row) : Bool :=
  a.id < b.id || (a.id == b.id && (a.user < b.user || (a.user == b.user && a.course ≤ b.course)))

/-- the rows by number, then user, then course -/
def sortedRows (t : CompletionTable) : List Row := t.rows.mergeSort rowLe

/-- the rows of a course, by user -/
def courseRows (t : CompletionTable) (course : Int) : List Row :=
  (t.rows.filter (·.course = course)).mergeSort fun a b => a.user ≤ b.user

/-! ## reading and writing records -/

/-- the record of a row, for a service -/
def recordOf (row : Row) : Except SourceError Record :=
  row.toRecord.mapError TableError.toSourceError

/-- the record of a user in a course, if there is a row -/
def find (t : CompletionTable) (k : Key) : Except SourceError (Option Record) :=
  match t.row? k with
  | some row => (recordOf row).map some
  | none => .ok none

/-- the records of a course, by user -/
def findByCourse (t : CompletionTable) (course : Int) : Except SourceError (List Record) :=
  (t.courseRows course).mapM recordOf

/-- a record that has no row yet, stored -/
def insert (t : CompletionTable) (r : Record) : Except SourceError (Record × CompletionTable) :=
  match t.row? r.key with
  | some _ => .error (TableError.duplicate entity r.key.text).toSourceError
  | none =>
    let id := t.lastId + 1
    .ok (r.storedAs id 1, { t.put (.ofRecord r id 1) with lastId := id })

/-- a record written over its row -/
def update (t : CompletionTable) (r : Record) : Except SourceError (Record × CompletionTable) :=
  match t.row? r.key with
  | none => .error (TableError.notFound entity r.key.text).toSourceError
  | some row =>
    if t.locking && row.version != r.version then
      .error (TableError.conflict
        s!"{r.key.text} (stored version {row.version}, given {r.version})").toSourceError
    else
      let version := row.version + 1
      .ok (r.storedAs row.id version, t.put (.ofRecord r row.id version))

/-! ## what calls do -/

section

variable {t t' : CompletionTable} {r r' : Record} {e : SourceError}

/-- An insert gives a row to a user in a course without one. -/
theorem insert_eq_ok_iff :
    t.insert r = .ok (r', t') ↔ t.row? r.key = none ∧ r' = r.storedAs (t.lastId + 1) 1 ∧
      t' = { t.put (.ofRecord r (t.lastId + 1) 1) with lastId := t.lastId + 1 } := by
  unfold insert
  cases t.row? r.key with
  | some row =>
    refine ⟨fun h => ?_, fun h => ?_⟩
    · cases h
    · cases h.1
  | none =>
    refine ⟨fun h => ?_, fun ⟨_, hr, ht⟩ => by rw [hr, ht]⟩
    obtain ⟨hr, ht⟩ := Prod.mk.inj (Except.ok.inj h)
    exact ⟨rfl, hr.symm, ht.symm⟩

theorem insert_eq_error_iff :
    t.insert r = .error e ↔
      (t.row? r.key).isSome ∧ e = (TableError.duplicate entity r.key.text).toSourceError := by
  unfold insert
  cases t.row? r.key with
  | some row => exact ⟨fun h => ⟨rfl, (Except.error.inj h).symm⟩, fun h => by rw [h.2]⟩
  | none =>
    refine ⟨fun h => ?_, fun h => ?_⟩
    · cases h
    · cases h.1

/-- An update writes over the row of its record, which must be as old as the record where there is
locking. -/
theorem update_eq_ok_iff :
    t.update r = .ok (r', t') ↔ ∃ row, t.row? r.key = some row ∧
      (t.locking = true → row.version = r.version) ∧
      r' = r.storedAs row.id (row.version + 1) ∧
      t' = t.put (.ofRecord r row.id (row.version + 1)) := by
  unfold update
  cases t.row? r.key with
  | none =>
    refine ⟨fun h => ?_, fun ⟨_, h, _⟩ => ?_⟩
    · cases h
    · cases h
  | some row =>
    have hcurrent : ¬(t.locking && row.version != r.version) = true ↔
        (t.locking = true → row.version = r.version) := by simp
    constructor
    · intro h
      by_cases hstale : (t.locking && row.version != r.version) = true
      · simp only [hstale, if_true] at h
        cases h
      · simp only [if_neg hstale] at h
        obtain ⟨hr, ht⟩ := Prod.mk.inj (Except.ok.inj h)
        exact ⟨row, rfl, hcurrent.1 hstale, hr.symm, ht.symm⟩
    · rintro ⟨_, ⟨⟩, hversion, rfl, rfl⟩
      simp only [if_neg (hcurrent.2 hversion)]

theorem update_eq_error_iff :
    t.update r = .error e ↔
      t.row? r.key = none ∧ e = (TableError.notFound entity r.key.text).toSourceError ∨
      ∃ row, t.row? r.key = some row ∧ t.locking = true ∧ row.version ≠ r.version ∧
        e = (TableError.conflict
          s!"{r.key.text} (stored version {row.version}, given {r.version})").toSourceError := by
  unfold update
  cases t.row? r.key with
  | none =>
    refine ⟨fun h => .inl ⟨rfl, (Except.error.inj h).symm⟩, ?_⟩
    rintro (⟨-, rfl⟩ | ⟨_, ⟨⟩, -⟩)
    rfl
  | some row =>
    have hstale : (t.locking && row.version != r.version) = true ↔
        t.locking = true ∧ row.version ≠ r.version := by simp
    constructor
    · intro h
      by_cases hs : (t.locking && row.version != r.version) = true
      · simp only [hs, if_true] at h
        exact .inr ⟨row, rfl, (hstale.1 hs).1, (hstale.1 hs).2, (Except.error.inj h).symm⟩
      · simp only [if_neg hs] at h
        cases h
    · rintro (⟨⟨⟩, -⟩ | ⟨_, ⟨⟩, hlock, hne, rfl⟩)
      simp only [if_pos (hstale.2 ⟨hlock, hne⟩)]

/-- Tables that agree in the row of a record take an insert of it alike. -/
theorem insert_alike {u : CompletionTable} (hrow : t.row? r.key = u.row? r.key) :
    (∃ e, t.insert r = .error e ∧ u.insert r = .error e) ∨
      t.insert r = .ok (r.storedAs (t.lastId + 1) 1,
        { t.put (.ofRecord r (t.lastId + 1) 1) with lastId := t.lastId + 1 }) ∧
      u.insert r = .ok (r.storedAs (u.lastId + 1) 1,
        { u.put (.ofRecord r (u.lastId + 1) 1) with lastId := u.lastId + 1 }) := by
  cases hinsert : t.insert r with
  | error e =>
    refine .inl ⟨e, rfl, insert_eq_error_iff.2 ?_⟩
    rw [← hrow]
    exact insert_eq_error_iff.1 hinsert
  | ok p =>
    obtain ⟨hnone, hr, ht⟩ := insert_eq_ok_iff.1 hinsert
    refine .inr ⟨congrArg Except.ok (Prod.ext hr ht), insert_eq_ok_iff.2 ⟨?_, rfl, rfl⟩⟩
    rw [← hrow]
    exact hnone

/-- Tables that agree in the row of a record and in locking take an update of it alike. -/
theorem update_alike {u : CompletionTable} (hrow : t.row? r.key = u.row? r.key)
    (hlock : t.locking = u.locking) :
    (∃ e, t.update r = .error e ∧ u.update r = .error e) ∨
      ∃ row : Row, t.update r = .ok (r.storedAs row.id (row.version + 1),
          t.put (.ofRecord r row.id (row.version + 1))) ∧
        u.update r = .ok (r.storedAs row.id (row.version + 1),
          u.put (.ofRecord r row.id (row.version + 1))) := by
  cases hupdate : t.update r with
  | error e =>
    refine .inl ⟨e, rfl, update_eq_error_iff.2 ?_⟩
    rw [← hrow, ← hlock]
    exact update_eq_error_iff.1 hupdate
  | ok p =>
    obtain ⟨row, hfound, hversion, hr, ht⟩ := update_eq_ok_iff.1 hupdate
    rw [hrow] at hfound
    rw [hlock] at hversion
    exact .inr ⟨row, congrArg Except.ok (Prod.ext hr ht),
      update_eq_ok_iff.2 ⟨row, hfound, hversion, rfl, rfl⟩⟩

end

theorem row?_put (t : CompletionTable) (row : Row) (k : Key) :
    (t.put row).row? k = if k = row.key then some row else t.row? k :=
  Keyed.get?_put Row.key row k t.rows

/-! ## numbers in 64 bits -/

/-- the numbers and versions of all rows have room in 64 bits, and so has the last number given -/
structure Numbered (t : CompletionTable) : Prop where
  lastId : fitsSigned64 t.lastId
  rows : ∀ row ∈ t.rows, row.Numbered

namespace Numbered

variable {t t' : CompletionTable} {r r' : Record}

theorem put (h : t.Numbered) {row : Row} (hrow : row.Numbered) : (t.put row).Numbered :=
  ⟨h.lastId, fun x hx => (Keyed.mem_of_mem_put hx).elim (fun he => he ▸ hrow) (h.rows x)⟩

/-- A table that is numbered has room for a new row, unless it gave the largest number. -/
theorem insert (h : t.Numbered) (hroom : fitsSigned64 (t.lastId + 1))
    (hinsert : t.insert r = .ok (r', t')) : t'.Numbered := by
  obtain ⟨-, -, rfl⟩ := insert_eq_ok_iff.1 hinsert
  exact ⟨hroom, (h.put ⟨hroom, rfl⟩).rows⟩

/-- It has room for an update, unless the row that is written over has the largest version. -/
theorem update (h : t.Numbered) (hroom : ∀ row, t.row? r.key = some row →
    fitsUnsigned64 (row.version + 1)) (hupdate : t.update r = .ok (r', t')) : t'.Numbered := by
  obtain ⟨row, hrow, -, -, rfl⟩ := update_eq_ok_iff.1 hupdate
  exact h.put ⟨(h.rows row (Keyed.mem_of_get? hrow)).1, hroom row hrow⟩

end Numbered

/-- the table as 64 bits hold it -/
def held (t : CompletionTable) : CompletionTable :=
  { t with rows := t.rows.map Row.held, lastId := wrapSigned64 t.lastId }

theorem held_of_numbered {t : CompletionTable} (h : t.Numbered) : t.held = t := by
  have hrows : t.rows.map Row.held = t.rows :=
    (List.map_congr_left fun row hrow => Row.held_of_numbered (h.rows row hrow)).trans
      (List.map_id _)
  unfold held
  rw [hrows, wrapSigned64_of_fits h.lastId]

theorem held_put (t : CompletionTable) (row : Row) : (t.put row).held = t.held.put row.held := by
  unfold held put
  rw [Keyed.map_put Row.held fun _ => rfl]

theorem row?_held (t : CompletionTable) (k : Key) : t.held.row? k = (t.row? k).map Row.held :=
  Keyed.get?_map Row.held (fun _ => rfl) k t.rows

/-- An insert counts on in 64 bits. -/
theorem held_insert {t t' : CompletionTable} {r r' : Record} (h : t.insert r = .ok (r', t')) :
    t'.held = { t.held.put (.ofRecord r (wrapSigned64 (t.held.lastId + 1)) 1) with
      lastId := wrapSigned64 (t.held.lastId + 1) } := by
  obtain ⟨-, -, rfl⟩ := insert_eq_ok_iff.1 h
  have hid : wrapSigned64 (t.held.lastId + 1) = wrapSigned64 (t.lastId + 1) :=
    wrapSigned64_add_one t.lastId
  rw [hid]
  exact congrArg (fun u : CompletionTable => { u with lastId := wrapSigned64 (t.lastId + 1) })
    (t.held_put (.ofRecord r (t.lastId + 1) 1))

/-- An update counts on in 64 bits. -/
theorem held_update {t t' : CompletionTable} {r r' : Record} (h : t.update r = .ok (r', t')) :
    ∃ row, t.held.row? r.key = some row ∧
      t'.held = t.held.put (.ofRecord r row.id (wrapUnsigned64 (row.version + 1))) := by
  obtain ⟨row, hrow, -, -, rfl⟩ := update_eq_ok_iff.1 h
  have hversion : wrapUnsigned64 (row.held.version + 1) = wrapUnsigned64 (row.version + 1) :=
    wrapUnsigned64_add_one row.version
  refine ⟨row.held, by rw [row?_held, hrow, Option.map_some], ?_⟩
  rw [held_put, hversion]
  rfl

end CompletionTable

end CourseCompletion
