import CourseCompletion.Proofs.Row
import CourseCompletion.Store.Completions
import Mathlib.Data.List.Forall2

/-!
# Loading and saving records

* `Key.Loads`                a key loads as a record: the record of its row, or a new one;
* `CompletionTable.load`     the record that a key loads as (`load_eq_ok_iff`);
* `CompletionTable.save`     a record written over its row, or as a new row: `Saved` says what a
                             save does, and `refusal_of_save` why one is refused.

No two rows of a `Valid` table have the same key, which every write keeps; so the records of a
course are those of its rows under their keys (`loads_of_findByCourse`).
-/

namespace CourseCompletion

/-! ## the largest of some numbers -/

theorem foldl_max_mem (n : Int) (ns : List Int) : ns.foldl max n ∈ n :: ns := by
  induction ns generalizing n with
  | nil => exact List.mem_cons_self
  | cons m ns ih =>
    rw [List.foldl_cons]
    rcases List.mem_cons.1 (ih (max n m)) with h | h
    · rw [h]
      rcases Int.le_total n m with hle | hle
      · rw [Int.max_eq_right hle]
        exact List.mem_cons_of_mem _ List.mem_cons_self
      · rw [Int.max_eq_left hle]
        exact List.mem_cons_self
    · exact List.mem_cons_of_mem _ (List.mem_cons_of_mem _ h)

theorem le_foldl_max (n : Int) (ns : List Int) : ∀ m ∈ n :: ns, m ≤ ns.foldl max n := by
  induction ns generalizing n with
  | nil =>
    intro m hm
    obtain rfl := List.mem_singleton.1 hm
    exact Int.le_refl _
  | cons x ns ih =>
    intro m hm
    have hmax := ih (max n x) (max n x) List.mem_cons_self
    rw [List.foldl_cons]
    rcases List.mem_cons.1 hm with rfl | hm
    · omega
    rcases List.mem_cons.1 hm with rfl | hm
    · omega
    · exact ih (max n x) m (List.mem_cons_of_mem _ hm)

theorem largest_mem {ns : List Int} (h : ns ≠ []) : largest ns ∈ ns := by
  cases ns with
  | nil => exact absurd rfl h
  | cons n ns => exact foldl_max_mem n ns

theorem le_largest {ns : List Int} {m : Int} (h : m ∈ ns) : m ≤ largest ns := by
  cases ns with
  | nil => cases h
  | cons n ns => exact le_foldl_max n ns m h

theorem largest_eq_of_mem {ns : List Int} {m : Int} (hm : m ∈ ns) (hle : ∀ n ∈ ns, n ≤ m) :
    largest ns = m :=
  Int.le_antisymm (hle _ (largest_mem (List.ne_nil_of_mem hm))) (le_largest hm)

/-- The largest of some numbers depends on which they are only. -/
theorem largest_congr {ns ms : List Int} (h : ∀ n, n ∈ ns ↔ n ∈ ms) : largest ns = largest ms := by
  cases ns with
  | nil =>
    cases ms with
    | nil => rfl
    | cons m ms => cases (h m).2 List.mem_cons_self
  | cons n ns =>
    have hms : ms ≠ [] := List.ne_nil_of_mem ((h n).1 List.mem_cons_self)
    exact largest_eq_of_mem ((h _).2 (largest_mem hms)) fun x hx => le_largest ((h x).1 hx)

namespace CompletionTable

variable {t t' : CompletionTable} {r w saved : Record} {row : Row} {k : Key}

/-! ## one row to a key -/

/-- no two rows have the same key -/
def Valid (t : CompletionTable) : Prop := Keyed.Unique Row.key t.rows

theorem valid_ofRows (rows : List Row) (locking : Bool) : (ofRows rows locking).Valid :=
  Keyed.unique_ofList Row.key rows

theorem Valid.put (h : t.Valid) (row : Row) : (t.put row).Valid := Keyed.unique_put h row

theorem mem_of_row? (h : t.row? k = some row) : row ∈ t.rows := Keyed.mem_of_get? h

theorem key_of_row? (h : t.row? k = some row) : row.key = k := Keyed.key_of_get? h

theorem course_of_row? (h : t.row? k = some row) : row.course = k.course :=
  congrArg Key.course (key_of_row? h)

theorem Valid.row?_of_mem (h : t.Valid) (hm : row ∈ t.rows) : t.row? row.key = some row :=
  Keyed.get?_of_mem h hm

/-! ## loading -/

theorem recordOf_eq_ok_iff : recordOf row = .ok r ↔ row.Reads r := by
  rw [← Row.toRecord_eq_ok_iff]
  unfold recordOf
  cases row.toRecord with
  | error e =>
    constructor <;> intro h <;> cases h
  | ok r' => exact ⟨fun h => congrArg _ (Except.ok.inj h), fun h => congrArg _ (Except.ok.inj h)⟩

end CompletionTable

/-- a key loads as a record: the record of its row, or a new one -/
def Key.Loads (k : Key) : Option Row → Record → Prop
  | none, r => r = .new k
  | some row, r => row.key = k ∧ row.Reads r

namespace Key.Loads

variable {k : Key} {o : Option Row} {r : Record}

theorem key (h : k.Loads o r) : r.key = k := by
  cases o with
  | none => exact congrArg Record.key h
  | some row => exact h.2.key.trans h.1

theorem isStored (h : k.Loads o r) : r.isStored = o.isSome := by
  cases o with
  | none => exact congrArg Record.isStored h
  | some row => exact h.2.isStored

end Key.Loads

namespace CompletionTable

variable {t t' : CompletionTable} {r w saved : Record} {row : Row} {k : Key}

/-- the record of a row, or a new one -/
def load (t : CompletionTable) (k : Key) : Except SourceError Record :=
  (t.find k).map (·.getD (.new k))

theorem find_of_none (h : t.row? k = none) : t.find k = .ok none := by
  unfold find
  rw [h]

theorem find_of_some (h : t.row? k = some row) : t.find k = (recordOf row).map some := by
  unfold find
  rw [h]

theorem find_eq_some_iff : t.find k = .ok (some r) ↔ ∃ row, t.row? k = some row ∧ row.Reads r := by
  cases h : t.row? k with
  | none =>
    rw [find_of_none h]
    constructor
    · intro he
      cases Except.ok.inj he
    · rintro ⟨row, hrow, -⟩
      cases hrow
  | some row =>
    rw [find_of_some h]
    constructor
    · intro he
      refine ⟨row, rfl, recordOf_eq_ok_iff.1 ?_⟩
      cases hr : recordOf row with
      | error e => rw [hr] at he; cases he
      | ok r' => rw [hr] at he; exact congrArg _ (Option.some.inj (Except.ok.inj he))
    · rintro ⟨row', hrow, hread⟩
      obtain rfl := Option.some.inj hrow
      rw [recordOf_eq_ok_iff.2 hread]
      rfl

theorem find_eq_none_iff : t.find k = .ok none ↔ t.row? k = none := by
  cases h : t.row? k with
  | none => exact ⟨fun _ => rfl, fun _ => find_of_none h⟩
  | some row =>
    rw [find_of_some h]
    constructor
    · intro he
      cases hr : recordOf row with
      | error e => rw [hr] at he; cases he
      | ok r' => rw [hr] at he; cases he
    · intro he
      cases he

theorem load_eq_ok_iff : t.load k = .ok r ↔ k.Loads (t.row? k) r := by
  unfold load
  cases h : t.row? k with
  | none =>
    rw [find_of_none h]
    exact ⟨fun h => (Except.ok.inj h).symm, fun h => congrArg _ (Eq.symm h)⟩
  | some row =>
    rw [find_of_some h]
    constructor
    · intro he
      refine ⟨key_of_row? h, recordOf_eq_ok_iff.1 ?_⟩
      cases hr : recordOf row with
      | error e => rw [hr] at he; cases he
      | ok r' => rw [hr] at he; exact congrArg _ (Except.ok.inj he)
    · rintro ⟨-, hread⟩
      rw [recordOf_eq_ok_iff.2 hread]
      rfl

/-- A key loads as a record where there is no row that cannot be read. -/
theorem exists_loads (h : ∀ row, t.row? k = some row → row.Readable) :
    ∃ r, k.Loads (t.row? k) r := by
  cases hrow : t.row? k with
  | none => exact ⟨.new k, rfl⟩
  | some row =>
    obtain ⟨r, hr⟩ := Row.readable_iff.1 (h row hrow)
    exact ⟨r, key_of_row? hrow, hr⟩

/-- A record that is found, or a new one where there is none, is loaded. -/
theorem loads_of_find {found : Option Record} (h : t.find k = .ok found) :
    k.Loads (t.row? k) (found.getD (.new k)) := by
  refine load_eq_ok_iff.1 ?_
  unfold load
  rw [h]
  rfl

/-! ### the records of a course -/

theorem forall₂_of_mapM {α β ε : Type} {f : α → Except ε β} {xs : List α} {ys : List β}
    (h : xs.mapM f = .ok ys) : List.Forall₂ (fun x y => f x = .ok y) xs ys := by
  induction xs generalizing ys with
  | nil =>
    obtain rfl := Except.ok.inj h
    exact .nil
  | cons x xs ih =>
    rw [List.mapM_cons] at h
    cases hx : f x with
    | error e => rw [hx] at h; cases h
    | ok y =>
      cases hxs : xs.mapM f with
      | error e => rw [hx, hxs] at h; cases h
      | ok ys' =>
        rw [hx, hxs] at h
        obtain rfl := Except.ok.inj h
        exact .cons hx (ih hxs)

theorem mem_courseRows {course : Int} :
    row ∈ t.courseRows course ↔ row ∈ t.rows ∧ row.course = course := by
  unfold courseRows
  rw [List.mem_mergeSort, List.mem_filter]
  simp

theorem reads_of_findByCourse {course : Int} {rs : List Record}
    (h : t.findByCourse course = .ok rs) :
    List.Forall₂ Row.Reads (t.courseRows course) rs :=
  (forall₂_of_mapM h).imp fun _ _ => recordOf_eq_ok_iff.1

theorem keys_of_reads {rows : List Row} {rs : List Record} (h : List.Forall₂ Row.Reads rows rs) :
    rs.map Record.key = rows.map Row.key := by
  induction h with
  | nil => rfl
  | cons hread _ ih => rw [List.map_cons, List.map_cons, ih, hread.key]

theorem row_of_reads {rows : List Row} {rs : List Record} (h : List.Forall₂ Row.Reads rows rs)
    (hr : r ∈ rs) : ∃ row ∈ rows, row.Reads r := by
  induction h with
  | nil => cases hr
  | @cons row r' rows rs hread _ ih =>
    rcases List.mem_cons.1 hr with rfl | hr
    · exact ⟨row, List.mem_cons_self, hread⟩
    · obtain ⟨row', hrow', hread'⟩ := ih hr
      exact ⟨row', List.mem_cons_of_mem _ hrow', hread'⟩

theorem record_of_reads {rows : List Row} {rs : List Record} (h : List.Forall₂ Row.Reads rows rs)
    (hrow : row ∈ rows) : ∃ r ∈ rs, row.Reads r := by
  induction h with
  | nil => cases hrow
  | @cons row' r rows rs hread _ ih =>
    rcases List.mem_cons.1 hrow with rfl | hrow
    · exact ⟨r, List.mem_cons_self, hread⟩
    · obtain ⟨r', hr', hread'⟩ := ih hrow
      exact ⟨r', List.mem_cons_of_mem _ hr', hread'⟩

/-- The records of a course are those of the rows under their keys. -/
theorem loads_of_findByCourse (hv : t.Valid) {course : Int} {rs : List Record}
    (h : t.findByCourse course = .ok rs) (hr : r ∈ rs) :
    ∃ row, t.row? r.key = some row ∧ row.Reads r ∧ r.course = course := by
  obtain ⟨row, hrow, hread⟩ := row_of_reads (reads_of_findByCourse h) hr
  obtain ⟨hm, hc⟩ := mem_courseRows.1 hrow
  have hk : r.key = row.key := hread.key
  refine ⟨row, ?_, hread, (congrArg Key.course hk).trans hc⟩
  rw [hk]
  exact hv.row?_of_mem hm

theorem Valid.nodup_courseRows (hv : t.Valid) (course : Int) :
    ((t.courseRows course).map Row.key).Nodup := by
  have hf : (t.rows.filter (·.course = course)).Pairwise fun x y => x.key ≠ y.key :=
    List.Pairwise.filter _ hv
  exact (((List.mergeSort_perm _ _).map Row.key).nodup_iff).2 (List.pairwise_map.2 hf)

theorem nodup_findByCourse (hv : t.Valid) {course : Int} {rs : List Record}
    (h : t.findByCourse course = .ok rs) : (rs.map Record.key).Nodup := by
  rw [keys_of_reads (reads_of_findByCourse h)]
  exact hv.nodup_courseRows course

/-! ### tables that can be read -/

def Readable (t : CompletionTable) : Prop := ∀ row ∈ t.rows, row.Readable

theorem recordOf_of_readable (h : row.Readable) : ∃ r, recordOf row = .ok r := by
  obtain ⟨r, hr⟩ := Row.readable_iff.1 h
  exact ⟨r, recordOf_eq_ok_iff.2 hr⟩

theorem Readable.find (h : t.Readable) (k : Key) : ∃ o, t.find k = .ok o := by
  cases hrow : t.row? k with
  | none => exact ⟨none, find_of_none hrow⟩
  | some row =>
    obtain ⟨r, hr⟩ := recordOf_of_readable (h row (mem_of_row? hrow))
    exact ⟨some r, by rw [find_of_some hrow, hr]; rfl⟩

theorem exists_mapM_recordOf {rows : List Row} (h : ∀ row ∈ rows, row.Readable) :
    ∃ rs, rows.mapM recordOf = .ok rs := by
  induction rows with
  | nil => exact ⟨[], rfl⟩
  | cons row rows ih =>
    obtain ⟨r, hrow⟩ := recordOf_of_readable (h row List.mem_cons_self)
    obtain ⟨rs, hrs⟩ := ih fun x hx => h x (List.mem_cons_of_mem _ hx)
    exact ⟨r :: rs, by rw [List.mapM_cons, hrow, hrs]; rfl⟩

theorem Readable.findByCourse (h : t.Readable) (course : Int) :
    ∃ rs, t.findByCourse course = .ok rs :=
  exists_mapM_recordOf fun row hrow => h row (mem_courseRows.1 hrow).1

/-! ## saving -/

/-- a record written over its row, or as a new row -/
def save (t : CompletionTable) (r : Record) : Except SourceError (Record × CompletionTable) :=
  if r.isStored then t.update r else t.insert r

def rowOf (saved : Record) : Row := .ofRecord saved (saved.id.getD 0) saved.version

/-- What a save does: the saved record is the written one under a number and a version, which go on
from the row that is written over, and only the row of its key changes. -/
structure Saved (t : CompletionTable) (w saved : Record) (t' : CompletionTable) : Prop where
  saved_eq : ∃ id, saved = w.storedAs id (((t.row? w.key).map Row.version).getD 0 + 1)
  overwrites : w.isStored = (t.row? w.key).isSome
  id : ∀ row, t.row? w.key = some row → saved.id = some row.id
  row? : ∀ k, t'.row? k = if k = w.key then some (rowOf saved) else t.row? k
  locking : t'.locking = t.locking
  lastId : (t.row? w.key).isSome → t'.lastId = t.lastId
  newId : t.row? w.key = none → t'.lastId = t.lastId + 1 ∧ saved.id = some (t.lastId + 1)
  version : ∀ row, t.row? w.key = some row → t.locking = true → row.version = w.version
  valid : t.Valid → t'.Valid

theorem rowOf_storedAs (w : Record) (id : Int) (version : Nat) :
    rowOf (w.storedAs id version) = .ofRecord w id version := rfl

theorem saved_insert (hw : w.isStored = false) (h : t.insert w = .ok (saved, t')) :
    t.Saved w saved t' := by
  obtain ⟨hnone, rfl, rfl⟩ := insert_eq_ok_iff.1 h
  refine ⟨⟨t.lastId + 1, by rw [hnone]; rfl⟩, by rw [hw, hnone]; rfl, ?_, ?_, rfl, ?_,
    fun _ => ⟨rfl, rfl⟩, ?_, ?_⟩
  · intro row hrow
    rw [hnone] at hrow
    cases hrow
  · intro k
    rw [rowOf_storedAs]
    exact row?_put t (.ofRecord w (t.lastId + 1) 1) k
  · intro hsome
    rw [hnone] at hsome
    cases hsome
  · intro row hrow
    rw [hnone] at hrow
    cases hrow
  · intro hv
    exact hv.put _

theorem saved_update (hw : w.isStored = true) (h : t.update w = .ok (saved, t')) :
    t.Saved w saved t' := by
  obtain ⟨row, hrow, hversion, rfl, rfl⟩ := update_eq_ok_iff.1 h
  refine ⟨⟨row.id, by rw [hrow]; rfl⟩, by rw [hw, hrow]; rfl, ?_, ?_, rfl, fun _ => rfl, ?_,
    ?_, ?_⟩
  · intro row' hrow'
    rw [hrow] at hrow'
    rw [← Option.some.inj hrow']
    rfl
  · intro k
    rw [rowOf_storedAs]
    exact row?_put t (.ofRecord w row.id (row.version + 1)) k
  · intro hnone
    rw [hrow] at hnone
    cases hnone
  · intro row' hrow'
    rw [hrow] at hrow'
    rw [← Option.some.inj hrow']
    exact hversion
  · intro hv
    exact hv.put _

theorem saved_of_save (h : t.save w = .ok (saved, t')) : t.Saved w saved t' := by
  unfold save at h
  by_cases hw : w.isStored
  · rw [if_pos hw] at h
    exact saved_update hw h
  · rw [if_neg hw] at h
    exact saved_insert (by simpa using hw) h

/-! ### numbers -/

/-- numbers go on from the largest one in the table -/
def Settled (t : CompletionTable) : Prop := t.lastId = largest (t.rows.map Row.id)

theorem Valid.mem_ids (hv : t.Valid) {id : Int} :
    id ∈ t.rows.map Row.id ↔ ∃ k row, t.row? k = some row ∧ row.id = id := by
  rw [List.mem_map]
  constructor
  · rintro ⟨row, hrow, rfl⟩
    exact ⟨row.key, row, hv.row?_of_mem hrow, rfl⟩
  · rintro ⟨k, row, hrow, rfl⟩
    exact ⟨row, mem_of_row? hrow, rfl⟩

/-- A save keeps the table settled. -/
theorem Saved.settled (h : t.Saved w saved t') (hv : t.Valid) (hs : t.Settled) : t'.Settled := by
  unfold Settled at hs ⊢
  obtain ⟨id, hsaved⟩ := h.saved_eq
  have hid : (rowOf saved).id = saved.id.getD 0 := rfl
  cases hrow : t.row? w.key with
  | some row =>
    -- the row keeps its number, so the table has the same ones
    rw [h.lastId (by rw [hrow]; rfl), hs]
    refine largest_congr fun n => ?_
    rw [hv.mem_ids, (h.valid hv).mem_ids]
    have hsame : (rowOf saved).id = row.id := by rw [hid, h.id row hrow]; rfl
    constructor
    · rintro ⟨k, x, hx, rfl⟩
      by_cases hk : k = w.key
      · obtain rfl := hk
        obtain rfl := Option.some.inj (hrow.symm.trans hx)
        exact ⟨w.key, rowOf saved, by rw [h.row?, if_pos rfl], hsame⟩
      · exact ⟨k, x, by rw [h.row?, if_neg hk, hx], rfl⟩
    · rintro ⟨k, x, hx, rfl⟩
      rw [h.row?] at hx
      by_cases hk : k = w.key
      · rw [if_pos hk] at hx
        obtain rfl := Option.some.inj hx
        exact ⟨w.key, row, hrow, hsame.symm⟩
      · rw [if_neg hk] at hx
        exact ⟨k, x, hx, rfl⟩
  | none =>
    obtain ⟨hlast, hnew⟩ := h.newId hrow
    have hnewId : (rowOf saved).id = t.lastId + 1 := by rw [hid, hnew]; rfl
    rw [hlast]
    refine (largest_eq_of_mem ?_ fun n hn => ?_).symm
    · exact (h.valid hv).mem_ids.2 ⟨w.key, rowOf saved, by rw [h.row?, if_pos rfl], hnewId⟩
    · obtain ⟨k, x, hx, rfl⟩ := (h.valid hv).mem_ids.1 hn
      rw [h.row?] at hx
      by_cases hk : k = w.key
      · rw [if_pos hk] at hx
        obtain rfl := Option.some.inj hx
        omega
      · rw [if_neg hk] at hx
        have hle := le_largest (hv.mem_ids.2 ⟨k, x, hx, rfl⟩)
        omega

/-! ### refusals -/

/-- A save is refused because there is a row where there should be none, or none where there should
be one, or because the version of the row is another one. -/
theorem refusal_of_save {e : SourceError} (h : t.save w = .error e) :
    (w.isStored = false ∧ (t.row? w.key).isSome ∧ ∃ entity key, e = .duplicate entity key) ∨
    (w.isStored = true ∧ t.row? w.key = none ∧ ∃ entity id, e = .notFound entity id) ∨
    (w.isStored = true ∧ ∃ row, t.row? w.key = some row ∧ t.locking = true ∧
      row.version ≠ w.version ∧ ∃ resource, e = .conflict resource) := by
  unfold save at h
  by_cases hw : w.isStored
  · rw [if_pos hw] at h
    rcases update_eq_error_iff.1 h with ⟨hnone, rfl⟩ | ⟨row, hrow, hlock, hne, rfl⟩
    · exact .inr (.inl ⟨hw, hnone, _, _, rfl⟩)
    · exact .inr (.inr ⟨hw, row, hrow, hlock, hne, _, rfl⟩)
  · rw [if_neg hw] at h
    obtain ⟨hsome, rfl⟩ := insert_eq_error_iff.1 h
    exact .inl ⟨by simpa using hw, hsome, _, _, rfl⟩

/-- A record that is as old as its row, or new where there is none, is saved. -/
theorem exists_save (hover : w.isStored = (t.row? w.key).isSome)
    (hversion : ∀ row, t.row? w.key = some row → row.version = w.version) :
    ∃ saved t', t.save w = .ok (saved, t') := by
  cases h : t.save w with
  | ok p => exact ⟨p.1, p.2, rfl⟩
  | error e =>
    rcases refusal_of_save h with ⟨hw, hrow, -⟩ | ⟨hw, hrow, -⟩ | ⟨-, row, hrow, -, hne, -⟩
    · rw [hw, hrow] at hover
      cases hover
    · rw [hw, hrow] at hover
      cases hover
    · exact absurd (hversion row hrow) hne

end CompletionTable

/-- A record that loads from a table, and any that stands in its place, is saved to it. -/
theorem Key.Loads.exists_save {t : CompletionTable} {k : Key} {r w : Record}
    (h : k.Loads (t.row? k) r) (hk : w.key = k) (hid : w.isStored = r.isStored)
    (hv : w.version = r.version) : ∃ saved t', t.save w = .ok (saved, t') := by
  refine CompletionTable.exists_save ?_ ?_
  · rw [hid, hk]
    exact h.isStored
  · intro row hrow
    rw [hk] at hrow
    rw [hrow] at h
    rw [hv]
    exact h.2.version.symm

end CourseCompletion
