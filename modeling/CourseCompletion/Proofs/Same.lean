import CourseCompletion.Proofs.Table
import CourseCompletion.Store.Basic

/-!
# Stores that differ in the order of entries only

The order in which a table with one entry to a key holds its entries shows in no answer.

* `CompletionTable.Same`   two tables hold the same rows: they give the same answers, and writes
                           keep them so;
* `Store.Same`             two stores hold the same entries (`Store.Same.snapshot`), so that they
                           give the same answers, as `Store.AnswersAs` says.

The store that a snapshot of a store fills is the same as that store (`Store.same_ofSnapshot`).
-/

namespace CourseCompletion

/-! ## tables with one entry to a key -/

namespace Keyed

section

variable {α κ : Type} {key : α → κ} {xs ys : List α}

theorem unique_perm (hu : Unique key xs) (h : xs.Perm ys) : Unique key ys :=
  (h.pairwise_iff fun hne => Ne.symm hne).1 hu

end

variable {α κ : Type} [DecidableEq κ] {key : α → κ} {xs ys : List α}

theorem get?_eq_some_iff (hu : Unique key xs) {k : κ} {x : α} :
    get? key k xs = some x ↔ x ∈ xs ∧ key x = k := by
  constructor
  · intro h
    exact ⟨mem_of_get? h, key_of_get? h⟩
  · rintro ⟨hx, rfl⟩
    exact get?_of_mem hu hx

/-- Entries with the same key are the same entry. -/
theorem eq_of_key (hu : Unique key xs) {x y : α} (hx : x ∈ xs) (hy : y ∈ xs)
    (h : key x = key y) : x = y := by
  have hxy := get?_of_mem hu hx
  rw [h, get?_of_mem hu hy] at hxy
  exact (Option.some.inj hxy).symm

/-- A key finds the same entry in any order of the entries. -/
theorem get?_perm (hu : Unique key xs) (h : xs.Perm ys) (k : κ) :
    get? key k xs = get? key k ys := by
  refine Option.ext fun x => ?_
  rw [get?_eq_some_iff hu, get?_eq_some_iff (unique_perm hu h), h.mem_iff]

theorem put_perm (h : xs.Perm ys) (x : α) : (put key x xs).Perm (put key x ys) :=
  (h.filter _).append_right [x]

/-- Entries with different keys are their own table. -/
theorem ofList_of_unique (hu : Unique key xs) : ofList key xs = xs := by
  have step : ∀ ys table : List α, Unique key (table ++ ys) →
      ys.foldl (fun table x => put key x table) table = table ++ ys := by
    intro ys
    induction ys with
    | nil => intro table _; exact (List.append_nil table).symm
    | cons y ys ih =>
      intro table h
      obtain ⟨-, -, hne⟩ := List.pairwise_append.1 h
      have hput : put key y table = table ++ [y] := by
        unfold put erase
        rw [List.filter_eq_self.2 fun x hx => by simpa using hne x hx y List.mem_cons_self]
      rw [List.foldl_cons, hput, ih (table ++ [y]) (by simpa using h)]
      simp
  exact step xs [] hu

/-- A table holds no other entries than the given ones. -/
theorem mem_of_mem_ofList {x : α} (hx : x ∈ ofList key xs) : x ∈ xs := by
  have step : ∀ ys table : List α, x ∈ ys.foldl (fun table y => put key y table) table →
      x ∈ ys ∨ x ∈ table := by
    intro ys
    induction ys with
    | nil => exact fun table h => .inr h
    | cons y ys ih =>
      intro table h
      rcases ih _ h with hys | hput
      · exact .inl (List.mem_cons_of_mem y hys)
      · rcases List.mem_append.1 hput with htable | hy
        · exact .inr (List.mem_filter.1 htable).1
        · exact .inl (List.mem_singleton.1 hy ▸ List.mem_cons_self)
  rcases step xs [] hx with hxs | hnil
  · exact hxs
  · cases hnil

theorem ofList_perm (hu : Unique key xs) (h : ys.Perm xs) : (ofList key ys).Perm xs := by
  rw [ofList_of_unique (unique_perm hu h.symm)]
  exact h

end Keyed

/-- The sorted form of a list does not depend on its order, where only equal members are as large as
each other. -/
theorem mergeSort_perm_eq {α : Type} {le : α → α → Bool} {xs ys : List α}
    (trans : ∀ a b c, le a b → le b c → le a c) (total : ∀ a b, le a b || le b a)
    (antisymm : ∀ a b, a ∈ xs → b ∈ xs → le a b → le b a → a = b) (h : xs.Perm ys) :
    xs.mergeSort le = ys.mergeSort le := by
  refine List.Perm.eq_of_pairwise ?_ (List.pairwise_mergeSort trans total xs)
    (List.pairwise_mergeSort trans total ys)
    ((List.mergeSort_perm xs le).trans (h.trans (List.mergeSort_perm ys le).symm))
  intro a b ha hb
  exact antisymm a b (List.mem_mergeSort.1 ha) (h.mem_iff.2 (List.mem_mergeSort.1 hb))

/-! ### lists by a number -/

section

variable {α : Type} (number : α → Int)

theorem number_le_trans (a b c : α) :
    decide (number a ≤ number b) → decide (number b ≤ number c) →
      decide (number a ≤ number c) := by
  simp only [decide_eq_true_eq]
  omega

theorem number_le_total (a b : α) :
    decide (number a ≤ number b) || decide (number b ≤ number a) := by
  simp only [Bool.or_eq_true, decide_eq_true_eq]
  omega

end

/-! ## tables of completions -/

namespace CompletionTable

/-- two tables hold the same rows and give the same numbers -/
structure Same (t t' : CompletionTable) : Prop where
  valid : t.Valid
  rows : t.rows.Perm t'.rows
  lastId : t.lastId = t'.lastId
  locking : t.locking = t'.locking

theorem rowLe_trans (a b c : Row) : rowLe a b → rowLe b c → rowLe a c := by
  simp only [rowLe, Bool.or_eq_true, Bool.and_eq_true, decide_eq_true_eq, beq_iff_eq]
  omega

theorem rowLe_total (a b : Row) : rowLe a b || rowLe b a := by
  simp only [rowLe, Bool.or_eq_true, Bool.and_eq_true, decide_eq_true_eq, beq_iff_eq]
  omega

theorem key_of_rowLe {a b : Row} : rowLe a b → rowLe b a → a.key = b.key := by
  simp only [rowLe, Bool.or_eq_true, Bool.and_eq_true, decide_eq_true_eq, beq_iff_eq, Row.key,
    Key.mk.injEq]
  omega

namespace Same

variable {t t' : CompletionTable}

theorem refl (hv : t.Valid) : t.Same t := ⟨hv, .refl _, rfl, rfl⟩

theorem row? (h : t.Same t') (k : Key) : t.row? k = t'.row? k := Keyed.get?_perm h.valid h.rows k

theorem find (h : t.Same t') (k : Key) : t.find k = t'.find k := by
  unfold CompletionTable.find
  rw [h.row? k]

/-- the rows of a course stand in the order of the users, of whom no two are the same -/
theorem courseRows (h : t.Same t') (course : Int) : t.courseRows course = t'.courseRows course := by
  refine mergeSort_perm_eq (number_le_trans Row.user) (number_le_total Row.user) ?_
    (h.rows.filter _)
  intro a b ha hb hle hle'
  obtain ⟨ha, hca⟩ := List.mem_filter.1 ha
  obtain ⟨hb, hcb⟩ := List.mem_filter.1 hb
  simp only [decide_eq_true_eq] at hca hcb hle hle'
  refine Keyed.eq_of_key h.valid ha hb ?_
  unfold Row.key
  rw [hca, hcb, Int.le_antisymm hle hle']

theorem findByCourse (h : t.Same t') (course : Int) :
    t.findByCourse course = t'.findByCourse course := by
  unfold CompletionTable.findByCourse
  rw [h.courseRows course]

theorem sortedRows (h : t.Same t') : t.sortedRows = t'.sortedRows :=
  mergeSort_perm_eq rowLe_trans rowLe_total
    (fun _ _ ha hb hle hle' => Keyed.eq_of_key h.valid ha hb (key_of_rowLe hle hle')) h.rows

theorem put (h : t.Same t') (row : Row) : (t.put row).Same (t'.put row) :=
  ⟨h.valid.put row, Keyed.put_perm h.rows row, h.lastId, h.locking⟩

/-- A save has the same answer, or fails in the same way, and leaves the tables the same. -/
theorem save (h : t.Same t') (w : Record) :
    (∃ e, t.save w = .error e ∧ t'.save w = .error e) ∨
    ∃ saved t₁ t₁', t.save w = .ok (saved, t₁) ∧ t'.save w = .ok (saved, t₁') ∧ t₁.Same t₁' := by
  unfold CompletionTable.save
  by_cases hw : w.isStored
  · rw [if_pos hw, if_pos hw]
    rcases update_alike (h.row? w.key) h.locking with herror | ⟨row, ht, ht'⟩
    · exact .inl herror
    · exact .inr ⟨_, _, _, ht, ht', h.put _⟩
  · rw [if_neg hw, if_neg hw]
    rcases insert_alike (h.row? w.key) with herror | ⟨ht, ht'⟩
    · exact .inl herror
    · rw [← h.lastId] at ht'
      have hput := h.put (.ofRecord w (t.lastId + 1) 1)
      exact .inr ⟨_, _, _, ht, ht', hput.valid, hput.rows, rfl, hput.locking⟩

end Same

end CompletionTable

/-! ## stores -/

namespace Store

/-- no table has two entries with one key -/
structure Valid (s : Store) : Prop where
  courses : Keyed.Unique Course.id s.courses
  users : Keyed.Unique User.id s.users
  settings : Keyed.Unique CourseSettings.course s.settings
  methods : Keyed.Unique KindMethod.key s.methods
  marks : Keyed.Unique CriterionMark.key s.marks
  completions : s.completions.Valid

/-- two stores hold the same entries, and give the same numbers -/
structure Same (s s' : Store) : Prop where
  valid : s.Valid
  courses : s.courses = s'.courses
  users : s.users = s'.users
  settings : s.settings.Perm s'.settings
  criteria : s.criteria = s'.criteria
  methods : s.methods.Perm s'.methods
  marks : s.marks.Perm s'.marks
  windows : s.windows = s'.windows
  completions : s.completions.Same s'.completions

/-- two stores give the same answer to all that a service asks of them -/
structure AnswersAs (s s' : Store) : Prop where
  course? : ∀ course, s.course? course = s'.course? course
  user? : ∀ user, s.user? user = s'.user? user
  coursesOf : ∀ user, s.coursesOf user = s'.coursesOf user
  settings? : ∀ course, s.settings? course = s'.settings? course
  criteriaFor : ∀ k, s.criteriaFor k = s'.criteriaFor k
  windowsOf : ∀ k, s.windowsOf k = s'.windowsOf k
  courseWindows : ∀ course, s.courseWindows course = s'.courseWindows course
  find : ∀ k, s.completions.find k = s'.completions.find k
  findByCourse : ∀ course, s.completions.findByCourse course = s'.completions.findByCourse course

theorem AnswersAs.refl (s : Store) : s.AnswersAs s := by
  constructor <;> exact fun _ => rfl

theorem valid_ofSnapshot (s : Snapshot) (locking : Bool) : (ofSnapshot s locking).Valid where
  courses := Keyed.unique_ofList _ _
  users := Keyed.unique_ofList _ _
  settings := Keyed.unique_ofList _ _
  methods := Keyed.unique_ofList _ _
  marks := Keyed.unique_ofList _ _
  completions := CompletionTable.valid_ofRows _ _

/-! ### order of entries -/

theorem rank_injective {a b : CriterionKind} (h : a.rank = b.rank) : a = b := by
  cases a with
  | other m =>
    cases b with
    | other n =>
      have hmn : 3 + m.val = 3 + n.val := h
      exact congrArg _ (Fin.ext (by omega))
    | activity | prerequisite | role => simp only [CriterionKind.rank] at h; omega
  | activity | prerequisite | role =>
    cases b <;> first | rfl | (simp only [CriterionKind.rank] at h; omega)

theorem methodLe_trans (a b c : KindMethod) : methodLe a b → methodLe b c → methodLe a c := by
  simp only [methodLe, Bool.or_eq_true, Bool.and_eq_true, decide_eq_true_eq, beq_iff_eq]
  omega

theorem methodLe_total (a b : KindMethod) : methodLe a b || methodLe b a := by
  simp only [methodLe, Bool.or_eq_true, Bool.and_eq_true, decide_eq_true_eq, beq_iff_eq]
  omega

theorem key_of_methodLe {a b : KindMethod} (h : methodLe a b) (h' : methodLe b a) :
    a.key = b.key := by
  simp only [methodLe, Bool.or_eq_true, Bool.and_eq_true, decide_eq_true_eq, beq_iff_eq] at h h'
  have hrank : a.kind.rank = b.kind.rank := by omega
  unfold KindMethod.key
  rw [rank_injective hrank, show a.course = b.course by omega]

theorem markLe_trans (a b c : CriterionMark) : markLe a b → markLe b c → markLe a c := by
  simp only [markLe, Bool.or_eq_true, Bool.and_eq_true, decide_eq_true_eq, beq_iff_eq]
  omega

theorem markLe_total (a b : CriterionMark) : markLe a b || markLe b a := by
  simp only [markLe, Bool.or_eq_true, Bool.and_eq_true, decide_eq_true_eq, beq_iff_eq]
  omega

theorem key_of_markLe {a b : CriterionMark} : markLe a b → markLe b a → a.key = b.key := by
  simp only [markLe, Bool.or_eq_true, Bool.and_eq_true, decide_eq_true_eq, beq_iff_eq,
    CriterionMark.key, Prod.mk.injEq]
  omega

namespace Same

variable {s s' : Store}

theorem refl (hv : s.Valid) : s.Same s :=
  ⟨hv, rfl, rfl, .refl _, rfl, .refl _, .refl _, rfl, .refl hv.completions⟩

/-- **Stores that hold the same entries are written in the same way.** -/
theorem snapshot (h : s.Same s') : s.snapshot = s'.snapshot := by
  have hsettings : s.sortedSettings = s'.sortedSettings := by
    refine mergeSort_perm_eq (number_le_trans CourseSettings.course)
      (number_le_total CourseSettings.course) ?_ h.settings
    intro a b ha hb hle hle'
    simp only [decide_eq_true_eq] at hle hle'
    exact Keyed.eq_of_key h.valid.settings ha hb (Int.le_antisymm hle hle')
  have hmethods : s.methods.mergeSort methodLe = s'.methods.mergeSort methodLe :=
    mergeSort_perm_eq methodLe_trans methodLe_total
      (fun _ _ ha hb hle hle' =>
        Keyed.eq_of_key h.valid.methods ha hb (key_of_methodLe hle hle')) h.methods
  have hmarks : s.marks.mergeSort markLe = s'.marks.mergeSort markLe :=
    mergeSort_perm_eq markLe_trans markLe_total
      (fun _ _ ha hb hle hle' => Keyed.eq_of_key h.valid.marks ha hb (key_of_markLe hle hle'))
      h.marks
  unfold Store.snapshot
  rw [h.courses, h.users, hsettings, h.criteria, hmethods, hmarks, h.windows,
    h.completions.sortedRows]

/-! ### the same answers -/

theorem course? (h : s.Same s') (course : Int) : s.course? course = s'.course? course := by
  unfold Store.course?
  rw [h.courses]

theorem user? (h : s.Same s') (user : Int) : s.user? user = s'.user? user := by
  unfold Store.user?
  rw [h.users]

theorem windowsOf (h : s.Same s') (k : Key) : s.windowsOf k = s'.windowsOf k := by
  unfold Store.windowsOf
  rw [h.windows]

theorem courseWindows (h : s.Same s') (course : Int) :
    s.courseWindows course = s'.courseWindows course := by
  unfold Store.courseWindows
  rw [h.windows]

theorem coursesOf (h : s.Same s') (user : Int) : s.coursesOf user = s'.coursesOf user := by
  unfold Store.coursesOf Store.courseIdsOf
  rw [h.windows, funext h.course?]

theorem settings? (h : s.Same s') (course : Int) : s.settings? course = s'.settings? course := by
  unfold Store.settings?
  rw [Keyed.get?_perm h.valid.settings h.settings]

theorem criteriaFor (h : s.Same s') (k : Key) : s.criteriaFor k = s'.criteriaFor k := by
  unfold Store.criteriaFor Store.methodOf Store.metAt
  rw [h.criteria]
  refine List.map_congr_left fun c _ => ?_
  rw [Keyed.get?_perm h.valid.methods h.methods, Keyed.get?_perm h.valid.marks h.marks]

theorem answersAs (h : s.Same s') : s.AnswersAs s' :=
  ⟨h.course?, h.user?, h.coursesOf, h.settings?, h.criteriaFor, h.windowsOf, h.courseWindows,
    h.completions.find, h.completions.findByCourse⟩

end Same

/-- **The store that a snapshot of a store fills holds the same entries.** -/
theorem same_ofSnapshot {s : Store} (hv : s.Valid) (hs : s.completions.Settled) :
    (ofSnapshot s.snapshot s.completions.locking).Same s where
  valid := valid_ofSnapshot _ _
  courses := Keyed.ofList_of_unique hv.courses
  users := Keyed.ofList_of_unique hv.users
  settings := Keyed.ofList_perm hv.settings (List.mergeSort_perm _ _)
  criteria := rfl
  methods := Keyed.ofList_perm hv.methods (List.mergeSort_perm _ _)
  marks := Keyed.ofList_perm hv.marks (List.mergeSort_perm _ _)
  windows := rfl
  completions := by
    have hp := List.mergeSort_perm s.completions.rows CompletionTable.rowLe
    refine ⟨CompletionTable.valid_ofRows _ _, Keyed.ofList_perm hv.completions hp, ?_, rfl⟩
    exact (largest_congr fun n => (hp.map Row.id).mem_iff).trans hs.symm

end Store

end CourseCompletion
