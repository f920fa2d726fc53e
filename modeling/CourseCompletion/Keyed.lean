/-!
# Tables with one entry to a key

A list serves as a table when no two of its entries have the same key.  `Keyed.put` replaces the
entry of a key and moves it to the end, and `Keyed.ofList` puts entries one after the other: of
entries with one key the last stays, and the entries stand in the order of the ones that stay.

* `Keyed.get?`          the entry of a key (`get?_put`);
* `Keyed.Unique`        no two entries have the same key (`unique_put`, `unique_ofList`).
-/

set_option linter.unusedSectionVars false

namespace CourseCompletion.Keyed

variable {α κ : Type} [DecidableEq κ]

/-- the first entry with a key -/
def get? (key : α → κ) (k : κ) (entries : List α) : Option α := entries.find? (key · = k)

/-- the table without the entry of a key -/
def erase (key : α → κ) (k : κ) (entries : List α) : List α := entries.filter (key · ≠ k)

/-- the table with an entry in the place of any other with its key -/
def put (key : α → κ) (x : α) (entries : List α) : List α := erase key (key x) entries ++ [x]

/-- the table of entries that are put one after the other -/
def ofList (key : α → κ) (entries : List α) : List α :=
  entries.foldl (fun table x => put key x table) []

/-- no two entries have the same key -/
def Unique (key : α → κ) (entries : List α) : Prop := entries.Pairwise fun x y => key x ≠ key y

/-! ## what a key finds -/

theorem key_of_get? {key : α → κ} {k : κ} {entries : List α} {x : α}
    (h : get? key k entries = some x) : key x = k := by
  simpa using List.find?_some h

theorem mem_of_get? {key : α → κ} {k : κ} {entries : List α} {x : α}
    (h : get? key k entries = some x) : x ∈ entries := List.mem_of_find?_eq_some h

theorem get?_erase (key : α → κ) (k k' : κ) (entries : List α) :
    get? key k' (erase key k entries) = if k' = k then none else get? key k' entries := by
  unfold get? erase
  induction entries with
  | nil => split <;> rfl
  | cons x xs ih =>
    by_cases hx : key x = k
    · rw [List.filter_cons_of_neg (by simp [hx]), ih]
      split
      · rfl
      · next h => rw [List.find?_cons_of_neg (by simpa [hx] using Ne.symm h)]
    · rw [List.filter_cons_of_pos (by simp [hx])]
      by_cases hk : key x = k'
      · have : k' ≠ k := fun e => hx (hk.trans e)
        simp [hk, this]
      · rw [List.find?_cons_of_neg (by simpa using hk), ih]
        split
        · rfl
        · rw [List.find?_cons_of_neg (by simpa using hk)]

theorem get?_put (key : α → κ) (x : α) (k : κ) (entries : List α) :
    get? key k (put key x entries) = if k = key x then some x else get? key k entries := by
  have h := get?_erase key (key x) k entries
  unfold put
  unfold get? at h ⊢
  rw [List.find?_append, h]
  by_cases hk : k = key x
  · simp [hk]
  · have hk' : key x ≠ k := fun e => hk e.symm
    simp [hk, hk']

theorem mem_of_mem_put {key : α → κ} {x y : α} {entries : List α} (h : y ∈ put key x entries) :
    y = x ∨ y ∈ entries := by
  rcases List.mem_append.1 h with h | h
  · exact .inr (List.mem_filter.1 h).1
  · exact .inl (List.mem_singleton.1 h)

/-! ## entries that are changed under their keys -/

section

variable {key : α → κ} (f : α → α) (hf : ∀ x, key (f x) = key x)
include hf

theorem get?_map (k : κ) (entries : List α) :
    get? key k (entries.map f) = (get? key k entries).map f := by
  unfold get?
  rw [List.find?_map]
  simp only [Function.comp_def, hf]

theorem map_put (x : α) (entries : List α) :
    (put key x entries).map f = put key (f x) (entries.map f) := by
  unfold put erase
  rw [List.map_append, List.filter_map]
  simp only [Function.comp_def, hf, List.map_cons, List.map_nil]

end

/-! ## one entry to a key -/

theorem unique_nil (key : α → κ) : Unique key ([] : List α) := List.Pairwise.nil

theorem unique_erase {key : α → κ} {entries : List α} (h : Unique key entries) (k : κ) :
    Unique key (erase key k entries) := List.Pairwise.filter _ h

theorem unique_put {key : α → κ} {entries : List α} (h : Unique key entries) (x : α) :
    Unique key (put key x entries) := by
  refine List.pairwise_append.2 ⟨unique_erase h _, List.pairwise_singleton _ _, ?_⟩
  intro y hy z hz
  obtain rfl : z = x := by simpa using hz
  simpa using (List.mem_filter.1 hy).2

theorem unique_ofList (key : α → κ) (entries : List α) : Unique key (ofList key entries) := by
  have step : ∀ (xs table : List α), Unique key table →
      Unique key (xs.foldl (fun table x => put key x table) table) := by
    intro xs
    induction xs with
    | nil => intro table h; exact h
    | cons x xs ih => intro table h; exact ih _ (unique_put h x)
  exact step entries [] (unique_nil key)

/-- An entry of a table is the one that its key finds. -/
theorem get?_of_mem {key : α → κ} {entries : List α} (h : Unique key entries) {x : α}
    (hx : x ∈ entries) : get? key (key x) entries = some x := by
  induction entries with
  | nil => cases hx
  | cons y ys ih =>
    obtain ⟨hy, hys⟩ := List.pairwise_cons.1 h
    unfold get?
    rcases List.mem_cons.1 hx with rfl | hx
    · simp
    · rw [List.find?_cons_of_neg (by simpa using hy x hx)]
      exact ih hys hx

end CourseCompletion.Keyed
