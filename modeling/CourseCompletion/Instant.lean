/-!
# Instants

An `Instant` is a moment between the years -262143 and 262142: whole seconds since the start of
1970 and nanoseconds that count forward from them.  Inside a leap second the nanoseconds run on
past a billion.  An instant may have a leap second after any second; the calendar has them at the
end of a minute only.

* `Instant.ofSeconds?`    the instant at a whole second, where there is one;
* `Instant.wholeSecond`   an instant without its fraction;
* `Instant.IsRegular`     a leap second, if there is one, stands at the end of a minute;
* `known?`                a time that lies after the first second of 1970.

Stored rows write `0` for "not set", so an instant at or before the epoch counts as unknown.
Instants are ordered by seconds, then nanoseconds (`Instant.le_total`, `Instant.le_antisymm`).
-/

namespace CourseCompletion

/-- the start of the year -262143 -/
def earliestSecond : Int := -8334601228800

/-- the last second of the year 262142 -/
def latestSecond : Int := 8210266876799

/-- A moment: `nanos` counts on from the start of `seconds`, and from a billion on it is inside a
leap second. -/
structure Instant where
  seconds : Int
  nanos : Nat
  seconds_mem : earliestSecond ≤ seconds ∧ seconds ≤ latestSecond
  nanos_mem : nanos < 2000000000
deriving DecidableEq

namespace Instant

theorem ext_fields {a b : Instant} (hs : a.seconds = b.seconds) (hn : a.nanos = b.nanos) :
    a = b := by
  cases a; cases b; simp_all

/-! ## making instants -/

/-- the instant with these parts, where there is one -/
def ofParts? (seconds : Int) (nanos : Nat) : Option Instant :=
  if hs : earliestSecond ≤ seconds ∧ seconds ≤ latestSecond then
    if hn : nanos < 2000000000 then
      some ⟨seconds, nanos, hs, hn⟩
    else none
  else none

/-- the instant at a whole second, where there is one -/
def ofSeconds? (seconds : Int) : Option Instant := ofParts? seconds 0

/-- the start of 1970 -/
def epoch : Instant := ⟨0, 0, by decide, by decide⟩

/-- the instant at the start of its second -/
def wholeSecond (t : Instant) : Instant :=
  ⟨t.seconds, 0, t.seconds_mem, by decide⟩

theorem ofParts?_self (t : Instant) : ofParts? t.seconds t.nanos = some t := by
  simp [ofParts?, t.seconds_mem, t.nanos_mem]

theorem ofSeconds?_of_mem {s : Int} (h : earliestSecond ≤ s ∧ s ≤ latestSecond) :
    ofSeconds? s = some ⟨s, 0, h, by decide⟩ := by
  simp [ofSeconds?, ofParts?, h]

theorem ofSeconds?_eq_none_iff {s : Int} :
    ofSeconds? s = none ↔ ¬(earliestSecond ≤ s ∧ s ≤ latestSecond) := by
  simp only [ofSeconds?, ofParts?]
  split <;> simp_all

theorem ofSeconds?_seconds (t : Instant) : ofSeconds? t.seconds = some t.wholeSecond :=
  ofSeconds?_of_mem t.seconds_mem

theorem fields_of_ofParts? {s : Int} {n : Nat} {t : Instant} (h : ofParts? s n = some t) :
    t.seconds = s ∧ t.nanos = n := by
  unfold ofParts? at h
  split at h
  · split at h
    · obtain rfl := Option.some.inj h
      exact ⟨rfl, rfl⟩
    · cases h
  · cases h

theorem seconds_of_ofSeconds? {s : Int} {t : Instant} (h : ofSeconds? s = some t) :
    t.seconds = s ∧ t.nanos = 0 := fields_of_ofParts? h

/-! ## leap seconds -/

/-- the instant is in no leap second, or in one at the end of a minute, where the calendar has
them -/
def IsRegular (t : Instant) : Prop := t.nanos < 1000000000 ∨ t.seconds % 60 = 59

instance (t : Instant) : Decidable t.IsRegular := inferInstanceAs (Decidable (_ ∨ _))

/-! ## order -/

instance : LE Instant :=
  ⟨fun a b => a.seconds < b.seconds ∨ a.seconds = b.seconds ∧ a.nanos ≤ b.nanos⟩

instance : LT Instant :=
  ⟨fun a b => a.seconds < b.seconds ∨ a.seconds = b.seconds ∧ a.nanos < b.nanos⟩

theorem le_def {a b : Instant} :
    a ≤ b ↔ a.seconds < b.seconds ∨ a.seconds = b.seconds ∧ a.nanos ≤ b.nanos := Iff.rfl

theorem lt_def {a b : Instant} :
    a < b ↔ a.seconds < b.seconds ∨ a.seconds = b.seconds ∧ a.nanos < b.nanos := Iff.rfl

instance (a b : Instant) : Decidable (a ≤ b) := decidable_of_iff _ le_def.symm

instance (a b : Instant) : Decidable (a < b) := decidable_of_iff _ lt_def.symm

instance : Min Instant := ⟨fun a b => if a ≤ b then a else b⟩

instance : Max Instant := ⟨fun a b => if a ≤ b then b else a⟩

theorem min_def (a b : Instant) : min a b = if a ≤ b then a else b := rfl

theorem max_def (a b : Instant) : max a b = if a ≤ b then b else a := rfl

theorem le_refl (a : Instant) : a ≤ a := .inr ⟨rfl, Nat.le_refl _⟩

theorem le_trans {a b c : Instant} (h : a ≤ b) (h' : b ≤ c) : a ≤ c := by
  simp only [le_def] at *
  omega

theorem le_antisymm {a b : Instant} (h : a ≤ b) (h' : b ≤ a) : a = b := by
  simp only [le_def] at *
  exact ext_fields (by omega) (by omega)

theorem le_total (a b : Instant) : a ≤ b ∨ b ≤ a := by
  simp only [le_def]
  omega

theorem not_le {a b : Instant} : ¬a ≤ b ↔ b < a := by
  simp only [le_def, lt_def]
  omega

/-! ## known times -/

/-- an instant that a stored column can hold: its second lies after the epoch -/
def IsKnown (t : Instant) : Prop := 0 < t.seconds

instance (t : Instant) : Decidable t.IsKnown := inferInstanceAs (Decidable (0 < t.seconds))

/-- the smallest of some instants -/
def minimum? : List Instant → Option Instant
  | [] => none
  | t :: ts => some (match minimum? ts with
    | some u => min t u
    | none => t)

/-- the largest of two optional instants; an absent one is below every other -/
def later : Option Instant → Option Instant → Option Instant
  | some a, some b => some (max a b)
  | some a, none => some a
  | none, b => b

end Instant

/-- a time, unless it lies at or before the epoch and so counts as unknown -/
def known? (t : Option Instant) : Option Instant := t.filter fun t => decide t.IsKnown

@[simp]
theorem known?_none : known? none = none := rfl

theorem known?_of_isKnown {t : Instant} (h : t.IsKnown) : known? (some t) = some t := by
  simp [known?, h]

theorem known?_of_not_isKnown {t : Instant} (h : ¬t.IsKnown) : known? (some t) = none := by
  simp [known?, h]

theorem known?_eq_some_iff {o : Option Instant} {t : Instant} :
    known? o = some t ↔ o = some t ∧ t.IsKnown := by
  simp [known?, Option.filter_eq_some_iff]

end CourseCompletion
