import CourseCompletion.Configuration.Setting
import Mathlib.Data.List.Sections

/-!
# What a variable is taken for

`Setting.ofValue` takes the value of a variable for a yes or no, a number, or a text.

* `Setting.ofValue_of_foreign`: a value with a character that neither a number nor a word like
  `true` or `inf` is made of is a text;
* `Setting.flag?_ofValue`: whatever a value is taken for, it stands for the same yes or no.

Words are compared in small letters.  Outside of ASCII, only the sign of the kelvin has an ASCII
letter for its small one, the letter `k`, which is in none of these words
(`exists_foreign_lowerChar`), so that they are written in ASCII letters only
(`map_toLower_of_lower`).
-/

namespace CourseCompletion

/-! ## small letters -/

/-- The distance to a small letter is that of some capitals in the table, or none. -/
theorem lowerDistance_cases (n : Nat) (ranges : List Capitals) :
    lowerDistance n ranges = 0 ∨
      ∃ r ∈ ranges, r.first ≤ n ∧ n ≤ r.last ∧ lowerDistance n ranges = r.distance := by
  induction ranges with
  | nil => exact .inl rfl
  | cons r ranges ih =>
    unfold lowerDistance
    by_cases hfirst : n < r.first
    · rw [if_pos hfirst]
      exact .inl rfl
    · rw [if_neg hfirst]
      by_cases hr : n ≤ r.last ∧ (n - r.first) % r.step = 0
      · rw [if_pos hr]
        exact .inr ⟨r, List.mem_cons_self, Nat.le_of_not_lt hfirst, hr.1, rfl⟩
      · rw [if_neg hr]
        exact ih.imp_right fun ⟨r, hmem, h⟩ => ⟨r, List.mem_cons_of_mem _ hmem, h⟩

/-- the small letters of a row of capitals are outside of ASCII, or there is only the letter `k` -/
def Capitals.Foreign (r : Capitals) : Prop :=
  (r.first = r.last ∧ (r.first : Int) + r.distance = 107) ∨
    (128 ≤ (r.first : Int) + r.distance ∧
      ((r.last : Int) + r.distance < 0xD800 ∨
        (0xDFFF < (r.first : Int) + r.distance ∧ (r.last : Int) + r.distance < 0x110000)))

instance (r : Capitals) : Decidable r.Foreign := by unfold Capitals.Foreign; infer_instance

theorem foreign_capitals : ∀ r ∈ capitals, 128 ≤ r.last → r.Foreign := by decide +kernel

theorem lowerChar_ascii {c : Char} (h : c.toNat < 128) : lowerChar c = [c.toLower] := by
  have table : ∀ n : Fin 128, lowerChar (Char.ofNat n) = [(Char.ofNat n).toLower] := by
    decide +kernel
  have hc := table ⟨c.toNat, h⟩
  rwa [Char.ofNat_toNat] at hc

/-- A character outside of ASCII has a small letter outside of it, or the small letter `k`. -/
theorem exists_foreign_lowerChar {c : Char} (h : 128 ≤ c.toNat) :
    ∃ d ∈ lowerChar c, 128 ≤ d.toNat ∨ d = 'k' := by
  unfold lowerChar
  split
  · exact ⟨'\u0307', by decide, .inl (by decide)⟩
  · refine ⟨_, List.mem_singleton_self _, ?_⟩
    rcases lowerDistance_cases c.toNat capitals with hzero | ⟨r, hmem, hfirst, hlast, hdistance⟩
    · rw [hzero, Int.add_zero, Int.toNat_natCast, Char.ofNat_toNat]
      exact .inl h
    · rw [hdistance]
      rcases foreign_capitals r hmem (by omega) with ⟨hsingle, hk⟩ | ⟨hlow, hvalid⟩
      · have hsum : ((c.toNat : Int) + r.distance).toNat = 107 := by omega
        rw [hsum]
        exact .inr rfl
      · have hchar : ((c.toNat : Int) + r.distance).toNat.isValidChar := by
          unfold Nat.isValidChar
          omega
        left
        have hcode : (Char.ofNat ((c.toNat : Int) + r.distance).toNat).toNat =
            ((c.toNat : Int) + r.distance).toNat := by
          unfold Char.ofNat
          rw [dif_pos hchar]
          rfl
        omega

/-- no character is outside of ASCII, and none is the letter `k` -/
def IsPlain (word : List Char) : Prop := ∀ d ∈ word, d.toNat < 128 ∧ d ≠ 'k'

instance (word : List Char) : Decidable (IsPlain word) := by
  unfold IsPlain
  exact List.decidableBAll _ word

/-- **A text whose small letters are ASCII ones other than `k` has ASCII letters only.** -/
theorem map_toLower_of_lower {s word : List Char} (h : lower s = word) (hword : IsPlain word) :
    s.map Char.toLower = word := by
  have step : ∀ (s before word : List Char), lowerBehind before s = word → IsPlain word →
      s.map Char.toLower = word := by
    intro s
    induction s with
    | nil => exact fun _ _ h _ => h
    | cons c s ih =>
      intro before word h hword
      have hchar : lowerBetween before c s = [c.toLower] := by
        by_cases hc : c.toNat < 128
        · unfold lowerBetween
          rw [if_neg (by rintro rfl; exact absurd hc (by decide)), lowerChar_ascii hc]
        · obtain ⟨d, hd, hforeign⟩ : ∃ d ∈ lowerBetween before c s, 128 ≤ d.toNat ∨ d = 'k' := by
            unfold lowerBetween
            split
            · refine ⟨_, List.mem_singleton_self _, .inl ?_⟩
              split <;> decide
            · exact exists_foreign_lowerChar (Nat.le_of_not_lt hc)
          obtain ⟨hlow, hk⟩ := hword d (h ▸ List.mem_append_left _ hd)
          exact absurd hlow (Nat.not_lt.2 (hforeign.resolve_right hk))
      unfold lowerBehind at h
      rw [hchar] at h
      obtain rfl := h
      exact congrArg (c.toLower :: ·)
        (ih (c :: before) _ rfl fun d hd => hword d (List.mem_cons_of_mem _ hd))
  exact step s [] word h hword

/-! ## what a value is taken for -/

namespace Setting

/-- what a number, or a word that is taken for something else than text, is made of, apart from
digits -/
def guessChars : List Char :=
  ['+', '-', '.', 'a', 'e', 'f', 'i', 'l', 'n', 'r', 's', 't', 'u', 'y']

/-- a character of a number, or of a word that is taken for something else than text -/
def isGuessChar (c : Char) : Bool := c.isDigit || guessChars.contains c.toLower

theorem isGuessChar_of_isDigit {c : Char} (h : c.isDigit = true) : isGuessChar c = true := by
  unfold isGuessChar
  rw [h]
  rfl

theorem isGuessChar_of_digits {ds : List Char} (h : ds.all Char.isDigit = true) :
    ∀ c ∈ ds, isGuessChar c = true :=
  fun c hc => isGuessChar_of_isDigit (List.all_eq_true.1 h c hc)

theorem isGuessChar_of_word {value word : List Char} (h : value.map Char.toLower = word)
    (hword : word ⊆ guessChars) : ∀ c ∈ value, isGuessChar c = true := by
  intro c hc
  have hlower : c.toLower ∈ guessChars := hword (h ▸ List.mem_map_of_mem hc)
  unfold isGuessChar
  rw [List.contains_iff_mem.2 hlower, Bool.or_true]

theorem isGuessChar_of_integer? {value : List Char} {n : Int} (h : integer? value = some n) :
    ∀ c ∈ value, isGuessChar c = true := by
  unfold integer? at h
  split at h
  next negative ds hsign =>
  split at h
  · next hds =>
    have hdigits := isGuessChar_of_digits hds.2
    split at hsign
    · cases hsign
      exact List.forall_mem_cons.2 ⟨by decide, hdigits⟩
    · cases hsign
      exact List.forall_mem_cons.2 ⟨by decide, hdigits⟩
    · cases hsign
      exact hdigits
  · cases h

theorem isGuessChar_of_exponentPart? {s : List Char} {e : Int}
    (h : Binary64.exponentPart? s = some e) : ∀ c ∈ s, isGuessChar c = true := by
  unfold Binary64.exponentPart? at h
  split at h
  · exact fun c hc => by cases hc
  · next c r =>
    split at h
    · next hmark =>
      have hc : isGuessChar c = true := by rcases hmark with rfl | rfl <;> decide
      refine List.forall_mem_cons.2 ⟨hc, ?_⟩
      split at h
      all_goals
        split at h
        · next hds =>
          have hdigits := isGuessChar_of_digits hds.2
          first
            | exact hdigits
            | exact List.forall_mem_cons.2 ⟨by decide, hdigits⟩
        · cases h
    · cases h

theorem isGuessChar_of_digitsOf (s : List Char) (h : ∀ c ∈ (digitsOf s).2, isGuessChar c = true) :
    ∀ c ∈ s, isGuessChar c = true := by
  intro c hc
  rw [← digitsOf_append s] at hc
  rcases List.mem_append.1 hc with hdigit | hrest
  · exact isGuessChar_of_isDigit (List.all_eq_true.1 List.all_takeWhile c hdigit)
  · exact h c hrest

theorem isGuessChar_of_decimal? {negative : Bool} {s : List Char} {d : Decimal}
    (h : Binary64.decimal? negative s = some d) : ∀ c ∈ s, isGuessChar c = true := by
  refine isGuessChar_of_digitsOf s ?_
  unfold Binary64.decimal? at h
  dsimp only at h
  split at h
  · next r hpoint =>
    rw [hpoint]
    split at h
    · cases h
    · obtain ⟨e, he, -⟩ := Option.map_eq_some_iff.1 h
      exact List.forall_mem_cons.2 ⟨by decide,
        isGuessChar_of_digitsOf r (isGuessChar_of_exponentPart? he)⟩
  · split at h
    · cases h
    · obtain ⟨e, he, -⟩ := Option.map_eq_some_iff.1 h
      exact isGuessChar_of_exponentPart? he

theorem isGuessChar_of_ofChars? {value : List Char} {x : Binary64}
    (h : Binary64.ofChars? value = some x) : ∀ c ∈ value, isGuessChar c = true := by
  unfold Binary64.ofChars? at h
  split at h
  next negative r hsign =>
  have hr : ∀ c ∈ r, isGuessChar c = true := by
    dsimp only at h
    split at h
    · next hword =>
      rcases hword with hword | hword
      · exact isGuessChar_of_word (String.ofList_injective hword) (by decide)
      · exact isGuessChar_of_word (String.ofList_injective hword) (by decide)
    split at h
    · next hword => exact isGuessChar_of_word (String.ofList_injective hword) (by decide)
    · obtain ⟨d, hd, -⟩ := Option.map_eq_some_iff.1 h
      exact isGuessChar_of_decimal? hd
  split at hsign
  · cases hsign
    exact List.forall_mem_cons.2 ⟨by decide, hr⟩
  · cases hsign
    exact List.forall_mem_cons.2 ⟨by decide, hr⟩
  · cases hsign
    exact hr

/-- **A value with a character that no number or word is made of is taken as text.** -/
theorem ofValue_of_foreign {value : List Char} (h : ∃ c ∈ value, isGuessChar c = false) :
    ofValue value = .text value := by
  obtain ⟨c, hc, hforeign⟩ := h
  have hno : ¬∀ c ∈ value, isGuessChar c = true := fun hall => by
    rw [hall c hc] at hforeign
    cases hforeign
  have hword : ∀ word, IsPlain word → word ⊆ guessChars → lower value ≠ word :=
    fun word hplain hall heq => hno (isGuessChar_of_word (map_toLower_of_lower heq hplain) hall)
  unfold ofValue
  dsimp only
  rw [if_neg (hword _ (by decide) (by decide)), if_neg (hword _ (by decide) (by decide))]
  cases hint : signed64? value with
  | some n =>
    exact absurd (isGuessChar_of_integer? (Option.filter_eq_some_iff.1 hint).1) hno
  | none =>
    cases hfloat : Binary64.ofChars? value with
    | some x => exact absurd (isGuessChar_of_ofChars? hfloat) hno
    | none => rfl

/-! ### written out again -/

theorem isGuessChar_of_decimalInt (n : Int) : ∀ c ∈ decimalInt n, isGuessChar c = true := by
  cases n with
  | ofNat n => exact fun c hc => isGuessChar_of_isDigit (isDigit_of_mem_decimal hc)
  | negSucc n =>
    refine List.forall_mem_cons.2 ⟨by decide, fun c hc => ?_⟩
    exact isGuessChar_of_isDigit (isDigit_of_mem_decimal hc)

theorem isGuessChar_of_positional (n : Nat) (e : Int) :
    ∀ c ∈ Binary64.positional n e, isGuessChar c = true := by
  intro c hc
  have hdigits : ∀ c ∈ padded ((-e).toNat + 1) n, isGuessChar c = true :=
    fun c hc => isGuessChar_of_isDigit (isDigit_of_mem_padded hc)
  unfold Binary64.positional at hc
  dsimp only at hc
  split at hc
  · exact isGuessChar_of_isDigit (isDigit_of_mem_decimal hc)
  split at hc
  · exact hdigits c (List.mem_of_mem_take hc)
  · rcases List.mem_append.1 hc with hwhole | hrest
    · exact hdigits c (List.mem_of_mem_take hwhole)
    · rcases List.mem_cons.1 hrest with rfl | hplace
      · decide
      · have hmem := (List.dropWhile_sublist _).subset (List.mem_reverse.1 hplace)
        exact hdigits c (List.mem_of_mem_drop (List.mem_reverse.1 hmem))

theorem isGuessChar_of_chars (x : Binary64) : ∀ c ∈ x.chars, isGuessChar c = true := by
  unfold Binary64.chars
  cases x with
  | finite negative mantissa exponent =>
    refine List.forall_mem_append.2 ⟨?_, isGuessChar_of_positional _ _⟩
    cases negative <;> exact List.all_eq_true.1 (by decide)
  | infinite negative => cases negative <;> exact List.all_eq_true.1 (by decide)
  | nan => exact List.all_eq_true.1 (by decide)

/-- **A value is written out as it was**, or as a number or a word. -/
theorem chars?_ofValue (value : List Char) : ∃ s, (ofValue value).chars? = some s ∧
    (s = value ∨ ∀ c ∈ s, isGuessChar c = true) := by
  unfold ofValue
  dsimp only
  split
  · exact ⟨_, rfl, .inr (List.all_eq_true.1 (by decide))⟩
  split
  · exact ⟨_, rfl, .inr (List.all_eq_true.1 (by decide))⟩
  split
  · next n _ => exact ⟨_, rfl, .inr (isGuessChar_of_decimalInt n)⟩
  · split
    · next x _ => exact ⟨_, rfl, .inr (isGuessChar_of_chars x)⟩
    · exact ⟨_, rfl, .inl rfl⟩

/-! ## yes and no -/

/-- the yes or no that a value of the environment stands for: a word in any case, or a number -/
def denoted? (value : List Char) : Option Bool :=
  let word := String.ofList (lower value)
  if word ∈ yes then some true
  else if word ∈ no then some false
  else match signed64? value with
    | some n => some (n ≠ 0)
    | none => (Binary64.ofChars? value).map Binary64.isNonzero

/-- the ways to write a word in small letters and capitals -/
def casings (word : List Char) : List (List Char) := (word.map fun c => [c, c.toUpper]).sections

theorem mem_casings {value word : List Char} (h : value.map Char.toLower = word) :
    value ∈ casings word := by
  have hchar : ∀ c : Char, c = c.toLower ∨ c = c.toLower.toUpper := by
    intro c
    by_cases hc : 'A' ≤ c ∧ c ≤ 'Z'
    · have table : ∀ n : Fin 26, (Char.ofNat (65 + n)).toLower.toUpper = Char.ofNat (65 + n) := by
        decide
      have hlow : 65 ≤ c.toNat := hc.1
      have hhigh : c.toNat ≤ 90 := hc.2
      have h := table ⟨c.toNat - 65, by omega⟩
      rw [show 65 + (c.toNat - 65) = c.toNat by omega, Char.ofNat_toNat] at h
      exact .inr h.symm
    · have hsame : c.toLower = c := by
        unfold Char.toLower
        exact dif_neg hc
      exact .inl hsame.symm
  obtain rfl := h
  unfold casings
  rw [List.mem_sections, List.map_map]
  induction value with
  | nil => exact .nil
  | cons c value ih => exact .cons (by simpa using hchar c) ih

theorem flag?_casings : ∀ word ∈ yes ++ no, ∀ value ∈ casings word.toList,
    (ofValue value).flag? = some (decide (word ∈ yes)) := by
  decide +kernel

/-- A word for yes or no stands for that, whatever it is taken for. -/
theorem flag?_of_word {value : List Char} (h : String.ofList (lower value) ∈ yes ++ no) :
    (ofValue value).flag? = some (decide (String.ofList (lower value) ∈ yes)) := by
  refine flag?_casings _ h value (mem_casings (map_toLower_of_lower ?_ ?_))
  · exact (String.toList_ofList).symm
  · have hwords : ∀ word ∈ yes ++ no, IsPlain word.toList := by decide
    exact hwords _ h

/-- **Yes and no do not depend on what a value is taken for.** -/
theorem flag?_ofValue (value : List Char) : (ofValue value).flag? = denoted? value := by
  unfold denoted?
  dsimp only
  by_cases hyes : String.ofList (lower value) ∈ yes
  · rw [if_pos hyes, flag?_of_word (List.mem_append_left _ hyes), decide_eq_true hyes]
  · rw [if_neg hyes]
    by_cases hno : String.ofList (lower value) ∈ no
    · rw [if_pos hno, flag?_of_word (List.mem_append_right _ hno), decide_eq_false hyes]
    · have htrue : lower value ≠ ['t', 'r', 'u', 'e'] := fun h => hyes (by rw [h]; decide)
      have hfalse : lower value ≠ ['f', 'a', 'l', 's', 'e'] := fun h => hno (by rw [h]; decide)
      unfold ofValue
      dsimp only
      rw [if_neg hno, if_neg htrue, if_neg hfalse]
      cases signed64? value with
      | some n => rfl
      | none =>
        cases Binary64.ofChars? value with
        | some x => rfl
        | none =>
          unfold flag?
          dsimp only
          rw [if_neg hyes, if_neg hno]
          rfl

end Setting

end CourseCompletion
