import CourseCompletion.Instant.Text
import CourseCompletion.Proofs.Calendar

/-!
# Instants read back

The text of an instant reads as that instant (`Instant.ofText?_text`): years with and without a
sign, fractions of every length, and leap seconds at the end of a minute.  No text reads as an
instant in any other leap second (`Instant.isRegular_of_ofText?`).

Every reader is shown to take exactly what its writer wrote, and to leave what follows.
-/

namespace CourseCompletion

/-- an answer that is there goes on to the next reader -/
theorem bind_of_eq_some {α β : Type} {x : Option α} {f : α → Option β} {a : α} {b : Option β}
    (hx : x = some a) (hf : f a = b) : x >>= f = b := by
  rw [hx]
  exact hf

/-! ## rows of digits -/

theorem length_padded {width n : Nat} (hw : 0 < width) (hn : n < 10 ^ width) :
    (padded width n).length = width := by
  have hle : (decimal n).length ≤ width := (Nat.length_toDigits_le_iff (by decide) hw).2 hn
  unfold padded
  rw [List.length_append, List.length_replicate]
  omega

theorem padded_eq_cons (width n : Nat) :
    ∃ c ds, padded width n = c :: ds ∧ c.isDigit = true := by
  cases h : padded width n with
  | nil => exact absurd (List.append_eq_nil_iff.1 h).2 (decimal_ne_nil n)
  | cons c ds => exact ⟨c, ds, rfl, isDigit_of_mem_padded (by rw [h]; exact List.mem_cons_self)⟩

theorem digitsUpTo_of_digits (ds rest : List Char) (h : ∀ c ∈ ds, c.isDigit = true) :
    digitsUpTo ds.length (ds ++ rest) = (ds, rest) := by
  have htake : ((ds ++ rest).take ds.length).takeWhile Char.isDigit = ds := by
    have hall : (ds ++ []).takeWhile Char.isDigit = ds ++ [].takeWhile Char.isDigit :=
      List.takeWhile_append_of_pos h
    rw [List.take_left]
    rwa [List.append_nil, List.takeWhile_nil, List.append_nil] at hall
  unfold digitsUpTo
  simp only [htake, List.drop_left]

/-- A row of digits denotes a number that has no more digits. -/
theorem digitsValue_lt {ds : List Char} (h : ∀ c ∈ ds, c.isDigit = true) :
    digitsValue ds < 10 ^ ds.length := by
  have step : ∀ init, Nat.ofDigitChars 10 ds init < (init + 1) * 10 ^ ds.length := by
    induction ds with
    | nil => intro init; simp
    | cons c ds ih =>
      intro init
      have hc : c.toNat - '0'.toNat < 10 := by
        have hle : c.toNat ≤ '9'.toNat := by
          have hdigit := h c List.mem_cons_self
          simp only [Char.isDigit, Bool.and_eq_true, decide_eq_true_eq] at hdigit
          exact UInt32.le_iff_toNat_le.1 hdigit.2
        have hends : '9'.toNat = 57 ∧ '0'.toNat = 48 := by decide
        omega
      calc Nat.ofDigitChars 10 (c :: ds) init
          = Nat.ofDigitChars 10 ds (10 * init + (c.toNat - '0'.toNat)) := Nat.ofDigitChars_cons
        _ < (10 * init + (c.toNat - '0'.toNat) + 1) * 10 ^ ds.length :=
            ih (fun d hd => h d (List.mem_cons_of_mem c hd)) _
        _ ≤ (10 * (init + 1)) * 10 ^ ds.length := Nat.mul_le_mul_right _ (by omega)
        _ = (init + 1) * 10 ^ (c :: ds).length := by
            rw [List.length_cons, Nat.pow_succ']
            ac_rfl
  simpa [digitsValue] using step 0

theorem dropBlank_padded (width n : Nat) (rest : List Char) :
    dropBlank (padded width n ++ rest) = padded width n ++ rest := by
  obtain ⟨c, ds, heq, hc⟩ := padded_eq_cons width n
  rw [heq]
  refine dropBlank_of_head fun d hd => ?_
  obtain rfl := Option.some.inj hd
  exact isBlank_of_isDigit hc

namespace Instant

theorem numeral_padded (width n : Nat) (rest : List Char) :
    numeral (padded width n, rest) = some (n, rest) := by
  obtain ⟨c, ds, heq, -⟩ := padded_eq_cons width n
  unfold numeral
  rw [if_neg (by rw [heq]; exact List.cons_ne_nil c ds), digitsValue_padded]

/-! ## the parts of a text -/

theorem part?_padded {n : Nat} (hn : n < 100) (rest : List Char) :
    part? (padded 2 n ++ rest) = some (n, rest) := by
  have hread := digitsUpTo_of_digits (padded 2 n) rest fun _ => isDigit_of_mem_padded
  rw [length_padded (by decide) hn] at hread
  unfold part?
  rw [dropBlank_padded, hread, numeral_padded]

theorem symbol_self {c : Char} (hc : isBlank c = false) (rest : List Char) :
    symbol c (c :: rest) = some rest := by
  have hdrop : dropBlank (c :: rest) = c :: rest :=
    dropBlank_of_head fun d hd => by obtain rfl := Option.some.inj hd; exact hc
  unfold symbol
  rw [hdrop]
  exact if_pos rfl

theorem year?_yearText (year : Int) (rest : List Char) :
    year? (yearText year ++ '-' :: rest) = some (year, '-' :: rest) := by
  have hrow : ∀ n, digitsOf (padded 4 n ++ '-' :: rest) = (padded 4 n, '-' :: rest) := fun n =>
    digitsOf_of_digits (fun _ => isDigit_of_mem_padded) fun c hc => by
      obtain rfl := Option.some.inj hc
      decide
  unfold yearText
  by_cases hplain : 0 ≤ year ∧ year ≤ 9999
  · rw [if_pos hplain]
    have hread := digitsUpTo_of_digits (padded 4 year.toNat) ('-' :: rest)
      fun _ => isDigit_of_mem_padded
    rw [length_padded (by decide) (by omega)] at hread
    unfold year?
    rw [dropBlank_padded]
    obtain ⟨c, ds, heq, hc⟩ := padded_eq_cons 4 year.toNat
    -- a digit is no sign
    split
    · next hsign => rw [heq] at hsign; obtain rfl := (List.cons.inj hsign).1; cases hc
    · next hsign => rw [heq] at hsign; obtain rfl := (List.cons.inj hsign).1; cases hc
    · rw [hread, numeral_padded]
      exact congrArg some (congrArg (·, '-' :: rest) (Int.toNat_of_nonneg hplain.1))
  · rw [if_neg hplain]
    by_cases hneg : year < 0
    · rw [if_pos hneg]
      show (numeral (digitsOf (padded 4 year.natAbs ++ '-' :: rest))).map _ = _
      rw [hrow, numeral_padded]
      exact congrArg some (congrArg (·, '-' :: rest) (by omega))
    · rw [if_neg hneg]
      show (numeral (digitsOf (padded 4 year.natAbs ++ '-' :: rest))).map _ = _
      rw [hrow, numeral_padded]
      exact congrArg some (congrArg (·, '-' :: rest) (by omega))

theorem fraction?_padded {width n : Nat} (hw : 0 < width ∧ width ≤ 9) (hn : n < 10 ^ width) :
    fraction? ('.' :: padded width n ++ ['Z']) = some (n * Nat.pow 10 (9 - width), ['Z']) := by
  have hrow : digitsOf (padded width n ++ ['Z']) = (padded width n, ['Z']) :=
    digitsOf_of_digits (fun _ => isDigit_of_mem_padded) fun c hc => by
      obtain rfl := Option.some.inj hc
      decide
  obtain ⟨c, ds, heq, -⟩ := padded_eq_cons width n
  have hlen := length_padded hw.1 hn
  have htake : (padded width n).take 9 = padded width n := List.take_of_length_le (by omega)
  unfold fraction?
  simp only [List.cons_append, hrow, htake, digitsValue_padded, hlen]
  rw [if_neg (by rw [heq]; exact List.cons_ne_nil c ds)]

theorem fraction?_fractionText {nanos : Nat} (h : nanos < 1000000000) :
    fraction? (fractionText nanos ++ ['Z']) = some (nanos, ['Z']) := by
  unfold fractionText
  by_cases hzero : nanos = 0
  · rw [if_pos hzero, hzero]
    rfl
  rw [if_neg hzero]
  by_cases hmilli : nanos % 1000000 = 0
  · rw [if_pos hmilli, fraction?_padded (by decide) (by omega)]
    exact congrArg some (congrArg (·, ['Z']) (show nanos / 1000000 * 1000000 = nanos by omega))
  rw [if_neg hmilli]
  by_cases hmicro : nanos % 1000 = 0
  · rw [if_pos hmicro, fraction?_padded (by decide) (by omega)]
    exact congrArg some (congrArg (·, ['Z']) (show nanos / 1000 * 1000 = nanos by omega))
  · rw [if_neg hmicro, fraction?_padded (by decide) (by omega)]
    exact congrArg some (congrArg (·, ['Z']) (Nat.mul_one nanos))

/-- A fraction has less than a whole second. -/
theorem fraction?_lt {s rest : List Char} {nanos : Nat} (h : fraction? s = some (nanos, rest)) :
    nanos < 1000000000 := by
  unfold fraction? at h
  split at h
  · next r =>
    by_cases hnone : (digitsOf r).1 = []
    · simp [hnone] at h
    · let ds := (digitsOf r).1.take 9
      have hsome : some (digitsValue ds * 10 ^ (9 - ds.length), (digitsOf r).2) =
          some (nanos, rest) := (if_neg hnone).symm.trans h
      have hlt : digitsValue ds < 10 ^ ds.length := digitsValue_lt fun c hc =>
        List.all_eq_true.1 List.all_takeWhile c (List.mem_of_mem_take hc)
      rw [← (Prod.mk.inj (Option.some.inj hsome)).1]
      calc digitsValue ds * 10 ^ (9 - ds.length)
          < 10 ^ ds.length * 10 ^ (9 - ds.length) :=
            Nat.mul_lt_mul_of_pos_right hlt (Nat.pow_pos (by decide))
        _ = 10 ^ 9 := by rw [← Nat.pow_add, Nat.add_sub_cancel' (List.length_take_le 9 _)]
  · obtain ⟨rfl, -⟩ := Prod.mk.inj (Option.some.inj h)
    decide

/-! ## whole texts -/

/-- The fields of a regular instant are those of an instant. -/
theorem ofFields?_self {t : Instant} (hregular : t.IsRegular) :
    ofFields? (Date.ofDayNumber (t.seconds / 86400)) ((t.seconds % 86400).toNat / 3600)
      ((t.seconds % 86400).toNat / 60 % 60)
      (if 1000000000 ≤ t.nanos then (t.seconds % 86400).toNat % 60 + 1
        else (t.seconds % 86400).toNat % 60)
      (if 1000000000 ≤ t.nanos then t.nanos - 1000000000 else t.nanos) 0 = some t := by
  have hrange := t.seconds_mem
  have hnanos := t.nanos_mem
  unfold earliestSecond latestSecond at hrange
  unfold IsRegular at hregular
  have hdate := Date.exists_ofDayNumber (t.seconds / 86400)
  have hyear := Date.year_ofDayNumber (n := t.seconds / 86400) (by omega)
  have hday := Date.dayNumber_ofDayNumber (t.seconds / 86400)
  unfold ofFields?
  rw [if_pos ⟨hdate, hyear.1, hyear.2, by omega, by omega, by split <;> omega⟩, hday,
    ← ofParts?_self t]
  by_cases hleap : 1000000000 ≤ t.nanos
  · have hsecond : (t.seconds % 86400).toNat % 60 + 1 = 60 := by omega
    simp only [hleap, hsecond, if_true]
    congr 1 <;> omega
  · have hsecond : ¬(t.seconds % 86400).toNat % 60 = 60 := by omega
    simp only [hleap, hsecond, if_false]
    congr 1
    omega

/-- A text with these fields reads as the instant with them. -/
theorem ofChars?_fields (year : Int) {month day hour minute second nanos : Nat}
    (hmonth : month < 100) (hday : day < 100) (hhour : hour < 100) (hminute : minute < 100)
    (hsecond : second < 100) (hnanos : nanos < 1000000000) :
    ofChars? (yearText year ++ '-' :: (padded 2 month ++ '-' :: (padded 2 day ++
      'T' :: (padded 2 hour ++ ':' :: (padded 2 minute ++ ':' :: (padded 2 second ++
      (fractionText nanos ++ ['Z']))))))) =
      ofFields? ⟨year, month, day⟩ hour minute second nanos 0 := by
  refine bind_of_eq_some (year?_yearText year _) ?_
  refine bind_of_eq_some (symbol_self (by decide) _) ?_
  refine bind_of_eq_some (part?_padded hmonth _) ?_
  refine bind_of_eq_some (symbol_self (by decide) _) ?_
  refine bind_of_eq_some (part?_padded hday _) ?_
  refine bind_of_eq_some (show separator? ('T' :: _) = some _ from rfl) ?_
  refine bind_of_eq_some (part?_padded hhour _) ?_
  refine bind_of_eq_some (symbol_self (by decide) _) ?_
  refine bind_of_eq_some (part?_padded hminute _) ?_
  refine bind_of_eq_some (symbol_self (by decide) _) ?_
  refine bind_of_eq_some (part?_padded hsecond _) ?_
  refine bind_of_eq_some (fraction?_fractionText hnanos) ?_
  rfl

/-- **The text of a regular instant reads as that instant.** -/
theorem ofText?_text {t : Instant} (h : t.IsRegular) : ofText? t.text = some t := by
  have hdate := Date.exists_ofDayNumber (t.seconds / 86400)
  have hmonth : (Date.ofDayNumber (t.seconds / 86400)).month < 100 := by
    have hle := hdate.2.1
    omega
  have hday : (Date.ofDayNumber (t.seconds / 86400)).day < 100 := by
    have hle := hdate.2.2.2
    unfold daysInMonth at hle
    split at hle <;> (try split at hle) <;> omega
  have hnanos := t.nanos_mem
  unfold ofText? text chars
  rw [String.toList_ofList]
  simp only [List.append_assoc, List.cons_append]
  refine (ofChars?_fields _ hmonth hday ?_ ?_ ?_ ?_).trans (ofFields?_self h)
  · omega
  · omega
  · split <;> omega
  · split <;> omega

/-- a leap second within a minute, written as the second after it -/
example : ofText? (Instant.text ⟨100, 1500000000, by decide, by decide⟩) =
    some ⟨101, 500000000, by decide, by decide⟩ := by decide +kernel

/-- The instant of some fields is regular: a leap second is second `60` of its minute. -/
theorem isRegular_of_ofFields? {date : Date} {hour minute second nanos : Nat} {offset : Int}
    {t : Instant} (hnanos : nanos < 1000000000)
    (h : ofFields? date hour minute second nanos offset = some t) : t.IsRegular := by
  unfold ofFields? at h
  split at h
  · obtain ⟨hseconds, ht⟩ := fields_of_ofParts? h
    unfold IsRegular
    by_cases hleap : second = 60
    · rw [if_pos hleap] at hseconds
      right
      omega
    · rw [if_neg hleap] at ht
      left
      omega
  · cases h

/-- **What a text stands for is regular.** -/
theorem isRegular_of_ofText? {s : String} {t : Instant} (h : ofText? s = some t) :
    t.IsRegular := by
  obtain ⟨year, -, h⟩ := Option.bind_eq_some_iff.1 h
  obtain ⟨s₁, -, h⟩ := Option.bind_eq_some_iff.1 h
  obtain ⟨month, -, h⟩ := Option.bind_eq_some_iff.1 h
  obtain ⟨s₂, -, h⟩ := Option.bind_eq_some_iff.1 h
  obtain ⟨day, -, h⟩ := Option.bind_eq_some_iff.1 h
  obtain ⟨s₃, -, h⟩ := Option.bind_eq_some_iff.1 h
  obtain ⟨hour, -, h⟩ := Option.bind_eq_some_iff.1 h
  obtain ⟨s₄, -, h⟩ := Option.bind_eq_some_iff.1 h
  obtain ⟨minute, -, h⟩ := Option.bind_eq_some_iff.1 h
  obtain ⟨s₅, -, h⟩ := Option.bind_eq_some_iff.1 h
  obtain ⟨second, -, h⟩ := Option.bind_eq_some_iff.1 h
  obtain ⟨nanos, hfraction, h⟩ := Option.bind_eq_some_iff.1 h
  obtain ⟨offset, -, h⟩ := Option.bind_eq_some_iff.1 h
  obtain ⟨-, -, h⟩ := Option.bind_eq_some_iff.1 h
  exact isRegular_of_ofFields? (fraction?_lt hfraction) h

end Instant

end CourseCompletion
