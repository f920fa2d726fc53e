import CourseCompletion.Json.Reader
import CourseCompletion.Json.Printer
import CourseCompletion.Proofs.Instant

/-!
# Numbers and strings read back

The text of an integer of 64 bits reads as that integer, whatever follows that a number does not go
on into (`Json.number?_decimalInt`).  A text in quotes reads as pieces that join to that text
(`Json.exists_pieces`).
-/

namespace CourseCompletion

namespace Json

/-! ## numbers -/

/-- the characters that may stand behind a value -/
def enders : List Char := [',', ']', '\x7d', ' ', '\t', '\n', '\r']

/-- a text that no number goes on into -/
def Ends (rest : List Char) : Prop := ∀ c ∈ rest.head?, c ∈ enders

theorem ends_nil : Ends [] := by
  intro c hc
  cases hc

theorem ends_cons {c : Char} (h : c ∈ enders) (rest : List Char) : Ends (c :: rest) := by
  intro d hd
  obtain rfl := Option.some.inj hd
  exact h

/-- what is checked of the characters that may stand behind a value -/
theorem Ends.head {rest : List Char} (hr : Ends rest) {p : Char → Prop} [DecidablePred p]
    (h : enders.all (fun c => p c) = true) : ∀ c ∈ rest.head?, p c :=
  fun c hc => of_decide_eq_true (List.all_eq_true.1 h c (hr c hc))

/-- A number begins with a digit, which is a zero only where the number is. -/
theorem decimal_eq_cons (n : Nat) :
    ∃ c ds, decimal n = c :: ds ∧ c.isDigit = true ∧ (n ≠ 0 → c ≠ '0') := by
  induction n using Nat.strongRecOn with
  | _ n ih =>
    by_cases hlt : n < 10
    · have hone : ∀ n : Fin 10, (n.val.digitChar).isDigit = true ∧
          (n.val ≠ 0 → n.val.digitChar ≠ '0') := by decide
      exact ⟨n.digitChar, [], Nat.toDigits_of_lt_base hlt, hone ⟨n, hlt⟩⟩
    · obtain ⟨c, ds, heq, hdigit, hc⟩ := ih (n / 10) (by omega)
      refine ⟨c, ds ++ [(n % 10).digitChar], ?_, hdigit, fun _ => hc (by omega)⟩
      unfold decimal at heq ⊢
      rw [Nat.toDigits_of_base_le (by decide) (by omega), heq]
      rfl

theorem whole?_decimal (n : Nat) {rest : List Char} (hr : Ends rest) :
    whole? (decimal n ++ rest) = some (decimal n, rest) := by
  have hrow : digitsOf (decimal n ++ rest) = (decimal n, rest) :=
    digitsOf_of_digits (fun _ => isDigit_of_mem_decimal) (hr.head rfl)
  by_cases hn : n = 0
  · obtain rfl := hn
    rfl
  · obtain ⟨c, ds, heq, -, hc⟩ := decimal_eq_cons n
    unfold whole?
    split
    · next hzero =>
      rw [heq] at hzero
      exact absurd (List.cons.inj hzero).1 (hc hn)
    · rw [hrow, if_neg (decimal_ne_nil n)]

theorem places?_of_ends {rest : List Char} (hr : Ends rest) : places? rest = some ([], rest) := by
  unfold places?
  split
  · exact absurd rfl (hr.head (p := (· ≠ '.')) rfl '.' rfl)
  · rfl

theorem power?_of_ends {rest : List Char} (hr : Ends rest) : power? rest = some (none, rest) := by
  cases rest with
  | nil => rfl
  | cons c r =>
    have hc : ¬(c = 'e' ∨ c = 'E') :=
      hr.head (p := fun c => ¬(c = 'e' ∨ c = 'E')) rfl c rfl
    exact if_neg hc

/-- Digits that have room together are all read. -/
theorem withDigits_of_fits (n : Nat) (ds : List Char)
    (h : fitsUnsigned64 (Nat.ofDigitChars 10 ds n)) :
    withDigits n ds = (Nat.ofDigitChars 10 ds n, []) := by
  induction ds generalizing n with
  | nil => rfl
  | cons d ds ih =>
    rw [Nat.ofDigitChars_cons] at h ⊢
    have hd : digitsValue [d] = d.toNat - '0'.toNat := by
      show 10 * 0 + _ = _
      omega
    rw [← hd] at h ⊢
    have hle : 10 * n + digitsValue [d] ≤ Nat.ofDigitChars 10 ds (10 * n + digitsValue [d]) := by
      rw [Nat.ofDigitChars_eq_ofDigitChars_zero]
      exact Nat.le_add_right_of_le (Nat.le_mul_of_pos_left _ (Nat.pow_pos (by decide)))
    have hmost := fitsUnsigned64_iff.1 h
    have hnext : fitsUnsigned64 (10 * n + digitsValue [d] : Nat) :=
      fitsUnsigned64_iff.2 (by omega)
    unfold withDigits
    simp only [hnext, if_true]
    exact ih _ h

/-- A number of 64 bits is not beyond every float. -/
theorem isBeyond_decimal {n : Nat} (h : fitsUnsigned64 n) : isBeyond (decimal n) [] 0 = false := by
  have hread : withDigits 0 (decimal n) = (n, []) := by
    have hvalue : Nat.ofDigitChars 10 (decimal n) 0 = n := digitsValue_decimal n
    have hall := withDigits_of_fits 0 (decimal n) (by rw [hvalue]; exact h)
    rwa [hvalue] at hall
  unfold isBeyond leading
  rw [hread]
  exact Bool.and_false _

theorem ofNumber_decimal {n : Nat} (h : fitsUnsigned64 n) {negative : Bool}
    (hzero : n = 0 → negative = false) :
    ofNumber negative (decimal n) [] none = .integer (if negative then -(n : Int) else n) := by
  have hsign : ¬(negative = true ∧ decimal n = ['0']) := by
    rintro ⟨hneg, hdigits⟩
    have hvalue := digitsValue_decimal n
    rw [hdigits] at hvalue
    rw [hzero hvalue.symm] at hneg
    cases hneg
  unfold ofNumber
  rw [show (none : Option Power).elim 0 Power.value = 0 from rfl, isBeyond_decimal h,
    if_neg Bool.false_ne_true, if_pos ⟨rfl, rfl, hsign⟩, digitsValue_decimal]

/-- The text of an integer of 64 bits reads as that integer. -/
theorem number?_decimalInt {n : Int} (h : fitsUnsigned64 n.natAbs) {rest : List Char}
    (hr : Ends rest) : number? (decimalInt n ++ rest) = some (.integer n, rest) := by
  cases n with
  | ofNat n =>
    obtain ⟨c, ds, heq, hc, -⟩ := decimal_eq_cons n
    show number? (decimal n ++ rest) = _
    unfold number?
    split
    next negative r hs =>
    -- a digit is no sign
    have hsign : negative = false ∧ r = decimal n ++ rest := by
      rw [heq] at hs ⊢
      split at hs
      · next hminus => obtain rfl := (List.cons.inj hminus).1; cases hc
      · exact ⟨(Prod.mk.inj hs).1.symm, (Prod.mk.inj hs).2.symm⟩
    rw [hsign.1, hsign.2]
    refine bind_of_eq_some (whole?_decimal n hr) ?_
    refine bind_of_eq_some (places?_of_ends hr) ?_
    refine bind_of_eq_some (power?_of_ends hr) ?_
    exact congrArg some (congrArg (·, rest) (ofNumber_decimal h fun _ => rfl))
  | negSucc n =>
    show number? ('-' :: (decimal (n + 1) ++ rest)) = _
    refine bind_of_eq_some (whole?_decimal (n + 1) hr) ?_
    refine bind_of_eq_some (places?_of_ends hr) ?_
    refine bind_of_eq_some (power?_of_ends hr) ?_
    exact congrArg some (congrArg (·, rest) (ofNumber_decimal h fun hz => by omega))

/-! ## strings -/

/-- a piece that stands for a character at the start of a text -/
def Piece.Opens (p : Piece) (c : Char) (s : List Char) : Prop :=
  (∀ rest, pieces? (s ++ rest) = (pieces? rest).bind fun (ps, r) => some (p :: ps, r)) ∧
    ∀ ps, joined (p :: ps) = (joined ps).map (c :: ·)

theorem opens_char {c : Char} {s : List Char}
    (h : ∀ rest, pieces? (s ++ rest) = (pieces? rest).bind fun (ps, r) => some (.char c :: ps, r)) :
    (Piece.char c).Opens c s :=
  ⟨h, fun _ => rfl⟩

/-- Every character is written as one piece that stands for it. -/
theorem exists_piece (c : Char) : ∃ p : Piece, p.Opens c (escaped c) := by
  unfold escaped
  -- the seven that have an escape of one letter
  iterate 7
    split
    · next h => obtain rfl := h; exact ⟨_, opens_char fun _ => rfl⟩
  split
  · next hlow =>
    -- a control character is written as the unit of its number
    have hread := hexNumber?_hexChars 4 c.toNat
    rw [Nat.mod_eq_of_lt (show c.toNat < Nat.pow 16 4 by have : Nat.pow 16 4 = 65536 := rfl; omega)]
      at hread
    refine ⟨.unit c.toNat, fun rest => bind_of_eq_some hread rfl, fun ps => ?_⟩
    conv_lhs => unfold joined
    rw [if_neg (by omega), if_neg (by omega), Char.ofNat_toNat]
  · next hquote hslash _ _ _ _ _ hlow =>
    refine ⟨.char c, opens_char fun rest => ?_⟩
    show pieces? (c :: rest) = _
    rw [pieces?]
    · rw [if_neg (by rintro (h | h); exacts [hlow h, hslash h])]
      rfl
    · exact hquote
    · exact fun _ _ _ _ _ h => absurd h hslash
    · exact fun _ _ h => absurd h hslash

/-- The pieces of a written text stand for that text. -/
theorem exists_pieces (cs rest : List Char) :
    ∃ ps, pieces? (cs.flatMap escaped ++ '"' :: rest) = some (ps, rest) ∧ joined ps = some cs := by
  induction cs with
  | nil => exact ⟨[], rfl, rfl⟩
  | cons c cs ih =>
    obtain ⟨ps, hread, hjoin⟩ := ih
    obtain ⟨p, hpiece, hopens⟩ := exists_piece c
    refine ⟨p :: ps, ?_, ?_⟩
    · rw [List.flatMap_cons, List.append_assoc, hpiece, hread]
      rfl
    · rw [hopens, hjoin]
      rfl

end Json

end CourseCompletion
