import CourseCompletion.Toml.Text

/-!
# Strings between quotes are read back

`Toml.string?_string`: the reader of strings gives back every text that `Toml.string` writes, in
whichever of the four forms it is written, and leaves what follows it.

`Spells` says which texts between double quotes stand for a character; one is read on one line
(`basic?_spelled`) and over several (`multiBasic?_spelled`).  Between three quotes, fewer than three
of them stand in a row, except where the string ends (`multiBasicBody_begins_twice`).
-/

namespace CourseCompletion.Toml

/-! ## characters -/

/-- A text that stands for a character between double quotes: the character itself, or an escape. -/
inductive Spells : List Char → Char → Prop where
  | plain {c : Char} (h : isBasicChar c = true) : Spells [c] c
  | letter {c e : Char} (h : escape? e = some c) : Spells ['\\', e] c
  | code {c x₁ x₂ x₃ x₄ : Char} (h : codePoint? [x₁, x₂, x₃, x₄] = some c) :
      Spells ['\\', 'u', x₁, x₂, x₃, x₄] c

theorem codePoint?_hexChars {c : Char} (h : c.toNat < 65536) :
    codePoint? ((hexChars 4 c.toNat).map Char.toUpper) = some c := by
  have hread : hexNumber? ((hexChars 4 c.toNat).map Char.toUpper) = some c.toNat := by
    rw [hexNumber?_toUpper, hexNumber?_hexChars]
    exact congrArg some (Nat.mod_eq_of_lt h)
  have hvalid : c.toNat.isValidChar := c.valid
  unfold codePoint?
  rw [hread]
  show (if c.toNat.isValidChar then some (Char.ofNat c.toNat) else none) = some c
  rw [if_pos hvalid, Char.ofNat_toNat]

theorem spells_escaped {c : Char} (hc : c ≠ '"') : Spells (escaped c) c := by
  unfold escaped
  -- the five that have an escape of one letter
  iterate 5
    split
    · next h => obtain rfl := h; exact .letter rfl
  next hslash =>
  split
  · next htext =>
    refine .plain ?_
    unfold isBasicChar
    simp [htext, hc, hslash]
  · next htext =>
    have hlow : c.toNat < 65536 := by
      simp only [isTextChar, Bool.or_eq_true, decide_eq_true_eq, Bool.and_eq_true] at htext
      omega
    exact .code (codePoint?_hexChars hlow)

/-- A backslash before the letter of an escape does not end a line. -/
theorem endsLine_letter {c e : Char} (h : escape? e = some c) (r : List Char) :
    endsLine (e :: r) = false := by
  have hblank : ¬isBlankChar e = true := by
    intro hb
    simp only [isBlankChar, Bool.or_eq_true, decide_eq_true_eq] at hb
    rcases hb with rfl | rfl <;> cases h
  unfold endsLine
  rw [List.dropWhile_cons_of_neg hblank]
  split
  · next he => obtain rfl := (List.cons.inj he).1; cases h
  · next he => obtain rfl := (List.cons.inj he).1; cases h
  · rfl

section

variable {w : List Char} {c : Char} (h : Spells w c)
include h

theorem Spells.head_ne (r : List Char) {d : Char} (hd : isBasicChar d = false) (hslash : d ≠ '\\') :
    (w ++ r).head? ≠ some d := by
  cases h with
  | plain h =>
    rintro ⟨⟩
    rw [h] at hd
    cases hd
  | letter _ => exact fun h => hslash (Option.some.inj h).symm
  | code _ => exact fun h => hslash (Option.some.inj h).symm

/-- A spelled character is read between double quotes. -/
theorem basic?_spelled (r : List Char) : basic? (w ++ r) = push c (basic? r) := by
  cases h with
  | plain h =>
    have hquote : c ≠ '"' := by rintro rfl; cases h
    have hslash : c ≠ '\\' := by rintro rfl; cases h
    show basic? (c :: r) = _
    rw [basic?]
    · exact if_pos h
    · exact hquote
    · exact fun _ _ _ _ _ he => absurd he hslash
    · exact fun _ _ _ _ _ _ _ _ _ he => absurd he hslash
    · exact fun _ _ he => absurd he hslash
  | @letter _ e h =>
    show basic? ('\\' :: e :: r) = _
    rw [basic?]
    · rw [h]
      rfl
    · rintro _ _ _ _ _ rfl
      cases h
    · rintro _ _ _ _ _ _ _ _ _ rfl
      cases h
  | code h =>
    show (do push (← codePoint? _) (basic? r)) = _
    rw [h]
    rfl

/-- A spelled character is read between three double quotes. -/
theorem multiBasic?_spelled (r : List Char) :
    multiBasic? false (w ++ r) = push c (multiBasic? false r) := by
  cases h with
  | plain h =>
    have hquote : c ≠ '"' := by rintro rfl; cases h
    have hslash : c ≠ '\\' := by rintro rfl; cases h
    have hline : c ≠ '\n' := by rintro rfl; cases h
    have hreturn : c ≠ '\r' := by rintro rfl; cases h
    show multiBasic? false (c :: r) = _
    rw [multiBasic?]
    · rw [Bool.false_and, if_neg Bool.false_ne_true, if_pos h]
    · exact fun _ he => absurd he hquote
    · exact hquote
    · exact hline
    · exact fun _ he => absurd he hreturn
    · exact fun _ _ _ _ _ he => absurd he hslash
    · exact fun _ _ _ _ _ _ _ _ _ he => absurd he hslash
    · exact fun _ _ he => absurd he hslash
  | @letter _ e h =>
    have hends : endsLine (e :: r) = false := endsLine_letter h r
    show multiBasic? false ('\\' :: e :: r) = _
    rw [multiBasic?]
    · rw [hends, h]
      rfl
    · rintro _ _ _ _ _ rfl
      cases h
    · rintro _ _ _ _ _ _ _ _ _ rfl
      cases h
  | code h =>
    show (do push (← codePoint? _) (multiBasic? false r)) = _
    rw [h]
    rfl

end

/-! ## texts -/

/-- what may follow a string: no quote -/
def Closes (rest : List Char) : Prop := ∀ c ∈ rest.head?, c ≠ '"' ∧ c ≠ '\x27'

/-- A character is spelled between double quotes, also where it is a quote or a line end. -/
theorem exists_spelling (c : Char) (s : List Char) :
    ∃ w, basicBody (c :: s) = w ++ basicBody s ∧ Spells w c := by
  refine ⟨_, List.flatMap_cons, ?_⟩
  split
  · next h => obtain rfl := h; exact .letter rfl
  · next h =>
    split
    · next h => obtain rfl := h; exact .letter rfl
    · exact spells_escaped h

theorem head_basicBody (s : List Char) : (basicBody s).head? ≠ some '"' := by
  cases s with
  | nil => exact fun h => by cases h
  | cons c s =>
    obtain ⟨w, hw, hspells⟩ := exists_spelling c s
    rw [hw]
    exact hspells.head_ne _ rfl (by decide)

theorem basic?_basicBody (s rest : List Char) :
    basic? (basicBody s ++ '"' :: rest) = some (s, rest) := by
  induction s with
  | nil => rfl
  | cons c s ih =>
    obtain ⟨w, hw, hspells⟩ := exists_spelling c s
    rw [hw, List.append_assoc, basic?_spelled hspells, ih]
    rfl

theorem literal?_append {s : List Char} (h : ∀ c ∈ s, isLiteralChar c = true) (rest : List Char) :
    literal? (s ++ '\x27' :: rest) = some (s, rest) := by
  induction s with
  | nil => rfl
  | cons c s ih =>
    have hc : isLiteralChar c = true := h c List.mem_cons_self
    have hquote : c ≠ '\x27' := by rintro rfl; cases hc
    show literal? (c :: (s ++ '\x27' :: rest)) = _
    rw [literal?]
    · rw [if_pos hc, ih fun d hd => h d (List.mem_cons_of_mem c hd)]
      rfl
    · exact hquote

/-! ### over several lines -/

/-- up to two quotes before the three that close a string belong to it -/
theorem closing_append {q : Char} {rest : List Char} (h : rest.head? ≠ some q) :
    closing q rest = ([], rest) ∧ closing q (q :: rest) = ([q], rest) ∧
      closing q (q :: q :: rest) = ([q, q], rest) := by
  cases rest with
  | nil => exact ⟨rfl, by simp [closing], by simp [closing]⟩
  | cons c r =>
    have hc : c ≠ q := fun hc => h (congrArg some hc)
    refine ⟨?_, by simp [closing, hc], by simp [closing]⟩
    cases r <;> simp [closing, hc]

/-- what a text begins with when it begins with a character twice once more is behind it -/
theorem begins_twice {q : Char} {s t r : List Char} (h : s ++ t = q :: q :: r) :
    s = [] ∨ s = [q] ∨ ∃ s', s = q :: q :: s' := by
  match s, h with
  | [], _ => exact .inl rfl
  | [a], h =>
    obtain rfl := (List.cons.inj h).1
    exact .inr (.inl rfl)
  | a :: b :: s, h =>
    obtain ⟨rfl, h⟩ := List.cons.inj h
    obtain rfl := (List.cons.inj h).1
    exact .inr (.inr ⟨s, rfl⟩)

theorem multiLiteral?_append {s : List Char} (h : ∀ c ∈ s, isTextChar c = true ∨ c = '\n')
    (htriple : hasTriple '\x27' s = false) {rest : List Char} (hr : rest.head? ≠ some '\x27') :
    multiLiteral? (s ++ '\x27' :: '\x27' :: '\x27' :: rest) = some (s, rest) := by
  obtain ⟨hnone, hone, htwo⟩ := closing_append hr
  induction s with
  | nil => exact congrArg some hnone
  | cons c s ih =>
    have hs : ∀ d ∈ s, isTextChar d = true ∨ d = '\n' := fun d hd => h d (List.mem_cons_of_mem c hd)
    have htail : hasTriple '\x27' s = false := by
      match s, htriple with
      | [], _ => rfl
      | [_], _ => rfl
      | _ :: _ :: _, htriple => exact (Bool.or_eq_false_iff.1 htriple).2
    have ih := ih hs htail
    by_cases hquote : c = '\x27'
    · obtain rfl := hquote
      by_cases hlast : s = [] ∨ s = ['\x27']
      · rcases hlast with rfl | rfl
        · exact congrArg some hone
        · exact congrArg some htwo
      · -- fewer than three quotes stand in a row here
        show multiLiteral? ('\x27' :: (s ++ _)) = _
        rw [multiLiteral?, ih]
        · rfl
        · intro r hr
          rcases begins_twice hr with hnil | hsingle | ⟨s', rfl⟩
          · exact hlast (.inl hnil)
          · exact hlast (.inr hsingle)
          · cases htriple
    · by_cases hline : c = '\n'
      · obtain rfl := hline
        show push '\n' (multiLiteral? (s ++ _)) = _
        rw [ih]
        rfl
      · have htext : isTextChar c = true := (h c List.mem_cons_self).resolve_right hline
        have hreturn : c ≠ '\r' := by rintro rfl; cases htext
        have hc : isLiteralChar c = true := by
          unfold isLiteralChar
          simp [htext, hquote]
        show multiLiteral? (c :: (s ++ _)) = _
        rw [multiLiteral?]
        · rw [if_pos hc, ih]
          rfl
        · exact fun _ he => absurd he hquote
        · exact hquote
        · exact hline
        · exact fun _ he => absurd he hreturn

/-- A quote begins what is written only where a quote begins the text, and fewer than two stand
before it. -/
theorem head_multiBasicBody {run : Nat} {s : List Char} (hs : s ≠ [])
    (h : run = 2 ∨ s.head? ≠ some '"') (r : List Char) :
    (multiBasicBody run s ++ r).head? ≠ some '"' := by
  cases s with
  | nil => exact absurd rfl hs
  | cons c s =>
    unfold multiBasicBody
    split
    · next hquote =>
      rw [if_pos (h.resolve_right fun hne => hne (congrArg some hquote))]
      exact fun h => by cases h
    · next hquote =>
      split
      · exact fun h => by cases h
      · rw [List.append_assoc]
        exact (spells_escaped hquote).head_ne _ rfl (by decide)

/-- Two quotes begin what is written behind one only at its end. -/
theorem multiBasicBody_begins_twice {run : Nat} (hrun : run ≤ 1) {s t r : List Char}
    (h : multiBasicBody (run + 1) s ++ t = '"' :: '"' :: r) : s = [] ∨ (run = 0 ∧ s = ['"']) := by
  cases s with
  | nil => exact .inl rfl
  | cons c s =>
    have hfirst : ¬(run + 1 = 2 ∨ (c :: s).head? ≠ some '"') := fun hno =>
      head_multiBasicBody (List.cons_ne_nil c s) hno t (by rw [h]; rfl)
    obtain ⟨htwice, hquote⟩ := not_or.1 hfirst
    obtain rfl : c = '"' := Option.some.inj (Decidable.not_not.1 hquote)
    obtain rfl : run = 0 := by omega
    have hrest : multiBasicBody 2 s ++ t = '"' :: r := (List.cons.inj h).2
    by_cases hs : s = []
    · exact .inr ⟨rfl, congrArg ('"' :: ·) hs⟩
    · exact absurd (congrArg List.head? hrest) (head_multiBasicBody hs (.inl rfl) t)

theorem multiBasic?_multiBasicBody {rest : List Char} (hr : rest.head? ≠ some '"') (s : List Char)
    {run : Nat} (hrun : run ≤ 2) :
    multiBasic? false (multiBasicBody run s ++ '"' :: '"' :: '"' :: rest) = some (s, rest) := by
  obtain ⟨hnone, hone, htwo⟩ := closing_append hr
  induction s generalizing run with
  | nil => exact congrArg some hnone
  | cons c s ih =>
    unfold multiBasicBody
    by_cases hquote : c = '"'
    · obtain rfl := hquote
      rw [if_pos rfl]
      by_cases htwice : run = 2
      · rw [if_pos htwice]
        show multiBasic? false (['\\', '"'] ++ (multiBasicBody 0 s ++ _)) = _
        rw [multiBasic?_spelled (.letter rfl), ih (Nat.zero_le 2)]
        rfl
      · rw [if_neg htwice]
        by_cases hlast : s = [] ∨ (run = 0 ∧ s = ['"'])
        · rcases hlast with rfl | ⟨rfl, rfl⟩
          · exact congrArg some hone
          · exact congrArg some htwo
        · -- fewer than three quotes stand in a row here
          show multiBasic? false ('"' :: (multiBasicBody (run + 1) s ++ _)) = _
          rw [multiBasic?, ih (by omega)]
          · rfl
          · intro r hr
            exact hlast (multiBasicBody_begins_twice (by omega) hr)
    · rw [if_neg hquote]
      by_cases hline : c = '\n'
      · obtain rfl := hline
        show push '\n' (multiBasic? false (multiBasicBody 0 s ++ _)) = _
        rw [ih (Nat.zero_le 2)]
        rfl
      · rw [if_neg hline, List.append_assoc, multiBasic?_spelled (spells_escaped hquote),
          ih (Nat.zero_le 2)]
        rfl

/-! ## strings -/

section

variable {s : List Char}

theorem of_hasControl (h : hasControl s = false) : ∀ c ∈ s, isTextChar c = true ∨ c = '\n' := by
  intro c hc
  have hany := (List.any_eq_false.1 h) c hc
  simp only [Bool.and_eq_true, Bool.not_eq_true', decide_eq_true_eq, not_and, ne_eq] at hany
  cases htext : isTextChar c with
  | true => exact .inl rfl
  | false => exact .inr (Decidable.not_not.1 (hany htext))

theorem of_quotesFor_literal (h : quotesFor s = .literal) : ∀ c ∈ s, isLiteralChar c = true := by
  unfold quotesFor at h
  dsimp only at h
  split at h
  · cases h
  split at h
  · next hplain =>
    simp only [Bool.and_eq_true, Bool.not_eq_true', List.contains_eq_mem, decide_eq_false_iff_not]
      at hplain
    obtain ⟨⟨hcontrol, hquote⟩, hline⟩ := hplain
    intro c hc
    have htext : isTextChar c = true :=
      (of_hasControl hcontrol c hc).resolve_right fun he => hline (he ▸ hc)
    have hne : c ≠ '\x27' := fun he => hquote (he ▸ hc)
    unfold isLiteralChar
    simp [htext, hne]
  repeat (split at h; cases h)
  cases h

theorem of_quotesFor_multiLiteral (h : quotesFor s = .multiLiteral) :
    hasControl s = false ∧ hasTriple '\x27' s = false := by
  unfold quotesFor at h
  dsimp only at h
  iterate 3
    split at h
    · cases h
  split at h
  · next hplain =>
    simpa only [Bool.and_eq_true, Bool.not_eq_true'] using hplain
  · split at h <;> cases h

/-- Nothing is dropped from a text that begins with no line end. -/
theorem dropLineEnd_of_head (hline : s.head? ≠ some '\n') (hreturn : s.head? ≠ some '\r') :
    dropLineEnd s = s := by
  unfold dropLineEnd
  split
  · exact absurd rfl hline
  · exact absurd rfl hreturn
  · rfl

/-- The line end behind the opening quotes is dropped, and no other. -/
theorem dropLineEnd_opening {body : List Char}
    (h : '\n' ∉ s → body.head? ≠ some '\n' ∧ body.head? ≠ some '\r') :
    dropLineEnd (opening s ++ body) = body := by
  unfold opening
  split
  · rfl
  · next hline =>
    have hhead := h fun hmem => hline (List.contains_iff_mem.2 hmem)
    exact dropLineEnd_of_head hhead.1 hhead.2

end

/-! ### the four forms -/

section

variable {s rest : List Char}

theorem string?_basic (hr : rest.head? ≠ some '"') :
    string? ('"' :: (basicBody s ++ '"' :: rest)) = some (s, rest) := by
  rw [string?, basic?_basicBody]
  intro r h
  rcases begins_twice h with hnil | hone | ⟨t, htwo⟩
  · rw [hnil] at h
    exact hr (congrArg List.head? (List.cons.inj h).2)
  · exact head_basicBody s (congrArg List.head? hone)
  · exact head_basicBody s (congrArg List.head? htwo)

theorem string?_literal (hs : ∀ c ∈ s, isLiteralChar c = true) (hr : rest.head? ≠ some '\x27') :
    string? ('\x27' :: (s ++ '\x27' :: rest)) = some (s, rest) := by
  rw [string?, literal?_append hs]
  intro r h
  rcases begins_twice h with rfl | rfl | ⟨t, rfl⟩
  · exact hr (congrArg List.head? (List.cons.inj h).2)
  · cases hs '\x27' List.mem_cons_self
  · cases hs '\x27' List.mem_cons_self

theorem string?_multiBasic (s : List Char) (hr : rest.head? ≠ some '"') :
    string? ('"' :: '"' :: '"' ::
        (opening s ++ (multiBasicBody 0 s ++ '"' :: '"' :: '"' :: rest))) =
      some (s, rest) := by
  rw [string?, dropLineEnd_opening, multiBasic?_multiBasicBody hr s (Nat.zero_le 2)]
  intro hline
  cases s with
  | nil => exact ⟨fun h => (by cases h), fun h => (by cases h)⟩
  | cons c s =>
    unfold multiBasicBody
    split
    · exact ⟨fun h => (by cases h), fun h => (by cases h)⟩
    · next hquote =>
      have hne : c ≠ '\n' := fun he => hline (he ▸ List.mem_cons_self)
      rw [if_neg hne, List.append_assoc]
      have hspells := spells_escaped hquote
      exact ⟨hspells.head_ne _ rfl (by decide), hspells.head_ne _ rfl (by decide)⟩

theorem string?_multiLiteral (hs : hasControl s = false) (htriple : hasTriple '\x27' s = false)
    (hr : rest.head? ≠ some '\x27') :
    string? ('\x27' :: '\x27' :: '\x27' ::
        (opening s ++ (s ++ '\x27' :: '\x27' :: '\x27' :: rest))) =
      some (s, rest) := by
  have htext := of_hasControl hs
  rw [string?, dropLineEnd_opening, multiLiteral?_append htext htriple hr]
  intro hline
  cases s with
  | nil => exact ⟨fun h => (by cases h), fun h => (by cases h)⟩
  | cons c s =>
    have hc := (htext c List.mem_cons_self).resolve_right fun he => hline (he ▸ List.mem_cons_self)
    refine ⟨fun h => hline ?_, fun h => ?_⟩
    · obtain rfl := Option.some.inj h
      exact List.mem_cons_self
    · obtain rfl := Option.some.inj h
      cases hc

end

/-- **A string reads as the text that was written**, whatever follows it but a quote. -/
theorem string?_string (s : List Char) {rest : List Char} (hr : Closes rest) :
    string? (string s ++ rest) = some (s, rest) := by
  have hdouble : rest.head? ≠ some '"' := fun h => (hr '"' h).1 rfl
  have hsingle : rest.head? ≠ some '\x27' := fun h => (hr '\x27' h).2 rfl
  unfold string
  split
  · simpa using string?_basic hdouble
  · next hquotes => simpa using string?_literal (of_quotesFor_literal hquotes) hsingle
  · simpa using string?_multiBasic s hdouble
  · next hquotes =>
    obtain ⟨hcontrol, htriple⟩ := of_quotesFor_multiLiteral hquotes
    simpa using string?_multiLiteral hcontrol htriple hsingle

end CourseCompletion.Toml
