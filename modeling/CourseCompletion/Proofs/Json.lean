import CourseCompletion.Proofs.Token

/-!
# JSON text read back

`Json.Fits` says that a value can be written and read back: its integers have room in 64 bits, it is
not nested too deeply, and no part of it is a fraction or unreadable.

The text of such a value reads as that value, over several lines (`Json.ofText?_pretty`) and on one
(`Json.ofText?_compact`).  Both are layouts, which differ in white space alone (`Json.Layout`).  The
readers of nested values go through a text as its writer did, in any layout, and use up two for
every character at most (`Json.value?_laid`).
-/

namespace CourseCompletion

namespace Json

/-! ## values -/

mutual

/-- a value that can be written at a level and read back -/
def Fits (level : Nat) : Json → Prop
  | .null => True
  | .bool _ => True
  | .integer n => fitsUnsigned64 n.natAbs = true
  | .string _ => True
  | .array items => level < 127 ∧ ItemsFit (level + 1) items
  | .object members => level < 127 ∧ MembersFit (level + 1) members
  | .fraction _ => False
  | .unreadable => False

def ItemsFit (level : Nat) : List Json → Prop
  | [] => True
  | item :: items => Fits level item ∧ ItemsFit level items

def MembersFit (level : Nat) : List (String × Json) → Prop
  | [] => True
  | (_, value) :: members => Fits level value ∧ MembersFit level members

end

theorem isSpace_false {c : Char} (h : c = '-' ∨ c.isDigit = true) :
    isSpace c = false ∧ c ≠ ']' := by
  rcases h with rfl | h
  · decide
  · have hne : ∀ d : Char, d.isDigit = false → c ≠ d := by
      rintro d hd rfl
      rw [hd] at h
      cases h
    simp [isSpace, hne _ (show ' '.isDigit = false by decide), hne '\t' (by decide),
      hne '\n' (by decide), hne '\r' (by decide), hne ']' (by decide)]

theorem decimalInt_eq_cons (n : Int) :
    ∃ c cs, decimalInt n = c :: cs ∧ (c = '-' ∨ c.isDigit = true) := by
  cases n with
  | ofNat n =>
    obtain ⟨c, ds, heq, hc, -⟩ := decimal_eq_cons n
    exact ⟨c, ds, heq, .inr hc⟩
  | negSucc n => exact ⟨'-', decimal (n + 1), rfl, .inl rfl⟩

/-! ## layouts -/

/-- How a value is set out: the white space in front of every item and every closing bracket, and
the white space between a key and its value. -/
structure Layout where
  gap : Nat → List Char
  pause : List Char
  isSpace_gap : ∀ level, ∀ c ∈ gap level, isSpace c = true
  isSpace_pause : ∀ c ∈ pause, isSpace c = true

namespace Layout

/-- all on one line, with no white space at all -/
def oneLine : Layout := ⟨fun _ => [], [], by simp, by simp⟩

/-- a line for every item -/
def lines : Layout where
  gap := newline
  pause := [' ']
  isSpace_gap level c hc := by
    rcases List.mem_cons.1 hc with rfl | hc
    · decide
    · rw [(List.mem_replicate.1 hc).2]
      decide
  isSpace_pause := List.forall_mem_singleton.2 rfl

end Layout

mutual

/-- a value set out at a level -/
def laid (l : Layout) (level : Nat) : Json → List Char
  | .array [] => ['[', ']']
  | .array (item :: items) =>
    '[' :: laidItems l (level + 1) (item :: items) ++ l.gap level ++ [']']
  | .object [] => ['\x7b', '\x7d']
  | .object (member :: members) =>
    '\x7b' :: laidMembers l (level + 1) (member :: members) ++ l.gap level ++ ['\x7d']
  | value => compactChars value

def laidItems (l : Layout) (level : Nat) : List Json → List Char
  | [] => []
  | [item] => l.gap level ++ laid l level item
  | item :: items => l.gap level ++ laid l level item ++ ',' :: laidItems l level items

def laidMembers (l : Layout) (level : Nat) : List (String × Json) → List Char
  | [] => []
  | [(key, value)] => l.gap level ++ quoted key.toList ++ ':' :: (l.pause ++ laid l level value)
  | (key, value) :: members =>
    l.gap level ++ quoted key.toList ++ ':' :: (l.pause ++ laid l level value) ++
      ',' :: laidMembers l level members

end

/-- A value set out begins with no white space, and not as a list ends. -/
theorem laid_eq_cons (l : Layout) {level : Nat} {j : Json} (h : Fits level j) :
    ∃ c cs, laid l level j = c :: cs ∧ isSpace c = false ∧ c ≠ ']' := by
  cases j with
  | null => exact ⟨'n', ['u', 'l', 'l'], rfl, by decide⟩
  | bool b =>
    cases b with
    | true => exact ⟨'t', ['r', 'u', 'e'], rfl, by decide⟩
    | false => exact ⟨'f', ['a', 'l', 's', 'e'], rfl, by decide⟩
  | integer n =>
    obtain ⟨c, cs, heq, hc⟩ := decimalInt_eq_cons n
    exact ⟨c, cs, heq, isSpace_false hc⟩
  | string s => exact ⟨'"', _, rfl, by decide⟩
  | array items =>
    cases items with
    | nil => exact ⟨'[', [']'], rfl, by decide⟩
    | cons item items => exact ⟨'[', _, rfl, by decide⟩
  | object members =>
    cases members with
    | nil => exact ⟨'\x7b', ['\x7d'], rfl, by decide⟩
    | cons member members => exact ⟨'\x7b', _, rfl, by decide⟩
  | fraction written => exact h.elim
  | unreadable => exact h.elim

/-! ### white space -/

theorem skipSpace_append {gap : List Char} (h : ∀ c ∈ gap, isSpace c = true) (s : List Char) :
    skipSpace (gap ++ s) = skipSpace s := List.dropWhile_append_of_pos h

theorem skipSpace_cons {c : Char} (hc : isSpace c = false) (s : List Char) :
    skipSpace (c :: s) = c :: s := by
  unfold skipSpace
  rw [List.dropWhile_cons, hc]
  rfl

theorem skipSpace_idem (s : List Char) : skipSpace (skipSpace s) = skipSpace s := by
  induction s with
  | nil => rfl
  | cons c s ih =>
    by_cases hc : isSpace c = true
    · have hskip : skipSpace (c :: s) = skipSpace s := List.dropWhile_cons_of_pos hc
      rw [hskip, ih]
    · rw [skipSpace_cons (by simpa using hc), skipSpace_cons (by simpa using hc)]

theorem skipSpace_laid (l : Layout) {level : Nat} {j : Json} (h : Fits level j) (s : List Char) :
    skipSpace (laid l level j ++ s) = laid l level j ++ s := by
  obtain ⟨c, cs, heq, hc, -⟩ := laid_eq_cons l h
  rw [heq]
  exact skipSpace_cons hc _

/-- A bracket ends what stands before it, with or without white space between. -/
theorem ends_gap (l : Layout) (level : Nat) {c : Char} (hc : c ∈ enders) (rest : List Char) :
    Ends (l.gap level ++ c :: rest) := by
  have hspace : ∀ d, isSpace d = true → d ∈ enders := by
    intro d hd
    simp only [isSpace, Bool.decide_or, Bool.or_eq_true, decide_eq_true_eq] at hd
    rcases hd with rfl | rfl | rfl | rfl <;> decide
  have hgap := l.isSpace_gap level
  revert hgap
  cases l.gap level with
  | nil => exact fun _ => ends_cons hc rest
  | cons d ds => exact fun hgap => ends_cons (hspace d (hgap d List.mem_cons_self)) _

theorem value?_number {n level : Nat} {s r : List Char} {c : Char} (hs : skipSpace s = c :: r)
    (hc : c = '-' ∨ c.isDigit = true) : value? (n + 1) level s = number? (c :: r) := by
  have hne : ∀ d : Char, d ≠ '-' → d.isDigit = false → c ≠ d := by
    rintro d hd hdigit rfl
    rcases hc with h | h
    · exact hd h
    · rw [hdigit] at h
      cases h
  unfold value?
  rw [hs]
  split
  · next h => cases h
  · next h => exact absurd (List.cons.inj h).1 (hne '"' (by decide) (by decide))
  · next h => exact absurd (List.cons.inj h).1 (hne '[' (by decide) (by decide))
  · next h => exact absurd (List.cons.inj h).1 (hne '\x7b' (by decide) (by decide))
  · next h => exact absurd (List.cons.inj h).1 (hne 'n' (by decide) (by decide))
  · next h => exact absurd (List.cons.inj h).1 (hne 't' (by decide) (by decide))
  · next h => exact absurd (List.cons.inj h).1 (hne 'f' (by decide) (by decide))
  · rfl

theorem ofMembers_read (members : List (String × Json)) :
    ofMembers (members.map fun m => (some m.1.toList, m.2)) = .object members := by
  have hall : ∀ ms : List (String × Json),
      (ms.map fun m => (some m.1.toList, m.2)).mapM
        (fun m : Option (List Char) × Json => m.1.map fun key => (String.ofList key, m.2)) =
        some ms := by
    intro ms
    induction ms with
    | nil => rfl
    | cons m ms ih =>
      rw [List.map_cons, List.mapM_cons, ih]
      exact congrArg (fun key => some ((key, m.2) :: ms)) String.ofList_toList
  unfold ofMembers
  rw [hall]

theorem within_of_lt {level : Nat} (h : level < 127) (j : Json) : within level j = j := if_pos h

/-! ### what follows the start of a list or an object -/

section

variable (l : Layout) (level : Nat)

/-- the text of a list after its opening bracket -/
def itemsText (items : List Json) (rest : List Char) : List Char :=
  laidItems l (level + 1) items ++ (l.gap level ++ ']' :: rest)

theorem laid_array (item : Json) (items : List Json) (rest : List Char) :
    laid l level (.array (item :: items)) ++ rest =
      '[' :: itemsText l level (item :: items) rest := by
  show '[' :: (laidItems l (level + 1) (item :: items) ++ l.gap level ++ [']'] ++ rest) = _
  rw [List.append_assoc, List.append_assoc]
  rfl

theorem itemsText_single (item : Json) (rest : List Char) :
    itemsText l level [item] rest =
      l.gap (level + 1) ++ (laid l (level + 1) item ++ (l.gap level ++ ']' :: rest)) := by
  show l.gap (level + 1) ++ laid l (level + 1) item ++ _ = _
  rw [List.append_assoc]

theorem itemsText_cons (item next : Json) (items : List Json) (rest : List Char) :
    itemsText l level (item :: next :: items) rest =
      l.gap (level + 1) ++ (laid l (level + 1) item ++
        ',' :: itemsText l level (next :: items) rest) := by
  show l.gap (level + 1) ++ laid l (level + 1) item ++
    ',' :: laidItems l (level + 1) (next :: items) ++ _ = _
  rw [List.append_assoc, List.append_assoc]
  rfl

/-- A list goes on with its first item. -/
theorem skipSpace_itemsText {item : Json} (h : Fits (level + 1) item) (items : List Json)
    (rest : List Char) :
    ∃ more, skipSpace (itemsText l level (item :: items) rest) =
      laid l (level + 1) item ++ more := by
  cases items with
  | nil =>
    rw [itemsText_single, skipSpace_append (l.isSpace_gap _), skipSpace_laid l h]
    exact ⟨_, rfl⟩
  | cons next items =>
    rw [itemsText_cons, skipSpace_append (l.isSpace_gap _), skipSpace_laid l h]
    exact ⟨_, rfl⟩

/-- the text of an object after its opening brace -/
def membersText (members : List (String × Json)) (rest : List Char) : List Char :=
  laidMembers l (level + 1) members ++ (l.gap level ++ '\x7d' :: rest)

theorem laid_object (member : String × Json) (members : List (String × Json))
    (rest : List Char) :
    laid l level (.object (member :: members)) ++ rest =
      '\x7b' :: membersText l level (member :: members) rest := by
  show '\x7b' :: (laidMembers l (level + 1) (member :: members) ++ l.gap level ++ ['\x7d'] ++
    rest) = _
  rw [List.append_assoc, List.append_assoc]
  rfl

theorem membersText_single (key : String) (value : Json) (rest : List Char) :
    membersText l level [(key, value)] rest =
      l.gap (level + 1) ++ '"' :: (key.toList.flatMap escaped ++ '"' :: ':' :: (l.pause ++
        (laid l (level + 1) value ++ (l.gap level ++ '\x7d' :: rest)))) := by
  show l.gap (level + 1) ++ quoted key.toList ++ ':' :: (l.pause ++ laid l (level + 1) value) ++ _
    = _
  simp only [quoted, List.append_assoc, List.cons_append, List.nil_append]

theorem membersText_cons (key : String) (value : Json) (next : String × Json)
    (members : List (String × Json)) (rest : List Char) :
    membersText l level ((key, value) :: next :: members) rest =
      l.gap (level + 1) ++ '"' :: (key.toList.flatMap escaped ++ '"' :: ':' :: (l.pause ++
        (laid l (level + 1) value ++ ',' :: membersText l level (next :: members) rest))) := by
  show l.gap (level + 1) ++ quoted key.toList ++ ':' :: (l.pause ++ laid l (level + 1) value) ++
    ',' :: laidMembers l (level + 1) (next :: members) ++ _ = _
  simp only [quoted, membersText, List.append_assoc, List.cons_append, List.nil_append]

/-- An object goes on with its first key. -/
theorem skipSpace_membersText (member : String × Json) (members : List (String × Json))
    (rest : List Char) :
    ∃ more, skipSpace (membersText l level (member :: members) rest) = '"' :: more := by
  cases members with
  | nil =>
    rw [membersText_single, skipSpace_append (l.isSpace_gap _), skipSpace_cons (by decide)]
    exact ⟨_, rfl⟩
  | cons next members =>
    rw [membersText_cons, skipSpace_append (l.isSpace_gap _), skipSpace_cons (by decide)]
    exact ⟨_, rfl⟩

/-! ### lengths -/

theorem length_array (item : Json) (items : List Json) :
    (laidItems l (level + 1) (item :: items)).length + 1 <
      (laid l level (.array (item :: items))).length := by
  show _ < ('[' :: (laidItems l (level + 1) (item :: items) ++ l.gap level ++ [']'])).length
  simp only [List.length_cons, List.length_append]
  omega

theorem length_object (member : String × Json) (members : List (String × Json)) :
    (laidMembers l (level + 1) (member :: members)).length + 1 <
      (laid l level (.object (member :: members))).length := by
  show _ < ('\x7b' :: (laidMembers l (level + 1) (member :: members) ++ l.gap level ++
    ['\x7d'])).length
  simp only [List.length_cons, List.length_append]
  omega

theorem length_item (item : Json) :
    (laid l level item).length ≤ (laidItems l level [item]).length := by
  show _ ≤ (l.gap level ++ laid l level item).length
  rw [List.length_append]
  omega

/-- An item and the items behind it take up less than all of them. -/
theorem length_items (item next : Json) (items : List Json) :
    (laid l level item).length + (laidItems l level (next :: items)).length <
      (laidItems l level (item :: next :: items)).length := by
  show _ < (l.gap level ++ laid l level item ++ ',' :: laidItems l level (next :: items)).length
  simp only [List.length_cons, List.length_append]
  omega

theorem length_members (key : String) (value : Json) (members : List (String × Json)) :
    (laid l level value).length + (laidMembers l level members).length <
      (laidMembers l level ((key, value) :: members)).length := by
  cases members with
  | nil =>
    show _ + 0 < (l.gap level ++ quoted key.toList ++
      ':' :: (l.pause ++ laid l level value)).length
    simp only [List.length_cons, List.length_append]
    omega
  | cons next members =>
    show _ < (l.gap level ++ quoted key.toList ++ ':' :: (l.pause ++ laid l level value) ++
      ',' :: laidMembers l level (next :: members)).length
    simp only [List.length_cons, List.length_append]
    omega

end

/-! ## what is set out is read -/

section

variable {l : Layout} {n level : Nat} {s rest : List Char}

theorem value?_integer {i : Int} (hi : Fits level (.integer i))
    (hs : skipSpace s = laid l level (.integer i) ++ rest) (hr : Ends rest) :
    value? (n + 1) level s = some (.integer i, rest) := by
  obtain ⟨c, cs, heq, hc⟩ := decimalInt_eq_cons i
  have hs' : skipSpace s = decimalInt i ++ rest := hs
  have hread := number?_decimalInt hi hr
  rw [heq] at hs' hread
  rw [value?_number hs' hc]
  exact hread

theorem value?_string {t : String} (hs : skipSpace s = laid l level (.string t) ++ rest) :
    value? (n + 1) level s = some (.string t, rest) := by
  obtain ⟨ps, hread, hjoin⟩ := exists_pieces t.toList rest
  have hs' : skipSpace s = '"' :: (t.toList.flatMap escaped ++ '"' :: rest) := by
    rw [hs]
    show '"' :: (t.toList.flatMap escaped ++ ['"'] ++ rest) = _
    rw [List.append_assoc]
    rfl
  unfold value?
  rw [hs']
  refine bind_of_eq_some hread ?_
  show some ((joined ps).elim Json.unreadable _, rest) = _
  rw [hjoin]
  exact congrArg (fun t => some (Json.string t, rest)) String.ofList_toList

/-- An array is read if its items are. -/
theorem value?_array {item : Json} {items : List Json} (hj : Fits level (.array (item :: items)))
    (hs : skipSpace s = laid l level (.array (item :: items)) ++ rest)
    (hread : items? n (level + 1) (skipSpace (itemsText l level (item :: items) rest)) =
      some (item :: items, rest)) :
    value? (n + 1) level s = some (.array (item :: items), rest) := by
  rw [laid_array] at hs
  unfold value?
  rw [hs]
  simp only
  split
  · next hclose =>
    obtain ⟨more, htext⟩ := skipSpace_itemsText l level hj.2.1 items rest
    obtain ⟨c, cs, heq, -, hne⟩ := laid_eq_cons l hj.2.1
    rw [htext, heq] at hclose
    exact absurd (List.cons.inj hclose).1 hne
  · refine bind_of_eq_some hread ?_
    exact congrArg (fun j => some (j, rest)) (within_of_lt hj.1 _)

/-- An object is read if its members are. -/
theorem value?_object {m : String × Json} {members : List (String × Json)}
    (hj : Fits level (.object (m :: members)))
    (hs : skipSpace s = laid l level (.object (m :: members)) ++ rest)
    (hread : members? n (level + 1) (skipSpace (membersText l level (m :: members) rest)) =
      some ((m :: members).map fun m => (some m.1.toList, m.2), rest)) :
    value? (n + 1) level s = some (.object (m :: members), rest) := by
  rw [laid_object] at hs
  unfold value?
  rw [hs]
  simp only
  split
  · next hclose =>
    obtain ⟨more, htext⟩ := skipSpace_membersText l level m members rest
    rw [htext] at hclose
    exact absurd (List.cons.inj hclose).1 (by decide)
  · refine bind_of_eq_some hread ?_
    refine congrArg (fun j => some (j, rest)) ?_
    exact (within_of_lt hj.1 _).trans (ofMembers_read (m :: members))

end

mutual

/-- The reader of a value goes through its text in any layout. -/
theorem value?_laid (l : Layout) : ∀ (j : Json) {n level : Nat} {s rest : List Char},
    Fits level j → 2 * (laid l level j).length ≤ n → skipSpace s = laid l level j ++ rest →
    Ends rest → value? n level s = some (j, rest)
  | j, 0, level, s, rest, hj, hn, _, _ => by
    obtain ⟨c, cs, heq, -⟩ := laid_eq_cons l hj
    rw [heq, List.length_cons] at hn
    omega
  | .null, n + 1, level, s, rest, _, _, hs, _ => by
    unfold value?
    rw [hs]
    rfl
  | .bool true, n + 1, level, s, rest, _, _, hs, _ => by
    unfold value?
    rw [hs]
    rfl
  | .bool false, n + 1, level, s, rest, _, _, hs, _ => by
    unfold value?
    rw [hs]
    rfl
  | .integer i, n + 1, level, s, rest, hj, _, hs, hr => value?_integer hj hs hr
  | .string t, n + 1, level, s, rest, _, _, hs, _ => value?_string hs
  | .array [], n + 1, level, s, rest, hj, _, hs, _ => by
    unfold value?
    rw [hs]
    exact congrArg (fun j => some (j, rest)) (within_of_lt hj.1 _)
  | .array (item :: items), n + 1, level, s, rest, hj, hn, hs, _ => by
    have hlen := length_array l level item items
    exact value?_array hj hs (items?_laid l item items hj.2 (by omega) (skipSpace_idem _))
  | .object [], n + 1, level, s, rest, hj, _, hs, _ => by
    unfold value?
    rw [hs]
    exact congrArg (fun j => some (j, rest)) (within_of_lt hj.1 _)
  | .object ((key, value) :: members), n + 1, level, s, rest, hj, hn, hs, _ => by
    have hlen := length_object l level (key, value) members
    exact value?_object hj hs
      (members?_laid l key value members hj.2 (by omega) (skipSpace_idem _))
  | .fraction _, n + 1, level, s, rest, hj, _, _, _ => hj.elim
  | .unreadable, n + 1, level, s, rest, hj, _, _, _ => hj.elim

theorem members?_laid (l : Layout) : ∀ (key : String) (value : Json)
    (members : List (String × Json)) {n level : Nat} {s rest : List Char},
    MembersFit (level + 1) ((key, value) :: members) →
    2 * (laidMembers l (level + 1) ((key, value) :: members)).length ≤ n →
    skipSpace s = skipSpace (membersText l level ((key, value) :: members) rest) →
    members? n (level + 1) s =
      some (((key, value) :: members).map fun m => (some m.1.toList, m.2), rest)
  | key, value, members, 0, level, s, rest, _, hn, _ => by
    have hlen := length_members l (level + 1) key value members
    omega
  | key, value, [], n + 1, level, s, rest, hj, hn, hs => by
    have hlen := length_members l (level + 1) key value []
    rw [membersText_single, skipSpace_append (l.isSpace_gap _), skipSpace_cons (by decide)] at hs
    obtain ⟨ps, hread, hjoin⟩ := exists_pieces key.toList (':' :: (l.pause ++
      (laid l (level + 1) value ++ (l.gap level ++ '\x7d' :: rest))))
    have hvalue : skipSpace (l.pause ++ (laid l (level + 1) value ++
        (l.gap level ++ '\x7d' :: rest))) =
        laid l (level + 1) value ++ (l.gap level ++ '\x7d' :: rest) := by
      rw [skipSpace_append l.isSpace_pause, skipSpace_laid l hj.1]
    unfold members?
    rw [hs]
    refine bind_of_eq_some hread ?_
    refine bind_of_eq_some
      (value?_laid l value hj.1 (by omega) hvalue (ends_gap l level (by decide) rest)) ?_
    show (match skipSpace (l.gap level ++ '\x7d' :: rest) with
      | ',' :: r => _ | '\x7d' :: r => _ | _ => _) = _
    rw [skipSpace_append (l.isSpace_gap _), hjoin]
    rfl
  | key, value, (key', value') :: members, n + 1, level, s, rest, hj, hn, hs => by
    have hlen := length_members l (level + 1) key value ((key', value') :: members)
    rw [membersText_cons, skipSpace_append (l.isSpace_gap _), skipSpace_cons (by decide)] at hs
    obtain ⟨ps, hread, hjoin⟩ := exists_pieces key.toList (':' :: (l.pause ++
      (laid l (level + 1) value ++
        ',' :: membersText l level ((key', value') :: members) rest)))
    have hvalue : skipSpace (l.pause ++ (laid l (level + 1) value ++
        ',' :: membersText l level ((key', value') :: members) rest)) =
        laid l (level + 1) value ++
          ',' :: membersText l level ((key', value') :: members) rest := by
      rw [skipSpace_append l.isSpace_pause, skipSpace_laid l hj.1]
    unfold members?
    rw [hs]
    refine bind_of_eq_some hread ?_
    refine bind_of_eq_some
      (value?_laid l value hj.1 (by omega) hvalue (ends_cons (by decide) _)) ?_
    show (members? n (level + 1)
      (membersText l level ((key', value') :: members) rest)).bind _ = _
    refine bind_of_eq_some (members?_laid l key' value' members hj.2 (by omega) rfl) ?_
    rw [hjoin]
    rfl

theorem items?_laid (l : Layout) : ∀ (item : Json) (items : List Json) {n level : Nat}
    {s rest : List Char}, ItemsFit (level + 1) (item :: items) →
    2 * (laidItems l (level + 1) (item :: items)).length + 2 ≤ n →
    skipSpace s = skipSpace (itemsText l level (item :: items) rest) →
    items? n (level + 1) s = some (item :: items, rest)
  | item, items, 0, level, s, rest, _, hn, _ => by omega
  | item, [], n + 1, level, s, rest, hj, hn, hs => by
    have hlen := length_item l (level + 1) item
    rw [itemsText_single, skipSpace_append (l.isSpace_gap _), skipSpace_laid l hj.1] at hs
    refine bind_of_eq_some
      (value?_laid l item hj.1 (by omega) hs (ends_gap l level (by decide) rest)) ?_
    show (match skipSpace (l.gap level ++ ']' :: rest) with
      | ',' :: r => _ | ']' :: r => _ | _ => _) = _
    rw [skipSpace_append (l.isSpace_gap _)]
    rfl
  | item, next :: items, n + 1, level, s, rest, hj, hn, hs => by
    have hlen := length_items l (level + 1) item next items
    rw [itemsText_cons, skipSpace_append (l.isSpace_gap _), skipSpace_laid l hj.1] at hs
    refine bind_of_eq_some
      (value?_laid l item hj.1 (by omega) hs (ends_cons (by decide) _)) ?_
    show (items? n (level + 1) (itemsText l level (next :: items) rest)).bind _ = _
    exact bind_of_eq_some (items?_laid l next items hj.2 (by omega) rfl) rfl

end

/-- A text in any layout reads as its value. -/
theorem ofChars?_laid (l : Layout) {j : Json} (h : Fits 0 j) :
    ofChars? (laid l 0 j) = some j := by
  have hs : skipSpace (laid l 0 j) = laid l 0 j ++ [] := by
    have hskip := skipSpace_laid l h []
    rwa [List.append_nil] at hskip ⊢
  exact bind_of_eq_some (value?_laid l j h (Nat.le_add_right _ 2) hs ends_nil) rfl

/-! ## the two layouts -/

mutual

theorem prettyChars_eq (level : Nat) : ∀ j : Json, prettyChars level j = laid .lines level j
  | .array [] => rfl
  | .array (item :: items) => by
    show '[' :: (prettyItems (level + 1) (item :: items) ++ newline level ++ [']']) = _
    rw [prettyItems_eq]
    rfl
  | .object [] => rfl
  | .object (member :: members) => by
    show '\x7b' :: (prettyMembers (level + 1) (member :: members) ++ newline level ++ ['\x7d']) = _
    rw [prettyMembers_eq]
    rfl
  | .null | .bool _ | .integer _ | .fraction _ | .string _ | .unreadable => rfl

theorem prettyItems_eq (level : Nat) :
    ∀ items : List Json, prettyItems level items = laidItems .lines level items
  | [] => rfl
  | [item] => congrArg (newline level ++ ·) (prettyChars_eq level item)
  | item :: next :: items => by
    show newline level ++ prettyChars level item ++ ',' :: prettyItems level (next :: items) = _
    rw [prettyChars_eq, prettyItems_eq]
    rfl

theorem prettyMembers_eq (level : Nat) : ∀ members : List (String × Json),
    prettyMembers level members = laidMembers .lines level members
  | [] => rfl
  | [(key, value)] => by
    show newline level ++ quoted key.toList ++ ':' :: ' ' :: prettyChars level value = _
    rw [prettyChars_eq]
    rfl
  | (key, value) :: next :: members => by
    show newline level ++ quoted key.toList ++ ':' :: ' ' :: prettyChars level value ++
      ',' :: prettyMembers level (next :: members) = _
    rw [prettyChars_eq, prettyMembers_eq]
    rfl

end

mutual

theorem compactChars_eq (level : Nat) : ∀ j : Json, compactChars j = laid .oneLine level j
  | .array [] => rfl
  | .array (item :: items) => by
    show '[' :: compactItems (item :: items) =
      '[' :: (laidItems .oneLine (level + 1) (item :: items) ++ [] ++ [']'])
    rw [compactItems_eq (level + 1), List.append_nil]
  | .object [] => rfl
  | .object (member :: members) => by
    show '\x7b' :: compactMembers (member :: members) =
      '\x7b' :: (laidMembers .oneLine (level + 1) (member :: members) ++ [] ++ ['\x7d'])
    rw [compactMembers_eq (level + 1), List.append_nil]
  | .null | .bool _ | .integer _ | .fraction _ | .string _ | .unreadable => rfl

theorem compactItems_eq (level : Nat) :
    ∀ items : List Json, compactItems items = laidItems .oneLine level items ++ [']']
  | [] => rfl
  | [item] => congrArg (· ++ [']']) (compactChars_eq level item)
  | item :: next :: items => by
    show compactChars item ++ ',' :: compactItems (next :: items) =
      laid .oneLine level item ++ ',' :: laidItems .oneLine level (next :: items) ++ [']']
    rw [compactChars_eq level, compactItems_eq level, List.append_assoc]
    rfl

theorem compactMembers_eq (level : Nat) : ∀ members : List (String × Json),
    compactMembers members = laidMembers .oneLine level members ++ ['\x7d']
  | [] => rfl
  | [(key, value)] => by
    show quoted key.toList ++ ':' :: compactChars value ++ ['\x7d'] = _
    rw [compactChars_eq level]
    rfl
  | (key, value) :: next :: members => by
    show quoted key.toList ++ ':' :: compactChars value ++ ',' :: compactMembers (next :: members) =
      quoted key.toList ++ ':' :: laid .oneLine level value ++
        ',' :: laidMembers .oneLine level (next :: members) ++ ['\x7d']
    rw [compactChars_eq level, compactMembers_eq level, List.append_assoc _ (',' :: _)]
    rfl

end

/-- **The text of a value that fits reads as that value.** -/
theorem ofText?_pretty {j : Json} (h : Fits 0 j) : ofText? j.pretty = some j := by
  unfold ofText? pretty
  rw [String.toList_ofList, prettyChars_eq]
  exact ofChars?_laid .lines h

/-- **The one line of a value that fits reads as that value.** -/
theorem ofText?_compact {j : Json} (h : Fits 0 j) : ofText? j.compact = some j := by
  unfold ofText? compact
  rw [String.toList_ofList, compactChars_eq 0]
  exact ofChars?_laid .oneLine h

/-! ## what is written can be held -/

mutual

/-- A value that can be written holds nothing unreadable. -/
theorem Fits.isReadable : ∀ {level : Nat} {j : Json}, Fits level j → j.isReadable = true
  | _, .array _, h => itemsReadable_of_fit h.2
  | _, .object _, h => membersReadable_of_fit h.2
  | _, .null, _ | _, .bool _, _ | _, .integer _, _ | _, .string _, _ => rfl
  | _, .fraction _, h | _, .unreadable, h => h.elim

theorem itemsReadable_of_fit :
    ∀ {level : Nat} {items : List Json}, ItemsFit level items → itemsReadable items = true
  | _, [], _ => rfl
  | _, _ :: _, h => Bool.and_eq_true_iff.2 ⟨Fits.isReadable h.1, itemsReadable_of_fit h.2⟩

theorem membersReadable_of_fit : ∀ {level : Nat} {members : List (String × Json)},
    MembersFit level members → membersReadable members = true
  | _, [], _ => rfl
  | _, (_, _) :: _, h => Bool.and_eq_true_iff.2 ⟨Fits.isReadable h.1, membersReadable_of_fit h.2⟩

end

end Json

end CourseCompletion
