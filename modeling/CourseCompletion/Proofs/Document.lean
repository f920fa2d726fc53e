import CourseCompletion.Proofs.Instant
import CourseCompletion.Proofs.Quotes
import CourseCompletion.Toml.Document

/-!
# Plain documents are read back

A `Line` is a key without quotes, an equals sign, and a text that `Denotes` a value: a string, or a
yes or no.  `Toml.document?_lines`: a document of such lines, with no key twice, reads as their
entries.

The readers of keys and values are shown to leave what follows, a line is read as a statement
(`lines?_bare`), and statements without dots and headers are put together one behind the other
(`foldlM_add`).
-/

namespace CourseCompletion.Toml

/-! ## values -/

/-- A text on a line reads as a value. -/
structure Denotes (written : List Char) (value : Scalar) : Prop where
  head : ∃ c w, written = c :: w ∧ c ∉ ['[', '\x7b', ' ', '\t']
  read : ∀ rest, scalar? (written ++ '\n' :: rest) = some (value, '\n' :: rest)

theorem string_eq_cons (s : List Char) : ∃ c w, string s = c :: w ∧ (c = '"' ∨ c = '\x27') := by
  unfold string
  cases quotesFor s with
  | basic => exact ⟨_, _, rfl, .inl rfl⟩
  | literal => exact ⟨_, _, rfl, .inr rfl⟩
  | multiBasic => exact ⟨_, _, rfl, .inl rfl⟩
  | multiLiteral => exact ⟨_, _, rfl, .inr rfl⟩

theorem denotes_string (s : List Char) : Denotes (string s) (.text s) := by
  obtain ⟨c, w, hw, hc⟩ := string_eq_cons s
  refine ⟨⟨c, w, hw, by rcases hc with rfl | rfl <;> decide⟩, fun rest => ?_⟩
  have hread : string? (string s ++ '\n' :: rest) = some (s, '\n' :: rest) :=
    string?_string s fun c hc => by
      obtain rfl := Option.some.inj hc
      decide
  rw [hw, List.cons_append] at hread ⊢
  unfold scalar?
  dsimp only
  rw [if_pos hc]
  exact bind_of_eq_some hread rfl

theorem denotes_true : Denotes "true".toList (.boolean true) :=
  ⟨⟨'t', _, rfl, by decide⟩, fun _ => rfl⟩

theorem denotes_false : Denotes "false".toList (.boolean false) :=
  ⟨⟨'f', _, rfl, by decide⟩, fun _ => rfl⟩

theorem Denotes.value? {written : List Char} {value : Scalar} (h : Denotes written value)
    (n depth : Nat) (rest : List Char) :
    value? (n + 1) depth (written ++ '\n' :: rest) = some (.scalar value, '\n' :: rest) := by
  obtain ⟨c, w, hw, hc⟩ := h.head
  have hread := h.read rest
  rw [hw, List.cons_append] at hread ⊢
  simp only [List.mem_cons, not_or] at hc
  rw [Toml.value?]
  · rw [hread]
    rfl
  · exact fun _ he => hc.1 (List.cons.inj he).1
  · exact fun _ he => hc.2.1 (List.cons.inj he).1

/-! ## lines -/

/-- A key stands without quotes. -/
def IsBare (key : List Char) : Prop := ∃ c w, key = c :: w ∧ ∀ d ∈ key, isKeyChar d = true

section

variable {key : List Char} (h : IsBare key)
include h

theorem skipBlanks_bare (rest : List Char) : skipBlanks (key ++ rest) = key ++ rest := by
  obtain ⟨c, w, rfl, hkey⟩ := h
  have hc := hkey c List.mem_cons_self
  have hblank : ¬isBlankChar c = true := by
    intro hb
    simp only [isBlankChar, Bool.or_eq_true, decide_eq_true_eq] at hb
    rcases hb with rfl | rfl <;> cases hc
  exact List.dropWhile_cons_of_neg hblank

theorem keyPart?_bare (rest : List Char) :
    keyPart? (key ++ ' ' :: rest) = some (key, ' ' :: rest) := by
  have htake : (key ++ ' ' :: rest).takeWhile isKeyChar = key := by
    obtain ⟨-, -, -, hkey⟩ := h
    rw [List.takeWhile_append_of_pos hkey]
    exact List.append_nil key
  have hdrop : (key ++ ' ' :: rest).dropWhile isKeyChar = ' ' :: rest := by
    obtain ⟨-, -, -, hkey⟩ := h
    rw [List.dropWhile_append_of_pos hkey]
    rfl
  obtain ⟨c, w, rfl, hkey⟩ := h
  have hc := hkey c List.mem_cons_self
  unfold keyPart?
  split
  · next he => obtain rfl := (List.cons.inj he).1; cases hc
  · next he => obtain rfl := (List.cons.inj he).1; cases hc
  · rw [htake, hdrop, if_neg (List.cons_ne_nil c w)]

theorem key?_bare (n : Nat) (rest : List Char) :
    key? (n + 1) (key ++ ' ' :: '=' :: rest) = some ([key], '=' :: rest) := by
  unfold key?
  rw [skipBlanks_bare h]
  exact bind_of_eq_some (keyPart?_bare h _) rfl

theorem lineEnd?_bare (rest : List Char) : lineEnd? (key ++ rest) = none := by
  unfold lineEnd?
  rw [skipBlanks_bare h]
  obtain ⟨c, w, rfl, hkey⟩ := h
  have hc := hkey c List.mem_cons_self
  have hcomment : skipComment (c :: w ++ rest) = c :: w ++ rest := by
    unfold skipComment
    split
    · next he => obtain rfl := (List.cons.inj he).1; cases hc
    · rfl
  rw [hcomment]
  split
  · next he => cases he
  · next he => obtain rfl := (List.cons.inj he).1; cases hc
  · next he => obtain rfl := (List.cons.inj he).1; cases hc
  · rfl

theorem statement?_bare {written : List Char} {value : Scalar} (hw : Denotes written value)
    (rest : List Char) :
    statement? (key ++ ' ' :: '=' :: ' ' :: (written ++ '\n' :: rest)) =
      some (.entry [key] (.scalar value), '\n' :: rest) := by
  have hkey := key?_bare h 78 (' ' :: (written ++ '\n' :: rest))
  have hblanks : skipBlanks (' ' :: (written ++ '\n' :: rest)) = written ++ '\n' :: rest := by
    obtain ⟨c, w, rfl, hc⟩ := hw.head
    simp only [List.mem_cons, not_or] at hc
    have hblank : ¬isBlankChar c = true := by
      simp [isBlankChar, hc]
    exact List.dropWhile_cons_of_neg hblank
  have hstart : ∀ r, key ++ ' ' :: '=' :: ' ' :: (written ++ '\n' :: rest) ≠ '[' :: r := by
    obtain ⟨c, w, rfl, hkeys⟩ := h
    intro r he
    obtain rfl := (List.cons.inj he).1
    cases hkeys '[' List.mem_cons_self
  rw [statement?]
  · refine bind_of_eq_some hkey ?_
    refine bind_of_eq_some rfl ?_
    rw [hblanks]
    exact bind_of_eq_some (hw.value? _ _ _) rfl
  · exact fun r he => hstart _ he
  · exact fun r he => hstart _ he

/-- **A line that is written for a key reads as the entry of that key**, before the lines behind
it. -/
theorem lines?_bare {written : List Char} {value : Scalar} (hw : Denotes written value) (n : Nat)
    (rest : List Char) :
    lines? (n + 1) (key ++ ' ' :: '=' :: ' ' :: (written ++ '\n' :: rest)) =
      (lines? n rest).map (.entry [key] (.scalar value) :: ·) := by
  obtain ⟨c, w, hkey, -⟩ := id h
  have hne : key ++ ' ' :: '=' :: ' ' :: (written ++ '\n' :: rest) ≠ [] := by
    rw [hkey]
    exact List.cons_ne_nil _ _
  rw [lines?, if_neg hne, lineEnd?_bare h, skipBlanks_bare h]
  refine bind_of_eq_some (statement?_bare h hw rest) ?_
  refine bind_of_eq_some rfl ?_
  cases lines? n rest <;> rfl

end

/-! ## documents -/

/-- A line of a document: a key without quotes, and a text that reads as a value. -/
structure Line where
  key : List Char
  written : List Char
  value : Scalar
  bare : IsBare key
  denotes : Denotes written value

namespace Line

def chars (l : Line) : List Char := l.key ++ ' ' :: '=' :: ' ' :: (l.written ++ ['\n'])

def statement (l : Line) : Statement := .entry [l.key] (.scalar l.value)

def entry (l : Line) : List Char × Node := (l.key, .scalar l.value)

end Line

theorem lines?_lines (lines : List Line) {n : Nat} (hn : lines.length ≤ n) :
    lines? (n + 1) (lines.flatMap Line.chars) = some (lines.map Line.statement) := by
  induction lines generalizing n with
  | nil => rfl
  | cons l lines ih =>
    cases n with
    | zero => cases hn
    | succ n =>
      have hrest := ih (Nat.le_of_succ_le_succ hn)
      have hchars : (l :: lines).flatMap Line.chars =
          l.key ++ ' ' :: '=' :: ' ' :: (l.written ++ '\n' :: lines.flatMap Line.chars) := by
        simp [Line.chars]
      rw [hchars, lines?_bare l.bare l.denotes, hrest]
      rfl

theorem length_le_chars (lines : List Line) : lines.length ≤ (lines.flatMap Line.chars).length := by
  induction lines with
  | nil => exact Nat.le_refl 0
  | cons l lines ih =>
    have hline : 0 < l.chars.length := by
      obtain ⟨c, w, hkey, -⟩ := l.bare
      unfold Line.chars
      rw [hkey]
      exact Nat.succ_pos _
    rw [List.flatMap_cons, List.length_append, List.length_cons]
    omega

theorem withoutMark_lines (lines : List Line) :
    withoutMark (lines.flatMap Line.chars) = lines.flatMap Line.chars := by
  cases lines with
  | nil => rfl
  | cons l lines =>
    obtain ⟨c, w, hkey, hchars⟩ := l.bare
    have hc : isKeyChar c = true := hchars c (hkey ▸ List.mem_cons_self)
    unfold withoutMark
    split
    · next r he =>
      rw [List.flatMap_cons, Line.chars, hkey] at he
      obtain rfl := (List.cons.inj he).1
      cases hc
    · rfl

theorem statements?_lines (lines : List Line) :
    statements? (lines.flatMap Line.chars) = some (lines.map Line.statement) := by
  unfold statements?
  rw [withoutMark_lines]
  exact lines?_lines lines (length_le_chars lines)

/-- An entry without dots goes behind those that are there. -/
theorem add_statement {es : Entries} (l : Line) (h : l.key ∉ es.map Prod.fst) :
    Draft.add ⟨es, []⟩ l.statement = some ⟨es ++ [l.entry], []⟩ := by
  have hget : es.get? l.key = none := by
    unfold Entries.get?
    rw [List.find?_eq_none.2]
    · rfl
    · intro e he
      exact fun hkey => h (List.mem_map.2 ⟨e, he, of_decide_eq_true hkey⟩)
  have hinsert : es.insert [l.key] (.scalar l.value) .opened = some (es ++ [l.entry]) := by
    show (if (Origin.opened = .dotted ↔ [l.key].dropLast = []) ∨ (es.get? l.key).isSome then none
      else some (es ++ [l.entry])) = _
    rw [hget, if_neg]
    simp
  exact bind_of_eq_some rfl (bind_of_eq_some hinsert rfl)

theorem foldlM_add {lines : List Line} {es : Entries}
    (h : (es.map Prod.fst ++ lines.map Line.key).Nodup) :
    (lines.map Line.statement).foldlM Draft.add ⟨es, []⟩ =
      some ⟨es ++ lines.map Line.entry, []⟩ := by
  induction lines generalizing es with
  | nil => simp
  | cons l lines ih =>
    have hnew : l.key ∉ es.map Prod.fst := fun hmem =>
      (List.nodup_append.1 h).2.2 _ hmem _ List.mem_cons_self rfl
    rw [List.map_cons, List.foldlM_cons]
    refine bind_of_eq_some (add_statement l hnew) ?_
    rw [ih]
    · simp
    · simpa [Line.entry] using h

theorem settledEntries?_lines (lines : List Line) :
    settledEntries? (lines.map Line.entry) = some (lines.map Line.entry) := by
  induction lines with
  | nil => rfl
  | cons l lines ih =>
    rw [List.map_cons, Line.entry, settledEntries?]
    exact bind_of_eq_some (by rw [Node.settled?]) (bind_of_eq_some ih rfl)

theorem settledTable?_lines {lines : List Line} (h : momentKey ∉ lines.map Line.key)
    (table : List (List Char × Node) → Node) :
    settledTable? table (lines.map Line.entry) = some (table (lines.map Line.entry)) := by
  cases lines with
  | nil => rfl
  | cons l lines =>
    have hkey : l.key ≠ momentKey := fun he => h (he ▸ List.mem_cons_self)
    rw [List.map_cons, Line.entry]
    unfold settledTable?
    rw [if_neg hkey]
    have hvalue : (Node.scalar l.value).settled? = some (.scalar l.value) := by rw [Node.settled?]
    exact bind_of_eq_some hvalue (bind_of_eq_some (settledEntries?_lines lines) rfl)

/-- **A document of plain lines reads as their entries.** -/
theorem document?_lines {lines : List Line} (hkeys : (lines.map Line.key).Nodup)
    (hmoment : momentKey ∉ lines.map Line.key) :
    document? (lines.flatMap Line.chars) = some (lines.map Line.entry) := by
  have hentries : ofStatements? (lines.map Line.statement) = some (lines.map Line.entry) := by
    unfold ofStatements?
    rw [@foldlM_add lines [] (by simpa using hkeys)]
    rfl
  have hsettled : (Node.table .opened (lines.map Line.entry)).settled? =
      some (.table .opened (lines.map Line.entry)) := by
    rw [Node.settled?, settledTable?_lines hmoment]
  unfold document?
  refine bind_of_eq_some (statements?_lines lines) ?_
  refine bind_of_eq_some hentries ?_
  exact bind_of_eq_some hsettled rfl

end CourseCompletion.Toml
