import CourseCompletion.Files

/-!
# Reading what was written

`Files.Holds` says that a path leads to a file with a text.  Such a file can be read, and written
over with another text, which the path then leads to (`Holds.write`).

In a `Sound` tree of files no place is two things at once.
-/

namespace CourseCompletion

namespace Files

/-- no place is a file, a directory and a sink at once, or two of them -/
structure Sound (fs : Files) : Prop where
  directory : ∀ p, fs.isDirectory p = true → fs.text? p = none ∧ fs.isSink p = false
  file : ∀ p, (fs.text? p).isSome = true → fs.isSink p = false

/-- a path leads to a file with a text -/
structure Holds (fs : Files) (path text : String) : Prop where
  sound : fs.Sound
  place : ∃ p, fs.place? path = some p ∧ fs.text? p = some text

theorem Sound.not_directory {fs : Files} (h : fs.Sound) {p : Place} {text : String}
    (hp : fs.text? p = some text) : fs.isDirectory p = false := by
  cases hd : fs.isDirectory p with
  | false => rfl
  | true =>
    rw [(h.directory p hd).1] at hp
    cases hp

/-- The only file of a tree, right below the root. -/
theorem sound_alone (origin : Place) (name text : String) :
    Sound ⟨origin, [], [], [([name], text)]⟩ where
  directory p hp := by
    cases p with
    | nil => exact ⟨rfl, rfl⟩
    | cons part parts =>
      simp only [isDirectory] at hp
      simp at hp
      obtain ⟨hne, rfl, rfl⟩ := hp
      simp at hne
  file _ _ := rfl

/-! ## reading -/

section

variable {fs : Files} {path text : String} {p : Place} (hp : fs.place? path = some p)
  (ht : fs.text? p = some text)

include hp ht

theorem isThere_of_text? : fs.isThere path = true := by
  unfold isThere
  rw [hp]
  simp [ht]

theorem isFile_of_text? : fs.isFile path = true := by
  unfold isFile
  rw [hp]
  simp [ht]

theorem read_of_text? : fs.read path = .ok text := by
  unfold read
  rw [hp]
  simp only [ht]
  rfl

end

/-- A text that is read, and not empty, is that of a file. -/
theorem text?_of_read {fs : Files} {path text : String} (h : fs.read path = .ok text)
    (hne : text ≠ "") : ∃ p, fs.place? path = some p ∧ fs.text? p = some text := by
  unfold read at h
  cases hp : fs.place? path with
  | none =>
    rw [hp] at h
    cases h
  | some p =>
    simp only [hp] at h
    refine ⟨p, rfl, ?_⟩
    cases ht : fs.text? p with
    | some t =>
      rw [ht] at h
      exact congrArg some (Except.ok.inj h)
    | none =>
      simp only [ht] at h
      split at h
      · exact absurd (Except.ok.inj h).symm hne
      · cases h

theorem Holds.isThere {fs : Files} {path text : String} (h : fs.Holds path text) :
    fs.isThere path = true := by
  obtain ⟨p, hp, ht⟩ := h.place
  exact isThere_of_text? hp ht

theorem Holds.read {fs : Files} {path text : String} (h : fs.Holds path text) :
    fs.read path = .ok text := by
  obtain ⟨p, hp, ht⟩ := h.place
  exact read_of_text? hp ht

/-! ## writing -/

/-- the directories on the way to a place are all there -/
theorem withDirectories_of_place {fs : Files} (h : fs.Sound) {parts : List String} {start p : Place}
    (hp : parts.foldlM fs.step start = some p) :
    fs.withDirectories start parts.dropLast = some fs := by
  induction parts generalizing start with
  | nil => rfl
  | cons part parts ih =>
    cases parts with
    | nil => rfl
    | cons next rest =>
      rw [List.foldlM_cons] at hp
      obtain ⟨q, hq, hrest⟩ := Option.bind_eq_some_iff.1 hp
      -- the next step begins in a directory
      have hdir : fs.isDirectory q = true := by
        rw [List.foldlM_cons] at hrest
        obtain ⟨q', hq', -⟩ := Option.bind_eq_some_iff.1 hrest
        unfold step at hq'
        split at hq'
        · next hc => exact hc.1
        · cases hq'
      have hwith : fs.withDirectory q = some fs := by
        unfold withDirectory
        rw [(h.directory q hdir).1, (h.directory q hdir).2, hdir]
        rfl
      show (do
        let q ← fs.step start part
        (← fs.withDirectory q).withDirectories q (next :: rest).dropLast) = some fs
      rw [hq]
      show (do (← fs.withDirectory q).withDirectories q (next :: rest).dropLast) = some fs
      rw [hwith]
      exact ih hrest

section

variable {fs : Files} {p : Place} {old new : String}

/-- the same files with another text in the place of one -/
def rewritten (fs : Files) (p : Place) (text : String) : Files :=
  { fs with contents := Keyed.put Prod.fst (p, text) fs.contents }

theorem text?_rewritten (fs : Files) (p q : Place) (text : String) :
    (fs.rewritten p text).text? q = if q = p then some text else fs.text? q := by
  unfold text? rewritten
  rw [Keyed.get?_put]
  split <;> rfl

theorem mem_places_rewritten {q : Place} :
    q ∈ (fs.rewritten p new).contents.map Prod.fst ↔ q ∈ fs.contents.map Prod.fst ∨ q = p := by
  unfold rewritten Keyed.put Keyed.erase
  simp only [List.map_append, List.mem_append, List.map_cons, List.map_nil, List.mem_singleton,
    List.mem_map, List.mem_filter]
  constructor
  · rintro (⟨entry, ⟨hentry, -⟩, rfl⟩ | rfl)
    · exact .inl ⟨entry, hentry, rfl⟩
    · exact .inr rfl
  · rintro (⟨entry, hentry, rfl⟩ | rfl)
    · by_cases hx : entry.1 = p
      · exact .inr hx
      · exact .inl ⟨entry, ⟨hentry, by simpa using hx⟩, rfl⟩
    · exact .inr rfl

/-- A text in the place of another makes no directory. -/
theorem isDirectory_rewritten (hp : fs.text? p = some old) (q : Place) :
    (fs.rewritten p new).isDirectory q = fs.isDirectory q := by
  have hmem : p ∈ fs.contents.map Prod.fst := by
    obtain ⟨entry, he, -⟩ := Option.map_eq_some_iff.1 hp
    rw [← Keyed.key_of_get? he]
    exact List.mem_map_of_mem (Keyed.mem_of_get? he)
  have hsame : ∀ x, x ∈ (Keyed.put Prod.fst (p, new) fs.contents).map Prod.fst ↔
      x ∈ fs.contents.map Prod.fst := fun x =>
    mem_places_rewritten.trans (or_iff_left_of_imp fun hx => hx ▸ hmem)
  unfold isDirectory rewritten
  congr 1
  rw [List.any_append, List.any_append]
  congr 1
  rw [Bool.eq_iff_iff, List.any_eq_true, List.any_eq_true]
  simp only [hsame]

theorem place?_rewritten (hp : fs.text? p = some old) (path : String) :
    (fs.rewritten p new).place? path = fs.place? path := by
  have hstep : (fs.rewritten p new).step = fs.step := by
    funext q part
    unfold step
    rw [isDirectory_rewritten hp]
  unfold place?
  rw [hstep]
  rfl

theorem Sound.rewritten (h : fs.Sound) (hp : fs.text? p = some old) :
    (fs.rewritten p new).Sound where
  directory q hq := by
    rw [isDirectory_rewritten hp] at hq
    obtain ⟨htext, hsink⟩ := h.directory q hq
    have hne : q ≠ p := by
      rintro rfl
      rw [hp] at htext
      cases htext
    rw [text?_rewritten, if_neg hne]
    exact ⟨htext, hsink⟩
  file q hq := by
    rw [text?_rewritten] at hq
    refine h.file q ?_
    by_cases hqp : q = p
    · rw [hqp, hp]
      rfl
    · rw [if_neg hqp] at hq
      exact hq

end

/-- **A file that is there can be written over**, and its path leads to the new text. -/
theorem Holds.write {fs : Files} {path text : String} (h : fs.Holds path text) (new : String) :
    ∃ fs', fs.write path new = .ok fs' ∧ fs'.Holds path new := by
  obtain ⟨p, hp, ht⟩ := h.place
  refine ⟨fs.rewritten p new, ?_, h.sound.rewritten ht, p, ?_, ?_⟩
  · have hfold : (fs.parts path).2.foldlM fs.step (fs.parts path).1 = some p := by
      unfold place? at hp
      split at hp
      · cases hp
      · exact hp
    unfold Files.write
    simp only [withDirectories_of_place h.sound hfold, hp, h.sound.not_directory ht,
      h.sound.file p (by rw [ht]; rfl)]
    rfl
  · rw [place?_rewritten ht, hp]
  · rw [text?_rewritten, if_pos rfl]

/-! ### new files -/

section

variable {fs fs' : Files} {p : Place}

/-- A new text unmakes no directory. -/
theorem isDirectory_mono {q : Place} (hq : fs.isDirectory q = true) (text : String) :
    (fs.rewritten p text).isDirectory q = true := by
  unfold isDirectory at hq ⊢
  simp only [Bool.or_eq_true, List.any_append, List.any_eq_true] at hq ⊢
  refine hq.imp_right fun hq => ?_
  rcases hq with hsink | ⟨x, hx, hpre⟩
  · exact .inl hsink
  · exact .inr ⟨x, mem_places_rewritten.2 (.inl hx), hpre⟩

/-- A path leads where it led before. -/
theorem place?_mono {path : String} {q : Place} (h : fs.place? path = some q) (text : String) :
    (fs.rewritten p text).place? path = some q := by
  have hstep : ∀ {a b : Place} {part : String}, fs.step a part = some b →
      (fs.rewritten p text).step a part = some b := by
    intro a b part hab
    unfold step at hab ⊢
    by_cases hdir : fs.isDirectory a = true ∧ part.utf8ByteSize ≤ 255
    · rw [if_pos hdir] at hab
      rw [if_pos ⟨isDirectory_mono hdir.1 text, hdir.2⟩]
      exact hab
    · rw [if_neg hdir] at hab
      cases hab
  have hfold : ∀ (parts : List String) (a : Place), parts.foldlM fs.step a = some q →
      parts.foldlM (fs.rewritten p text).step a = some q := by
    intro parts
    induction parts with
    | nil => exact fun a ha => ha
    | cons part parts ih =>
      intro a ha
      rw [List.foldlM_cons] at ha ⊢
      obtain ⟨b, hb, hrest⟩ := Option.bind_eq_some_iff.1 ha
      exact Option.bind_eq_some_iff.2 ⟨b, hstep hb, ih b hrest⟩
  unfold place? at h ⊢
  split at h
  · cases h
  · next hpath =>
    rw [if_neg hpath]
    exact hfold _ _ h

/-- What writing does, once the directories on the way are there. -/
theorem write_eq_ok_iff {path text : String} :
    fs.write path text = .ok fs' ↔ ∃ fs₁ p,
      fs.withDirectories (fs.parts path).1 (fs.parts path).2.dropLast = some fs₁ ∧
      fs₁.place? path = some p ∧ fs₁.isDirectory p = false ∧
      fs' = if fs₁.isSink p then fs₁ else fs₁.rewritten p text := by
  unfold write
  rcases fs.parts path with ⟨start, parts⟩
  dsimp only
  cases fs.withDirectories start parts.dropLast with
  | none => exact ⟨fun h => (by cases h), fun ⟨_, _, h, _⟩ => (by cases h)⟩
  | some fs₁ =>
    cases hp : fs₁.place? path with
    | none =>
      simp only [hp]
      refine ⟨fun h => (by cases h), fun ⟨_, p, h, hp', _⟩ => ?_⟩
      obtain rfl := Option.some.inj h
      rw [hp] at hp'
      cases hp'
    | some p =>
      simp only [hp]
      constructor
      · intro h
        split at h
        · cases h
        · next hdir =>
          refine ⟨fs₁, p, rfl, hp, Bool.eq_false_iff.2 hdir, ?_⟩
          split at h
          · next hsink => rw [if_pos hsink]; exact (Except.ok.inj h).symm
          · next hsink => rw [if_neg hsink]; exact (Except.ok.inj h).symm
      · rintro ⟨fs₂, p', h, hp', hdir, rfl⟩
        obtain rfl := Option.some.inj h
        obtain rfl := Option.some.inj (hp.symm.trans hp')
        rw [hdir, if_neg Bool.false_ne_true]
        split <;> rfl

/-- **A file that was written can be read**, unless it is a sink. -/
theorem read_of_write {path text : String} (h : fs.write path text = .ok fs')
    (hsink : ∀ p, fs'.place? path = some p → fs'.isSink p = false) : fs'.read path = .ok text := by
  obtain ⟨fs₁, p, -, hp, -, rfl⟩ := write_eq_ok_iff.1 h
  by_cases hs : fs₁.isSink p = true
  · rw [if_pos hs] at hsink
    rw [hsink p hp] at hs
    cases hs
  · rw [if_neg hs]
    exact read_of_text? (place?_mono hp text) ((text?_rewritten fs₁ p p text).trans (if_pos rfl))

end

end Files

end CourseCompletion
