import CourseCompletion.Proofs.Register

/-!
# The life of a row

* `Call.Turns`      what one call may do to a row that is there: leave it, or write it over once
                    (`Row.Rewritten`), with its flag changed only by operations on flags;
* `Row.Later`       what is left of a row after any number of calls (`Later.trans`).

A row that is new is an enrolment of version `1`.
-/

namespace CourseCompletion

/-! ## rows over time -/

namespace Row

/-- A row became another one: its number and the times of enrolment and completion stay, its version
does not fall, and its start is not put off. -/
structure Later (row row' : Row) : Prop where
  id : row'.id = row.id
  version : row.version ≤ row'.version
  enrolled : 0 < row.enrolled → row'.enrolled = row.enrolled
  completed : 0 < row.completed → row'.completed = row.completed
  started : 0 < row.started → 0 < row'.started ∧ row'.started ≤ row.started

namespace Later

variable {row row₁ row' : Row}

theorem refl (row : Row) : row.Later row :=
  ⟨rfl, Nat.le_refl _, fun _ => rfl, fun _ => rfl, fun h => ⟨h, Int.le_refl _⟩⟩

theorem trans (h : row.Later row₁) (h' : row₁.Later row') : row.Later row' where
  id := h'.id.trans h.id
  version := Nat.le_trans h.version h'.version
  enrolled he := by
    have he₁ := h.enrolled he
    exact (h'.enrolled (by rw [he₁]; exact he)).trans he₁
  completed hc := by
    have hc₁ := h.completed hc
    exact (h'.completed (by rw [hc₁]; exact hc)).trans hc₁
  started hs := by
    obtain ⟨hpos, hle⟩ := h.started hs
    obtain ⟨hpos', hle'⟩ := h'.started hpos
    exact ⟨hpos', Int.le_trans hle' hle⟩

end Later

theorem Rewritten.later {row row' : Row} (h : row.Rewritten row') : row.Later row' where
  id := h.id
  version := by rw [h.version]; exact Nat.le_succ _
  enrolled := h.enrolled
  completed := h.completed
  started hs := by
    have hst := h.started hs
    split at hst
    · next hc => omega
    · omega

end Row

/-! ## flags -/

namespace Operation

/-- the operation flags records under the key -/
def Flags (op : Operation) (k : Key) : Prop := op = .flag k ∨ op = .flagCourse k.course

/-- A flag that is set changes only when it is set again, or in a sweep when it is due. -/
theorem flag_of_allows {op : Operation} {s : Session} {k : Key} {m : Commit} {row : Row}
    (h : op.Allows s k m) (hrow : s.table.row? k = some row) (hflag : 0 < row.reaggregate) :
    m.flagColumn row = row.reaggregate ∨
    (op.Flags k ∧ m.flagColumn row = s.now.seconds) ∨
    (op = .runPending k.course ∧ row.reaggregate ≤ s.now.seconds ∧ m.flagColumn row = 0) := by
  have hmax : max row.reaggregate 0 = row.reaggregate := by omega
  cases op with
  | markEnrolled k' time =>
    obtain ⟨-, rfl⟩ := h
    exact .inl hmax
  | markStarted k' time =>
    obtain ⟨-, rfl⟩ := h
    exact .inl hmax
  | markComplete k' time =>
    obtain ⟨-, rfl⟩ := h
    exact .inl hmax
  | aggregate k' =>
    obtain ⟨-, rfl⟩ := h
    exact .inl hmax
  | flag k' =>
    obtain ⟨rfl, rfl⟩ := h
    exact .inr (.inl ⟨.inl rfl, rfl⟩)
  | userEnrolled e =>
    obtain ⟨-, rfl⟩ := h
    exact .inl hmax
  | startUsers course =>
    obtain ⟨_, -, _, _, -, rfl⟩ := h
    exact .inl hmax
  | flagCourse course =>
    obtain ⟨rfl, rfl⟩ := h
    exact .inr (.inl ⟨.inr rfl, rfl⟩)
  | runPending course =>
    obtain ⟨rfl, rfl, row', hrow', -, hdue⟩ := h
    obtain rfl := Option.some.inj (hrow.symm.trans hrow')
    exact .inr (.inr ⟨rfl, hdue, rfl⟩)
  | report user course => exact h.elim

end Operation

/-! ## one call -/

namespace Call

/-- what one call may do to a row that is there -/
def Turns (c : Call) (k : Key) (row row' : Row) : Prop :=
  row' = row ∨
  row.Rewritten row' ∧ (0 < row.reaggregate →
    row'.reaggregate = row.reaggregate ∨
    (c.operation.Flags k ∧ row'.reaggregate = c.scene.now.seconds) ∨
    (c.operation = .runPending k.course ∧ row.reaggregate ≤ c.scene.now.seconds ∧
      row'.reaggregate = 0))

theorem Turns.later {c : Call} {k : Key} {row row' : Row} (h : c.Turns k row row') :
    row.Later row' := by
  rcases h with rfl | ⟨h, -⟩
  · exact .refl _
  · exact h.later

theorem Turns.ordered {c : Call} {k : Key} {row row' : Row} (h : c.Turns k row row')
    (ho : row.Ordered) : row'.Ordered := by
  rcases h with rfl | ⟨h, -⟩
  · exact ho
  · exact h.ordered ho

namespace Step

variable {c : Call} {g g' : Register} {answer : Except ServiceError Reply} {new : List Event}

/-- A row that is there stays, left alone or written over. -/
theorem turns (h : c.Step g answer g' new) {k : Key} {row : Row}
    (hrow : g.table.row? k = some row) :
    ∃ row', g'.table.row? k = some row' ∧ c.Turns k row row' := by
  rcases h.effect k with ⟨hrow', -⟩ | ⟨m, hm, he⟩
  · exact ⟨row, hrow'.trans hrow, .inl rfl⟩
  · rw [hrow] at he
    rcases he.of_some with hrow' | ⟨row', hrow', hw, hflag⟩
    · exact ⟨row, hrow', .inl rfl⟩
    · refine ⟨row', hrow', .inr ⟨hw, fun hpos => ?_⟩⟩
      rw [hflag]
      exact Operation.flag_of_allows hm hrow hpos

/-- A row that is new is an enrolment of the first version. -/
theorem inserts (h : c.Step g answer g' new) {k : Key} {row' : Row}
    (hnone : g.table.row? k = none) (hrow' : g'.table.row? k = some row') :
    row'.version = 1 ∧ 0 < row'.enrolled ∧ row'.Ordered := by
  rcases h.effect k with ⟨hsame, -⟩ | ⟨m, -, he⟩
  · rw [hsame, hnone] at hrow'
    cases hrow'
  · rw [hnone] at he
    rcases he.of_none with hn | ⟨row, hrow, hnew⟩
    · rw [hn] at hrow'
      cases hrow'
    · obtain rfl := Option.some.inj (hrow.symm.trans hrow')
      exact hnew

end Step

end Call

/-! ## runs -/

namespace Register

/-- every row of one register is there in another, at the same time or later -/
def Later (g g' : Register) : Prop :=
  ∀ k row, g.table.row? k = some row → ∃ row', g'.table.row? k = some row' ∧ row.Later row'

/-- in every row the start lies no later than the completion -/
def Ordered (g : Register) : Prop := ∀ k row, g.table.row? k = some row → row.Ordered

theorem Later.step {g₀ g g' : Register} {c : Call} {answer : Except ServiceError Reply}
    {new : List Event} (h : g₀.Later g) (hs : c.Step g answer g' new) : g₀.Later g' := by
  intro k row hrow
  obtain ⟨row₁, hrow₁, hl⟩ := h k row hrow
  obtain ⟨row', hrow', ht⟩ := hs.turns hrow₁
  exact ⟨row', hrow', hl.trans ht.later⟩

theorem Ordered.step {g g' : Register} {c : Call} {answer : Except ServiceError Reply}
    {new : List Event} (h : g.Ordered) (hs : c.Step g answer g' new) : g'.Ordered := by
  intro k row' hrow'
  cases hrow : g.table.row? k with
  | none => exact (hs.inserts hrow hrow').2.2
  | some row =>
    obtain ⟨row₁, hrow₁, ht⟩ := hs.turns hrow
    obtain rfl := Option.some.inj (hrow₁.symm.trans hrow')
    exact ht.ordered (h k row hrow)

theorem later_after {g : Register} (hv : g.table.Valid) {calls : List Call}
    (hclock : ∀ c ∈ calls, c.scene.now.IsKnown) :
    (g.after calls).table.Valid ∧ g.Later (g.after calls) :=
  after_of_step (fun _ _ _ _ _ _ h hs => h.step hs) hv
    (fun _ row hrow => ⟨row, hrow, .refl row⟩) hclock

theorem ordered_after {g : Register} (hv : g.table.Valid) (h : g.Ordered) {calls : List Call}
    (hclock : ∀ c ∈ calls, c.scene.now.IsKnown) : (g.after calls).Ordered :=
  (after_of_step (fun _ _ _ _ _ _ h hs => h.step hs) hv h hclock).2

end Register

/-- **The life of a row.**  Whatever calls are made one after the other, and however the other
tables change between them: a row that is there at any moment is there ever after, with its number
and what was set in it; each call leaves it or writes it over once, under the next version; a row
that is new is an enrolment of version `1`; and the starts keep to the completions if they did at
first. -/
theorem rows_live_on (snapshot : Snapshot) (locking : Bool) (before : List Call) (c : Call)
    (rest : List Call) (hclock : ∀ x ∈ before ++ c :: rest, x.scene.now.IsKnown) :
    let start := Register.start snapshot locking
    let g := start.after before
    let g' := (c.run g).2
    (∀ k row, g.table.row? k = some row →
      (∃ row', g'.table.row? k = some row' ∧ c.Turns k row row') ∧
      ∃ last, (start.after (before ++ c :: rest)).table.row? k = some last ∧ row.Later last) ∧
    (∀ k row', g.table.row? k = none → g'.table.row? k = some row' →
      row'.version = 1 ∧ 0 < row'.enrolled) ∧
    (start.Ordered → (start.after (before ++ c :: rest)).Ordered) := by
  intro start g g'
  have hv : start.table.Valid := Register.valid_start snapshot locking
  have hbefore : ∀ x ∈ before, x.scene.now.IsKnown := fun x hx =>
    hclock x (List.mem_append_left _ hx)
  have hrest : ∀ x ∈ c :: rest, x.scene.now.IsKnown := fun x hx =>
    hclock x (List.mem_append_right _ hx)
  have hg : g.table.Valid := (Register.later_after hv hbefore).1
  obtain ⟨new, hs⟩ := c.step (hrest c List.mem_cons_self) hg
  have happend : start.after (before ++ c :: rest) = g.after (c :: rest) := List.foldl_append
  refine ⟨fun k row hrow => ⟨hs.turns hrow, ?_⟩, fun k row' hnone hrow' => ?_, fun ho => ?_⟩
  · rw [happend]
    exact (Register.later_after hg hrest).2 k row hrow
  · obtain ⟨hversion, henrolled, -⟩ := hs.inserts hnone hrow'
    exact ⟨hversion, henrolled⟩
  · exact Register.ordered_after hv ho hclock

/-- a completion before the start takes its place, in the very row that was there -/
theorem completion_takes_place_of_start :
    let row : Row := ⟨5, 3, 7, 0, 300, 0, 0, 4⟩
    let snapshot : Snapshot := { Snapshot.empty with completions := [row] }
    let c : Call := ⟨.markComplete ⟨3, 7⟩ (some ⟨250, 8, by decide, by decide⟩),
      ⟨.empty true, ⟨400, 0, by decide, by decide⟩, []⟩⟩
    ∃ last, ((Register.start snapshot true).after [c]).table.row? ⟨3, 7⟩ = some last ∧
      row.Later last ∧ last.started = 250 ∧ last.version = 5 := by
  intro row snapshot c
  obtain ⟨last, hlast, hlater⟩ :=
    ((rows_live_on snapshot true [] c [] (by decide)).1 ⟨3, 7⟩ row (by decide)).2
  have hrow : ((Register.start snapshot true).after [c]).table.row? ⟨3, 7⟩ =
      some ⟨5, 3, 7, 0, 250, 250, 0, 5⟩ := by decide
  obtain rfl := Option.some.inj (hrow.symm.trans hlast)
  exact ⟨_, hlast, hlater, rfl, rfl⟩

end CourseCompletion
