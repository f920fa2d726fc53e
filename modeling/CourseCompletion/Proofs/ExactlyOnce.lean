import CourseCompletion.Proofs.Register

/-!
# Completions are published exactly once

`Register.Told` is what holds between a register and the one that a run started from: a completion
was published for the keys whose rows became complete, and for no other, and it tells what the row
holds.  Whatever happens to the register keeps it (`Told.step`).
-/

namespace CourseCompletion

/-- there is a row under a key, and it is complete -/
def CompletionTable.isComplete (t : CompletionTable) (k : Key) : Bool :=
  (t.row? k).any Row.isComplete

/-- the completions to be told of a key from one table to another: one if its row became complete,
else none -/
def CompletionTable.earned (t t' : CompletionTable) (k : Key) : Nat :=
  if t.isComplete k = false ∧ t'.isComplete k = true then 1 else 0

theorem CompletionTable.eq_earned {t t' : CompletionTable} {k : Key} {n : Nat}
    (h : (t'.isComplete k).toNat = (t.isComplete k).toNat + n) : n = t.earned t' k := by
  unfold earned
  revert h
  cases t.isComplete k <;> cases t'.isComplete k <;> simp +arith
  all_goals omega

/-- what a completion tells is what the row under its key holds -/
def CompletionTable.Holds (t : CompletionTable) (c : Completion) : Prop :=
  ∃ row, t.row? c.key = some row ∧ 0 < row.completed ∧ row.completed = c.completed.seconds

namespace Register

/-- what was published since another register is what became complete since -/
structure Told (g₀ g : Register) : Prop where
  count : ∀ k, (g.table.isComplete k).toNat =
    (g₀.table.isComplete k).toNat + (completionsOf k g.published).length
  holds : ∀ c ∈ completionsIn g.published, g.table.Holds c

theorem told_self {g : Register} (h : g.published = []) : g.Told g := by
  refine ⟨fun k => ?_, fun c hc => ?_⟩
  · rw [h]
    rfl
  · rw [h] at hc
    cases hc

end Register

namespace Register.Step

variable {now : Instant} {allowed : Key → Commit → Prop} {g g' : Register} {new : List Event}

/-- A completion is published for each key whose row becomes complete. -/
theorem count (h : g.Step now allowed g' new) (k : Key) :
    (g'.table.isComplete k).toNat =
      (g.table.isComplete k).toNat + (completionsOf k new).length := by
  unfold CompletionTable.isComplete
  rcases h.effect k with ⟨hrow, hnew⟩ | ⟨m, -, he⟩
  · rw [hrow, hnew]
    rfl
  · exact he.count

/-- A completion that is published is about a key that a commit was allowed for, of its time, and
tells what the row holds. -/
theorem completion (h : g.Step now allowed g' new) {x : Completion} (hx : x ∈ completionsIn new) :
    (∃ m, allowed x.key m) ∧ x.occurred = now ∧ g'.table.Holds x := by
  have hk : x ∈ completionsOf x.key new := mem_completionsOf.2 ⟨hx, rfl⟩
  rcases h.effect x.key with ⟨-, hnew⟩ | ⟨m, hm, he⟩
  · rw [hnew] at hk
    cases hk
  · exact ⟨⟨m, hm⟩, (he.completion hk).2⟩

/-- What a row holds about a completion stays. -/
theorem holds (h : g.Step now allowed g' new) {x : Completion} (hx : g.table.Holds x) :
    g'.table.Holds x := by
  obtain ⟨row, hrow, hpos, heq⟩ := hx
  rcases h.effect x.key with ⟨hrow', -⟩ | ⟨m, -, he⟩
  · exact ⟨row, hrow'.trans hrow, hpos, heq⟩
  · rw [hrow] at he
    rcases he.of_some with hrow' | ⟨row', hrow', hw, -⟩
    · exact ⟨row, hrow', hpos, heq⟩
    · exact ⟨row', hrow', by rw [hw.completed hpos]; exact hpos, (hw.completed hpos).trans heq⟩

end Register.Step

/-- What was published stays what became complete. -/
theorem Register.Told.step {g₀ g g' : Register} {now : Instant} {allowed : Key → Commit → Prop}
    {new : List Event} (h : g₀.Told g) (hs : g.Step now allowed g' new) : g₀.Told g' := by
  refine ⟨fun k => ?_, fun x hx => ?_⟩
  · rw [hs.published, completionsOf_append, List.length_append, hs.count k, h.count k,
      Nat.add_assoc]
  · rw [hs.published, completionsIn_append] at hx
    rcases List.mem_append.1 hx with hx | hx
    · exact hs.holds (h.holds x hx)
    · exact (hs.completion hx).2.2

theorem Register.told_after {g : Register} (hv : g.table.Valid) (hp : g.published = [])
    {calls : List Call} (hclock : ∀ c ∈ calls, c.scene.now.IsKnown) :
    (g.after calls).table.Valid ∧ g.Told (g.after calls) :=
  Register.after_of_step (fun _ _ _ _ _ _ h hs => h.step hs.toStep) hv (Register.told_self hp)
    hclock

/-- **Completions are published exactly once.**  Whatever calls are made one after the other, and
however the other tables change between them, one completion is published for a key whose row was
absent or incomplete at the start and is complete at the end, and none for any other; it tells the
second that the row holds.  Every call publishes as many completions as it answers, one for each row
that becomes complete in it, at its own time. -/
theorem completions_published_exactly_once (snapshot : Snapshot) (locking : Bool)
    (calls : List Call) (hclock : ∀ c ∈ calls, c.scene.now.IsKnown) :
    let start := Register.start snapshot locking
    (∀ k, (completionsOf k (start.after calls).published).length =
      start.table.earned (start.after calls).table k) ∧
    (∀ x ∈ completionsIn (start.after calls).published, (start.after calls).table.Holds x) ∧
    ∀ before c rest, calls = before ++ c :: rest →
      let g := start.after before
      let g' := (c.run g).2
      ∃ new, g'.published = g.published ++ new ∧
        (completionsIn new).length = Call.told (c.run g).1 ∧
        (∀ k, (completionsOf k new).length = g.table.earned g'.table k) ∧
        ∀ x ∈ completionsIn new,
          c.operation.Concerns x.key ∧ x.occurred = c.scene.now ∧ g'.table.Holds x := by
  intro start
  have hv : start.table.Valid := Register.valid_start snapshot locking
  have htold := (Register.told_after hv rfl hclock).2
  refine ⟨fun k => CompletionTable.eq_earned (htold.count k), htold.holds, ?_⟩
  intro before c rest hcalls g g'
  have hbefore : ∀ x ∈ before, x.scene.now.IsKnown := by
    intro x hx
    exact hclock x (by rw [hcalls]; exact List.mem_append_left _ hx)
  have hc : c.scene.now.IsKnown := hclock c (by rw [hcalls]; simp)
  obtain ⟨new, hs⟩ := c.step hc (Register.told_after hv rfl hbefore).1
  refine ⟨new, hs.published, hs.told, fun k => CompletionTable.eq_earned (hs.toStep.count k),
    fun x hx => ?_⟩
  obtain ⟨⟨m, hm⟩, hoccurred, hholds⟩ := hs.toStep.completion hx
  exact ⟨hm.concerns, hoccurred, hholds⟩

/-- two calls that complete a course for one user: the second publishes nothing -/
theorem completed_twice_published_once :
    let call (now : Instant) : Call :=
      ⟨.markComplete ⟨3, 7⟩ none, ⟨.empty true, now, []⟩⟩
    let calls : List Call :=
      [call ⟨100, 5, by decide, by decide⟩, call ⟨200, 0, by decide, by decide⟩]
    (completionsOf ⟨3, 7⟩ ((Register.start .empty true).after calls).published).length = 1 := by
  intro call calls
  have h := (completions_published_exactly_once .empty true calls (by decide)).1 ⟨3, 7⟩
  exact h.trans (by decide)

end CourseCompletion
