import CourseCompletion.Proofs.Operations

/-!
# Runs of calls

A `Register` is what calls of services leave to each other: the table of completions and the events
that were published.  A `Call` is an operation in a `Scene`, which is all that it finds besides.

* `Call.run`            the answer to a call, and the register that it leaves;
* `Register.after`      the register after some calls, one after the other;
* `Call.step`           what one call does to the register.

As the scenes of calls need have nothing in common, the other tables may change in any way from one
call to the next.
-/

namespace CourseCompletion

structure Register where
  table : CompletionTable
  published : List Event
deriving DecidableEq

/-- What a call finds besides the register: the other tables (the store's own table of completions
does not count), the clock, and the settings that its service remembers. -/
structure Scene where
  store : Store
  now : Instant
  remembered : List CourseSettings
deriving DecidableEq

structure Call where
  operation : Operation
  scene : Scene
deriving DecidableEq

namespace Register

/-- the register of a store that a snapshot fills, with nothing published -/
def start (snapshot : Snapshot) (locking : Bool) : Register :=
  ⟨(Store.ofSnapshot snapshot locking).completions, []⟩

/-- a session on the register, in a scene -/
def enter (g : Register) (scene : Scene) : Session where
  store := { scene.store with completions := g.table }
  now := scene.now
  outages := []
  remembered := scene.remembered
  published := g.published

def ofSession (s : Session) : Register := ⟨s.table, s.published⟩

end Register

namespace Call

/-- the answer to a call, and the register that it leaves -/
def run (c : Call) (g : Register) : Except ServiceError Reply × Register :=
  let (answer, s) := c.operation.action.run (g.enter c.scene)
  (answer, .ofSession s)

end Call

namespace Register

def after (g : Register) (calls : List Call) : Register := calls.foldl (fun g c => (c.run g).2) g

theorem after_cons (g : Register) (c : Call) (calls : List Call) :
    g.after (c :: calls) = (c.run g).2.after calls := rfl

theorem valid_start (snapshot : Snapshot) (locking : Bool) : (start snapshot locking).table.Valid :=
  CompletionTable.valid_ofRows _ _

end Register

/-! ## steps -/

/-- what may happen to the register at a time: to every key nothing or one commit that is allowed,
with the completions that belong to it -/
structure Register.Step (g : Register) (now : Instant) (allowed : Key → Commit → Prop)
    (g' : Register) (new : List Event) : Prop where
  locking : g'.table.locking = g.table.locking
  valid : g'.table.Valid
  published : g'.published = g.published ++ new
  effect : ∀ k,
    (g'.table.row? k = g.table.row? k ∧ completionsOf k new = []) ∨
    ∃ m, allowed k m ∧
      m.Effect now k (g.table.row? k) (g'.table.row? k) (completionsOf k new)

theorem Register.Step.of_works {g : Register} {scene : Scene} {allowed : Key → Commit → Prop}
    {s' : Session} {new : List Event} (hv : g.table.Valid) (hnow : scene.now.IsKnown)
    (h : (g.enter scene).Works allowed s' new) : g.Step scene.now allowed (.ofSession s') new :=
  ⟨h.locking, h.valid hv, h.published, h.effect hnow⟩

namespace Call

/-- the completions that the answer to a call tells of: none if it failed -/
def told (answer : Except ServiceError Reply) : Nat :=
  (answer.toOption.map Reply.completions).getD 0

/-- What a call does to the register: commits that its operation allows, and it publishes as many
completions as its answer tells of. -/
structure Step (c : Call) (g : Register) (answer : Except ServiceError Reply) (g' : Register)
    (new : List Event) : Prop
    extends g.Step c.scene.now (c.operation.Allows (g.enter c.scene)) g' new where
  told : (completionsIn new).length = told answer

theorem step (c : Call) (hc : c.scene.now.IsKnown) {g : Register} (hv : g.table.Valid) :
    ∃ new, c.Step g (c.run g).1 (c.run g).2 new := by
  obtain ⟨answer, s', new, hrun, hw, hn, -⟩ := c.operation.performs (s := g.enter c.scene) rfl hv
  have hrun' : c.run g = (answer, .ofSession s') := by
    unfold run
    rw [hrun]
  rw [hrun']
  exact ⟨new, .of_works hv hc hw, hn⟩

end Call

/-! ## runs -/

/-- **What every call of a run preserves, the whole run preserves.** -/
theorem Register.after_of_step {P : Register → Prop}
    (hstep : ∀ (c : Call) (g : Register) (new : List Event) (answer : Except ServiceError Reply)
      (g' : Register), g.table.Valid → P g → c.Step g answer g' new → P g')
    {g : Register} (hv : g.table.Valid) (hg : P g) {calls : List Call}
    (hclock : ∀ c ∈ calls, c.scene.now.IsKnown) :
    (g.after calls).table.Valid ∧ P (g.after calls) := by
  induction calls generalizing g with
  | nil => exact ⟨hv, hg⟩
  | cons c calls ih =>
    obtain ⟨new, hs⟩ := c.step (hclock c List.mem_cons_self) hv
    rw [after_cons]
    exact ih hs.valid (hstep c g new _ _ hv hg hs) fun x hx => hclock x (List.mem_cons_of_mem _ hx)

end CourseCompletion
