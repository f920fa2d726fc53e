import CourseCompletion.Command.Run
import CourseCompletion.Proofs.Respect
import CourseCompletion.Proofs.Same

/-!
# Operations on stores that hold the same entries

An action `Agrees` when it answers the same, and leaves the same entries, on any two calm sessions
that are `Session.Alike`: their stores hold the same entries, whatever their order.  What was
published does not matter.

To be alike is a congruence (`Session.Alike.congruence`), so every command agrees
(`Command.agrees`).
-/

namespace CourseCompletion

/-! ## sessions -/

/-- two calm sessions at one time, with the same memory, on stores that hold the same entries -/
structure Session.Alike (s s' : Session) : Prop where
  calm : s.Calm
  calm' : s'.Calm
  now : s.now = s'.now
  remembered : s.remembered = s'.remembered
  store : s.store.Same s'.store

namespace Session.Alike

variable {s s' : Session}

theorem table (h : s.Alike s') : s.table.Same s'.table := h.store.completions

theorem withMemory (h : s.Alike s') (memory : List CourseSettings) :
    (s.withMemory memory).Alike (s'.withMemory memory) :=
  ⟨h.calm, h.calm', h.now, rfl, h.store⟩

theorem settings? (h : s.Alike s') (course : Int) : s.settings? course = s'.settings? course := by
  unfold Session.settings?
  rw [h.remembered, h.store.settings?]

theorem lookedUp (h : s.Alike s') (course : Int) :
    (s.lookedUp course).Alike (s'.lookedUp course) := by
  unfold Session.lookedUp Session.recalled
  rw [h.remembered, h.store.settings?]
  exact h.withMemory _

/-- A table written to both leaves them alike. -/
theorem withTable (h : s.Alike s') {t t' : CompletionTable} (ht : t.Same t') :
    (s.withTable t).Alike (s'.withTable t') where
  calm := h.calm
  calm' := h.calm'
  now := h.now
  remembered := h.remembered
  store :=
    { valid := { h.store.valid with completions := ht.valid }
      courses := h.store.courses
      users := h.store.users
      settings := h.store.settings
      criteria := h.store.criteria
      methods := h.store.methods
      marks := h.store.marks
      windows := h.store.windows
      completions := ht }

/-- What an operation does respects that two sessions are alike. -/
theorem congruence : Session.Congruence Session.Alike where
  calm := Session.Alike.calm
  calm' := Session.Alike.calm'
  now := Session.Alike.now
  answers h := h.store.answersAs
  settings? h course := h.settings? course
  lookedUp h course := h.lookedUp course
  save h w := by
    rcases h.table.save w with hrefused | ⟨saved, t, t', hs, hs', ht⟩
    · exact .inl hrefused
    · exact .inr ⟨saved, t, t', hs, hs', h.withTable ht⟩
  published h _ := ⟨h.calm, h.calm', h.now, h.remembered, h.store⟩
  announced h _ := ⟨h.calm, h.calm', h.now, h.remembered, h.store⟩

end Session.Alike

/-! ## actions -/

namespace Action

/-- the action answers the same, and leaves the same entries, on sessions that are alike -/
def Agrees {ε α : Type} (x : ExceptT ε (StateM Session) α) : Prop :=
  ∀ ⦃s s' : Session⦄, s.Alike s' →
    (x.run s).1 = (x.run s').1 ∧ (x.run s).2.Alike (x.run s').2

end Action

/-! ## commands -/

namespace Command

/-- the action of a command that carries a time, if it is one -/
theorem exists_of_time {time : Option Int} {f : Option Instant → Action Answer}
    {action : Action Answer}
    (h : instant? time >>= (fun t => return f t) = (.ok action : Except CommandError _)) :
    ∃ t, action = f t := by
  cases ht : instant? time with
  | error e => rw [ht] at h; cases h
  | ok t =>
    rw [ht] at h
    exact ⟨t, (Except.ok.inj h).symm⟩

theorem agrees_action {c : Command} {action : Action Answer} (h : c.action = .ok action) :
    Action.Agrees action := by
  have hR := Session.Alike.congruence
  show Action.Respects Session.Alike action
  cases c with
  | enrol k t =>
    obtain ⟨starts, rfl⟩ := exists_of_time h
    exact .map _ (Action.respects_userEnrolled hR _)
  | start k t =>
    obtain ⟨time, rfl⟩ := exists_of_time h
    exact .map _ (Action.respects_markStarted hR k time)
  | complete k t =>
    obtain ⟨time, rfl⟩ := exists_of_time h
    exact .map _ (Action.respects_markComplete hR k time)
  | aggregate k =>
    obtain rfl := Except.ok.inj h
    exact .map _ (Action.respects_aggregate hR k)
  | bulkStart course =>
    obtain rfl := Except.ok.inj h
    exact .map _ (Action.respects_startUsers hR course)
  | reaggregate course all =>
    obtain rfl := Except.ok.inj h
    have hsweep : ∀ flagged, Action.Respects Session.Alike
        (do return Answer.sweep flagged (← Action.runPending course) : Action Answer) :=
      fun flagged => (Action.respects_runPending hR course).bind fun _ => .pure _
    unfold reaggregation
    cases all with
    | true => exact (Action.respects_flagCourse hR course).bind hsweep
    | false => exact hsweep 0
  | report user course =>
    obtain rfl := Except.ok.inj h
    exact .map _ (Action.respects_report hR user course)
  | showRecord k =>
    obtain rfl := Except.ok.inj h
    refine (Action.respects_get? hR k).bind fun found => ?_
    cases found with
    | none => exact .throw _
    | some r => exact .pure _

/-- **A command answers the same** at one time on stores that hold the same entries, and leaves them
so, whatever was remembered before. -/
theorem agrees (c : Command) {s s' : Session} (hs : s.Calm) (hs' : s'.Calm) (hnow : s.now = s'.now)
    (hstore : s.store.Same s'.store) :
    (c.run s).1 = (c.run s').1 ∧ (c.run s).2.store.Same (c.run s').2.store := by
  unfold run
  cases ha : c.action with
  | error e => exact ⟨rfl, hstore⟩
  | ok action =>
    have halike : (s.withMemory []).Alike (s'.withMemory []) := ⟨hs, hs', hnow, rfl, hstore⟩
    obtain ⟨hanswer, hafter⟩ := agrees_action ha halike
    exact ⟨congrArg (Except.mapError CommandError.service) hanswer, hafter.store⟩

end Command

end CourseCompletion
