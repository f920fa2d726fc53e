import CourseCompletion.Proofs.Respect

/-!
# The memory of settings does not show

A service remembers the settings that it looked up.  As long as these stay what the store has, the
memory cannot be told from an empty one:

* `Session.Faithful`           all that is remembered is what the store has;
* `Session.Recalls`            two sessions that differ in a faithful memory only, which is a
                               congruence (`Session.Recalls.congruence`);
* `Session.after`              a session after some turns, each a request, a clearing of the
                               memory, a change of the store or of the clock;
* `Session.Steady`             no change of the store touches settings that are remembered.

The memory is faithful after any steady turns (`Session.faithful_after`), so the next request goes
as it would with nothing remembered (`memory_does_not_show`).
-/

namespace CourseCompletion

/-! ## what is remembered -/

namespace Session

/-- all settings that are remembered are those that the store has -/
def Faithful (s : Session) : Prop :=
  ∀ course settings, remembered? course s.remembered = some settings →
    s.store.settings? course = some settings

namespace Faithful

variable {s : Session}

theorem of_nil (h : s.remembered = []) : s.Faithful := by
  intro course settings hmem
  rw [h] at hmem
  cases hmem

/-- Settings are found as the store has them, whether they are remembered or not. -/
theorem settings?_eq (h : s.Faithful) (course : Int) :
    s.settings? course = s.store.settings? course := by
  unfold Session.settings?
  cases hmem : remembered? course s.remembered with
  | none => rfl
  | some settings => exact (h course settings hmem).symm

theorem lookedUp (h : s.Faithful) (course : Int) : (s.lookedUp course).Faithful := by
  intro course' settings hmem
  show s.store.settings? course' = some settings
  have hmem' : remembered? course' (s.recalled course) = some settings := hmem
  unfold recalled at hmem'
  cases hold : remembered? course s.remembered with
  | some old =>
    rw [hold] at hmem'
    exact h course' settings hmem'
  | none =>
    cases hstore : s.store.settings? course with
    | none =>
      rw [hold, hstore] at hmem'
      exact h course' settings hmem'
    | some found =>
      rw [hold, hstore] at hmem'
      have hnew : (if course' = course then some found else remembered? course' s.remembered) =
          some settings := (remembered?_remember _ _ _ _).symm.trans hmem'
      by_cases hc : course' = course
      · rw [if_pos hc] at hnew
        rw [hc, hstore]
        exact hnew
      · rw [if_neg hc] at hnew
        exact h course' settings hnew

end Faithful

/-! ## sessions that differ in their memory -/

/-- two calm sessions that differ in what they remember only, and remember what the store has -/
structure Recalls (s s' : Session) : Prop where
  calm : s.Calm
  differ : ∃ memory, s' = s.withMemory memory
  faithful : s.Faithful
  faithful' : s'.Faithful

namespace Recalls

variable {s s' : Session}

theorem refl (hs : s.Calm) (hf : s.Faithful) : s.Recalls s :=
  ⟨hs, ⟨s.remembered, rfl⟩, hf, hf⟩

theorem calm' (h : s.Recalls s') : s'.Calm := by
  obtain ⟨memory, rfl⟩ := h.differ
  exact h.calm

theorem store (h : s.Recalls s') : s.store = s'.store := by
  obtain ⟨memory, rfl⟩ := h.differ
  rfl

/-- Two sessions that differ in their memory write the same. -/
theorem withTable (h : s.Recalls s') (t : CompletionTable) :
    (s.withTable t).Recalls (s'.withTable t) := by
  obtain ⟨memory, rfl⟩ := h.differ
  exact ⟨h.calm, ⟨memory, rfl⟩, h.faithful, h.faithful'⟩

/-- **A faithful memory shows in nothing that an operation does.** -/
theorem congruence : Congruence Recalls where
  calm := Recalls.calm
  calm' := Recalls.calm'
  now h := by
    obtain ⟨memory, rfl⟩ := h.differ
    rfl
  answers h := by
    rw [h.store]
    exact .refl _
  settings? h course := by
    rw [h.faithful.settings?_eq, h.faithful'.settings?_eq, h.store]
  lookedUp h course := by
    refine ⟨h.calm, ?_, h.faithful.lookedUp course, h.faithful'.lookedUp course⟩
    obtain ⟨memory, rfl⟩ := h.differ
    exact ⟨_, rfl⟩
  save {s s'} h w := by
    have htable : s'.table = s.table := congrArg Store.completions h.store.symm
    rw [htable]
    cases hsave : s.table.save w with
    | error e => exact .inl ⟨e, rfl, rfl⟩
    | ok p => exact .inr ⟨p.1, p.2, p.2, rfl, rfl, h.withTable p.2⟩
  published h e := by
    obtain ⟨memory, rfl⟩ := h.differ
    exact ⟨h.calm, ⟨memory, rfl⟩, h.faithful, h.faithful'⟩
  announced h c := by
    obtain ⟨memory, rfl⟩ := h.differ
    exact ⟨h.calm, ⟨memory, rfl⟩, h.faithful, h.faithful'⟩

end Recalls

end Session

/-! ## turns -/

/-- What can happen to a session next. -/
inductive Turn where
  | request (q : Request)
  | clear
  | change (store : Store)
  | clock (now : Instant)

namespace Turn

def next : Turn → Session → Session
  | request q, s => (q.action.run s).2
  | clear, s => (Action.forgetAll.run s).2
  | change store, s => { s with store }
  | clock now, s => { s with now }

/-- the turn does not change the settings of a course that is remembered -/
def IsSteady (s : Session) : Turn → Prop
  | change store => ∀ course, (remembered? course s.remembered).isSome →
      store.settings? course = s.store.settings? course
  | _ => True

/-- What one turn keeps. -/
theorem faithful_next {t : Turn} {s : Session} (hs : s.Calm) (hf : s.Faithful)
    (ht : t.IsSteady s) : (t.next s).Calm ∧ (t.next s).Faithful := by
  cases t with
  | request q =>
    have hafter := (q.respects Session.Recalls.congruence (Session.Recalls.refl hs hf)).2
    exact ⟨hafter.calm, hafter.faithful⟩
  | clear => exact ⟨hs, .of_nil rfl⟩
  | change store =>
    refine ⟨hs, fun course settings hmem => ?_⟩
    have hmem' : remembered? course s.remembered = some settings := hmem
    have hsame := ht course (by rw [hmem']; rfl)
    exact hsame.trans (hf course settings hmem')
  | clock now => exact ⟨hs, hf⟩

end Turn

namespace Session

def after (s : Session) (turns : List Turn) : Session := turns.foldl (fun s t => t.next s) s

/-- no turn changes the settings of a course that is remembered when its time comes -/
def Steady (s : Session) : List Turn → Prop
  | [] => True
  | t :: turns => t.IsSteady s ∧ (t.next s).Steady turns

/-- **What is remembered is what the store has**, after any steady turns. -/
theorem faithful_after {s : Session} (hs : s.Calm) (hf : s.Faithful) {turns : List Turn}
    (h : s.Steady turns) : (s.after turns).Calm ∧ (s.after turns).Faithful := by
  induction turns generalizing s with
  | nil => exact ⟨hs, hf⟩
  | cons t turns ih =>
    obtain ⟨ht, hrest⟩ := h
    obtain ⟨hs', hf'⟩ := Turn.faithful_next hs hf ht
    exact ih hs' hf' hrest

end Session

/-- **The memory of settings does not show.**  From a service that remembers nothing, whatever was
asked of it, and however the clock and the store changed on the way, but for the settings that it
remembered: the next request has the same answer, leaves the same store and publishes the same
events as if nothing were remembered, and settings are found as the store has them now. -/
theorem memory_does_not_show {s : Session} (hs : s.Calm) (hm : s.remembered = [])
    {turns : List Turn} (h : s.Steady turns) (q : Request) :
    let g := s.after turns
    let fresh := g.withMemory []
    (q.action.run g).1 = (q.action.run fresh).1 ∧
    (q.action.run g).2.store = (q.action.run fresh).2.store ∧
    (q.action.run g).2.published = (q.action.run fresh).2.published ∧
    ∀ course, ((Action.tracking? course).run g).1 =
      .ok ((g.store.settings? course).filter TrackingSettings.enabled) := by
  intro g fresh
  obtain ⟨hcalm, hfaithful⟩ := Session.faithful_after hs (.of_nil hm) h
  have hrecalls : g.Recalls fresh := ⟨hcalm, ⟨[], rfl⟩, hfaithful, .of_nil rfl⟩
  obtain ⟨hanswer, hafter⟩ := q.respects Session.Recalls.congruence hrecalls
  obtain ⟨memory, hdiffer⟩ := hafter.differ
  refine ⟨hanswer, hafter.store, ?_, fun course => ?_⟩
  · rw [hdiffer]
    rfl
  · rw [Action.tracking?_run hcalm]
    unfold Session.tracking?
    rw [hfaithful.settings?_eq]

/-- a course without settings at first: the enrolment is ignored, and counts once they are there -/
theorem settings_added_later_are_seen :
    let empty : Store :=
      { Store.empty true with courses := [⟨7, "c", "course"⟩], users := [⟨3, "u"⟩] }
    let settings : TrackingSettings := ⟨true, .all, true⟩
    let s : Session := .start empty ⟨900, 0, by decide, by decide⟩
    let q : Request := .operation (.userEnrolled ⟨3, 7, none⟩)
    let g := s.after [.request q, .change (empty.setSettings ⟨7, settings⟩)]
    (q.action.run s).1 = .ok (.reply (.enrolment (.ignored .completionDisabled))) ∧
    ((Action.tracking? 7).run g).1 = .ok (some settings) ∧
    (q.action.run g).1 = (q.action.run (g.withMemory [])).1 := by
  intro empty settings s q g
  have hsteady : s.Steady [.request q, .change (empty.setSettings ⟨7, settings⟩)] := by
    refine ⟨trivial, fun course hsome => ?_, trivial⟩
    have hnothing : ((Turn.request q).next s).remembered = [] := by decide
    rw [hnothing] at hsome
    cases hsome
  obtain ⟨hanswer, -, -, htracking⟩ := memory_does_not_show (s := s) rfl rfl hsteady q
  refine ⟨by decide, (htracking 7).trans (by decide), hanswer⟩

end CourseCompletion
