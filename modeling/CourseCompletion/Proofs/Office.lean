import CourseCompletion.Office
import CourseCompletion.Proofs.Memory

/-!
# Desks do not show

Each desk of an office remembers settings of its own, and an operation at one desk leaves what the
others remember.  As operations do not change the settings that the store has, nothing that a desk
remembers grows old by them:

* `Office.StandsFor`    an office and a session that differ in what is remembered only;
* `Office.attend`, `Session.attend`   requests one after the other, at desks and in one session.

Whichever desks are asked, an office answers as the session does, and leaves the same
(`Office.desks_do_not_show`).
-/

namespace CourseCompletion

/-! ## the settings of the store -/

/-- Two sessions that differ in a faithful memory only, with the settings of a store. -/
def Session.RecallsOn (store : Store) (s s' : Session) : Prop :=
  s.Recalls s' ∧ ∀ course, s.store.settings? course = store.settings? course

/-- Nothing that an operation does changes the settings of the store. -/
theorem Session.RecallsOn.congruence (store : Store) : Congruence (RecallsOn store) where
  calm h := h.1.calm
  calm' h := h.1.calm'
  now h := Recalls.congruence.now h.1
  answers h := Recalls.congruence.answers h.1
  settings? h := Recalls.congruence.settings? h.1
  lookedUp h course := ⟨Recalls.congruence.lookedUp h.1 course, h.2⟩
  save h w := by
    rcases Recalls.congruence.save h.1 w with he | ⟨saved, t, t', hs, hs', ht⟩
    · exact .inl he
    · exact .inr ⟨saved, t, t', hs, hs', ht, h.2⟩
  published h e := ⟨Recalls.congruence.published h.1 e, h.2⟩
  announced h c := ⟨Recalls.congruence.announced h.1 c, h.2⟩

/-! ## offices and sessions -/

/-- requests one after the other in one session: what they answer, and the session they leave -/
def Session.attend : Session → List Request → List (Except ServiceError Response) × Session
  | s, [] => ([], s)
  | s, q :: qs =>
    let (answer, s) := q.action.run s
    let (answers, s) := s.attend qs
    (answer :: answers, s)

namespace Office

/-- requests one after the other, each at a desk: what they answer, and the office they leave -/
def attend : Office → List (Desk × Request) → List (Except ServiceError Response) × Office
  | o, [] => ([], o)
  | o, (d, q) :: turns =>
    let (answer, o) := o.run d q.action
    let (answers, o) := o.attend turns
    (answer :: answers, o)

/-- the session that a desk works on -/
def atDesk (o : Office) (d : Desk) : Session := o.session.withMemory (o.memory d)

/-- at every desk there is the session, with a memory that does not show -/
def StandsFor (o : Office) (s : Session) : Prop := ∀ d, (o.atDesk d).Recalls s

theorem standsFor_start (store : Store) (now : Instant) :
    (start store now).StandsFor (.start store now) :=
  fun _ => .refl rfl (.of_nil rfl)

/-- A request at a desk has the answer that it has in the session, and the office goes on to stand
for what the session becomes. -/
theorem run_standsFor {o : Office} {s : Session} (h : o.StandsFor s) (d : Desk) (q : Request) :
    (o.run d q.action).1 = (q.action.run s).1 ∧
      (o.run d q.action).2.StandsFor (q.action.run s).2 := by
  obtain ⟨hanswer, hafter, hsettings⟩ :=
    q.respects (Session.RecallsOn.congruence o.session.store) ⟨h d, fun _ => rfl⟩
  refine ⟨hanswer, fun e => ?_⟩
  by_cases he : e = d
  · -- this desk remembers what the request has left it
    subst he
    have hdesk : (o.run e q.action).2.atDesk e = (q.action.run (o.atDesk e)).2 := by
      show (q.action.run (o.atDesk e)).2.withMemory (if e = e then _ else _) = _
      rw [if_pos rfl]
      rfl
    rw [hdesk]
    exact hafter
  · -- the others remember what they did, which the store still has
    have hdesk : (o.run d q.action).2.atDesk e =
        (q.action.run (o.atDesk d)).2.withMemory (o.memory e) := by
      show (q.action.run (o.atDesk d)).2.withMemory (if e = d then _ else _) = _
      rw [if_neg he]
    rw [hdesk]
    obtain ⟨memory, hdiffer⟩ := hafter.differ
    refine ⟨hafter.calm, ⟨memory, by rw [hdiffer]; rfl⟩, fun course settings hmem => ?_,
      hafter.faithful'⟩
    exact (hsettings course).trans ((h e).faithful course settings hmem)

/-- **Desks do not show.**  Requests that are put to the desks of an office one after the other have
the answers that they have in one session, and leave what they leave there. -/
theorem desks_do_not_show {o : Office} {s : Session} (h : o.StandsFor s)
    (turns : List (Desk × Request)) :
    (o.attend turns).1 = (s.attend (turns.map Prod.snd)).1 ∧
      (o.attend turns).2.StandsFor (s.attend (turns.map Prod.snd)).2 := by
  induction turns generalizing o s with
  | nil => exact ⟨rfl, h⟩
  | cons turn turns ih =>
    obtain ⟨d, q⟩ := turn
    obtain ⟨hanswer, hafter⟩ := run_standsFor h d q
    obtain ⟨hanswers, hend⟩ := ih hafter
    exact ⟨congrArg₂ List.cons hanswer hanswers, hend⟩

end Office

end CourseCompletion
