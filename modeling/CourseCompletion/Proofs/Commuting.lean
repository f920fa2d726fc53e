import CourseCompletion.Proofs.Deed
import Mathlib.Logic.Equiv.Basic

/-!
# Operations on different records

Two operations on the records of different keys can be done in either order
(`operations_commute`): each answers the same, and the same rows are left and the same events
published.  If both store new rows, then the two numbers that they take are exchanged, in the
answers and in the rows; and the numbers of the events go with the order of the events.

An operation leaves the session as it was at the other record (`Action.Does.likeAt`), so it does
there the same deed before and after; what is left are two deeds and the numbers that they take.
-/

namespace CourseCompletion

/-! ## what an operation leaves as it is -/

namespace Session

/-- a calm session that finds given settings -/
def Knows (known : Int → Option TrackingSettings) (s s' : Session) : Prop :=
  s' = s ∧ s.Calm ∧ ∀ course, s.settings? course = known course

theorem congruence_knows (known : Int → Option TrackingSettings) : Congruence (Knows known) where
  calm h := h.2.1
  calm' := by
    rintro s s' ⟨rfl, hs, -⟩
    exact hs
  now := by
    rintro s s' ⟨rfl, -⟩
    rfl
  answers := by
    rintro s s' ⟨rfl, -⟩
    exact .refl _
  settings? := by
    rintro s s' ⟨rfl, -⟩ course
    rfl
  lookedUp := by
    rintro s s' ⟨rfl, hs, hknown⟩ course
    exact ⟨rfl, hs, fun course' => (s'.settings?_lookedUp course course').trans (hknown course')⟩
  save := by
    rintro s s' ⟨rfl, hs, hknown⟩ w
    cases hsave : s'.table.save w with
    | error e => exact .inl ⟨e, rfl, rfl⟩
    | ok p => exact .inr ⟨p.1, p.2, p.2, rfl, rfl, rfl, hs, hknown⟩
  published := by
    rintro s s' ⟨rfl, hs, hknown⟩ e
    exact ⟨rfl, hs, hknown⟩
  announced := by
    rintro s s' ⟨rfl, hs, hknown⟩ c
    exact ⟨rfl, hs, hknown⟩

end Session

/-- An operation changes nothing about the settings that are found. -/
theorem Operation.knows_run {s : Session} (hs : s.Calm) (op : Operation) :
    (op.action.run s).2.Calm ∧
      ∀ course, (op.action.run s).2.settings? course = s.settings? course :=
  (op.respects (Session.congruence_knows s.settings?) ⟨rfl, hs, fun _ => rfl⟩).2.2

namespace Operation

variable {s : Session} {op : Operation} {k k' : Key} {d : Deed}

/-- what is left by an operation that does a deed -/
structure Leaves (op : Operation) (s : Session) (d : Deed) : Prop where
  answer : (op.action.run s).1 = d.answer (s.table.lastId + 1)
  table : (op.action.run s).2.table = d.table s.table
  store : (op.action.run s).2.store =
    { s.store with completions := (op.action.run s).2.table }
  now : (op.action.run s).2.now = s.now
  published : (op.action.run s).2.published = s.published ++ s.news d.news

theorem leaves_of_does (h : Action.Does op.action k s d) {s' : Session} (hlike : s.LikeAt k s')
    (hs' : s'.Calm) : op.Leaves s' d := by
  obtain ⟨memory, hrun⟩ := h.2 s' hlike hs'
  unfold Deed.run at hrun
  rw [Session.announcing_eq] at hrun
  constructor <;> rw [hrun] <;> rfl

/-- An operation leaves the session as it was at any other record. -/
theorem Leaves.likeAt (h : op.Leaves s d) (hs : s.Calm) (hd : d.Fits k (s.table.row? k))
    (hk : k' ≠ k) : s.LikeAt k' (op.action.run s).2 where
  now := h.now
  store := h.store
  settings? := (op.knows_run hs).2
  row? := by
    rw [h.table, Deed.row?_table hd, if_neg hk]
  locking := by
    rw [h.table, Deed.locking_table]

end Operation

/-! ## two deeds -/

/-- there is a row under a key that was not there before -/
def Session.Begins (s s' : Session) (k : Key) : Prop :=
  s.table.row? k = none ∧ (s'.table.row? k).isSome

instance (s s' : Session) (k : Key) : Decidable (s.Begins s' k) :=
  inferInstanceAs (Decidable (_ ∧ _))

/-- the event without its number -/
def Event.unnumbered : Event → Event
  | courseCompleted e => courseCompleted { e with id := ⟨0⟩ }
  | usersStarted course created occurred => usersStarted course created occurred

theorem unnumbered_news (s : Session) (c : Option Completion) :
    (s.news c).map Event.unnumbered = (c.map fun c => Event.courseCompleted ⟨c, ⟨0⟩⟩).toList := by
  cases c <;> rfl

namespace Deed

variable {d d' : Deed} {k k' : Key} {t : CompletionTable}

/-- the numbers that two deeds take, exchanged if both take one -/
def exchange (d d' : Deed) (last : Int) : Equiv.Perm Int :=
  if d.draws ∧ d'.draws then Equiv.swap (last + 1) (last + 2) else Equiv.refl Int

/-- A deed that takes another number for its own is the same up to that exchange; one that takes
none is the same, where nothing is exchanged. -/
theorem renumbered {found : Option Row} (hd : d.Fits k found) {σ : Equiv.Perm Int} {id id' : Int}
    (hdrawn : d.draws = true → id' = σ id) (hfixed : d.draws = false → σ = Equiv.refl Int) :
    d.answer id' = (d.answer id).map (Reply.renumbered σ) ∧
      (d.row? id').or found = ((d.row? id).or found).map (Row.renumbered σ) := by
  cases hdraws : d.draws with
  | true =>
    obtain ⟨hanswer, hrow⟩ := drawn hd hdraws σ id
    obtain ⟨rfl, -⟩ := (draws_eq_true_iff hd id).1 hdraws
    rw [hdrawn hdraws, hanswer, hrow, Option.or_none, Option.or_none]
    exact ⟨rfl, rfl⟩
  | false =>
    obtain ⟨hanswer, hrow⟩ := fixed hdraws id id'
    have hreply : Reply.renumbered (Equiv.refl Int) = fun r => r := funext Reply.renumbered_self
    have hself : Row.renumbered (Equiv.refl Int) = fun row => row := rfl
    rw [hfixed hdraws, hanswer, hrow, hreply, hself, Option.map_id']
    refine ⟨?_, rfl⟩
    cases d.answer id <;> rfl

/-- the first of two deeds, done second -/
theorem renumbered_first {found : Option Row} (hd : d.Fits k found) (d' : Deed) (last : Int) :
    d.answer (last + d'.draws.toNat + 1) =
        (d.answer (last + 1)).map (Reply.renumbered (d.exchange d' last)) ∧
      (d.row? (last + d'.draws.toNat + 1)).or found =
        ((d.row? (last + 1)).or found).map (Row.renumbered (d.exchange d' last)) := by
  refine renumbered hd (fun hdraws => ?_) fun hdraws => ?_
  · unfold exchange
    cases hdraws' : d'.draws with
    | true =>
      rw [if_pos ⟨hdraws, rfl⟩, Equiv.swap_apply_left]
      show last + 1 + 1 = last + 2
      omega
    | false =>
      rw [if_neg fun h => by cases h.2]
      show last + 0 + 1 = last + 1
      omega
  · exact if_neg fun h => by rw [hdraws] at h; cases h.1

/-- the second of two deeds, done first -/
theorem renumbered_second {found : Option Row} (hd' : d'.Fits k' found) (d : Deed) (last : Int) :
    d'.answer (last + 1) =
        (d'.answer (last + d.draws.toNat + 1)).map (Reply.renumbered (d.exchange d' last)) ∧
      (d'.row? (last + 1)).or found =
        ((d'.row? (last + d.draws.toNat + 1)).or found).map
          (Row.renumbered (d.exchange d' last)) := by
  refine renumbered hd' (fun hdraws' => ?_) fun hdraws' => ?_
  · unfold exchange
    cases hdraws : d.draws with
    | true =>
      rw [if_pos ⟨rfl, hdraws'⟩]
      show last + 1 = Equiv.swap (last + 1) (last + 2) (last + 1 + 1)
      rw [show last + 1 + 1 = last + 2 by omega, Equiv.swap_apply_right]
    | false =>
      rw [if_neg fun h => by cases h.1]
      show last + 1 = last + 0 + 1
      omega
  · exact if_neg fun h => by rw [hdraws'] at h; cases h.2

/-- A deed begins a row exactly if it takes a number. -/
theorem begins_iff {s s' : Session} {id : Int} (hd : d.Fits k (s.table.row? k))
    (h : s'.table.row? k = (d.row? id).or (s.table.row? k)) : s.Begins s' k ↔ d.draws = true := by
  unfold Session.Begins
  rw [h, draws_eq_true_iff hd id]

/-- Two deeds at different keys: what is under a key is what the deed there left. -/
theorem row?_both (hd : d.Fits k (t.row? k)) (hd' : d'.Fits k' (t.row? k')) (hne : k ≠ k')
    (j : Key) :
    (d'.table (d.table t)).row? j =
      if j = k then (d.row? (t.lastId + 1)).or (t.row? k)
      else if j = k' then (d'.row? (t.lastId + d.draws.toNat + 1)).or (t.row? k')
      else t.row? j := by
  rw [row?_table hd', lastId_table, row?_table hd, row?_table hd, if_neg (Ne.symm hne)]
  by_cases hj : j = k
  · rw [hj, if_neg hne, if_pos rfl, if_pos rfl]
  · rw [if_neg hj, if_neg hj]

end Deed

/-! ## two operations -/

/-- **Operations on different records commute.**  In either order each of the two has the same
answer, and the same rows are left and the same events published, whatever their numbers; if both
begin a row, then the numbers of the two new rows are exchanged, in the table and in the answers. -/
theorem operations_commute {s : Session} (hs : s.Calm) {op op' : Operation} {k k' : Key}
    (hk : op.key? = some k) (hk' : op'.key? = some k') (hne : k ≠ k') :
    let first := op.action.run s
    let second := op'.action.run first.2
    let first' := op'.action.run s
    let second' := op.action.run first'.2
    let σ : Equiv.Perm Int := if s.Begins second.2 k ∧ s.Begins second.2 k' then
      Equiv.swap (s.table.lastId + 1) (s.table.lastId + 2) else Equiv.refl Int
    second'.1 = first.1.map (Reply.renumbered σ) ∧ first'.1 = second.1.map (Reply.renumbered σ) ∧
    (∀ j, second'.2.table.row? j = if j = k ∨ j = k' then
      (second.2.table.row? j).map (Row.renumbered σ) else second.2.table.row? j) ∧
    second'.2.table.lastId = second.2.table.lastId ∧
    second'.2.store = { second.2.store with completions := second'.2.table } ∧
    (second'.2.published.map Event.unnumbered).Perm
      (second.2.published.map Event.unnumbered) := by
  intro first second first' second' σ
  obtain ⟨d, hd⟩ := Operation.exists_deed hk s
  obtain ⟨d', hd'⟩ := Operation.exists_deed hk' s
  have hself : ∀ j, s.LikeAt j s := fun j => ⟨rfl, rfl, fun _ => rfl, rfl, rfl⟩
  -- what each operation leaves, done first and done second
  have h₁ := Operation.leaves_of_does hd (hself k) hs
  have h₁' := Operation.leaves_of_does hd' (hself k') hs
  have h₂ := Operation.leaves_of_does hd' (h₁.likeAt hs hd.1 (Ne.symm hne)) (op.knows_run hs).1
  have h₂' := Operation.leaves_of_does hd (h₁'.likeAt hs hd'.1 hne) (op'.knows_run hs).1
  have hlast : first.2.table.lastId = s.table.lastId + d.draws.toNat := by
    rw [h₁.table, Deed.lastId_table]
  have hlast' : first'.2.table.lastId = s.table.lastId + d'.draws.toNat := by
    rw [h₁'.table, Deed.lastId_table]
  have htable : second.2.table = d'.table (d.table s.table) := by rw [h₂.table, h₁.table]
  have htable' : second'.2.table = d.table (d'.table s.table) := by rw [h₂'.table, h₁'.table]
  have hrow := Deed.row?_both hd.1 hd'.1 hne
  have hrow' := Deed.row?_both hd'.1 hd.1 (Ne.symm hne)
  have hσ : σ = d.exchange d' s.table.lastId := by
    have hfound : second.2.table.row? k = (d.row? (s.table.lastId + 1)).or (s.table.row? k) := by
      rw [htable, hrow, if_pos rfl]
    have hfound' : second.2.table.row? k' =
        (d'.row? (s.table.lastId + d.draws.toNat + 1)).or (s.table.row? k') := by
      rw [htable, hrow, if_neg (Ne.symm hne), if_pos rfl]
    unfold Deed.exchange
    simp only [σ, Deed.begins_iff hd.1 hfound, Deed.begins_iff hd'.1 hfound']
  obtain ⟨hanswer, hnumber⟩ := Deed.renumbered_first hd.1 d' s.table.lastId
  obtain ⟨hanswer', hnumber'⟩ := Deed.renumbered_second hd'.1 d s.table.lastId
  rw [hσ]
  refine ⟨?_, ?_, fun j => ?_, ?_, ?_, ?_⟩
  · rw [h₂'.answer, h₁.answer, hlast']
    exact hanswer
  · rw [h₁'.answer, h₂.answer, hlast]
    exact hanswer'
  · rw [htable, htable', hrow, hrow']
    by_cases hj : j = k
    · rw [hj, if_neg hne, if_pos rfl, if_pos (.inl rfl), if_pos rfl]
      exact hnumber
    · by_cases hj' : j = k'
      · rw [hj', if_pos rfl, if_pos (.inr rfl), if_neg (Ne.symm hne), if_pos rfl]
        exact hnumber'
      · rw [if_neg hj', if_neg hj, if_neg (not_or.2 ⟨hj, hj'⟩), if_neg hj, if_neg hj']
  · rw [h₂'.table, h₂.table, Deed.lastId_table, Deed.lastId_table, hlast, hlast']
    omega
  · rw [h₂'.store, h₁'.store, h₂.store, h₁.store]
  · rw [h₂'.published, h₁'.published, h₂.published, h₁.published]
    simp only [List.map_append, unnumbered_news, List.append_assoc]
    exact List.Perm.append_left _ List.perm_append_comm

/-- two new rows in one course: whichever operation comes second has number `2` -/
theorem new_numbers_are_exchanged :
    let s : Session := .start (.empty true) ⟨900, 0, by decide, by decide⟩
    let op : Operation := .markEnrolled ⟨3, 7⟩ none
    let op' : Operation := .markComplete ⟨4, 7⟩ none
    let r : Record := ⟨some 1, 3, 7, some s.now, none, none, none, 1⟩
    (op.action.run s).1 = .ok (.outcome (.saved r)) ∧
    (op.action.run (op'.action.run s).2).1 = .ok (.outcome (.saved { r with id := some 2 })) ∧
    (op'.action.run (op.action.run s).2).2.table.lastId = 2 := by
  intro s op op' r
  have hkey : op.key? = some ⟨3, 7⟩ := rfl
  have hkey' : op'.key? = some ⟨4, 7⟩ := rfl
  obtain ⟨hanswer, -, -, hlast, -⟩ := operations_commute (s := s) rfl hkey hkey' (by decide)
  exact ⟨by decide, hanswer.trans (by decide), hlast.symm.trans (by decide)⟩

end CourseCompletion
