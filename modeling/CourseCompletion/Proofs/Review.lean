import CourseCompletion.Proofs.Commuting

/-!
# A stored record evaluated

In a course that tracks completion, the evaluation of a stored record always writes over its row:

* `Session.fulfils`    the criteria of the course say that it is complete for the user;
* `Session.reviewed`   the record that is written, completed if the criteria say so;
* `Session.Rewrites`   what such writes leave: some rows have others in their places, and nothing
                       else of the store has changed.

A flag that is taken back before shows in the flag only (`Session.reviewed_unflag`).
-/

namespace CourseCompletion

namespace CompletionTable

variable {t t' : CompletionTable} {w : Record} {row : Row} {rows rows' : List Row}

/-! ## rows written over -/

/-- the table with rows in the places of any others of their keys -/
def putAll (t : CompletionTable) (rows : List Row) : CompletionTable := rows.foldl put t

theorem putAll_append (t : CompletionTable) (rows rows' : List Row) :
    t.putAll (rows ++ rows') = (t.putAll rows).putAll rows' := List.foldl_append

theorem Valid.putAll (hv : t.Valid) (rows : List Row) : (t.putAll rows).Valid := by
  induction rows generalizing t with
  | nil => exact hv
  | cons row rows ih => exact ih (hv.put row)

theorem lastId_putAll (t : CompletionTable) (rows : List Row) :
    (t.putAll rows).lastId = t.lastId := by
  induction rows generalizing t with
  | nil => rfl
  | cons row rows ih => exact ih (t.put row)

theorem Numbered.putAll (h : t.Numbered) (hrows : ∀ row ∈ rows, row.Numbered) :
    (t.putAll rows).Numbered := by
  induction rows generalizing t with
  | nil => exact h
  | cons row rows ih =>
    exact ih (h.put (hrows row List.mem_cons_self)) fun x hx =>
      hrows x (List.mem_cons_of_mem row hx)

/-- A key finds the row that was written for it, if there is one. -/
theorem row?_putAll (hu : Keyed.Unique Row.key rows) (t : CompletionTable) (k : Key) :
    (t.putAll rows).row? k = (Keyed.get? Row.key k rows).or (t.row? k) := by
  induction rows generalizing t with
  | nil => rfl
  | cons row rows ih =>
    obtain ⟨hne, hu⟩ := List.pairwise_cons.1 hu
    show ((t.put row).putAll rows).row? k = _
    rw [ih hu, row?_put]
    by_cases hk : k = row.key
    · subst hk
      have hnone : Keyed.get? Row.key row.key rows = none :=
        List.find?_eq_none.2 fun x hx => by simpa using Ne.symm (hne x hx)
      have hself : Keyed.get? Row.key row.key (row :: rows) = some row :=
        List.find?_cons_of_pos (decide_eq_true rfl)
      rw [hnone, hself, if_pos rfl]
      rfl
    · have hother : Keyed.get? Row.key k (row :: rows) = Keyed.get? Row.key k rows :=
        List.find?_cons_of_neg (by simpa using fun h => hk h.symm)
      rw [hother, if_neg hk]

/-- Where every key finds the row that was there changed in one way, the rows are those that were
there changed in that way. -/
theorem Valid.rows_perm_map (hv : t.Valid) (hv' : t'.Valid) {f : Row → Row}
    (hf : ∀ row, (f row).key = row.key) (hrow : ∀ k, t'.row? k = (t.row? k).map f) :
    t'.rows.Perm (t.rows.map f) := by
  have hdistinct : ∀ {x y : Row}, x.key ≠ y.key → x ≠ y := fun hne heq => hne (congrArg _ heq)
  have hkeys : (t.rows.map f).Pairwise fun x y => x.key ≠ y.key := by
    refine List.pairwise_map.2 (List.Pairwise.imp (fun {x y} hne => ?_) hv)
    rwa [hf, hf]
  refine (List.perm_ext_iff_of_nodup (hv'.imp hdistinct) (hkeys.imp hdistinct)).2 fun row => ?_
  rw [List.mem_map]
  constructor
  · intro hmem
    have hfound := hv'.row?_of_mem hmem
    rw [hrow] at hfound
    obtain ⟨old, hold, hnew⟩ := Option.map_eq_some_iff.1 hfound
    exact ⟨old, mem_of_row? hold, hnew⟩
  · rintro ⟨old, hmem, rfl⟩
    have hfound := hrow old.key
    rw [hv.row?_of_mem hmem] at hfound
    exact mem_of_row? hfound

/-- A stored record that is as old as its row is written over it. -/
theorem save_over (hrow : t.row? w.key = some row) (hw : w.isStored = true)
    (hversion : w.version = row.version) :
    t.save w = .ok (w.storedAs row.id (row.version + 1),
      t.put (.ofRecord w row.id (row.version + 1))) := by
  unfold save update
  rw [if_pos hw, hrow, hversion]
  simp

end CompletionTable

/-! ## evaluations of stored records -/

namespace Session

variable {s s' s₁ : Session} {settings : TrackingSettings} {r : Record} {rows rows' : List Row}

/-- the criteria of a course say that it is complete for a user -/
def fulfils (s : Session) (settings : TrackingSettings) (k : Key) : Bool :=
  (evaluate settings.method (s.store.criteriaFor k)).isComplete

/-- a record as it is evaluated: completed if the criteria of its course say so -/
def reviewed (s : Session) (settings : TrackingSettings) (r : Record) : Record :=
  if s.fulfils settings r.key then
    r.markComplete
      ((known? (evaluate settings.method (s.store.criteriaFor r.key)).completed).getD s.now)
  else r

theorem reviewed_of_isComplete (hr : r.isComplete = true) : s.reviewed settings r = r := by
  have hstays : ∀ t, r.markComplete t = r := fun t => if_pos hr
  unfold reviewed
  rw [hstays, ite_self]

/-- what an evaluation keeps of a record -/
theorem reviewed_keeps (s : Session) (settings : TrackingSettings) (r : Record) :
    (s.reviewed settings r).key = r.key ∧ (s.reviewed settings r).isStored = r.isStored ∧
      (s.reviewed settings r).version = r.version ∧
      (s.reviewed settings r).enrolled = r.enrolled := by
  unfold reviewed Record.markComplete
  split
  · split <;> exact ⟨rfl, rfl, rfl, rfl⟩
  · exact ⟨rfl, rfl, rfl, rfl⟩

/-- A record is evaluated as it is, or completed at a time after the epoch. -/
theorem reviewed_cases (hnow : s.now.IsKnown) (settings : TrackingSettings) (r : Record) :
    s.reviewed settings r = r ∨
      r.completed = none ∧ ∃ t, t.IsKnown ∧ s.reviewed settings r =
        { r with started := some ((r.started.map (min · t)).getD t), completed := some t } := by
  by_cases hr : r.isComplete = true
  · exact .inl (reviewed_of_isComplete hr)
  · have hopen : r.completed = none := by simpa [Record.isComplete] using hr
    unfold reviewed
    split
    · exact .inr ⟨hopen, _, Action.isKnown_timeOrNow _ hnow, if_neg hr⟩
    · exact .inl rfl

/-- Without its flag a record is evaluated in the same way. -/
theorem reviewed_unflag (s : Session) (settings : TrackingSettings) (r : Record) :
    s.reviewed settings r.unflag = (s.reviewed settings r).unflag := by
  have hcomplete : ∀ t, r.unflag.markComplete t = (r.markComplete t).unflag := by
    intro t
    unfold Record.markComplete
    split
    · next h => rw [if_pos (show r.isComplete = true from h)]
    · next h => rw [if_neg (show ¬r.isComplete = true from h)]; rfl
  unfold reviewed
  rw [hcomplete]
  exact (apply_ite Record.unflag _ _ _).symm

/-- In a course that tracks completion a record is written in any case, and a completion is made
known if the criteria say that the record is complete and it was not. -/
theorem aggregating_of_tracking (htrack : s.tracking? r.course = some settings) (p : Plan) :
    (s.aggregating r p).written? = some (s.enrolled (s.reviewed settings r)) ∧
      (s.aggregating r p).completion?.isSome = (!r.isComplete && s.fulfils settings r.key) := by
  unfold aggregating
  by_cases hc : r.isComplete = true
  · rw [if_pos hc, hc, reviewed_of_isComplete hc]
    exact ⟨rfl, rfl⟩
  have hopen : r.isComplete = false := Bool.eq_false_iff.2 hc
  rw [if_neg hc, htrack, hopen]
  show (s.evaluating r settings).written? = _ ∧ (s.evaluating r settings).completion?.isSome = _
  by_cases hf : s.fulfils settings r.key = true
  · have hcriteria : s.store.criteriaFor r.key ≠ [] := by
      intro hnil
      unfold fulfils at hf
      rw [hnil] at hf
      cases hf
    have hplan : s.evaluating r settings = s.completing r _ := if_pos ⟨hcriteria, hf⟩
    have hwritten : s.reviewed settings r = r.markComplete _ := if_pos hf
    rw [hplan, hwritten, hf]
    unfold completing Record.completion?
    simp only [hopen]
    exact ⟨rfl, rfl⟩
  · have hplan : s.evaluating r settings = .store (s.enrolled r) := if_neg fun h => hf h.2
    have hwritten : s.reviewed settings r = r := if_neg hf
    rw [hplan, hwritten, Bool.eq_false_iff.2 hf]
    exact ⟨rfl, rfl⟩

/-- rows are written over in a calm session, and nothing else of the store changes -/
structure Rewrites (s : Session) (rows : List Row) (s' : Session) : Prop where
  calm : s'.Calm
  table : s'.table = s.table.putAll rows
  now : s'.now = s.now
  store : s'.store = { s.store with completions := s'.table }
  settings? : ∀ course, s'.settings? course = s.settings? course

namespace Rewrites

theorem refl (hs : s.Calm) : s.Rewrites [] s := ⟨hs, rfl, rfl, rfl, fun _ => rfl⟩

theorem trans (h : s.Rewrites rows s₁) (h' : s₁.Rewrites rows' s') :
    s.Rewrites (rows ++ rows') s' where
  calm := h'.calm
  table := by rw [h'.table, h.table, CompletionTable.putAll_append]
  now := h'.now.trans h.now
  store := by rw [h'.store, h.store]
  settings? course := (h'.settings? course).trans (h.settings? course)

theorem valid (h : s.Rewrites rows s') (hv : s.table.Valid) : s'.table.Valid := by
  rw [h.table]
  exact hv.putAll rows

theorem tracking? (h : s.Rewrites rows s') (course : Int) :
    s'.tracking? course = s.tracking? course := tracking?_congr (h.settings? course)

theorem fulfils (h : s.Rewrites rows s') (settings : TrackingSettings) (k : Key) :
    s'.fulfils settings k = s.fulfils settings k := by
  unfold Session.fulfils
  rw [h.store]
  rfl

/-- Records are evaluated as before. -/
theorem reviewed (h : s.Rewrites rows s') (settings : TrackingSettings) (r : Record) :
    s'.reviewed settings r = s.reviewed settings r := by
  unfold Session.reviewed
  rw [h.fulfils, h.now, h.store]
  rfl

end Rewrites

end Session

/-- **The evaluation of a stored record writes over its row.**  It says that it completed the record
if the criteria say that the record is complete and it was not. -/
theorem Action.aggregateRecord_over {s : Session} (hs : s.Calm) {settings : TrackingSettings}
    {r : Record} {row : Row} (htrack : s.tracking? r.course = some settings)
    (hrow : s.table.row? r.key = some row) (hr : r.isStored = true)
    (hversion : r.version = row.version) :
    ∃ o s', (aggregateRecord r).run s = (.ok o, s') ∧
      o.justCompleted = (!r.isComplete && s.fulfils settings r.key) ∧
      s.Rewrites [.ofRecord (s.reviewed settings r) row.id (row.version + 1)] s' := by
  obtain ⟨hkey, hstored, hsame, -⟩ := s.reviewed_keeps settings r
  obtain ⟨hwritten, hcompletes⟩ := Session.aggregating_of_tracking htrack (.leave .notApplicable)
  rw [Session.enrolled_of_isStored (hstored.trans hr)] at hwritten
  have hsave := CompletionTable.save_over (t := s.table) (w := s.reviewed settings r)
    (by rw [hkey, hrow]) (hstored.trans hr) (hsame.trans hversion)
  rcases Commit.run_cases hs .aggregate r with ⟨o, memory, hp, -⟩ | ⟨w, e, memory, hw, he, -⟩ |
    ⟨w, saved, t, memory, hw, hsave', hrun⟩
  · have hp' : s.aggregating r (.leave .notApplicable) = .leave o := hp
    rw [hp'] at hwritten
    cases hwritten
  · obtain rfl := Option.some.inj (hwritten.symm.trans hw)
    rw [hsave] at he
    cases he
  · obtain rfl := Option.some.inj (hwritten.symm.trans hw)
    obtain ⟨-, rfl⟩ := Prod.mk.inj (Except.ok.inj (hsave.symm.trans hsave'))
    have hknows := (respects_aggregateRecord (Session.congruence_knows s.settings?) r
      ⟨rfl, hs, fun _ => rfl⟩).2.2
    rw [show (aggregateRecord r).run s = _ from hrun] at hknows
    refine ⟨_, _, hrun, (Plan.justCompleted_outcome hw saved).trans hcompletes, hknows.1,
      ?_, ?_, ?_, hknows.2⟩
    all_goals rw [Session.announcing_eq]; rfl

end CourseCompletion
