import CourseCompletion.Proofs.Effect

/-!
# What operations do to sessions

* `Session.Keeps`    what a stretch of an operation leaves alone, whatever the clock says;
* `Session.Works`    what it does besides: one commit at most for every key, out of those that are
                     allowed (`Works.trans`);
* `Commit.works`     one commit of a record that is as old as its row.
-/

namespace CourseCompletion

/-! ## a stretch of an operation -/

namespace Session

/-- what a stretch of an operation leaves alone: all but the table of completions, and there the
rows of all but some keys -/
structure Keeps (keys : Key → Prop) (s s' : Session) : Prop where
  now : s'.now = s.now
  outages : s'.outages = s.outages
  store : s'.store = { s.store with completions := s'.table }
  locking : s'.table.locking = s.table.locking
  valid : s.table.Valid → s'.table.Valid
  settled : s.table.Valid → s.table.Settled → s'.table.Settled
  rows : ∀ k, s'.table.row? k = s.table.row? k ∨
    keys k ∧ ∃ r id version, s'.table.row? k = some (.ofRecord r id version)

namespace Keeps

variable {s s₁ s' : Session} {P Q : Key → Prop}

theorem memory (s : Session) (memory : List CourseSettings) : s.Keeps P (s.withMemory memory) where
  now := rfl
  outages := rfl
  store := rfl
  locking := rfl
  valid h := h
  settled _ h := h
  rows _ := .inl rfl

theorem mono (h : s.Keeps P s') (hPQ : ∀ k, P k → Q k) : s.Keeps Q s' :=
  { h with rows := fun k => (h.rows k).imp_right fun ⟨hk, hrow⟩ => ⟨hPQ k hk, hrow⟩ }

theorem trans (h : s.Keeps P s₁) (h' : s₁.Keeps P s') : s.Keeps P s' where
  now := h'.now.trans h.now
  outages := h'.outages.trans h.outages
  store := by rw [h'.store, h.store]
  locking := h'.locking.trans h.locking
  valid hv := h'.valid (h.valid hv)
  settled hv hs := h'.settled (h.valid hv) (h.settled hv hs)
  rows k := by
    rcases h'.rows k with hrow' | hwritten
    · rw [hrow']
      exact h.rows k
    · exact .inr hwritten

theorem calm (h : s.Keeps P s') (hs : s.Calm) : s'.Calm := h.outages.trans hs

/-- A key that is not among those that may be written keeps its row. -/
theorem row?_eq (h : s.Keeps P s') {k : Key} (hk : ¬P k) : s'.table.row? k = s.table.row? k := by
  rcases h.rows k with hrow | ⟨hP, -⟩
  · exact hrow
  · exact absurd hP hk

/-- What could be read can be read, and so can what was written. -/
theorem readable (h : s.Keeps P s') (hv : s.table.Valid) (hr : s.table.Readable) :
    s'.table.Readable := by
  intro row hrow
  have hrow' := (h.valid hv).row?_of_mem hrow
  rcases h.rows row.key with hsame | ⟨-, r, id, version, hwritten⟩
  · exact hr row (CompletionTable.mem_of_row? (hsame.symm.trans hrow'))
  · obtain rfl := Option.some.inj (hwritten.symm.trans hrow')
    exact Row.readable_ofRecord r id version

end Keeps

/-- what a stretch of an operation does: nothing or one allowed commit for every key, and nothing to
the other tables -/
structure Works (allowed : Key → Commit → Prop) (s s' : Session) (new : List Event) : Prop
    extends s.Keeps (fun k => ∃ m, allowed k m) s' where
  published : s'.published = s.published ++ new
  effect : s.now.IsKnown → ∀ k,
    (s'.table.row? k = s.table.row? k ∧ completionsOf k new = []) ∨
    ∃ m, allowed k m ∧
      m.Effect s.now k (s.table.row? k) (s'.table.row? k) (completionsOf k new)

namespace Works

variable {s s₁ s' : Session} {new new' : List Event} {A B : Key → Commit → Prop}

theorem memory (s : Session) (memory : List CourseSettings) :
    s.Works A (s.withMemory memory) [] where
  toKeeps := .memory s memory
  published := (List.append_nil _).symm
  effect _ _ := .inl ⟨rfl, rfl⟩

theorem mono (h : s.Works A s' new) (hAB : ∀ k m, A k m → B k m) : s.Works B s' new where
  toKeeps := h.toKeeps.mono fun k ⟨m, hm⟩ => ⟨m, hAB k m hm⟩
  published := h.published
  effect hnow k := (h.effect hnow k).imp_right fun ⟨m, hm, he⟩ => ⟨m, hAB k m hm, he⟩

/-- Two stretches that work on different keys are one. -/
theorem trans (h : s.Works A s₁ new) (h' : s₁.Works B s' new')
    (hAB : ∀ k m m', A k m → ¬B k m') :
    s.Works (fun k m => A k m ∨ B k m) s' (new ++ new') where
  toKeeps := (h.toKeeps.mono fun _ ⟨m, hm⟩ => ⟨m, .inl hm⟩).trans
    (h'.toKeeps.mono fun _ ⟨m, hm⟩ => ⟨m, .inr hm⟩)
  published := by rw [h'.published, h.published, List.append_assoc]
  effect hnow k := by
    have hnow₁ : s₁.now.IsKnown := by rw [h.now]; exact hnow
    rw [completionsOf_append]
    rcases h.effect hnow k with ⟨hrow, hc⟩ | ⟨m, hm, he⟩
    · rw [hc, List.nil_append]
      rcases h'.effect hnow₁ k with ⟨hrow', hc'⟩ | ⟨m, hm, he⟩
      · exact .inl ⟨hrow'.trans hrow, hc'⟩
      · rw [hrow, h.now] at he
        exact .inr ⟨m, .inr hm, he⟩
    · rcases h'.effect hnow₁ k with ⟨hrow', hc'⟩ | ⟨m', hm', -⟩
      · rw [hc', List.append_nil, hrow']
        exact .inr ⟨m, .inl hm, he⟩
      · exact absurd hm' (hAB k m m' hm)

/-- an event that tells of no completion, published at the end -/
theorem publish (h : s.Works A s' new) {e : Event} (he : e.completion? = none) :
    s.Works A { s' with published := s'.published ++ [e] } (new ++ [e]) where
  toKeeps := ⟨h.now, h.outages, h.store, h.locking, h.valid, h.settled, h.rows⟩
  published := by rw [h.published, List.append_assoc]
  effect hnow k := by
    have hk : completionsOf k [e] = [] := by simp [completionsOf, completionsIn, he]
    rw [completionsOf_append, hk, List.append_nil]
    exact h.effect hnow k

/-- A key that no commit is allowed for keeps its row. -/
theorem row?_eq (h : s.Works A s' new) {k : Key} (hk : ∀ m, ¬A k m) :
    s'.table.row? k = s.table.row? k := h.toKeeps.row?_eq fun ⟨m, hm⟩ => hk m hm

end Works

/-! ## one commit -/

variable {s : Session} {m : Commit} {k : Key} {r w saved : Record} {c : Option Completion}
  {t : CompletionTable}

/-- A record that follows from the row of its key, stored over it, is one commit. -/
theorem works_of_saved (memory : List CourseSettings) (loads : k.Loads (s.table.row? k) r)
    (progress : r.Progress s.now.IsKnown s.now w c) (flag : w.reaggregate = m.flagged r)
    (enrolled : w.isStored = false → w.isEnrolled = true)
    (hsave : s.table.save w = .ok (saved, t)) :
    s.Works (fun k' m' => k' = k ∧ m' = m) (((s.withMemory memory).withTable t).announcing c)
      (s.news c) := by
  have hk : w.key = k := progress.key.trans loads.key
  have hs := CompletionTable.saved_of_save hsave
  obtain ⟨id, hsaved⟩ := hs.saved_eq
  rw [announcing_eq]
  refine ⟨⟨rfl, rfl, rfl, hs.locking, hs.valid, hs.settled, fun k' => ?_⟩, rfl, fun hnow k' => ?_⟩
  · have hrow : t.row? k' = _ := hs.row? k'
    rw [hk] at hrow
    by_cases hk' : k' = k
    · rw [if_pos hk'] at hrow
      exact .inr ⟨⟨m, hk', rfl⟩, saved, _, _, hrow⟩
    · rw [if_neg hk'] at hrow
      exact .inl hrow
  · have hrow : t.row? k' = _ := hs.row? k'
    have hnews : completionsOf k' (s.news c) = if k' = k then c.toList else [] := by
      refine completionsOf_news s (fun x hx => ?_) k'
      obtain rfl : c = some x := hx
      exact progress.key_completion.trans loads.key
    rw [hk] at hrow
    by_cases hk' : k' = k
    · rw [if_pos hk'] at hrow hnews
      obtain rfl := hk'
      refine .inr ⟨m, ⟨rfl, rfl⟩, ?_⟩
      have hwrote : m.Effect s.now k' (s.table.row? k')
          (some (.ofRecord w id (((s.table.row? k').map Row.version).getD 0 + 1))) c.toList := by
        refine .wrote loads (progress.of_known hnow) flag (fun hn => enrolled ?_) fun row hr => ?_
        · rw [hs.overwrites, hk, hn]
          rfl
        · have hid := hs.id row (hk.symm ▸ hr)
          rw [hsaved] at hid
          exact Option.some.inj hid
      rw [hnews]
      show m.Effect s.now k' _ (t.row? k') _
      rw [hrow, hsaved, CompletionTable.rowOf_storedAs, hk]
      exact hwrote
    · rw [if_neg hk'] at hrow hnews
      exact .inl ⟨hrow, hnews⟩

end Session

namespace Commit

/-- **A commit of a record that is as old as its row is never refused**, and does to the row what
its effect says; it announces a completion exactly when it says so. -/
theorem works {m : Commit} {s : Session} (hm : s.now.IsKnown → m.Timely) (hs : s.Calm)
    {k : Key} {r : Record} (hr : k.Loads (s.table.row? k) r)
    (hfirst : ∀ e b, m = first e b → s.table.row? k = none) :
    ∃ o s' new, (m.run r).run s = (.ok o, s') ∧
      s.Works (fun k' m' => k' = k ∧ m' = m) s' new ∧
      (completionsIn new).length = o.justCompleted.toNat := by
  have hnew : ∀ e b, m = first e b → r = .new r.key := by
    intro e b he
    rw [hr.key]
    rw [hfirst e b he] at hr
    exact hr
  have hplan := continues hm (fun hnow => hnow) r hnew
  rcases run_loaded hs m hr hnew with ⟨o, memory, hp, hrun⟩ |
    ⟨w, saved, t, memory, hw, hsave, hrun⟩
  · refine ⟨o, _, [], hrun, .memory s memory, ?_⟩
    rw [hplan.quiet o hp]
    rfl
  · refine ⟨_, _, _, hrun, Session.works_of_saved memory hr (hplan.progress w hw)
      (hplan.reaggregate w hw) (hplan.enrolled w hw) hsave, ?_⟩
    rw [Session.completions_news, Plan.justCompleted_outcome hw]
    cases (m.plan r s).completion? <;> rfl

end Commit

end CourseCompletion
