import CourseCompletion.Proofs.Calm
import CourseCompletion.Proofs.Evaluation
import Mathlib.Data.List.Forall2

/-!
# Criteria that are done in addition

The criteria of a group may carry different methods; then what they come to depends on their order.
Still a criterion that is done in addition takes nothing away:

* `Criterion.Advances`   a criterion in the place of another, which is done if the other was;
* `Aggregate.Below`      a state that is no better than another, and unset where that is.

An evaluation is complete where all criteria are done, unless there are none, and is not where none
is done; so it always brings a time with it, and a record that it completes is completed at that
time and not at the time of the clock (`completing_more_never_hurts`).
-/

namespace CourseCompletion

/-! ## states in step -/

/-- a state is unset exactly where another one is, and complete only where that is -/
structure Aggregate.Below (a b : Aggregate) : Prop where
  unset : a = .unset ↔ b = .unset
  complete : a = .complete → b = .complete

namespace Aggregate

variable {a b : Aggregate} {f g : Bool}

theorem add_ne_unset (m : Method) (a : Aggregate) (f : Bool) : add m a f ≠ .unset := by
  cases m <;> cases a <;> cases f <;> decide

theorem add_true_ne_incomplete (m : Method) (h : a ≠ .incomplete) : add m a true ≠ .incomplete := by
  cases m <;> cases a <;> first | exact absurd rfl h | decide

theorem add_false_ne_complete (m : Method) (h : a ≠ .complete) : add m a false ≠ .complete := by
  cases m <;> cases a <;> first | exact absurd rfl h | decide

theorem Below.refl (a : Aggregate) : a.Below a := ⟨.rfl, fun h => h⟩

/-- One more flag keeps two states in step, if it is good for the second where it is for the
first. -/
theorem Below.add (h : a.Below b) (m : Method) (hfg : f = true → g = true) :
    (add m a f).Below (add m b g) := by
  refine ⟨iff_of_false (add_ne_unset m a f) (add_ne_unset m b g), ?_⟩
  obtain ⟨hunset, hcomplete⟩ := h
  cases m <;> cases a <;> cases b <;> cases f <;> cases g <;> simp_all [Aggregate.add]

/-- The flags that states stand for keep two other states in step. -/
theorem Below.foldl_flags {as bs : List Aggregate} (hs : List.Forall₂ Below as bs) (m : Method)
    (h : a.Below b) :
    ((as.filterMap flag?).foldl (Aggregate.add m) a).Below
      ((bs.filterMap flag?).foldl (Aggregate.add m) b) := by
  induction hs generalizing a b with
  | nil => exact h
  | @cons x y as bs hxy _ ih =>
    cases hx : x.flag? with
    | none =>
      have hy : y.flag? = none := flag?_eq_none_iff.2 (hxy.unset.1 (flag?_eq_none_iff.1 hx))
      rw [List.filterMap_cons_none hx, List.filterMap_cons_none hy]
      exact ih h
    | some f =>
      cases hy : y.flag? with
      | none =>
        rw [flag?_eq_none_iff.2 (hxy.unset.2 (flag?_eq_none_iff.1 hy))] at hx
        cases hx
      | some g =>
        rw [List.filterMap_cons_some hx, List.filterMap_cons_some hy]
        refine ih (h.add m fun hf => ?_)
        subst hf
        rw [hxy.complete (flag?_eq_true_iff.1 hx)] at hy
        exact (Option.some.inj hy).symm

/-- What holds of a state and is kept by every flag that is added holds in the end. -/
theorem foldl_induction {P : Aggregate → Prop} {flags : List Bool} (m : Method)
    (hadd : ∀ f ∈ flags, ∀ a, P a → P (add m a f)) (h : P a) : P (flags.foldl (add m) a) := by
  induction flags generalizing a with
  | nil => exact h
  | cons f fs ih =>
    exact ih (fun g hg => hadd g (List.mem_cons_of_mem f hg)) (hadd f List.mem_cons_self a h)

end Aggregate

/-! ## criteria in step -/

/-- a criterion of the kind and with the method of another, which is done if the other is -/
structure Criterion.Advances (c d : Criterion) : Prop where
  kind : d.kind = c.kind
  method : d.method = c.method
  done : c.Done → d.Done

theorem Criterion.not_isMet_iff {c : Criterion} : c.isMet = false ↔ ¬c.Done := by
  rw [← isMet_iff, Bool.not_eq_true]

namespace Buckets

variable {criteria criteria' : List Criterion} {b b' : Buckets}

/-- Every bucket, and the status so far, stays in step. -/
theorem below_foldl (overall : Method) (h : List.Forall₂ Criterion.Advances criteria criteria')
    (hb : ∀ p, (b.state p).Below (b'.state p)) (p : Option Group) :
    ((criteria.foldl (add overall) b).state p).Below
      ((criteria'.foldl (add overall) b').state p) := by
  induction h generalizing b b' with
  | nil => exact hb p
  | @cons c d cs ds hcd _ ih =>
    refine ih fun q => ?_
    rw [state_add, state_add, hcd.kind, hcd.method]
    by_cases hq : c.kind.group? = q
    · rw [if_pos hq, if_pos hq]
      refine (hb q).add _ fun hmet => ?_
      exact Criterion.isMet_iff.2 (hcd.done (Criterion.isMet_iff.1 hmet))
    · rw [if_neg hq, if_neg hq]
      exact hb q

theorem below_overall (m : Method) (hb : ∀ p, (b.state p).Below (b'.state p)) :
    (b.overall m).Below (b'.overall m) :=
  Aggregate.Below.foldl_flags
    (.cons (hb (some .role)) (.cons (hb (some .activity)) (.cons (hb (some .prerequisite)) .nil))) m
    (hb none)

/-- What every criterion keeps of a state holds of every bucket in the end, and of the status. -/
theorem state_induction {P : Aggregate → Prop} (overall : Method)
    (hadd : ∀ c ∈ criteria, ∀ m a, P a → P (.add m a c.isMet)) (hb : ∀ p, P (b.state p))
    (p : Option Group) : P ((criteria.foldl (add overall) b).state p) := by
  induction criteria generalizing b with
  | nil => exact hb p
  | cons c cs ih =>
    refine ih (fun d hd => hadd d (List.mem_cons_of_mem c hd)) fun q => ?_
    rw [state_add]
    split
    · exact hadd c List.mem_cons_self _ _ (hb q)
    · exact hb q

theorem overall_induction {P : Aggregate → Prop} (m : Method)
    (hadd : ∀ g f, (b.state (some g)).flag? = some f → ∀ a, P a → P (.add m a f))
    (h : P b.status) : P (b.overall m) := by
  refine Aggregate.foldl_induction m (fun f hf => ?_) h
  obtain ⟨a, ha, hf⟩ := List.mem_filterMap.1 hf
  simp only [List.mem_cons, List.not_mem_nil, or_false] at ha
  rcases ha with rfl | rfl | rfl
  · exact hadd .role f hf
  · exact hadd .activity f hf
  · exact hadd .prerequisite f hf

/-- A bucket that is set stays set, and the bucket of a criterion is set by it. -/
theorem state_ne_unset (overall : Method) {p : Option Group}
    (h : b.state p ≠ .unset ∨ ∃ c ∈ criteria, c.kind.group? = p) :
    (criteria.foldl (add overall) b).state p ≠ .unset := by
  induction criteria generalizing b with
  | nil =>
    rcases h with h | ⟨c, hc, -⟩
    · exact h
    · cases hc
  | cons c cs ih =>
    by_cases hp : c.kind.group? = p
    · refine ih (.inl ?_)
      rw [state_add, if_pos hp]
      exact Aggregate.add_ne_unset _ _ _
    · refine ih ?_
      rw [state_add, if_neg hp]
      refine h.imp_right ?_
      rintro ⟨d, hd, hdp⟩
      rcases List.mem_cons.1 hd with rfl | hd
      · exact absurd hdp hp
      · exact ⟨d, hd, hdp⟩

/-- The status is set if the criteria outside the groups set it, or any bucket is set. -/
theorem overall_ne_unset (m : Method) {p : Option Group} (h : b.state p ≠ .unset) :
    b.overall m ≠ .unset := by
  have hset : ∀ flags : List Bool, ∀ a : Aggregate, a ≠ .unset →
      flags.foldl (.add m) a ≠ .unset := fun flags a ha =>
    Aggregate.foldl_induction (P := (· ≠ .unset)) m
      (fun f _ a _ => Aggregate.add_ne_unset m a f) ha
  have hflags : ∀ flags : List Bool, flags ≠ [] → flags.foldl (.add m) b.status ≠ .unset := by
    intro flags hne
    cases flags with
    | nil => exact absurd rfl hne
    | cons f fs => exact hset fs _ (Aggregate.add_ne_unset m b.status f)
  cases p with
  | none => exact hset _ b.status h
  | some g =>
    obtain ⟨f, hf⟩ := Option.ne_none_iff_exists'.1 (mt Aggregate.flag?_eq_none_iff.1 h)
    refine hflags _ (List.ne_nil_of_mem (List.mem_filterMap.2 ⟨b.state (some g), ?_, hf⟩))
    cases g <;> simp [state]

end Buckets

/-! ## evaluations -/

section

variable {overall : Method} {criteria : List Criterion}

theorem bucket_eq_state (overall : Method) (criteria : List Criterion) (g : Group) :
    (evaluate overall criteria).bucket g =
      (criteria.foldl (Buckets.add overall) .empty).state (some g) := by
  cases g <;> rfl

theorem status_ne_unset (h : criteria ≠ []) : (evaluate overall criteria).status ≠ .unset := by
  obtain ⟨c, hc⟩ := List.exists_mem_of_ne_nil _ h
  exact Buckets.overall_ne_unset overall (Buckets.state_ne_unset overall (.inr ⟨c, hc, rfl⟩))

/-- An evaluation is complete where all criteria are done, whatever their methods. -/
theorem complete_of_all_done (hne : criteria ≠ []) (h : ∀ c ∈ criteria, c.Done) :
    (evaluate overall criteria).status = .complete := by
  have hstate : ∀ p, (criteria.foldl (Buckets.add overall) .empty).state p ≠ .incomplete := by
    refine Buckets.state_induction (P := (· ≠ .incomplete)) overall (fun c hc m a ha => ?_)
      fun p => ?_
    · rw [Criterion.isMet_iff.2 (h c hc)]
      exact Aggregate.add_true_ne_incomplete m ha
    · rcases p with _ | _ | _ | _ <;> decide
  have hstatus : (evaluate overall criteria).status ≠ .incomplete := by
    refine Buckets.overall_induction (P := (· ≠ .incomplete)) overall (fun g f hf a ha => ?_)
      (hstate none)
    cases f with
    | true => exact Aggregate.add_true_ne_incomplete overall ha
    | false =>
      exfalso
      apply hstate (some g)
      revert hf
      cases (criteria.foldl (Buckets.add overall) .empty).state (some g) <;> simp [Aggregate.flag?]
  have hset : (evaluate overall criteria).status ≠ .unset := status_ne_unset hne
  revert hstatus hset
  cases (evaluate overall criteria).status <;> simp

/-- An evaluation is not complete where no criterion is done. -/
theorem not_complete_of_none_done (h : ∀ c ∈ criteria, ¬c.Done) :
    (evaluate overall criteria).status ≠ .complete := by
  have hstate : ∀ p, (criteria.foldl (Buckets.add overall) .empty).state p ≠ .complete := by
    refine Buckets.state_induction (P := (· ≠ .complete)) overall (fun c hc m a ha => ?_)
      fun p => ?_
    · rw [Criterion.not_isMet_iff.2 (h c hc)]
      exact Aggregate.add_false_ne_complete m ha
    · rcases p with _ | _ | _ | _ <;> decide
  refine Buckets.overall_induction (P := (· ≠ .complete)) overall (fun g f hf a ha => ?_)
    (hstate none)
  cases f with
  | true => exact absurd (Aggregate.flag?_eq_true_iff.1 hf) (hstate (some g))
  | false => exact Aggregate.add_false_ne_complete overall ha

/-- A complete evaluation brings the latest time with it at which a criterion was done. -/
theorem completed_of_complete (h : (evaluate overall criteria).status = .complete) :
    ∃ t, (evaluate overall criteria).completed = some t ∧
      (∃ c ∈ criteria, c.DoneAt t) ∧ ∀ c ∈ criteria, ∀ u, c.DoneAt u → u ≤ t := by
  have hdone : ∃ c ∈ criteria, c.Done := by
    by_contra hnone
    exact not_complete_of_none_done (fun c hc hd => hnone ⟨c, hc, hd⟩) h
  obtain ⟨c, hc, u, hu⟩ := hdone
  obtain ⟨t, ht, -⟩ := completed_evaluate overall hc (Criterion.metAt_eq_some_iff.2 hu)
  exact ⟨t, ht, completed_evaluate_iff.1 ht⟩

end

/-! ## records that an evaluation completes -/

namespace Action

/-- What two actions answer one after the other, the second answers to what the first did. -/
theorem run_bind_eq_ok {ε α β : Type} {x : ExceptT ε (StateM Session) α}
    {f : α → ExceptT ε (StateM Session) β} {s s' : Session} {b : β}
    (h : (x >>= f).run s = (.ok b, s')) :
    ∃ a s₁, x.run s = (.ok a, s₁) ∧ (f a).run s₁ = (.ok b, s') := by
  rw [run_bind] at h
  rcases hx : x.run s with ⟨a | e, s₁⟩
  · rw [hx] at h
    cases congrArg Prod.fst h
  · rw [hx] at h
    exact ⟨_, s₁, rfl, h⟩

theorem toAction_eq_ok {α : Type} {x : Fetch α} {s s' : Session} {a : α}
    (h : (Fetch.toAction x).run s = (.ok a, s')) : x.run s = (.ok a, s') := by
  rw [toAction_run] at h
  rcases hx : x.run s with ⟨e | a', s₁⟩
  · rw [hx] at h
    cases congrArg Prod.fst h
  · rw [hx] at h
    obtain ⟨ha, rfl⟩ := Prod.mk.inj h
    rw [Except.ok.inj ha]

variable {s s' : Session} {r saved : Record}

theorem ask_eq_ok {α : Type} {a : Access} {question : Store → α} {answer : α}
    (h : (Fetch.toAction (ask a question)).run s = (.ok answer, s')) :
    answer = question s.store := by
  obtain ⟨_, s₁, haccess, hanswer⟩ := run_bind_eq_ok (toAction_eq_ok h)
  have hstore : s₁.store = s.store := (congrArg (fun p => p.2.store) haccess).symm
  rw [← hstore]
  exact (Except.ok.inj (congrArg Prod.fst hanswer)).symm

theorem completed_of_write
    {change : CompletionTable → Except SourceError (Record × CompletionTable)}
    (hchange : ∀ t t', change t = .ok (saved, t') → saved.completed = r.completed) {a : Access}
    (h : (Fetch.toAction (access a >>= fun _ => Fetch.write change)).run s = (.ok saved, s')) :
    saved.completed = r.completed := by
  obtain ⟨-, s₁, -, hwrite⟩ := run_bind_eq_ok (toAction_eq_ok h)
  rw [write_run] at hwrite
  rcases hresult : change s₁.table with e | ⟨r', t'⟩
  · rw [hresult] at hwrite
    cases congrArg Prod.fst hwrite
  · rw [hresult] at hwrite
    obtain rfl := Except.ok.inj (congrArg Prod.fst hwrite)
    exact hchange _ _ hresult

theorem completed_of_withEnrolment {w : Record} (h : (withEnrolment r).run s = (.ok w, s')) :
    w.completed = r.completed := by
  unfold withEnrolment at h
  by_cases hr : r.isEnrolled
  · rw [if_pos hr] at h
    rw [← Except.ok.inj (congrArg Prod.fst h)]
  · rw [if_neg hr] at h
    obtain ⟨now, s₁, -, h⟩ := run_bind_eq_ok h
    obtain ⟨windows, s₂, -, h⟩ := run_bind_eq_ok h
    rw [← Except.ok.inj (congrArg Prod.fst h)]
    unfold Record.markEnrolled
    split <;> rfl

/-- A record is saved with its completion. -/
theorem completed_of_save (h : (save r).run s = (.ok saved, s')) :
    saved.completed = r.completed := by
  unfold save at h
  by_cases hr : r.isStored
  · rw [if_pos hr] at h
    refine completed_of_write (fun t t' hsave => ?_) h
    obtain ⟨id, rfl⟩ := (CompletionTable.saved_update hr hsave).saved_eq
    rfl
  · rw [if_neg hr] at h
    obtain ⟨w, s₁, hw, h⟩ := run_bind_eq_ok h
    rw [← completed_of_withEnrolment hw]
    refine completed_of_write (fun t t' hsave => ?_) h
    obtain ⟨-, rfl, -⟩ := CompletionTable.insert_eq_ok_iff.1 hsave
    rfl

/-- A record is completed at the given time, if that is known. -/
theorem completed_of_completeRecord {t : Instant} (ht : t.IsKnown)
    (h : (completeRecord r (some t)).run s = (.ok (.completed saved), s')) :
    saved.completed = some t := by
  unfold completeRecord at h
  rw [run_bind_ok (timeOrNow_run (some t) s), known?_of_isKnown ht, Option.getD_some] at h
  by_cases hr : r.isComplete
  · have hc : r.completion? t = none := if_pos hr
    simp only [hc] at h
    cases congrArg Prod.fst h
  · have hc : r.completion? t = some ⟨r.user, r.course, t, t⟩ := if_neg hr
    simp only [hc] at h
    obtain ⟨saved', s₁, hsave, h⟩ := run_bind_eq_ok h
    obtain ⟨-, s₂, -, h⟩ := run_bind_eq_ok h
    obtain rfl := Outcome.completed.inj (Except.ok.inj (congrArg Prod.fst h))
    rw [completed_of_save hsave, Record.completed_markComplete]
    have hopen : r.completed = none := by simpa [Record.isComplete] using hr
    rw [hopen]
    rfl

/-- A record that an evaluation completes is completed at the time of the evaluation. -/
theorem completed_of_evaluateRecord {settings : TrackingSettings}
    (h : (evaluateRecord r settings).run s = (.ok (.completed saved), s')) :
    ∃ t, (evaluate settings.method (s.store.criteriaFor r.key)).completed = some t ∧
      t.IsKnown ∧ saved.completed = some t := by
  unfold evaluateRecord at h
  obtain ⟨criteria, s₁, hcriteria, h⟩ := run_bind_eq_ok h
  obtain rfl := ask_eq_ok hcriteria
  have hsaved : ∀ {s₁ : Session}, (do return .saved (← save r) : Action Outcome).run s₁ ≠
      (.ok (.completed saved), s') := by
    intro s₁ h
    obtain ⟨r', s₂, -, h⟩ := run_bind_eq_ok h
    cases congrArg Prod.fst h
  by_cases hnil : s.store.criteriaFor r.key = []
  · rw [if_pos hnil] at h
    exact absurd h hsaved
  rw [if_neg hnil] at h
  by_cases hcomplete : (evaluate settings.method (s.store.criteriaFor r.key)).isComplete
  · rw [if_pos hcomplete] at h
    obtain ⟨t, ht, ⟨c, -, -, hknown⟩, -⟩ := completed_of_complete (of_decide_eq_true hcomplete)
    rw [ht] at h
    exact ⟨t, ht, hknown, completed_of_completeRecord hknown h⟩
  · rw [if_neg hcomplete] at h
    exact absurd h hsaved

end Action

/-- **Completing more criteria never hurts**, for any mixture of methods.  Between two lists of
criteria in step, of which the second has done what the first has, every bucket and the status are
complete in the second where they are in the first, and unset in both or none.  The status is
complete where all criteria are done, unless there are none, and is not where none is.  Where it is
complete there is a time, the latest at which a criterion was done; and whatever session a record is
evaluated in, if that completes the record then at this time. -/
theorem completing_more_never_hurts (overall : Method) :
    (∀ criteria criteria', List.Forall₂ Criterion.Advances criteria criteria' →
      (∀ g, ((evaluate overall criteria).bucket g).Below ((evaluate overall criteria').bucket g)) ∧
      (evaluate overall criteria).status.Below (evaluate overall criteria').status) ∧
    (∀ criteria,
      (criteria ≠ [] → (∀ c ∈ criteria, c.Done) → (evaluate overall criteria).status = .complete) ∧
      ((∀ c ∈ criteria, ¬c.Done) → (evaluate overall criteria).status ≠ .complete) ∧
      ((evaluate overall criteria).status = .complete →
        ∃ t, (evaluate overall criteria).completed = some t ∧
          (∃ c ∈ criteria, c.DoneAt t) ∧ ∀ c ∈ criteria, ∀ u, c.DoneAt u → u ≤ t)) ∧
    ∀ (r : Record) (settings : TrackingSettings) (s s' : Session) (saved : Record),
      (Action.evaluateRecord r settings).run s = (.ok (.completed saved), s') →
      ∃ t, (evaluate settings.method (s.store.criteriaFor r.key)).completed = some t ∧
        t.IsKnown ∧ saved.completed = some t := by
  refine ⟨fun criteria criteria' h => ?_, fun criteria => ?_, fun r settings s s' saved h => ?_⟩
  · have hempty : ∀ p, (Buckets.empty.state p).Below (Buckets.empty.state p) := fun p => .refl _
    have hstate := Buckets.below_foldl overall h hempty
    refine ⟨fun g => ?_, Buckets.below_overall overall hstate⟩
    rw [bucket_eq_state, bucket_eq_state]
    exact hstate (some g)
  · exact ⟨complete_of_all_done, not_complete_of_none_done, completed_of_complete⟩
  · exact Action.completed_of_evaluateRecord h

/-- an activity for which any counts, before one for which all count: the first makes the
difference, and the course is then completed in the past -/
theorem completed_by_activity_of_mixed_methods :
    let early : Instant := ⟨150, 0, by decide, by decide⟩
    let late : Instant := ⟨220, 5, by decide, by decide⟩
    let essay : Criterion := ⟨2, .activity, .all, some early, "essay"⟩
    let before : List Criterion := [⟨1, .activity, .any, none, "quiz"⟩, essay]
    let after : List Criterion := [⟨1, .activity, .any, some late, "quiz"⟩, essay]
    let store : Store :=
      { Store.empty true with
        criteria := [⟨1, 7, .activity, "quiz"⟩, ⟨2, 7, .activity, "essay"⟩]
        marks := [⟨3, 1, some late⟩, ⟨3, 2, some early⟩] }
    let s : Session := .start store ⟨900, 0, by decide, by decide⟩
    (evaluate .all before).activity = .incomplete ∧ (evaluate .all after).activity = .complete ∧
      (evaluate .all before).status.Below (evaluate .all after).status ∧
      (evaluate .all after).status = .complete ∧ (evaluate .all after).completed = some late ∧
      ∃ saved s', (Action.evaluateRecord (.new ⟨3, 7⟩) (.on .all)).run s =
        (.ok (.completed saved), s') ∧ saved.completed = some late := by
  intro early late essay before after store s
  obtain ⟨hstep, hevery, hrun⟩ := completing_more_never_hurts .all
  have hquiz : (⟨1, .activity, .any, some late, "quiz"⟩ : Criterion).Done := ⟨late, rfl, by decide⟩
  have hessay : essay.Done := ⟨early, rfl, by decide⟩
  have hsteps : List.Forall₂ Criterion.Advances before after :=
    .cons ⟨rfl, rfl, fun _ => hquiz⟩ (.cons ⟨rfl, rfl, fun h => h⟩ .nil)
  have hcomplete : (evaluate .all after).status = .complete := by
    refine (hevery after).1 (by decide) fun c hc => ?_
    rcases List.mem_pair.1 hc with rfl | rfl
    · exact hquiz
    · exact hessay
  have hlate : (evaluate .all after).completed = some late := by decide
  have hanswer : ((Action.evaluateRecord (.new ⟨3, 7⟩) (.on .all)).run s).1 =
      .ok (.completed ⟨some 1, 3, 7, some s.now, some late, some late, none, 1⟩) := by
    decide
  obtain ⟨u, hu, -, hsaved⟩ := hrun _ _ s _ _ (Prod.ext hanswer rfl)
  have hu' : (evaluate .all (store.criteriaFor ⟨3, 7⟩)).completed = some late := by decide
  obtain rfl := Option.some.inj (hu'.symm.trans hu)
  exact ⟨by decide, by decide, (hstep before after hsteps).2, hcomplete, hlate, _, _,
    Prod.ext hanswer rfl, hsaved⟩

end CourseCompletion
