import CourseCompletion.Proofs.Aggregation

/-!
# An evaluation in closed form

`evaluate` goes through the criteria one after the other.  What it comes to depends on which
criteria there are and which of them are done, and not on their order:

* `Criterion.DoneAt`     a criterion is done at a time after the epoch;
* `Aggregate.Tells`      a state says whether there is any input, and whether it suffices;
* `Evaluation.Suffices`  what the method of the course asks of its buckets and of the criteria
                         outside them.

`evaluation_by_rule` says this of the buckets, the status, the time and the order.  The criteria of
a group have to carry one method.
-/

namespace CourseCompletion

/-! ## criteria that are done -/

namespace Criterion

def DoneAt (c : Criterion) (t : Instant) : Prop := c.completed = some t ∧ 0 < t.seconds

def Done (c : Criterion) : Prop := ∃ t, c.DoneAt t

variable {c : Criterion} {t : Instant}

theorem metAt_eq_some_iff : c.metAt = some t ↔ c.DoneAt t := known?_eq_some_iff

theorem isMet_iff : c.isMet = true ↔ c.Done := by
  unfold isMet Done
  rw [Option.isSome_iff_exists]
  exact exists_congr fun t => metAt_eq_some_iff

end Criterion

/-! ## states -/

/-- a state is unset where there is no input, and else says whether the input is good -/
structure Aggregate.Tells (a : Aggregate) (input good : Prop) : Prop where
  unset : a = .unset ↔ ¬input
  complete : a = .complete ↔ input ∧ good
  incomplete : a = .incomplete ↔ input ∧ ¬good

namespace Aggregate

variable {a b : Aggregate} {input good : Prop}

theorem flag?_eq_none_iff : a.flag? = none ↔ a = .unset := by
  cases a <;> simp [flag?]

theorem flag?_eq_true_iff : a.flag? = some true ↔ a = .complete := by
  cases a <;> simp [flag?]

theorem flag?_ne_false_iff : a.flag? ≠ some false ↔ (a ≠ .unset → a = .complete) := by
  cases a <;> simp [flag?]

/-- The flag that a state stands for says all that the state does. -/
theorem tells_of_flag? (hnone : a.flag? = none ↔ ¬input)
    (htrue : a.flag? = some true ↔ input ∧ good) : a.Tells input good := by
  rw [flag?_eq_none_iff] at hnone
  rw [flag?_eq_true_iff] at htrue
  refine ⟨hnone, htrue, ?_⟩
  cases a with
  | unset => exact ⟨fun h => (by cases h), fun h => absurd h.1 (hnone.1 rfl)⟩
  | complete => exact ⟨fun h => (by cases h), fun h => absurd (htrue.1 rfl).2 h.2⟩
  | incomplete =>
    have hinput : input := not_not.1 fun hnot => by cases hnone.2 hnot
    exact ⟨fun _ => ⟨hinput, fun hgood => by cases htrue.2 ⟨hinput, hgood⟩⟩, fun _ => rfl⟩

/-- Two states that tell the same are one. -/
theorem Tells.unique (ha : a.Tells input good) (hb : b.Tells input good) : a = b := by
  cases a with
  | unset => exact (hb.unset.2 (ha.unset.1 rfl)).symm
  | complete => exact (hb.complete.2 (ha.complete.1 rfl)).symm
  | incomplete => exact (hb.incomplete.2 (ha.incomplete.1 rfl)).symm

end Aggregate

/-! ## buckets -/

namespace Evaluation

/-- what the criteria of a group came to -/
def bucket (e : Evaluation) : Group → Aggregate
  | .activity => e.activity
  | .prerequisite => e.prerequisite
  | .role => e.role

theorem eq_of_bucket {e e' : Evaluation} (hstatus : e.status = e'.status)
    (hbucket : ∀ g, e.bucket g = e'.bucket g) (hcompleted : e.completed = e'.completed)
    (hcount : e.count = e'.count) : e = e' := by
  have hactivity : e.activity = e'.activity := hbucket .activity
  have hprerequisite : e.prerequisite = e'.prerequisite := hbucket .prerequisite
  have hrole : e.role = e'.role := hbucket .role
  cases e
  cases e'
  simp_all

/-- Every bucket that is set is complete and every criterion outside the groups is done, or any of
them is. -/
def Suffices (e : Evaluation) (criteria : List Criterion) : Method → Prop
  | .all => (∀ g, e.bucket g ≠ .unset → e.bucket g = .complete) ∧
      ∀ c ∈ criteria, c.kind.group? = none → c.Done
  | .any => (∃ g, e.bucket g = .complete) ∨ ∃ c ∈ criteria, c.kind.group? = none ∧ c.Done

end Evaluation

section

variable {overall : Method} {methods : Group → Method} {criteria criteria' : List Criterion}

theorem Uniform.perm (h : Uniform methods criteria) (hp : criteria'.Perm criteria) :
    Uniform methods criteria' := fun c hc => h c (hp.mem_iff.1 hc)

theorem flagsOf_eq_nil_iff {p : Option Group} :
    flagsOf criteria p = [] ↔ ¬∃ c ∈ criteria, c.kind.group? = p := by
  unfold flagsOf
  rw [List.map_eq_nil_iff, List.filter_eq_nil_iff]
  simp only [decide_eq_true_eq, not_exists, not_and]

theorem bucket_evaluate (overall : Method) (h : Uniform methods criteria) (g : Group) :
    ((evaluate overall criteria).bucket g).flag? =
      (methods g).verdict (flagsOf criteria (some g)) := by
  have hstate : (evaluate overall criteria).bucket g =
      (criteria.foldl (Buckets.add overall) .empty).state (some g) := by
    cases g <;> rfl
  have hempty : (Buckets.empty.state (some g)).flag? = none := by
    cases g <;> rfl
  rw [hstate, Buckets.state_foldl h, Aggregate.flag?_foldl, hempty]
  rfl

/-- A bucket tells whether all criteria of its group are done, or any of them. -/
theorem tells_bucket (overall : Method) (h : Uniform methods criteria) (g : Group) :
    ((evaluate overall criteria).bucket g).Tells (∃ c ∈ criteria, c.kind = g.kind)
      ((methods g).Asks Criterion.Done (criteria.filter (·.kind = g.kind))) := by
  have hgroup : ∀ c : Criterion, c.kind.group? = some g ↔ c.kind = g.kind := fun c =>
    CriterionKind.group?_eq_some_iff
  have hdone : ∀ c : Criterion, (c.isMet = true) = c.Done := fun c => propext Criterion.isMet_iff
  have hnone : flagsOf criteria (some g) = [] ↔ ¬∃ c ∈ criteria, c.kind.group? = some g :=
    flagsOf_eq_nil_iff
  simp only [hgroup] at hnone
  apply Aggregate.tells_of_flag?
  · rw [bucket_evaluate overall h, Method.verdict_eq_none_iff, hnone]
  · have hsome : criteria.filter (·.kind = g.kind) ≠ [] ↔ ∃ c ∈ criteria, c.kind = g.kind := by
      rw [← not_not (a := ∃ c ∈ criteria, c.kind = g.kind), ← hnone]
      unfold flagsOf
      simp only [List.map_eq_nil_iff, hgroup, ne_eq]
    rw [bucket_evaluate overall h, ← hsome]
    unfold flagsOf
    simp only [hgroup, Method.verdict_map_eq_true_iff, hdone]

/-! ## the status -/

/-- Some criteria are outside the groups, or some group has any, unless there are none. -/
theorem criteria_ne_nil_iff (overall : Method) (h : Uniform methods criteria) :
    criteria ≠ [] ↔ flagsOf criteria none ≠ [] ∨
      ∃ g, ((evaluate overall criteria).bucket g).flag? ≠ none := by
  have hbucket : ∀ g, ((evaluate overall criteria).bucket g).flag? ≠ none ↔
      ∃ c ∈ criteria, c.kind.group? = some g := by
    intro g
    rw [bucket_evaluate overall h, ne_eq, Method.verdict_eq_none_iff, flagsOf_eq_nil_iff, not_not]
  simp only [hbucket, ne_eq, flagsOf_eq_nil_iff, not_not]
  constructor
  · intro hne
    obtain ⟨c, hc⟩ := List.exists_mem_of_ne_nil _ hne
    cases hg : c.kind.group? with
    | none => exact .inl ⟨c, hc, hg⟩
    | some g => exact .inr ⟨g, c, hc, hg⟩
  · rintro (⟨c, hc, -⟩ | ⟨g, c, hc, -⟩)
    · exact List.ne_nil_of_mem hc
    · exact List.ne_nil_of_mem hc

/-- The status tells whether the buckets and the criteria outside the groups suffice. -/
theorem tells_status (overall : Method) (h : Uniform methods criteria) :
    (evaluate overall criteria).status.Tells (criteria ≠ [])
      ((evaluate overall criteria).Suffices criteria overall) := by
  have hflags : ∀ f, f ∈ flagsOf criteria none ↔
      ∃ c ∈ criteria, c.kind.group? = none ∧ c.isMet = f := by
    intro f
    simp only [flagsOf, List.mem_map, List.mem_filter, decide_eq_true_eq, and_assoc]
  have hflag := flag?_evaluate h overall
  simp only [← bucket_evaluate overall h] at hflag
  apply Aggregate.tells_of_flag?
  · rw [hflag, Method.verdict_eq_none_iff, criteria_ne_nil_iff overall h]
    simp only [List.append_eq_nil_iff, List.filterMap_eq_nil_iff, Group.mem_order, forall_const,
      not_or, not_exists, not_not, ne_eq]
  · rw [hflag, verdict_groups_iff, criteria_ne_nil_iff overall h]
    refine and_congr_right fun _ => ?_
    cases overall with
    | all =>
      refine and_congr (forall_congr' fun g => Aggregate.flag?_ne_false_iff) ?_
      simp only [hflags, ← Criterion.isMet_iff]
      constructor
      · intro hall c hc hg
        exact hall _ ⟨c, hc, hg, rfl⟩
      · rintro hall f ⟨c, hc, hg, rfl⟩
        exact hall c hc hg
    | any =>
      refine or_congr (exists_congr fun g => Aggregate.flag?_eq_true_iff) ?_
      simp only [hflags, ← Criterion.isMet_iff]
      constructor
      · rintro ⟨f, ⟨c, hc, hg, hf⟩, htrue⟩
        exact ⟨c, hc, hg, hf.trans htrue⟩
      · rintro ⟨c, hc, hg, hf⟩
        exact ⟨_, ⟨c, hc, hg, rfl⟩, hf⟩

/-! ## the time -/

/-- The time of an evaluation is the latest at which a criterion was done, if any was. -/
theorem completed_evaluate_iff {t : Instant} :
    (evaluate overall criteria).completed = some t ↔
      (∃ c ∈ criteria, c.DoneAt t) ∧ ∀ c ∈ criteria, ∀ u, c.DoneAt u → u ≤ t := by
  simp only [← Criterion.metAt_eq_some_iff]
  constructor
  · intro ht
    obtain ⟨c, hc, hmet⟩ : ∃ c ∈ criteria, c.metAt = some t :=
      (Buckets.latest_foldl_eq_some ht).resolve_left fun h => by cases h
    obtain ⟨t', ht', -, hlatest⟩ := completed_evaluate overall hc hmet
    obtain rfl := Option.some.inj (ht.symm.trans ht')
    exact ⟨⟨c, hc, hmet⟩, hlatest⟩
  · rintro ⟨⟨c, hc, hmet⟩, hlatest⟩
    obtain ⟨t', ht', ⟨d, hd, hmet'⟩, hlatest'⟩ := completed_evaluate overall hc hmet
    rw [ht', Instant.le_antisymm (hlatest d hd t' hmet') (hlatest' c hc t hmet)]

/-! ## the order -/

/-- Criteria in another order come to the same. -/
theorem evaluate_perm (h : Uniform methods criteria) (hp : criteria'.Perm criteria) :
    evaluate overall criteria' = evaluate overall criteria := by
  have hbucket : ∀ g, (evaluate overall criteria').bucket g =
      (evaluate overall criteria).bucket g := by
    intro g
    have htells := tells_bucket overall (h.perm hp) g
    have hasks : (methods g).Asks Criterion.Done (criteria'.filter (·.kind = g.kind)) ↔
        (methods g).Asks Criterion.Done (criteria.filter (·.kind = g.kind)) := by
      unfold Method.Asks
      cases methods g <;> simp only [(hp.filter _).mem_iff]
    simp only [hp.mem_iff, hasks] at htells
    exact htells.unique (tells_bucket overall h g)
  have hstatus : (evaluate overall criteria').status = (evaluate overall criteria).status := by
    have hsuffices : (evaluate overall criteria').Suffices criteria' overall ↔
        (evaluate overall criteria).Suffices criteria overall := by
      unfold Evaluation.Suffices
      cases overall <;> simp only [hbucket, hp.mem_iff]
    have htells := tells_status overall (h.perm hp)
    have hnil : criteria' ≠ [] ↔ criteria ≠ [] := by
      rw [ne_eq, ne_eq, ← List.length_eq_zero_iff, hp.length_eq, List.length_eq_zero_iff]
    simp only [hnil, hsuffices] at htells
    exact htells.unique (tells_status overall h)
  have hcompleted : (evaluate overall criteria').completed =
      (evaluate overall criteria).completed := by
    refine Option.ext fun t => ?_
    simp only [completed_evaluate_iff, hp.mem_iff]
  exact Evaluation.eq_of_bucket hstatus hbucket hcompleted hp.length_eq

end

/-- **What an evaluation computes**, where the criteria of each group carry one method.  The bucket
of a group is unset where the group has no criteria, and else says whether all of them are done, or
any.  The status is unset where there are no criteria at all, and else says whether the buckets and
the criteria outside the groups suffice.  The time is the latest at which any criterion was done.
The order of the criteria does not matter. -/
theorem evaluation_by_rule (overall : Method) {methods : Group → Method}
    {criteria : List Criterion} (h : Uniform methods criteria) :
    (∀ g, ((evaluate overall criteria).bucket g).Tells (∃ c ∈ criteria, c.kind = g.kind)
      ((methods g).Asks Criterion.Done (criteria.filter (·.kind = g.kind)))) ∧
    (evaluate overall criteria).status.Tells (criteria ≠ [])
      ((evaluate overall criteria).Suffices criteria overall) ∧
    (∀ t, (evaluate overall criteria).completed = some t ↔
      (∃ c ∈ criteria, c.DoneAt t) ∧ ∀ c ∈ criteria, ∀ u, c.DoneAt u → u ≤ t) ∧
    ∀ criteria', criteria'.Perm criteria →
      evaluate overall criteria' = evaluate overall criteria :=
  ⟨fun g => tells_bucket overall h g, tells_status overall h, fun _ => completed_evaluate_iff,
    fun _ hp => evaluate_perm h hp⟩

/-- one of two activities is enough for the course, though the time of the only role does not count;
the time is that of the last criterion, in either order -/
theorem course_complete_by_one_activity :
    let early : Instant := ⟨150, 0, by decide, by decide⟩
    let late : Instant := ⟨239, 1500000000, by decide, by decide⟩
    let epoch : Instant := ⟨0, 999999999, by decide, by decide⟩
    let tutor : Criterion := ⟨3, .role, .all, some epoch, "tutor"⟩
    let quiz : Criterion := ⟨1, .activity, .any, some early, "quiz"⟩
    let essay : Criterion := ⟨2, .activity, .any, none, "essay"⟩
    let exam : Criterion := ⟨4, .other 9, .all, some late, "exam"⟩
    let methods : Group → Method := fun g => if g = .activity then .any else .all
    let criteria := [tutor, essay, exam, quiz]
    Uniform methods criteria ∧
      (evaluate .any criteria).status = .complete ∧
      (evaluate .any criteria).role = .incomplete ∧
      (evaluate .any criteria).prerequisite = .unset ∧
      (evaluate .any criteria).completed = some late ∧
      evaluate .any [quiz, exam, essay, tutor] = evaluate .any criteria := by
  intro early late epoch tutor quiz essay exam methods criteria
  have hmethods : ∀ c ∈ criteria, ∀ g ∈ Group.order, c.kind.group? = some g →
      c.method = methods g := by decide
  have huniform : Uniform methods criteria := fun c hc g => hmethods c hc g g.mem_order
  obtain ⟨hbucket, hstatus, htime, hperm⟩ := evaluation_by_rule .any huniform
  have hquiz : quiz.Done := ⟨early, rfl, by decide⟩
  have htutor : ¬tutor.Done := by
    rintro ⟨t, ht, hpos⟩
    obtain rfl := Option.some.inj ht
    exact absurd hpos (by decide)
  have hactivity : (evaluate .any criteria).activity = .complete :=
    (hbucket .activity).complete.2 ⟨⟨quiz, by decide, rfl⟩, quiz, by decide, hquiz⟩
  refine ⟨huniform, hstatus.complete.2 ⟨by decide, .inl ⟨.activity, hactivity⟩⟩,
    (hbucket .role).incomplete.2 ⟨⟨tutor, by decide, rfl⟩, fun hall => ?_⟩,
    (hbucket .prerequisite).unset.2 ?_, (htime late).2 ?_, hperm _ (List.reverse_perm criteria)⟩
  · exact htutor (hall tutor (by decide))
  · decide
  · have hlatest : ∀ c ∈ criteria, ∀ u ∈ c.metAt, u ≤ late := by decide
    exact ⟨⟨exam, by decide, rfl, by decide⟩,
      fun c hc u hu => hlatest c hc u (Criterion.metAt_eq_some_iff.2 hu)⟩

end CourseCompletion
