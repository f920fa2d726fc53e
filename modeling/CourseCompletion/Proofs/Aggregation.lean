import CourseCompletion.Aggregation
import Mathlib.Logic.Basic

/-!
# What an evaluation decides

Flags that are gathered with a method come to a verdict, unless there are none
(`Aggregate.flag?_foldl`).  An evaluation brings the criteria of every `Group` to a verdict of their
own, and then these verdicts and all other criteria to the one of the course:

* `flag?_evaluate`      the verdict of the course;
* `completed_evaluate`   the time that goes with it: the latest at which a criterion was met.

The criteria of a group have to carry one method (`Uniform`), as they do when they come from a
store.
-/

namespace CourseCompletion

/-! ## flags gathered with a method -/

namespace Method

/-- what a method asks of a list: a property of all its members, or of any -/
def Asks {α : Type} (m : Method) (p : α → Prop) (xs : List α) : Prop :=
  match m with
  | all => ∀ x ∈ xs, p x
  | any => ∃ x ∈ xs, p x

def holds : Method → List Bool → Bool
  | all, flags => flags.all id
  | any, flags => flags.any id

/-- what flags come to: nothing if there are none -/
def verdict (m : Method) (flags : List Bool) : Option Bool :=
  if flags = [] then none else some (m.holds flags)

theorem verdict_eq_none_iff {m : Method} {flags : List Bool} :
    m.verdict flags = none ↔ flags = [] := by
  unfold verdict
  split <;> simp_all

theorem holds_map_iff {α : Type} {m : Method} {f : α → Bool} {xs : List α} :
    m.holds (xs.map f) = true ↔ m.Asks (fun x => f x = true) xs := by
  cases m with
  | all => simp [holds, Asks]
  | any => simp [holds, Asks]

theorem verdict_map_eq_true_iff {α : Type} {m : Method} {f : α → Bool} {xs : List α} :
    m.verdict (xs.map f) = some true ↔ xs ≠ [] ∧ m.Asks (fun x => f x = true) xs := by
  rw [← holds_map_iff]
  unfold verdict
  cases xs with
  | nil => simp
  | cons x xs => simp

end Method

namespace Aggregate

/-- Flags that are added to a state come to a verdict together with the flag that it stands for. -/
theorem flag?_foldl (m : Method) (a : Aggregate) (flags : List Bool) :
    (flags.foldl (add m) a).flag? = m.verdict (a.flag?.toList ++ flags) := by
  induction flags generalizing a with
  | nil => cases m <;> cases a <;> rfl
  | cons f fs ih =>
    rw [List.foldl_cons, ih]
    cases m <;> cases a <;> cases f <;> simp [Method.verdict, Method.holds, add, flag?]

end Aggregate

/-! ## groups of criteria -/

/-- The kinds of criteria that come to a verdict of their own. -/
inductive Group where
  | activity
  | prerequisite
  | role
deriving DecidableEq

namespace Group

def kind : Group → CriterionKind
  | activity => .activity
  | prerequisite => .prerequisite
  | role => .role

/-- the groups in the order in which their verdicts are gathered -/
def order : List Group := [role, activity, prerequisite]

theorem mem_order (g : Group) : g ∈ order := by
  cases g <;> decide

end Group

/-- the group that criteria of a kind belong to, if they do to any -/
def CriterionKind.group? : CriterionKind → Option Group
  | activity => some .activity
  | prerequisite => some .prerequisite
  | role => some .role
  | other _ => none

theorem CriterionKind.group?_eq_some_iff {kind : CriterionKind} {g : Group} :
    kind.group? = some g ↔ kind = g.kind := by
  cases kind <;> cases g <;> simp [group?, Group.kind]

/-- the criteria of a group carry one method -/
def Uniform (methods : Group → Method) (criteria : List Criterion) : Prop :=
  ∀ c ∈ criteria, ∀ g, c.kind.group? = some g → c.method = methods g

/-- which criteria of a group are met, or of those that belong to none -/
def flagsOf (criteria : List Criterion) (p : Option Group) : List Bool :=
  (criteria.filter (·.kind.group? = p)).map Criterion.isMet

namespace Buckets

/-- what the criteria of a group came to so far, or those that belong to none -/
def state (b : Buckets) : Option Group → Aggregate
  | some .activity => b.activity
  | some .prerequisite => b.prerequisite
  | some .role => b.role
  | none => b.status

theorem state_add (overall : Method) (b : Buckets) (c : Criterion) (p : Option Group) :
    (b.add overall c).state p =
      if c.kind.group? = p then .add (if p.isSome then c.method else overall) (b.state p) c.isMet
      else b.state p := by
  unfold add
  cases c.kind <;> rcases p with _ | _ | _ | _ <;> simp [state, CriterionKind.group?]

theorem state_foldl {methods : Group → Method} {criteria : List Criterion}
    (h : Uniform methods criteria) (overall : Method) (b : Buckets) (p : Option Group) :
    (criteria.foldl (add overall) b).state p =
      (flagsOf criteria p).foldl (.add (p.elim overall methods)) (b.state p) := by
  induction criteria generalizing b with
  | nil => rfl
  | cons c cs ih =>
    have hcs : Uniform methods cs := fun d hd => h d (List.mem_cons_of_mem c hd)
    rw [List.foldl_cons, ih hcs, state_add]
    by_cases hp : c.kind.group? = p
    · have hmethod : (if p.isSome then c.method else overall) = p.elim overall methods := by
        cases p with
        | none => rfl
        | some g => exact h c List.mem_cons_self g hp
      have hflags : flagsOf (c :: cs) p = c.isMet :: flagsOf cs p := by
        simp [flagsOf, hp]
      rw [if_pos hp, hmethod, hflags, List.foldl_cons]
    · have hflags : flagsOf (c :: cs) p = flagsOf cs p := by
        simp [flagsOf, hp]
      rw [if_neg hp, hflags]

end Buckets

/-- **The verdict of a course** is that of all criteria outside the groups, and of the verdicts of
the groups that have any. -/
theorem flag?_evaluate {methods : Group → Method} {criteria : List Criterion}
    (h : Uniform methods criteria) (overall : Method) :
    (evaluate overall criteria).status.flag? = overall.verdict (flagsOf criteria none ++
      Group.order.filterMap fun g => (methods g).verdict (flagsOf criteria (some g))) := by
  have hstate := Buckets.state_foldl h overall .empty
  have hgroup : ∀ g : Group, ((criteria.foldl (Buckets.add overall) .empty).state (some g)).flag? =
      (methods g).verdict (flagsOf criteria (some g)) := by
    intro g
    rw [hstate, Aggregate.flag?_foldl]
    cases g <;> rfl
  have hrest : (criteria.foldl (Buckets.add overall) .empty).status =
      (flagsOf criteria none).foldl (.add overall) .unset := hstate none
  have hgroups : Group.order.filterMap (fun g => (methods g).verdict (flagsOf criteria (some g))) =
      Group.order.filterMap fun g =>
        ((criteria.foldl (Buckets.add overall) .empty).state (some g)).flag? := by
    simp only [hgroup]
  rw [hgroups]
  show (List.foldl (.add overall) (criteria.foldl (Buckets.add overall) .empty).status _).flag? = _
  rw [hrest, ← List.foldl_append, Aggregate.flag?_foldl]
  rfl

/-- What it takes for the verdicts of some flags and of all groups to come to a good one. -/
theorem verdict_groups_iff {m : Method} {flags : List Bool} {v : Group → Option Bool} :
    m.verdict (flags ++ Group.order.filterMap v) = some true ↔
      (flags ≠ [] ∨ ∃ g, v g ≠ none) ∧
        match m with
        | .all => (∀ g, v g ≠ some false) ∧ ∀ f ∈ flags, f = true
        | .any => (∃ g, v g = some true) ∨ ∃ f ∈ flags, f = true := by
  have hmem : ∀ b, b ∈ Group.order.filterMap v ↔ ∃ g, v g = some b := by
    intro b
    simp [List.mem_filterMap, Group.mem_order]
  have hnil : flags ++ Group.order.filterMap v ≠ [] ↔ flags ≠ [] ∨ ∃ g, v g ≠ none := by
    simp only [ne_eq, List.append_eq_nil_iff, List.filterMap_eq_nil_iff, Group.mem_order,
      forall_const, not_and_or, not_forall]
  have hasks : m.verdict ((flags ++ Group.order.filterMap v).map id) = some true ↔ _ :=
    Method.verdict_map_eq_true_iff
  rw [List.map_id] at hasks
  rw [hasks, hnil]
  refine and_congr_right fun _ => ?_
  cases m with
  | all =>
    show (∀ f ∈ flags ++ Group.order.filterMap v, f = true) ↔ _
    rw [List.forall_mem_append, and_comm]
    refine and_congr_left fun _ => ?_
    constructor
    · intro h g hg
      exact Bool.false_ne_true (h false ((hmem false).2 ⟨g, hg⟩))
    · intro h f hf
      cases f with
      | true => rfl
      | false =>
        obtain ⟨g, hg⟩ := (hmem false).1 hf
        exact absurd hg (h g)
  | any =>
    show (∃ f ∈ flags ++ Group.order.filterMap v, f = true) ↔ _
    constructor
    · rintro ⟨f, hf, rfl⟩
      rcases List.mem_append.1 hf with hf | hf
      · exact .inr ⟨true, hf, rfl⟩
      · exact .inl ((hmem true).1 hf)
    · rintro (hg | ⟨f, hf, rfl⟩)
      · exact ⟨true, List.mem_append_right _ ((hmem true).2 hg), rfl⟩
      · exact ⟨true, List.mem_append_left _ hf, rfl⟩

/-! ## the latest time -/

namespace Instant

variable {a b : Option Instant} {t u : Instant}

theorem later_eq_some (h : later a b = some t) : a = some t ∨ b = some t := by
  cases a with
  | none => exact .inr h
  | some x =>
    cases b with
    | none => exact .inl h
    | some y =>
      have hmax : max x y = t := Option.some.inj h
      rw [max_def] at hmax
      split at hmax
      · exact .inr (congrArg some hmax)
      · exact .inl (congrArg some hmax)

theorem le_later (h : a = some u ∨ b = some u) : ∃ t, later a b = some t ∧ u ≤ t := by
  cases a with
  | none =>
    rcases h with h | rfl
    · cases h
    · exact ⟨u, rfl, le_refl u⟩
  | some x =>
    cases b with
    | none =>
      rcases h with h | h
      · exact ⟨x, rfl, Option.some.inj h ▸ le_refl _⟩
      · cases h
    | some y =>
      refine ⟨max x y, rfl, ?_⟩
      rw [max_def]
      rcases h with h | h
      · obtain rfl := Option.some.inj h
        split
        · assumption
        · exact le_refl _
      · obtain rfl := Option.some.inj h
        split
        · exact le_refl _
        · next hle => exact (le_total x y).resolve_left hle

end Instant

namespace Buckets

theorem latest_add (overall : Method) (b : Buckets) (c : Criterion) :
    (b.add overall c).latest = Instant.later b.latest c.metAt := by
  unfold add
  cases c.kind <;> rfl

theorem latest_foldl_eq_some {overall : Method} {criteria : List Criterion} {b : Buckets}
    {t : Instant} (h : (criteria.foldl (add overall) b).latest = some t) :
    b.latest = some t ∨ ∃ c ∈ criteria, c.metAt = some t := by
  induction criteria generalizing b with
  | nil => exact .inl h
  | cons c cs ih =>
    rcases ih h with hb | ⟨d, hd, ht⟩
    · rw [latest_add] at hb
      rcases Instant.later_eq_some hb with hb | hc
      · exact .inl hb
      · exact .inr ⟨c, List.mem_cons_self, hc⟩
    · exact .inr ⟨d, List.mem_cons_of_mem c hd, ht⟩

theorem le_latest_foldl (overall : Method) {criteria : List Criterion} {b : Buckets} {u : Instant}
    (h : b.latest = some u ∨ ∃ c ∈ criteria, c.metAt = some u) :
    ∃ t, (criteria.foldl (add overall) b).latest = some t ∧ u ≤ t := by
  induction criteria generalizing b u with
  | nil =>
    rcases h with hb | ⟨c, hc, -⟩
    · exact ⟨u, hb, Instant.le_refl u⟩
    · cases hc
  | cons c cs ih =>
    -- the first criterion and what came before it leave a time that is late enough
    have hfirst : (b.latest = some u ∨ c.metAt = some u) → ∃ t,
        ((c :: cs).foldl (add overall) b).latest = some t ∧ u ≤ t := by
      intro hu
      obtain ⟨v, hv, huv⟩ := Instant.le_later hu
      obtain ⟨t, ht, hvt⟩ := ih (b := b.add overall c) (u := v) (.inl (by rw [latest_add, hv]))
      exact ⟨t, ht, Instant.le_trans huv hvt⟩
    rcases h with hb | ⟨d, hd, hu⟩
    · exact hfirst (.inl hb)
    · rcases List.mem_cons.1 hd with rfl | hd
      · exact hfirst (.inr hu)
      · exact ih (.inr ⟨d, hd, hu⟩)

end Buckets

/-- **The time of an evaluation** is the latest at which a criterion was met, if any was. -/
theorem completed_evaluate (overall : Method) {criteria : List Criterion} {c : Criterion}
    {u : Instant} (hc : c ∈ criteria) (hu : c.metAt = some u) :
    ∃ t, (evaluate overall criteria).completed = some t ∧ (∃ d ∈ criteria, d.metAt = some t) ∧
      ∀ d ∈ criteria, ∀ v, d.metAt = some v → v ≤ t := by
  obtain ⟨t, ht, -⟩ := Buckets.le_latest_foldl overall (b := .empty) (.inr ⟨c, hc, hu⟩)
  refine ⟨t, ht, ?_, fun d hd v hv => ?_⟩
  · exact (Buckets.latest_foldl_eq_some ht).resolve_left fun h => by cases h
  · obtain ⟨t', ht', hle⟩ := Buckets.le_latest_foldl overall (b := .empty)
      (.inr ⟨d, hd, hv⟩)
    obtain rfl := Option.some.inj (ht.symm.trans ht')
    exact hle

end CourseCompletion
