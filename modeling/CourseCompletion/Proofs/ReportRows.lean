import CourseCompletion.Proofs.Monotone
import CourseCompletion.Report
import Mathlib.Algebra.GroupWithZero.Nat

/-!
# Rows of a report and evaluations

A report counts activities in one row and prerequisites in another and gives every other criterion
a row of its own, while an evaluation gathers criteria in buckets with their methods.

* `ReportRow.size`              how many criteria a row is about; a list of rows is about all of
                                them (`sum_size_reportRows`);
* `reportRows_complete_iff`     every row is marked complete exactly if every criterion is done;
* `all_done_of_complete`        so they are where an evaluation by `Method.all` throughout is
                                complete.

`rows_agree_with_evaluation` says what follows for the two: rows that are all marked complete make
an evaluation complete by any methods, and by `Method.all` throughout nothing else does.
-/

namespace CourseCompletion

/-! ## how many criteria rows are about -/

/-- the number of criteria that a row is about: all that it counts, or the one -/
def ReportRow.size (row : ReportRow) : Nat :=
  match row.status with
  | .count _ total => total
  | .complete | .incomplete => 1

namespace ReportRow

@[simp]
theorem size_summary (title : String) (done total : Nat) :
    (summary title done total).size = total := rfl

@[simp]
theorem size_single (title : String) (complete : Bool) : (single title complete).size = 1 := by
  cases complete <;> rfl

theorem status_single_ne_count (title : String) (complete : Bool) (done total : Nat) :
    (single title complete).status ≠ .count done total := by
  cases complete <;> simp [single]

end ReportRow

section

variable {criteria : List Criterion} {title : String} {kind : CriterionKind} {row : ReportRow}

/-- A group is counted in one row, unless it is empty. -/
theorem mem_groupRow : row ∈ groupRow title kind criteria ↔
    criteria.filter (·.kind = kind) ≠ [] ∧
      row = .summary title ((criteria.filter (·.kind = kind)).filter Criterion.isMet).length
        (criteria.filter (·.kind = kind)).length := by
  unfold groupRow
  by_cases h : criteria.filter (·.kind = kind) = []
  · simp [h]
  · simp [h]

/-- What holds of all rows holds of the groups that are counted, and of every other criterion. -/
theorem forall_mem_reportRows {P : ReportRow → Prop} : (∀ row ∈ reportRows criteria, P row) ↔
    (∀ row ∈ groupRow "Prerequisites completed" .prerequisite criteria, P row) ∧
    (∀ c ∈ criteria, c.kind ≠ .activity → c.kind ≠ .prerequisite → P (.single c.title c.isMet)) ∧
    ∀ row ∈ groupRow "Activities completed" .activity criteria, P row := by
  unfold reportRows
  simp only [List.forall_mem_append, List.forall_mem_map, List.mem_filter, decide_eq_true_eq,
    and_imp, and_assoc]

theorem sum_size_groupRow (title : String) (kind : CriterionKind) (criteria : List Criterion) :
    ((groupRow title kind criteria).map ReportRow.size).sum =
      (criteria.filter (·.kind = kind)).length := by
  unfold groupRow
  by_cases h : criteria.filter (·.kind = kind) = []
  · simp [h]
  · simp [h]

/-- Every criterion is counted in one of the groups, or stands outside of both. -/
theorem length_groups (criteria : List Criterion) :
    (criteria.filter (·.kind = .prerequisite)).length +
      ((criteria.filter fun c => c.kind ≠ .activity ∧ c.kind ≠ .prerequisite).length +
        (criteria.filter (·.kind = .activity)).length) = criteria.length := by
  induction criteria with
  | nil => rfl
  | cons c cs ih =>
    cases hc : c.kind with
    | activity => simp [hc] at ih ⊢; omega
    | prerequisite => simp [hc] at ih ⊢; omega
    | role => simp [hc] at ih ⊢; omega
    | other code => simp [hc] at ih ⊢; omega

/-- **The rows of a report are about every criterion once.** -/
theorem sum_size_reportRows (criteria : List Criterion) :
    ((reportRows criteria).map ReportRow.size).sum = criteria.length := by
  have hsingle : ∀ cs : List Criterion,
      ((cs.map fun c => ReportRow.single c.title c.isMet).map ReportRow.size).sum = cs.length := by
    intro cs
    simp [Function.comp_def]
  unfold reportRows
  rw [List.map_append, List.map_append, List.sum_append, List.sum_append, sum_size_groupRow,
    sum_size_groupRow, hsingle, Nat.add_assoc]
  exact length_groups criteria

/-- A row that counts criteria has not more done than there are. -/
theorem done_le_total : ∀ row ∈ reportRows criteria, ∀ done total,
    row.status = .count done total → done ≤ total := by
  have hgroup : ∀ title kind, ∀ row ∈ groupRow title kind criteria, ∀ done total,
      row.status = .count done total → done ≤ total := by
    intro title kind row hrow done total hcount
    obtain ⟨-, rfl⟩ := mem_groupRow.1 hrow
    obtain ⟨rfl, rfl⟩ := RowStatus.count.inj hcount
    apply List.length_filter_le
  refine forall_mem_reportRows.2 ⟨hgroup _ _, ?_, hgroup _ _⟩
  intro c _ _ _ done total hcount
  exact absurd hcount (ReportRow.status_single_ne_count _ _ _ _)

/-! ## rows that are marked complete -/

/-- The row of a group is marked complete exactly if all of the group are done. -/
theorem groupRow_complete_iff : (∀ row ∈ groupRow title kind criteria, row.complete = true) ↔
    ∀ c ∈ criteria, c.kind = kind → c.Done := by
  have hall : ((criteria.filter (·.kind = kind)).filter Criterion.isMet).length =
      (criteria.filter (·.kind = kind)).length ↔ ∀ c ∈ criteria, c.kind = kind → c.Done := by
    rw [List.length_filter_eq_length_iff]
    simp only [List.mem_filter, decide_eq_true_eq, and_imp, Criterion.isMet_iff]
  rw [← hall]
  constructor
  · intro h
    by_cases hnil : criteria.filter (·.kind = kind) = []
    · simp [hnil]
    · have hrow := h _ (mem_groupRow.2 ⟨hnil, rfl⟩)
      exact of_decide_eq_true hrow
  · intro h row hrow
    obtain ⟨-, rfl⟩ := mem_groupRow.1 hrow
    exact decide_eq_true h

/-- **All rows are marked complete exactly if all criteria are done.** -/
theorem reportRows_complete_iff : (∀ row ∈ reportRows criteria, row.complete = true) ↔
    ∀ c ∈ criteria, c.Done := by
  rw [forall_mem_reportRows, groupRow_complete_iff, groupRow_complete_iff]
  constructor
  · rintro ⟨hprerequisite, hsingle, hactivity⟩ c hc
    by_cases ha : c.kind = .activity
    · exact hactivity c hc ha
    by_cases hp : c.kind = .prerequisite
    · exact hprerequisite c hc hp
    apply Criterion.isMet_iff.1
    exact hsingle c hc ha hp
  · intro h
    refine ⟨fun c hc _ => h c hc, fun c hc _ _ => ?_, fun c hc _ => h c hc⟩
    apply Criterion.isMet_iff.2
    exact h c hc

/-! ## evaluations -/

/-- Where all criteria count, a complete evaluation has all of them done. -/
theorem all_done_of_complete (hmethod : ∀ c ∈ criteria, c.method = .all)
    (h : (evaluate .all criteria).status = .complete) : ∀ c ∈ criteria, c.Done := by
  have huniform : Uniform (fun _ => .all) criteria := fun c hc g _ => hmethod c hc
  obtain ⟨-, hbuckets, hrest⟩ := (tells_status .all huniform).complete.1 h
  intro c hc
  cases hg : c.kind.group? with
  | none => exact hrest c hc hg
  | some g =>
    have hkind : c.kind = g.kind := CriterionKind.group?_eq_some_iff.1 hg
    have hbucket := tells_bucket .all huniform g
    have hset : (evaluate .all criteria).bucket g ≠ .unset := by
      intro hunset
      exact hbucket.unset.1 hunset ⟨c, hc, hkind⟩
    obtain ⟨-, hall⟩ := hbucket.complete.1 (hbuckets g hset)
    apply hall c
    simp [hc, hkind]

end

/-- **The rows of a report and an evaluation tell the same.**  The rows are about every criterion
once, and none counts more criteria as done than there are.  Where there are criteria, and every row
is marked complete, the evaluation is complete by any method of the course and any methods of the
criteria.  Where all of these are `Method.all`, it is complete in no other case. -/
theorem rows_agree_with_evaluation (criteria : List Criterion) :
    ((reportRows criteria).map ReportRow.size).sum = criteria.length ∧
    (∀ row ∈ reportRows criteria, ∀ done total, row.status = .count done total → done ≤ total) ∧
    (criteria ≠ [] → (∀ row ∈ reportRows criteria, row.complete = true) →
      ∀ overall, (evaluate overall criteria).status = .complete) ∧
    ((∀ c ∈ criteria, c.method = .all) →
      ((evaluate .all criteria).status = .complete ↔
        criteria ≠ [] ∧ ∀ row ∈ reportRows criteria, row.complete = true)) := by
  have hcomplete : criteria ≠ [] → (∀ row ∈ reportRows criteria, row.complete = true) →
      ∀ overall, (evaluate overall criteria).status = .complete := by
    intro hne hrows overall
    exact complete_of_all_done hne (reportRows_complete_iff.1 hrows)
  refine ⟨sum_size_reportRows criteria, done_le_total,
    hcomplete, fun hmethod => ⟨fun h => ⟨?_, ?_⟩, fun ⟨hne, hrows⟩ => hcomplete hne hrows .all⟩⟩
  · rintro rfl
    cases h
  · exact reportRows_complete_iff.2 (all_done_of_complete hmethod h)

/-- criteria of all kinds and methods that are done make the course complete; an activity at the
last moment of the first second of 1970 does not count, in its row or for the course -/
theorem course_complete_as_its_rows :
    let early : Instant := ⟨150, 0, by decide, by decide⟩
    let epoch : Instant := ⟨0, 999999999, by decide, by decide⟩
    let done : List Criterion :=
      [⟨3, .role, .any, some early, "tutor"⟩, ⟨1, .activity, .any, some early, "quiz"⟩,
        ⟨5, .prerequisite, .all, some early, "algebra"⟩, ⟨2, .activity, .all, some early, "essay"⟩]
    let partly : List Criterion :=
      [⟨1, .activity, .all, some early, "quiz"⟩, ⟨2, .activity, .all, some epoch, "essay"⟩]
    ((reportRows done).map ReportRow.size).sum = 4 ∧
      (∀ row ∈ reportRows done, row.complete = true) ∧
      (∀ overall, (evaluate overall done).status = .complete) ∧
      reportRows partly = [.summary "Activities completed" 1 2] ∧
      (evaluate .all partly).status ≠ .complete := by
  intro early epoch done partly
  obtain ⟨hsize, -, hcomplete, -⟩ := rows_agree_with_evaluation done
  obtain ⟨-, -, -, hiff⟩ := rows_agree_with_evaluation partly
  have hrows : ∀ row ∈ reportRows done, row.complete = true := by decide
  have hopen : reportRows partly = [.summary "Activities completed" 1 2] := by decide
  refine ⟨hsize, hrows, hcomplete (by decide) hrows, hopen, ?_⟩
  rw [ne_eq, hiff (by decide), hopen]
  intro h
  exact absurd (h.2 _ List.mem_cons_self) (by decide)

end CourseCompletion
