import CourseCompletion.Operation.Record

/-!
# Evaluating records again

When the criteria of a course change, its records are flagged (`Action.flagCourse`); a sweep
(`Action.runPending`) later evaluates every record whose flag is due, and takes the flag back.
-/

namespace CourseCompletion

namespace Action

/-- records flagged and stored one after the other -/
def flagEach (now : Instant) : List Record → Action Unit
  | [] => return
  | r :: rs => do
    discard <| save (r.flag now)
    flagEach now rs

/-- flags the incomplete records of a course, and says how many there are -/
def flagCourse (course : Int) : Action Nat := do
  let now ← now
  let records ← (Fetch.findByCourse course : Action _)
  let incomplete := records.filter (!·.isComplete)
  flagEach now incomplete
  return incomplete.length

/-- records whose flag is taken back, evaluated one after the other and counted -/
def sweepEach : List Record → SweepSummary → Action SweepSummary
  | [], summary => return summary
  | r :: rs, summary => do
    let outcome ← aggregateRecord r.unflag
    sweepEach rs
      ⟨summary.processed + 1, summary.completed + if outcome.justCompleted then 1 else 0⟩

/-- evaluates the records of a course whose flag is due -/
def runPending (course : Int) : Action SweepSummary := do
  match ← tracking? course with
  | none => return ⟨0, 0⟩
  | some _ =>
    let now ← now
    let records ← (Fetch.findByCourse course : Action _)
    sweepEach (records.filter (·.isDue now)) ⟨0, 0⟩

end Action

end CourseCompletion
