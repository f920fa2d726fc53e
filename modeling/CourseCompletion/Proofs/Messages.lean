import CourseCompletion.Form.Outcome
import CourseCompletion.Form.Report
import CourseCompletion.Proofs.Snapshot

/-!
# Answers and events read back

What the program answers and what it publishes can be written as JSON text and read again without
loss, on one line or over several (`messages_survive`).  Every number must have room in 64 bits, and
every time must be regular; titles, names and event numbers may be any.

* `Json.tagged?_object`      a tag and its content, in the order in which they are written;
* `Outcome.read?_toJson`     an outcome, alone or held inside an enrolment's;
* `EventId.ofText?_text`     the number of an event;
* `Event.ofJson?_toJson`     an event, with its tag among its fields.
-/

namespace CourseCompletion

open Json

/-! ## parts -/

namespace Json

theorem optional?_signed {o : Option Int} (h : ∀ n ∈ o, fitsSigned64 n) :
    optional? signed? (some (.optional signed o)) = some o := by
  cases o with
  | none => rfl
  | some n =>
    show (signed? (signed n)).map some = _
    rw [signed?_signed (h n rfl)]
    rfl

/-- The fields of an object that come after its tag. -/
theorem slots?_behind {tag : String × Json} {members : List (String × Json)} {names : List String}
    (least : Nat) (hn : members.map Prod.fst = names) (h : (tag.1 :: names).Nodup) :
    slots? names least (.object (tag :: members)) = some (members.map fun m => some m.2) := by
  subst hn
  have hnodup : ((tag :: members).map Prod.fst).Nodup := h
  exact slots?_of_subset hnodup least members fun _ hm => List.mem_cons_of_mem tag hm

theorem required_some {α : Type} {read : Json → Option α} {j : Json} {x : α}
    (h : read j = some x) : required read (some j) = some x := h

theorem name?_string (source : Source) (s : String) : source.name? (.string s) = some s := by
  cases source <;> rfl

end Json

section

variable (source : Source) {tag content : String} (hne : tag ≠ content) (names : List String)
  (t : String)

include hne

/-- A tag that stands before its content is read with it. -/
theorem tagged?_object (c : Json) :
    tagged? source tag content names (.object [(tag, .string t), (content, c)]) =
      some ⟨t, some c, source⟩ := by
  have hnodup : ([(tag, Json.string t), (content, c)].map Prod.fst).Nodup := by simpa using hne
  have hfirst : contentFirst tag content [(tag, .string t), (content, c)] = false := by
    simp [contentFirst, hne]
  refine bind_of_eq_some (slot?_of_mem hnodup List.mem_cons_self) ?_
  refine bind_of_eq_some (slot?_of_mem hnodup (List.mem_cons_of_mem _ List.mem_cons_self)) ?_
  rw [hfirst]
  exact bind_of_eq_some rfl (bind_of_eq_some rfl (bind_of_eq_some (name?_string source t) rfl))

/-- A tag alone is read without a content. -/
theorem tagged?_bare :
    tagged? source tag content names (.object [(tag, .string t)]) = some ⟨t, none, source⟩ := by
  have hfirst : contentFirst tag content [(tag, .string t)] = false := by
    simp [contentFirst, hne]
  have htag : ([(tag, Json.string t)].map Prod.fst).Nodup := by simp
  have hcontent : slot? [(tag, .string t)] content = some none := by
    simp [slot?, hne]
  refine bind_of_eq_some (slot?_of_mem htag List.mem_cons_self) ?_
  refine bind_of_eq_some hcontent ?_
  rw [hfirst]
  exact bind_of_eq_some rfl (bind_of_eq_some rfl (bind_of_eq_some (name?_string source t) rfl))

end

/-! ## records and outcomes -/

namespace Record

/-- the numbers have room in 64 bits, and the times are regular -/
structure Fits (r : Record) : Prop where
  id : ∀ n ∈ r.id, fitsSigned64 n
  key : r.key.Fits
  enrolled : ∀ t ∈ r.enrolled, t.IsRegular
  started : ∀ t ∈ r.started, t.IsRegular
  completed : ∀ t ∈ r.completed, t.IsRegular
  reaggregate : ∀ t ∈ r.reaggregate, t.IsRegular
  version : fitsUnsigned64 r.version

theorem ofJson?_toJson {r : Record} (h : r.Fits) : ofJson? r.toJson = some r := by
  refine bind_of_eq_some (slots?_object 8 rfl (by decide)) ?_
  refine bind_of_eq_some (optional?_signed h.id) ?_
  refine bind_of_eq_some (signed?_integer h.key.1) ?_
  refine bind_of_eq_some (signed?_integer h.key.2) ?_
  refine bind_of_eq_some (optional?_ofInstant h.enrolled) ?_
  refine bind_of_eq_some (optional?_ofInstant h.started) ?_
  refine bind_of_eq_some (optional?_ofInstant h.completed) ?_
  refine bind_of_eq_some (optional?_ofInstant h.reaggregate) ?_
  exact bind_of_eq_some (unsigned?_unsigned h.version) rfl

theorem fits_toJson {level : Nat} (hl : level < 127) {r : Record} (h : r.Fits) :
    Json.Fits level r.toJson :=
  ⟨hl, fits_optional r.id fun n hn => fits_signed (h.id n hn), fits_integer h.key.1,
    fits_integer h.key.2, fits_ofInstant _, fits_ofInstant _, fits_ofInstant _, fits_ofInstant _,
    fits_unsigned h.version, trivial⟩

end Record

namespace Outcome

/-- the record, if there is one, fits -/
def Fits (o : Outcome) : Prop := ∀ r ∈ o.record?, r.Fits

/-- An outcome reads back from the text itself and from a value that was held. -/
theorem read?_toJson (source : Source) {o : Outcome} (h : o.Fits) :
    read? source o.toJson = some o := by
  have htag : "outcome" ≠ "record" := by decide
  have hrecord : ∀ r ∈ o.record?, required Record.ofJson? (some r.toJson) = some r :=
    fun r hr => Record.ofJson?_toJson (h r hr)
  cases o with
  | saved r =>
    refine bind_of_eq_some (tagged?_object source htag _ "saved" r.toJson) ?_
    exact congrArg (Option.map saved) (hrecord r rfl)
  | completed r =>
    refine bind_of_eq_some (tagged?_object source htag _ "completed" r.toJson) ?_
    exact congrArg (Option.map completed) (hrecord r rfl)
  | alreadyComplete r =>
    refine bind_of_eq_some (tagged?_object source htag _ "already_complete" r.toJson) ?_
    exact congrArg (Option.map alreadyComplete) (hrecord r rfl)
  | notApplicable => exact bind_of_eq_some (tagged?_bare source htag _ "not_applicable") rfl

theorem fits_toJson {level : Nat} (hl : level < 126) {o : Outcome} (h : o.Fits) :
    Json.Fits level o.toJson := by
  have hrecord : ∀ r ∈ o.record?, Json.Fits (level + 1) r.toJson :=
    fun r hr => Record.fits_toJson (by omega) (h r hr)
  cases o with
  | saved r => exact ⟨by omega, trivial, hrecord r rfl, trivial⟩
  | completed r => exact ⟨by omega, trivial, hrecord r rfl, trivial⟩
  | alreadyComplete r => exact ⟨by omega, trivial, hrecord r rfl, trivial⟩
  | notApplicable => exact ⟨by omega, trivial, trivial⟩

end Outcome

namespace EnrolmentOutcome

def Fits : EnrolmentOutcome → Prop
  | started o => o.Fits
  | ignored _ => True

theorem ofJson?_toJson {o : EnrolmentOutcome} (h : o.Fits) : ofJson? o.toJson = some o := by
  have htag : "result" ≠ "detail" := by decide
  cases o with
  | started o =>
    refine bind_of_eq_some (tagged?_object .text htag _ "started" o.toJson) ?_
    exact congrArg (Option.map started) (Outcome.read?_toJson .text h)
  | ignored reason =>
    refine bind_of_eq_some (tagged?_object .text htag _ "ignored" reason.toJson) ?_
    cases reason <;> rfl

theorem fits_toJson {level : Nat} (hl : level < 125) {o : EnrolmentOutcome} (h : o.Fits) :
    Json.Fits level o.toJson := by
  cases o with
  | started o => exact ⟨by omega, trivial, Outcome.fits_toJson (by omega) h, trivial⟩
  | ignored reason =>
    refine ⟨by omega, trivial, ?_, trivial⟩
    cases reason <;> exact trivial

end EnrolmentOutcome

namespace UserEnrolled

structure Fits (e : UserEnrolled) : Prop where
  key : e.key.Fits
  starts : ∀ t ∈ e.starts, t.IsRegular

theorem ofJson?_toJson {e : UserEnrolled} (h : e.Fits) : ofJson? e.toJson = some e := by
  refine bind_of_eq_some (slots?_object 2 rfl (by decide)) ?_
  refine bind_of_eq_some (signed?_integer h.key.1) ?_
  refine bind_of_eq_some (signed?_integer h.key.2) ?_
  exact bind_of_eq_some (optional?_ofInstant h.starts) rfl

theorem fits_toJson {level : Nat} (hl : level < 127) {e : UserEnrolled} (h : e.Fits) :
    Json.Fits level e.toJson :=
  ⟨hl, fits_integer h.key.1, fits_integer h.key.2, fits_ofInstant _, trivial⟩

end UserEnrolled

namespace BulkSummary

def Fits (s : BulkSummary) : Prop := fitsUnsigned64 s.created ∧ fitsUnsigned64 s.skipped

theorem ofJson?_toJson {s : BulkSummary} (h : s.Fits) : ofJson? s.toJson = some s := by
  refine bind_of_eq_some (slots?_object 2 rfl (by decide)) ?_
  refine bind_of_eq_some (unsigned?_nat h.1) ?_
  exact bind_of_eq_some (unsigned?_nat h.2) rfl

theorem fits_toJson {level : Nat} (hl : level < 127) {s : BulkSummary} (h : s.Fits) :
    Json.Fits level s.toJson :=
  ⟨hl, fits_nat h.1, fits_nat h.2, trivial⟩

end BulkSummary

namespace SweepSummary

def Fits (s : SweepSummary) : Prop := fitsUnsigned64 s.processed ∧ fitsUnsigned64 s.completed

theorem ofJson?_toJson {s : SweepSummary} (h : s.Fits) : ofJson? s.toJson = some s := by
  refine bind_of_eq_some (slots?_object 2 rfl (by decide)) ?_
  refine bind_of_eq_some (unsigned?_nat h.1) ?_
  exact bind_of_eq_some (unsigned?_nat h.2) rfl

theorem fits_toJson {level : Nat} (hl : level < 127) {s : SweepSummary} (h : s.Fits) :
    Json.Fits level s.toJson :=
  ⟨hl, fits_nat h.1, fits_nat h.2, trivial⟩

end SweepSummary

/-! ## reports -/

namespace Standing

theorem ofJson?_toJson (s : Standing) : ofJson? s.toJson = some s := by
  cases s <;> rfl

end Standing

namespace RowStatus

def Fits : RowStatus → Prop
  | complete | incomplete => True
  | count done total => fitsUnsigned64 done ∧ fitsUnsigned64 total

theorem ofJson?_toJson {s : RowStatus} (h : s.Fits) : ofJson? s.toJson = some s := by
  cases s with
  | complete => rfl
  | incomplete => rfl
  | count done total =>
    show count? (.object [("done", nat done), ("total", nat total)]) = _
    refine bind_of_eq_some (slots?_object 2 rfl (by decide)) ?_
    refine bind_of_eq_some (unsigned?_nat h.1) ?_
    exact bind_of_eq_some (unsigned?_nat h.2) rfl

theorem fits_toJson {level : Nat} (hl : level < 126) {s : RowStatus} (h : s.Fits) :
    Json.Fits level s.toJson := by
  cases s with
  | complete => exact trivial
  | incomplete => exact trivial
  | count done total => exact ⟨by omega, ⟨by omega, fits_nat h.1, fits_nat h.2, trivial⟩, trivial⟩

end RowStatus

namespace ReportRow

def Fits (r : ReportRow) : Prop := r.status.Fits

theorem ofJson?_toJson {r : ReportRow} (h : r.Fits) : ofJson? r.toJson = some r := by
  refine bind_of_eq_some (slots?_object 3 rfl (by decide)) ?_
  exact bind_of_eq_some rfl (bind_of_eq_some (RowStatus.ofJson?_toJson h) rfl)

theorem fits_toJson {level : Nat} (hl : level < 125) {r : ReportRow} (h : r.Fits) :
    Json.Fits level r.toJson :=
  ⟨by omega, trivial, RowStatus.fits_toJson (by omega) h, trivial, trivial⟩

end ReportRow

namespace CourseReport

structure Fits (c : CourseReport) : Prop where
  course : fitsSigned64 c.course
  rows : ∀ r ∈ c.rows, r.Fits
  completed : ∀ t ∈ c.completed, t.IsRegular

theorem ofJson?_toJson {c : CourseReport} (h : c.Fits) : ofJson? c.toJson = some c := by
  refine bind_of_eq_some (slots?_object 5 rfl (by decide)) ?_
  refine bind_of_eq_some (signed?_integer h.course) ?_
  refine bind_of_eq_some rfl ?_
  refine bind_of_eq_some (Standing.ofJson?_toJson c.standing) ?_
  refine bind_of_eq_some (listOf?_list fun r hr => ReportRow.ofJson?_toJson (h.rows r hr)) ?_
  exact bind_of_eq_some (optional?_ofInstant h.completed) rfl

theorem fits_toJson {level : Nat} (hl : level < 123) {c : CourseReport} (h : c.Fits) :
    Json.Fits level c.toJson := by
  refine ⟨by omega, fits_integer h.course, trivial, ?_, ?_, fits_ofInstant _, trivial⟩
  · cases c.standing <;> exact trivial
  · exact fits_list (by omega) fun r hr => ReportRow.fits_toJson (by omega) (h.rows r hr)

end CourseReport

namespace UserReport

structure Fits (r : UserReport) : Prop where
  user : fitsSigned64 r.user
  courses : ∀ c ∈ r.courses, c.Fits

variable {r : UserReport}

theorem Fits.inProgress (h : r.Fits) : ∀ c ∈ r.inProgress, c.Fits := fun c hc =>
  h.courses c (List.mem_append_left _ (List.mem_append_left _ hc))

theorem Fits.complete (h : r.Fits) : ∀ c ∈ r.complete, c.Fits := fun c hc =>
  h.courses c (List.mem_append_left _ (List.mem_append_right _ hc))

theorem Fits.notYetStarted (h : r.Fits) : ∀ c ∈ r.notYetStarted, c.Fits := fun c hc =>
  h.courses c (List.mem_append_right _ hc)

theorem ofJson?_toJson (h : r.Fits) : ofJson? r.toJson = some r := by
  have hlist : ∀ {cs : List CourseReport}, (∀ c ∈ cs, c.Fits) →
      listOf? CourseReport.ofJson? (.list CourseReport.toJson cs) = some cs := fun hcs =>
    listOf?_list fun c hc => CourseReport.ofJson?_toJson (hcs c hc)
  refine bind_of_eq_some (slots?_object 5 rfl (by decide)) ?_
  refine bind_of_eq_some (signed?_integer h.user) ?_
  refine bind_of_eq_some rfl ?_
  refine bind_of_eq_some (hlist h.inProgress) ?_
  refine bind_of_eq_some (hlist h.complete) ?_
  exact bind_of_eq_some (hlist h.notYetStarted) rfl

theorem fits_toJson (h : r.Fits) : Json.Fits 0 r.toJson := by
  have hlist : ∀ {cs : List CourseReport}, (∀ c ∈ cs, c.Fits) →
      Json.Fits 1 (.list CourseReport.toJson cs) := fun hcs =>
    fits_list (by decide) fun c hc => CourseReport.fits_toJson (by decide) (hcs c hc)
  exact ⟨by decide, fits_integer h.user, trivial, hlist h.inProgress, hlist h.complete,
    hlist h.notYetStarted, trivial⟩

end UserReport

/-! ## events -/

namespace EventId

theorem length_grouped {ds : List Char} (h : ds.length = 32) : (grouped ds).length = 36 := by
  simp [grouped, h]

theorem drop_group {g : List Char} {n : Nat} (h : g.length = n) (s : List Char) :
    (g ++ '-' :: s).drop (n + 1) = s := by
  rw [List.drop_append, List.drop_of_length_le (by omega), h, Nat.add_sub_cancel_left]
  rfl

theorem take_append_drop_add (m n : Nat) (ds : List Char) :
    (ds.drop m).take n ++ ds.drop (m + n) = ds.drop m := by
  rw [← List.drop_drop]
  exact List.take_append_drop n (ds.drop m)

/-- Groups joined by hyphens come apart where they were joined. -/
theorem ungroup {a b c d e s : List Char} (ha : a.length = 8) (hb : b.length = 4)
    (hc : c.length = 4) (hd : d.length = 4)
    (hs : s = a ++ '-' :: b ++ '-' :: c ++ '-' :: d ++ '-' :: e) :
    s.take 8 ++ (s.drop 9).take 4 ++ (s.drop 14).take 4 ++ (s.drop 19).take 4 ++ s.drop 24 =
      a ++ b ++ c ++ d ++ e := by
  have hs0 : s = a ++ '-' :: (b ++ '-' :: (c ++ '-' :: (d ++ '-' :: e))) := by
    simp only [hs, List.append_assoc, List.cons_append]
  have h9 : s.drop 9 = b ++ '-' :: (c ++ '-' :: (d ++ '-' :: e)) := by
    rw [hs0, drop_group ha]
  have h14 : s.drop 14 = c ++ '-' :: (d ++ '-' :: e) := by
    rw [show 14 = 9 + 5 from rfl, ← List.drop_drop, h9, drop_group hb]
  have h19 : s.drop 19 = d ++ '-' :: e := by
    rw [show 19 = 14 + 5 from rfl, ← List.drop_drop, h14, drop_group hc]
  have h24 : s.drop 24 = e := by
    rw [show 24 = 19 + 5 from rfl, ← List.drop_drop, h19, drop_group hd]
  have h0 : s.take 8 = a := by
    rw [hs0]
    exact List.take_left' ha
  rw [h0, h9, h14, h19, h24, List.take_left' hb, List.take_left' hc, List.take_left' hd]

/-- The text of some digits in groups reads as those digits do. -/
theorem ofGroups?_grouped {ds : List Char} (h : ds.length = 32) :
    ofGroups? (grouped ds) = ofDigits? ds := by
  have hdigits := ungroup (a := ds.take 8) (b := (ds.drop 8).take 4) (c := (ds.drop 12).take 4)
    (d := (ds.drop 16).take 4) (e := ds.drop 20) (s := grouped ds) (by simp [h]) (by simp [h])
    (by simp [h]) (by simp [h]) rfl
  have hall : ds.take 8 ++ (ds.drop 8).take 4 ++ (ds.drop 12).take 4 ++ (ds.drop 16).take 4 ++
      ds.drop 20 = ds := by
    simp only [List.append_assoc]
    rw [take_append_drop_add 16 4, take_append_drop_add 12 4, take_append_drop_add 8 4,
      List.take_append_drop]
  unfold ofGroups?
  rw [hdigits, hall]
  exact if_pos ⟨length_grouped h, rfl⟩

/-- The text of a number reads as the number. -/
theorem ofText?_text (id : EventId) : ofText? id.text = some id := by
  have hdigits : (hexChars 32 id.bits.toNat).length = 32 := length_hexChars 32 _
  have hlength : id.chars.length = 36 := length_grouped hdigits
  have hvalue : hexNumber? (hexChars 32 id.bits.toNat) = some id.bits.toNat := by
    rw [hexNumber?_hexChars]
    exact congrArg some (Nat.mod_eq_of_lt id.bits.isLt)
  unfold ofText? text ofChars?
  rw [String.toList_ofList, hlength, if_neg (by decide), if_pos rfl]
  unfold chars
  rw [ofGroups?_grouped hdigits]
  unfold ofDigits?
  rw [if_pos hdigits, hvalue]
  exact congrArg (fun bits => some (EventId.mk bits)) (BitVec.ofNat_toNat 128 id.bits)

theorem ofJson?_toJson (id : EventId) : ofJson? id.toJson = some id := by
  unfold ofJson? toJson text?
  rw [Option.bind_some, ofText?_text]

end EventId

namespace CourseCompleted

structure Fits (e : CourseCompleted) : Prop where
  key : e.key.Fits
  completed : e.completed.IsRegular
  occurred : e.occurred.IsRegular

theorem metadata?_toJson {e : CourseCompleted} (h : e.Fits) :
    metadata? (.object [("event_id", e.id.toJson), ("occurred_at", ofInstant e.occurred)]) =
      some (e.id, e.occurred) := by
  refine bind_of_eq_some (slots?_object 2 rfl (by decide)) ?_
  refine bind_of_eq_some (required_some (EventId.ofJson?_toJson e.id)) ?_
  exact bind_of_eq_some (required_some (instant?_ofInstant h.occurred)) rfl

theorem ofJson?_toJson {e : CourseCompleted} (h : e.Fits) : ofJson? e.toJson = some e := by
  refine bind_of_eq_some (slots?_object 4 rfl (by decide)) ?_
  refine bind_of_eq_some (required_some (metadata?_toJson h)) ?_
  refine bind_of_eq_some (signed?_integer h.key.1) ?_
  refine bind_of_eq_some (signed?_integer h.key.2) ?_
  exact bind_of_eq_some (required_some (instant?_ofInstant h.completed)) rfl

theorem fits_toJson {level : Nat} (hl : level < 126) {e : CourseCompleted} (h : e.Fits) :
    Json.Fits level e.toJson :=
  ⟨by omega, ⟨by omega, trivial, trivial, trivial⟩, fits_integer h.key.1, fits_integer h.key.2,
    trivial, trivial⟩

end CourseCompleted

namespace Event

def Fits : Event → Prop
  | courseCompleted e => e.Fits
  | usersStarted course created occurred =>
    fitsSigned64 course ∧ fitsUnsigned64 created ∧ occurred.IsRegular

theorem fits_toJson {level : Nat} (hl : level < 127) {e : Event} (h : e.Fits) :
    Json.Fits level e.toJson := by
  cases e with
  | courseCompleted e =>
    exact ⟨hl, trivial, trivial, fits_integer h.key.1, fits_integer h.key.2, trivial, trivial,
      trivial⟩
  | usersStarted course created occurred =>
    exact ⟨hl, trivial, fits_integer h.1, fits_nat h.2.1, trivial, trivial⟩

/-- An event is read by its tag, from among all of its members. -/
theorem ofJson?_object {members : List (String × Json)} (hread : membersReadable members = true)
    (hnodup : (members.map Prod.fst).Nodup) {tag : String}
    (htag : ("type", .string tag) ∈ members) :
    ofJson? (.object members) = ofTag? (.string tag) (.object members) := by
  have hguard : (guard (membersReadable members) : Option Unit) = some () := by
    rw [hread]
    rfl
  exact bind_of_eq_some hguard (bind_of_eq_some (slot?_of_mem hnodup htag) rfl)

theorem ofJson?_toJson {e : Event} (h : e.Fits) : ofJson? e.toJson = some e := by
  have hread := (fits_toJson (by decide : 0 < 127) h).isReadable
  cases e with
  | courseCompleted e =>
    have hnodup : ["type", "event_id", "user_id", "course_id", "time_completed",
      "occurred_at"].Nodup := by decide
    have htag : ∀ fields, ofTag? (.string "CourseCompleted") fields = courseCompleted? fields :=
      fun _ => rfl
    refine (ofJson?_object hread hnodup List.mem_cons_self).trans ?_
    rw [htag]
    refine bind_of_eq_some (slots?_behind 5 rfl (by decide)) ?_
    refine bind_of_eq_some (required_some (EventId.ofJson?_toJson e.id)) ?_
    refine bind_of_eq_some (signed?_integer h.key.1) ?_
    refine bind_of_eq_some (signed?_integer h.key.2) ?_
    refine bind_of_eq_some (required_some (instant?_ofInstant h.completed)) ?_
    exact bind_of_eq_some (required_some (instant?_ofInstant h.occurred)) rfl
  | usersStarted course created occurred =>
    have hnodup : ["type", "course_id", "created", "timestamp"].Nodup := by decide
    have htag : ∀ fields, ofTag? (.string "UsersStarted") fields = usersStarted? fields :=
      fun _ => rfl
    refine (ofJson?_object hread hnodup List.mem_cons_self).trans ?_
    rw [htag]
    refine bind_of_eq_some (slots?_behind 3 rfl (by decide)) ?_
    refine bind_of_eq_some (signed?_integer h.1) ?_
    refine bind_of_eq_some (unsigned?_nat h.2.1) ?_
    exact bind_of_eq_some (required_some (instant?_ofInstant h.2.2)) rfl

end Event

/-! ## all of them -/

/-- the texts of a value, on one line and over several, read as the value -/
def Survives {α : Type} (write : α → Json) (read? : Json → Option α) (x : α) : Prop :=
  (Json.ofText? (write x).compact).bind read? = some x ∧
  (Json.ofText? (write x).pretty).bind read? = some x

theorem survives {α : Type} {write : α → Json} {read? : Json → Option α} {x : α}
    (hfits : Json.Fits 0 (write x)) (hread : read? (write x) = some x) : Survives write read? x :=
  ⟨bind_of_eq_some (Json.ofText?_compact hfits) hread,
    bind_of_eq_some (Json.ofText?_pretty hfits) hread⟩

/-- **Answers and events survive their JSON text**, if their numbers have room and their leap
seconds stand at the end of a minute. -/
theorem messages_survive :
    (∀ r : Record, r.Fits → Survives Record.toJson Record.ofJson? r) ∧
    (∀ o : Outcome, o.Fits → Survives Outcome.toJson Outcome.ofJson? o) ∧
    (∀ o : EnrolmentOutcome, o.Fits →
      Survives EnrolmentOutcome.toJson EnrolmentOutcome.ofJson? o) ∧
    (∀ r : UserReport, r.Fits → Survives UserReport.toJson UserReport.ofJson? r) ∧
    (∀ s : SweepSummary, s.Fits → Survives SweepSummary.toJson SweepSummary.ofJson? s) ∧
    (∀ s : BulkSummary, s.Fits → Survives BulkSummary.toJson BulkSummary.ofJson? s) ∧
    (∀ e : UserEnrolled, e.Fits → Survives UserEnrolled.toJson UserEnrolled.ofJson? e) ∧
    (∀ e : CourseCompleted, e.Fits → Survives CourseCompleted.toJson CourseCompleted.ofJson? e) ∧
    (∀ e : Event, e.Fits → Survives Event.toJson Event.ofJson? e) := by
  refine ⟨fun r h => ?_, fun o h => ?_, fun o h => ?_, fun r h => ?_, fun s h => ?_, fun s h => ?_,
    fun e h => ?_, fun e h => ?_, fun e h => ?_⟩
  · exact survives (Record.fits_toJson (by decide) h) (Record.ofJson?_toJson h)
  · exact survives (Outcome.fits_toJson (by decide) h) (Outcome.read?_toJson .text h)
  · exact survives (EnrolmentOutcome.fits_toJson (by decide) h) (EnrolmentOutcome.ofJson?_toJson h)
  · exact survives (UserReport.fits_toJson h) (UserReport.ofJson?_toJson h)
  · exact survives (SweepSummary.fits_toJson (by decide) h) (SweepSummary.ofJson?_toJson h)
  · exact survives (BulkSummary.fits_toJson (by decide) h) (BulkSummary.ofJson?_toJson h)
  · exact survives (UserEnrolled.fits_toJson (by decide) h) (UserEnrolled.ofJson?_toJson h)
  · exact survives (CourseCompleted.fits_toJson (by decide) h) (CourseCompleted.ofJson?_toJson h)
  · exact survives (Event.fits_toJson (by decide) h) (Event.ofJson?_toJson h)

/-- the ends of every range, an answer within an answer, and titles that have to be escaped -/
theorem extremes_survive :
    let first : Instant := ⟨earliestSecond, 7, by decide, by decide⟩
    let leap : Instant := ⟨1483228799, 1500000000, by decide, by decide⟩
    let last : Instant := ⟨latestSecond, 999999999, by decide, by decide⟩
    let least : Int := -9223372036854775808
    let largest : Int := 9223372036854775807
    let most : Nat := 18446744073709551615
    let r : Record := ⟨some least, -1, largest, some first, some leap, none, some last, most⟩
    let c : CourseReport := ⟨least, "Łódź \"1\" \\ \u0001\t", .inProgress,
      [⟨"", .count 0 most, false⟩, ⟨"🙂\n", .complete, true⟩, ⟨"/", .incomplete, true⟩], some leap⟩
    let e : CourseCompleted := ⟨⟨largest, least, leap, first⟩, ⟨BitVec.allOnes 128⟩⟩
    Survives Record.toJson Record.ofJson? r ∧
    Survives Outcome.toJson Outcome.ofJson? (.completed r) ∧
    Survives EnrolmentOutcome.toJson EnrolmentOutcome.ofJson? (.started (.alreadyComplete r)) ∧
    Survives EnrolmentOutcome.toJson EnrolmentOutcome.ofJson? (.started .notApplicable) ∧
    Survives UserReport.toJson UserReport.ofJson? ⟨largest, "\u007f", [c], [], [c, c]⟩ ∧
    Survives SweepSummary.toJson SweepSummary.ofJson? ⟨most, 0⟩ ∧
    Survives BulkSummary.toJson BulkSummary.ofJson? ⟨0, most⟩ ∧
    Survives UserEnrolled.toJson UserEnrolled.ofJson? ⟨largest, least, some last⟩ ∧
    Survives CourseCompleted.toJson CourseCompleted.ofJson? e ∧
    Survives Event.toJson Event.ofJson? (.courseCompleted e) ∧
    Survives Event.toJson Event.ofJson? (.usersStarted least most last) := by
  intro first leap last least largest most r c e
  obtain ⟨hrecord, houtcome, henrolment, hreport, hsweep, hbulk, henrolled, hcompleted, hevent⟩ :=
    messages_survive
  have hleast : fitsSigned64 least := by decide
  have hlargest : fitsSigned64 largest := by decide
  have hmost : fitsUnsigned64 most := by decide
  have hzero : fitsUnsigned64 (0 : Nat) := by decide
  have hfirst : first.IsRegular := by decide
  have hleap : leap.IsRegular := by decide
  have hlast : last.IsRegular := by decide
  have honly : ∀ {t : Instant}, t.IsRegular → ∀ u ∈ some t, u.IsRegular := fun h u hu =>
    Option.some.inj hu ▸ h
  have hr : r.Fits := ⟨fun n hn => Option.some.inj hn ▸ hleast, ⟨by decide, hlargest⟩,
    honly hfirst, honly hleap, fun u hu => (by cases hu), honly hlast, hmost⟩
  have hc : c.Fits := by
    refine ⟨hleast, fun row hrow => ?_, honly hleap⟩
    rcases List.mem_cons.1 hrow with rfl | hrow
    · exact ⟨hzero, hmost⟩
    · rcases List.mem_cons.1 hrow with rfl | hrow
      · exact trivial
      · obtain rfl := List.mem_singleton.1 hrow
        exact trivial
  have hu : UserReport.Fits ⟨largest, "\u007f", [c], [], [c, c]⟩ := by
    refine ⟨hlargest, fun x hx => ?_⟩
    have hx' : x = c := by simpa [UserReport.courses] using hx
    exact hx' ▸ hc
  have he : e.Fits := ⟨⟨hlargest, hleast⟩, hleap, hfirst⟩
  have hheld : ∀ x ∈ some r, x.Fits := fun x hx => Option.some.inj hx ▸ hr
  refine ⟨hrecord r hr, houtcome _ hheld, henrolment _ hheld, henrolment _ ?_, hreport _ hu,
    hsweep _ ⟨hmost, hzero⟩, hbulk _ ⟨hzero, hmost⟩, henrolled _ ⟨⟨hlargest, hleast⟩, honly hlast⟩,
    hcompleted e he, hevent _ he, hevent _ ⟨hleast, hmost, hlast⟩⟩
  exact fun x hx => by cases hx

/-- In a leap second within a minute an enrolment does not survive: it is read a second later. -/
theorem leap_second_within_minute_is_lost :
    ¬∀ e : UserEnrolled, e.key.Fits → Survives UserEnrolled.toJson UserEnrolled.ofJson? e := by
  intro hclaim
  let within : Instant := ⟨100, 1500000000, by decide, by decide⟩
  let after : Instant := ⟨101, 500000000, by decide, by decide⟩
  have hread : (Json.ofText? (UserEnrolled.toJson ⟨3, 7, some within⟩).compact).bind
      UserEnrolled.ofJson? = some ⟨3, 7, some after⟩ := by
    decide +kernel
  obtain ⟨hsame, -⟩ := hclaim ⟨3, 7, some within⟩ ⟨by decide, by decide⟩
  rw [hread] at hsame
  exact absurd hsame (by decide)

end CourseCompletion
