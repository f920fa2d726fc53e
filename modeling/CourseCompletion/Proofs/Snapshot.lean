import CourseCompletion.Form.Snapshot
import CourseCompletion.Proofs.Json

/-!
# The file of a store read back

A snapshot `Fits` if all its numbers have room in 64 bits and all its times are regular, as those of
one that was read from a file are (`Snapshot.fits_of_ofJson?`).  The text of its file then reads as
the snapshot, and as another one else (`Snapshot.ofFileText?_fileText`).

For every kind of entry there are three facts: one that was read fits, the form of one that fits
reads as the entry, and it can be written at any level that is not too deep.
-/

namespace CourseCompletion

namespace Json

/-! ## fields -/

/-- A member under a name of its own is found by that name. -/
theorem slot?_of_mem {members : List (String × Json)} (h : (members.map Prod.fst).Nodup)
    {m : String × Json} (hm : m ∈ members) : slot? members m.1 = some (some m.2) := by
  have hfilter : members.filter (·.1 = m.1) = [m] := by
    induction members with
    | nil => cases hm
    | cons x xs ih =>
      obtain ⟨hx, hxs⟩ := List.nodup_cons.1 h
      rcases List.mem_cons.1 hm with rfl | hm
      · have hrest : xs.filter (·.1 = m.1) = [] := by
          refine List.filter_eq_nil_iff.2 fun y hy => ?_
          have hne : y.1 ≠ m.1 := fun he => hx (he ▸ List.mem_map_of_mem hy)
          simpa using hne
        rw [List.filter_cons_of_pos (by simp), hrest]
      · have hne : x.1 ≠ m.1 := fun he => hx (he ▸ List.mem_map_of_mem hm)
        rw [List.filter_cons_of_neg (by simpa using hne)]
        exact ih hxs hm
  unfold slot?
  rw [hfilter]

/-- The fields of some members of an object are their values. -/
theorem slots?_of_subset {members : List (String × Json)} (h : (members.map Prod.fst).Nodup)
    (least : Nat) (ms : List (String × Json)) (hsub : ∀ m ∈ ms, m ∈ members) :
    slots? (ms.map Prod.fst) least (.object members) = some (ms.map fun m => some m.2) := by
  show (ms.map Prod.fst).mapM (slot? members) = _
  induction ms with
  | nil => rfl
  | cons m ms ih =>
    rw [List.map_cons, List.mapM_cons, slot?_of_mem h (hsub m List.mem_cons_self),
      ih fun x hx => hsub x (List.mem_cons_of_mem m hx)]
    rfl

theorem slots?_object {members : List (String × Json)} {names : List String} (least : Nat)
    (hn : members.map Prod.fst = names) (h : names.Nodup) :
    slots? names least (.object members) = some (members.map fun m => some m.2) := by
  subst hn
  exact slots?_of_subset h least members fun _ hm => hm

/-! ## plain values -/

theorem instant?_ofInstant {t : Instant} (h : t.IsRegular) : instant? (ofInstant t) = some t := by
  unfold instant? ofInstant text?
  rw [Option.bind_some]
  exact Instant.ofText?_text h

theorem optional?_ofInstant {o : Option Instant} (h : ∀ t ∈ o, t.IsRegular) :
    optional? instant? (some (.optional ofInstant o)) = some o := by
  cases o with
  | none => rfl
  | some t =>
    show (instant? (ofInstant t)).map some = _
    rw [instant?_ofInstant (h t rfl)]
    rfl

/-! ### what is read has room -/

theorem fits_of_signed? {j : Json} {n : Int} (h : signed? j = some n) : fitsSigned64 n := by
  unfold signed? at h
  split at h
  · split at h
    · next hn => exact Option.some.inj h ▸ hn
    · cases h
  · cases h

theorem fits_of_unsigned? {j : Json} {n : Nat} (h : unsigned? j = some n) : fitsUnsigned64 n := by
  unfold unsigned? at h
  split at h
  · split at h
    · next m hm =>
      obtain rfl := Option.some.inj h
      have hle := fitsUnsigned64_iff.1 hm
      exact fitsUnsigned64_iff.2 (by omega)
    · cases h
  · cases h

theorem fits_of_required {field : Option Json} {n : Int} (h : required signed? field = some n) :
    fitsSigned64 n := by
  obtain ⟨j, -, hj⟩ := Option.bind_eq_some_iff.1 h
  exact fits_of_signed? hj

theorem isRegular_of_optional? {field : Option Json} {o : Option Instant}
    (h : optional? instant? field = some o) : ∀ t ∈ o, t.IsRegular := by
  rintro t rfl
  unfold optional? at h
  split at h
  · cases h
  · cases h
  · obtain ⟨t', ht', heq⟩ := Option.map_eq_some_iff.1 h
    obtain rfl := Option.some.inj heq
    obtain ⟨text, -, htext⟩ := Option.bind_eq_some_iff.1 ht'
    exact Instant.isRegular_of_ofText? htext

section

variable {α : Type} {read : Json → Option α} {P : α → Prop} {field : Option Json}

/-- What holds of all that is read, and of the value for when a field is missing, holds of the
field. -/
theorem of_orElse {missing x : α} (h : orElse read missing field = some x) (hmissing : P missing)
    (hread : ∀ {j y}, read j = some y → P y) : P x := by
  cases field with
  | none => exact Option.some.inj h ▸ hmissing
  | some j => exact hread h

theorem of_mem_listOf? {j : Json} {xs : List α} (h : listOf? read j = some xs)
    (hread : ∀ {j y}, read j = some y → P y) : ∀ x ∈ xs, P x := by
  unfold listOf? at h
  split at h
  · next items =>
    induction items generalizing xs with
    | nil =>
      obtain rfl := Option.some.inj h
      exact fun x hx => by cases hx
    | cons item items ih =>
      rw [List.mapM_cons] at h
      obtain ⟨y, hy, h⟩ := Option.bind_eq_some_iff.1 h
      obtain ⟨ys, hys, h⟩ := Option.bind_eq_some_iff.1 h
      obtain rfl := Option.some.inj h
      intro x hx
      rcases List.mem_cons.1 hx with rfl | hx
      · exact hread hy
      · exact ih hys x hx
  · cases h

/-- What holds of every entry that is read holds of those of a list that may be missing. -/
theorem of_mem_orElse {xs : List α} (h : orElse (listOf? read) [] field = some xs)
    (hread : ∀ {j y}, read j = some y → P y) : ∀ x ∈ xs, P x :=
  of_orElse (P := fun xs => ∀ x ∈ xs, P x) h (fun x hx => by cases hx) fun hj =>
    of_mem_listOf? hj hread

end

/-! ### what has room is written -/

section

variable {level : Nat}

theorem fits_integer {n : Int} (h : fitsSigned64 n) : Fits level (.integer n) := by
  have hn := fitsSigned64_iff.1 h
  show fitsUnsigned64 n.natAbs = true
  exact fitsUnsigned64_iff.2 (by omega)

theorem fits_nat {n : Nat} (h : fitsUnsigned64 n) : Fits level (nat n) := h

theorem fits_signed {n : Int} (h : fitsSigned64 n) : Fits level (signed n) := by
  unfold signed
  rw [wrapSigned64_of_fits h]
  exact fits_integer h

theorem fits_unsigned {n : Nat} (h : fitsUnsigned64 n) : Fits level (unsigned n) := by
  unfold unsigned
  rw [wrapUnsigned64_of_fits h]
  exact fits_nat h

theorem fits_optional {α : Type} {write : α → Json} (o : Option α)
    (h : ∀ x ∈ o, Fits level (write x)) : Fits level (.optional write o) := by
  cases o with
  | none => exact trivial
  | some x => exact h x rfl

theorem fits_ofInstant (o : Option Instant) : Fits level (.optional ofInstant o) :=
  fits_optional o fun _ _ => trivial

theorem fits_list {α : Type} {write : α → Json} {xs : List α} (hl : level < 127)
    (h : ∀ x ∈ xs, Fits (level + 1) (write x)) : Fits level (.list write xs) := by
  refine ⟨hl, ?_⟩
  induction xs with
  | nil => exact trivial
  | cons x xs ih =>
    exact ⟨h x List.mem_cons_self, ih fun y hy => h y (List.mem_cons_of_mem x hy)⟩

end

end Json

open Json

/-! ## entries -/

/-- the numbers have room in 64 bits -/
def Key.Fits (k : Key) : Prop := fitsSigned64 k.user ∧ fitsSigned64 k.course

namespace Method

theorem read?_toJson (source : Source) (m : Method) : read? source m.toJson = some m := by
  cases source <;> cases m <;> rfl

end Method

namespace CriterionKind

theorem fits_code (code : Fin 256) : fitsUnsigned64 code.val := fitsUnsigned64_iff.2 (by omega)

theorem ofJson?_toJson (kind : CriterionKind) : ofJson? kind.toJson = some kind := by
  cases kind with
  | activity => rfl
  | prerequisite => rfl
  | role => rfl
  | other code =>
    have hcode : code? (nat code) = some code := by
      unfold code?
      rw [unsigned?_nat (fits_code code)]
      exact dif_pos code.isLt
    show (code? (nat code)).map other = _
    rw [hcode]
    rfl

theorem fits_toJson {level : Nat} (hl : level < 127) (kind : CriterionKind) :
    Fits level kind.toJson := by
  cases kind with
  | activity => exact trivial
  | prerequisite => exact trivial
  | role => exact trivial
  | other code => exact ⟨hl, fits_nat (fits_code code), trivial⟩

end CriterionKind

namespace Course

/-- the numbers have room in 64 bits -/
def Fits (c : Course) : Prop := fitsSigned64 c.id

theorem fits_of_ofJson? {j : Json} {c : Course} (h : ofJson? j = some c) : c.Fits := by
  obtain ⟨fields, -, h⟩ := Option.bind_eq_some_iff.1 h
  split at h
  · simp only [Option.bind_eq_bind, Option.bind_eq_some_iff, Option.some.injEq] at h
    obtain ⟨id, hid, shortName, -, fullName, -, rfl⟩ := h
    exact fits_of_required hid
  · cases h

theorem ofJson?_toJson {c : Course} (h : c.Fits) : ofJson? c.toJson = some c := by
  refine bind_of_eq_some (slots?_object 3 rfl (by decide)) ?_
  exact bind_of_eq_some (signed?_integer h) rfl

theorem fits_toJson {level : Nat} (hl : level < 127) {c : Course} (h : c.Fits) :
    Json.Fits level c.toJson := ⟨hl, fits_integer h, trivial, trivial, trivial⟩

end Course

namespace User

def Fits (u : User) : Prop := fitsSigned64 u.id

theorem fits_of_ofJson? {j : Json} {u : User} (h : ofJson? j = some u) : u.Fits := by
  obtain ⟨fields, -, h⟩ := Option.bind_eq_some_iff.1 h
  split at h
  · simp only [Option.bind_eq_bind, Option.bind_eq_some_iff, Option.some.injEq] at h
    obtain ⟨id, hid, username, -, rfl⟩ := h
    exact fits_of_required hid
  · cases h

theorem ofJson?_toJson {u : User} (h : u.Fits) : ofJson? u.toJson = some u := by
  refine bind_of_eq_some (slots?_object 2 rfl (by decide)) ?_
  exact bind_of_eq_some (signed?_integer h) rfl

theorem fits_toJson {level : Nat} (hl : level < 127) {u : User} (h : u.Fits) :
    Json.Fits level u.toJson := ⟨hl, fits_integer h, trivial, trivial⟩

end User

namespace Window

structure Fits (w : Window) : Prop where
  user : fitsSigned64 w.user
  course : fitsSigned64 w.course
  starts : ∀ t ∈ w.starts, t.IsRegular
  ends : ∀ t ∈ w.ends, t.IsRegular

theorem fits_of_ofJson? {j : Json} {w : Window} (h : ofJson? j = some w) : w.Fits := by
  obtain ⟨fields, -, h⟩ := Option.bind_eq_some_iff.1 h
  split at h
  · simp only [Option.bind_eq_bind, Option.bind_eq_some_iff, Option.some.injEq] at h
    obtain ⟨user, huser, course, hcourse, starts, hstarts, ends, hends, status, -, enabled, -,
      rfl⟩ := h
    exact ⟨fits_of_required huser, fits_of_required hcourse, isRegular_of_optional? hstarts,
      isRegular_of_optional? hends⟩
  · cases h

theorem ofJson?_toJson {w : Window} (h : w.Fits) : ofJson? w.toJson = some w := by
  have hstatus : EnrolmentStatus.ofJson? w.status.toJson = some w.status := by
    cases w.status <;> rfl
  refine bind_of_eq_some (slots?_object 2 rfl (by decide)) ?_
  refine bind_of_eq_some (signed?_integer h.user) ?_
  refine bind_of_eq_some (signed?_integer h.course) ?_
  refine bind_of_eq_some (optional?_ofInstant h.starts) ?_
  refine bind_of_eq_some (optional?_ofInstant h.ends) ?_
  exact bind_of_eq_some hstatus rfl

theorem fits_toJson {level : Nat} (hl : level < 127) {w : Window} (h : w.Fits) :
    Json.Fits level w.toJson := by
  refine ⟨hl, fits_integer h.user, fits_integer h.course, fits_ofInstant _, fits_ofInstant _, ?_,
    trivial, trivial⟩
  cases w.status <;> exact trivial

end Window

namespace CourseSettings

def Fits (c : CourseSettings) : Prop := fitsSigned64 c.course

/-- the members of the object that the settings stand in -/
def members (c : CourseSettings) : List (String × Json) :=
  ("course_id", .integer c.course) :: c.settings.fields

theorem nodup_members (c : CourseSettings) : (c.members.map Prod.fst).Nodup := by
  show ["course_id", "enabled", "aggregation_method", "start_on_enrol"].Nodup
  decide

theorem membersReadable_members (c : CourseSettings) : membersReadable c.members = true := by
  obtain ⟨course, ⟨enabled, method, startOnEnrol⟩⟩ := c
  cases method <;> rfl

theorem read?_members (c : CourseSettings) :
    TrackingSettings.read? .held (.object c.members) = some c.settings := by
  refine bind_of_eq_some (slots?_of_subset c.nodup_members 1 c.settings.fields
    fun m hm => List.mem_cons_of_mem _ hm) ?_
  refine bind_of_eq_some (show flag? (.bool c.settings.enabled) = some _ from rfl) ?_
  exact bind_of_eq_some (Method.read?_toJson .held c.settings.method) rfl

theorem fits_of_ofJson? {j : Json} {c : CourseSettings} (h : ofJson? j = some c) : c.Fits := by
  unfold ofJson? at h
  split at h
  · simp only [Option.bind_eq_bind, Option.bind_eq_some_iff, Option.some.injEq] at h
    obtain ⟨-, -, field, -, course, hcourse, settings, -, rfl⟩ := h
    exact fits_of_required hcourse
  · cases h

theorem ofJson?_toJson {c : CourseSettings} (h : c.Fits) : ofJson? c.toJson = some c := by
  have hguard : (guard (membersReadable c.members) : Option Unit) = some () := by
    rw [c.membersReadable_members]
    rfl
  refine bind_of_eq_some hguard ?_
  refine bind_of_eq_some (slot?_of_mem c.nodup_members List.mem_cons_self) ?_
  refine bind_of_eq_some (signed?_integer h) ?_
  exact bind_of_eq_some c.read?_members rfl

theorem fits_toJson {level : Nat} (hl : level < 127) {c : CourseSettings} (h : c.Fits) :
    Json.Fits level c.toJson := by
  refine ⟨hl, fits_integer h, trivial, ?_, trivial, trivial⟩
  cases c.settings.method <;> exact trivial

end CourseSettings

namespace CriterionDefinition

def Fits (c : CriterionDefinition) : Prop := fitsSigned64 c.id ∧ fitsSigned64 c.course

theorem fits_of_ofJson? {j : Json} {c : CriterionDefinition} (h : ofJson? j = some c) : c.Fits := by
  obtain ⟨fields, -, h⟩ := Option.bind_eq_some_iff.1 h
  split at h
  · simp only [Option.bind_eq_bind, Option.bind_eq_some_iff, Option.some.injEq] at h
    obtain ⟨id, hid, course, hcourse, kind, -, title, -, rfl⟩ := h
    exact ⟨fits_of_required hid, fits_of_required hcourse⟩
  · cases h

theorem ofJson?_toJson {c : CriterionDefinition} (h : c.Fits) : ofJson? c.toJson = some c := by
  refine bind_of_eq_some (slots?_object 3 rfl (by decide)) ?_
  refine bind_of_eq_some (signed?_integer h.1) ?_
  refine bind_of_eq_some (signed?_integer h.2) ?_
  exact bind_of_eq_some (CriterionKind.ofJson?_toJson c.kind) rfl

theorem fits_toJson {level : Nat} (hl : level < 126) {c : CriterionDefinition} (h : c.Fits) :
    Json.Fits level c.toJson :=
  ⟨by omega, fits_integer h.1, fits_integer h.2, c.kind.fits_toJson (by omega), trivial, trivial⟩

end CriterionDefinition

namespace KindMethod

def Fits (m : KindMethod) : Prop := fitsSigned64 m.course

theorem fits_of_ofJson? {j : Json} {m : KindMethod} (h : ofJson? j = some m) : m.Fits := by
  obtain ⟨fields, -, h⟩ := Option.bind_eq_some_iff.1 h
  split at h
  · simp only [Option.bind_eq_bind, Option.bind_eq_some_iff, Option.some.injEq] at h
    obtain ⟨course, hcourse, kind, -, method, -, rfl⟩ := h
    exact fits_of_required hcourse
  · cases h

theorem ofJson?_toJson {m : KindMethod} (h : m.Fits) : ofJson? m.toJson = some m := by
  refine bind_of_eq_some (slots?_object 3 rfl (by decide)) ?_
  refine bind_of_eq_some (signed?_integer h) ?_
  refine bind_of_eq_some (CriterionKind.ofJson?_toJson m.kind) ?_
  exact bind_of_eq_some (Method.read?_toJson .text m.method) rfl

theorem fits_toJson {level : Nat} (hl : level < 126) {m : KindMethod} (h : m.Fits) :
    Json.Fits level m.toJson := by
  refine ⟨by omega, fits_integer h, m.kind.fits_toJson (by omega), ?_, trivial⟩
  cases m.method <;> exact trivial

end KindMethod

namespace CriterionMark

structure Fits (m : CriterionMark) : Prop where
  user : fitsSigned64 m.user
  criterion : fitsSigned64 m.criterion
  completed : ∀ t ∈ m.completed, t.IsRegular

theorem fits_of_ofJson? {j : Json} {m : CriterionMark} (h : ofJson? j = some m) : m.Fits := by
  obtain ⟨fields, -, h⟩ := Option.bind_eq_some_iff.1 h
  split at h
  · simp only [Option.bind_eq_bind, Option.bind_eq_some_iff, Option.some.injEq] at h
    obtain ⟨user, huser, criterion, hcriterion, completed, hcompleted, rfl⟩ := h
    exact ⟨fits_of_required huser, fits_of_required hcriterion, isRegular_of_optional? hcompleted⟩
  · cases h

theorem ofJson?_toJson {m : CriterionMark} (h : m.Fits) : ofJson? m.toJson = some m := by
  refine bind_of_eq_some (slots?_object 2 rfl (by decide)) ?_
  refine bind_of_eq_some (signed?_integer h.user) ?_
  refine bind_of_eq_some (signed?_integer h.criterion) ?_
  exact bind_of_eq_some (optional?_ofInstant h.completed) rfl

theorem fits_toJson {level : Nat} (hl : level < 127) {m : CriterionMark} (h : m.Fits) :
    Json.Fits level m.toJson :=
  ⟨hl, fits_integer h.user, fits_integer h.criterion, fits_ofInstant _, trivial⟩

end CriterionMark

namespace Row

/-- the user, the course and the columns of times have room in 64 bits -/
structure Sized (r : Row) : Prop where
  key : r.key.Fits
  enrolled : fitsSigned64 r.enrolled
  started : fitsSigned64 r.started
  completed : fitsSigned64 r.completed
  reaggregate : fitsSigned64 r.reaggregate

structure Fits (r : Row) : Prop where
  sized : r.Sized
  numbered : r.Numbered

theorem fits_of_ofJson? {j : Json} {r : Row} (h : ofJson? j = some r) : r.Fits := by
  obtain ⟨fields, -, h⟩ := Option.bind_eq_some_iff.1 h
  split at h
  · simp only [Option.bind_eq_bind, Option.bind_eq_some_iff, Option.some.injEq] at h
    obtain ⟨id, hid, user, huser, course, hcourse, enrolled, henrolled, started, hstarted,
      completed, hcompleted, reaggregate, hreaggregate, version, hversion, rfl⟩ := h
    have hcolumn : ∀ {field : Option Json} {n : Int}, orElse signed? 0 field = some n →
        fitsSigned64 n := fun h => of_orElse (P := fun n => fitsSigned64 n) h rfl fits_of_signed?
    exact ⟨⟨⟨fits_of_required huser, fits_of_required hcourse⟩, hcolumn henrolled,
      hcolumn hstarted, hcolumn hcompleted, hcolumn hreaggregate⟩, fits_of_required hid,
      of_orElse (P := fun n : Nat => fitsUnsigned64 n) hversion rfl fits_of_unsigned?⟩
  · cases h

theorem ofJson?_toJson {r : Row} (h : r.Fits) : ofJson? r.toJson = some r := by
  refine bind_of_eq_some (slots?_object 3 rfl (by decide)) ?_
  refine bind_of_eq_some (signed?_signed h.numbered.1) ?_
  refine bind_of_eq_some (signed?_integer h.sized.key.1) ?_
  refine bind_of_eq_some (signed?_integer h.sized.key.2) ?_
  refine bind_of_eq_some (signed?_integer h.sized.enrolled) ?_
  refine bind_of_eq_some (signed?_integer h.sized.started) ?_
  refine bind_of_eq_some (signed?_integer h.sized.completed) ?_
  refine bind_of_eq_some (signed?_integer h.sized.reaggregate) ?_
  exact bind_of_eq_some (unsigned?_unsigned h.numbered.2) rfl

theorem fits_toJson {level : Nat} (hl : level < 127) {r : Row} (h : r.Fits) :
    Json.Fits level r.toJson :=
  ⟨hl, fits_signed h.numbered.1, fits_integer h.sized.key.1, fits_integer h.sized.key.2,
    fits_integer h.sized.enrolled, fits_integer h.sized.started, fits_integer h.sized.completed,
    fits_integer h.sized.reaggregate, fits_unsigned h.numbered.2, trivial⟩

end Row

/-! ## whole snapshots -/

namespace Snapshot

/-- the numbers of every entry have room in 64 bits, and its times are regular -/
structure Fits (s : Snapshot) : Prop where
  courses : ∀ c ∈ s.courses, c.Fits
  users : ∀ u ∈ s.users, u.Fits
  settings : ∀ c ∈ s.settings, c.Fits
  criteria : ∀ c ∈ s.criteria, c.Fits
  methods : ∀ m ∈ s.methods, m.Fits
  marks : ∀ m ∈ s.marks, m.Fits
  windows : ∀ w ∈ s.windows, w.Fits
  completions : ∀ r ∈ s.completions, r.Fits

/-- **The numbers of a snapshot that was read have room**, and its times are regular. -/
theorem fits_of_ofJson? {j : Json} {s : Snapshot} (h : ofJson? j = some s) : s.Fits := by
  obtain ⟨fields, -, h⟩ := Option.bind_eq_some_iff.1 h
  split at h
  · simp only [Option.bind_eq_bind, Option.bind_eq_some_iff, Option.some.injEq] at h
    obtain ⟨courses, hcourses, users, husers, settings, hsettings, criteria, hcriteria, methods,
      hmethods, marks, hmarks, windows, hwindows, completions, hcompletions, rfl⟩ := h
    exact
      { courses := of_mem_orElse hcourses Course.fits_of_ofJson?
        users := of_mem_orElse husers User.fits_of_ofJson?
        settings := of_mem_orElse hsettings CourseSettings.fits_of_ofJson?
        criteria := of_mem_orElse hcriteria CriterionDefinition.fits_of_ofJson?
        methods := of_mem_orElse hmethods KindMethod.fits_of_ofJson?
        marks := of_mem_orElse hmarks CriterionMark.fits_of_ofJson?
        windows := of_mem_orElse hwindows Window.fits_of_ofJson?
        completions := of_mem_orElse hcompletions Row.fits_of_ofJson? }
  · cases h

theorem fits_of_ofFileText? {text : String} {s : Snapshot} (h : ofFileText? text = some s) :
    s.Fits := by
  obtain ⟨j, -, hj⟩ := Option.bind_eq_some_iff.1 h
  exact fits_of_ofJson? hj

theorem ofJson?_toJson {s : Snapshot} (h : s.Fits) : ofJson? s.toJson = some s := by
  refine bind_of_eq_some (slots?_object 0 rfl (by decide)) ?_
  refine bind_of_eq_some (listOf?_list fun c hc => Course.ofJson?_toJson (h.courses c hc)) ?_
  refine bind_of_eq_some (listOf?_list fun u hu => User.ofJson?_toJson (h.users u hu)) ?_
  refine bind_of_eq_some
    (listOf?_list fun c hc => CourseSettings.ofJson?_toJson (h.settings c hc)) ?_
  refine bind_of_eq_some
    (listOf?_list fun c hc => CriterionDefinition.ofJson?_toJson (h.criteria c hc)) ?_
  refine bind_of_eq_some (listOf?_list fun m hm => KindMethod.ofJson?_toJson (h.methods m hm)) ?_
  refine bind_of_eq_some (listOf?_list fun m hm => CriterionMark.ofJson?_toJson (h.marks m hm)) ?_
  refine bind_of_eq_some (listOf?_list fun w hw => Window.ofJson?_toJson (h.windows w hw)) ?_
  exact bind_of_eq_some (listOf?_list fun r hr => Row.ofJson?_toJson (h.completions r hr)) rfl

theorem fits_toJson {s : Snapshot} (h : s.Fits) : Json.Fits 0 s.toJson := by
  refine ⟨by decide, ?_, ?_, ?_, ?_, ?_, ?_, ?_, ?_, trivial⟩
  · exact fits_list (by decide) fun c hc => Course.fits_toJson (by decide) (h.courses c hc)
  · exact fits_list (by decide) fun u hu => User.fits_toJson (by decide) (h.users u hu)
  · exact fits_list (by decide) fun c hc => CourseSettings.fits_toJson (by decide) (h.settings c hc)
  · exact fits_list (by decide)
      fun c hc => CriterionDefinition.fits_toJson (by decide) (h.criteria c hc)
  · exact fits_list (by decide) fun m hm => KindMethod.fits_toJson (by decide) (h.methods m hm)
  · exact fits_list (by decide) fun m hm => CriterionMark.fits_toJson (by decide) (h.marks m hm)
  · exact fits_list (by decide) fun w hw => Window.fits_toJson (by decide) (h.windows w hw)
  · exact fits_list (by decide) fun r hr => Row.fits_toJson (by decide) (h.completions r hr)

/-- **Nothing is lost in a file.**  A file that is written from a snapshot reads as the snapshot,
exactly if the numbers of the snapshot have room and its leap seconds stand at the end of a
minute. -/
theorem ofFileText?_fileText (s : Snapshot) : ofFileText? s.fileText = some s ↔ s.Fits := by
  refine ⟨fits_of_ofFileText?, fun h => ?_⟩
  have htext : Json.ofText? s.fileText = some s.toJson := Json.ofText?_pretty (fits_toJson h)
  have hform : ofJson? s.toJson = some s := ofJson?_toJson h
  exact bind_of_eq_some htext hform

/-- the ends of every range, signs that have to be escaped, and a leap second, in every table -/
theorem file_of_extremes :
    let first : Instant := ⟨earliestSecond, 7, by decide, by decide⟩
    let leap : Instant := ⟨1483228799, 1500000000, by decide, by decide⟩
    let last : Instant := ⟨latestSecond, 999999999, by decide, by decide⟩
    let least : Int := -9223372036854775808
    let largest : Int := 9223372036854775807
    let s : Snapshot :=
      { courses := [⟨least, "", "Łódź \"1\" \\ \u0001\t"⟩]
        users := [⟨largest, "\u007f🙂\n"⟩]
        settings := [⟨least, ⟨true, .any, false⟩⟩]
        criteria := [⟨largest, 0, .other 255, "/"⟩]
        methods := [⟨least, .other 0, .any⟩]
        marks := [⟨-1, largest, some first⟩]
        windows := [⟨1, least, some leap, some last, .suspended, false⟩]
        completions := [⟨least, -1, 1, largest, 0, -1, least, 18446744073709551615⟩] }
    ofFileText? s.fileText = some s := by
  intro first leap last least largest s
  refine (ofFileText?_fileText s).2 ?_
  exact
    { courses := List.forall_mem_singleton.2 (by decide : fitsSigned64 least)
      users := List.forall_mem_singleton.2 (by decide : fitsSigned64 largest)
      settings := List.forall_mem_singleton.2 (by decide : fitsSigned64 least)
      criteria := List.forall_mem_singleton.2
        (by decide : fitsSigned64 largest ∧ fitsSigned64 0)
      methods := List.forall_mem_singleton.2 (by decide : fitsSigned64 least)
      marks := List.forall_mem_singleton.2 ⟨by decide, by decide, by decide⟩
      windows := List.forall_mem_singleton.2 ⟨by decide, by decide, by decide, by decide⟩
      completions := List.forall_mem_singleton.2
        ⟨⟨(by decide : fitsSigned64 (-1) ∧ fitsSigned64 1), by decide, by decide, by decide,
          by decide⟩, by decide⟩ }

/-- A file does not keep an enrolment that starts in a leap second within a minute. -/
theorem start_within_minute_is_lost :
    ¬∀ w : Window, fitsSigned64 w.user → fitsSigned64 w.course →
      let s : Snapshot := { Snapshot.empty with windows := [w] }
      ofFileText? s.fileText = some s := by
  intro hclaim
  let within : Instant := ⟨100, 1500000000, by decide, by decide⟩
  have hfits := fits_of_ofFileText?
    (hclaim ⟨3, 7, some within, none, .active, true⟩ (by decide) (by decide))
  have hregular : within.IsRegular :=
    (hfits.windows _ List.mem_cons_self).starts within rfl
  exact absurd hregular (by decide)

end Snapshot

end CourseCompletion
