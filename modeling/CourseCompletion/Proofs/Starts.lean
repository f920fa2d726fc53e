import CourseCompletion.Proofs.Loops

/-!
# Live users and their earliest starts

`liveStarts` gathers the users of live windows in one pass, each with an optional time that grows
earlier.  What it comes to does not tell of the pass:

* `Window.Live`    the window is active, through a way of enrolling that is on, and not ended;
* `Store.LiveIn`   a user has a live window in a course;
* `Store.StartIn`  a live window of the user in the course starts at a time that counts;
* `Earliest`       the earliest instant with a property, if there is any.

The users that are gathered are those that are live, in ascending order, each with the earliest of
the starts (`mem_liveStarts`).  So the order of the windows does not show (`liveStarts_perm`).
-/

namespace CourseCompletion

/-! ## windows that count -/

/-- active, through a way of enrolling that is on, and not ended -/
def Window.Live (w : Window) (now : Instant) : Prop :=
  w.status = .active ∧ w.instanceEnabled = true ∧ ∀ t, w.ends = some t → now < t

theorem Window.isLive_iff {w : Window} {now : Instant} : w.isLive now = true ↔ w.Live now := by
  simp [isLive, Live, Option.all_eq_true, and_assoc]

namespace Store

/-- the user has a live window in the course -/
def LiveIn (s : Store) (now : Instant) (k : Key) : Prop :=
  ∃ w ∈ s.windows, w.user = k.user ∧ w.course = k.course ∧ w.Live now

/-- a live window of the user in the course starts at this time, which counts -/
def StartIn (s : Store) (now : Instant) (k : Key) (t : Instant) : Prop :=
  ∃ w ∈ s.windows, w.user = k.user ∧ w.course = k.course ∧ w.Live now ∧
    w.starts = some t ∧ t.IsKnown

end Store

/-! ## the earliest of some instants -/

/-- the earliest instant with a property, absent if there is none -/
def Earliest (P : Instant → Prop) : Option Instant → Prop
  | some t => P t ∧ ∀ u, P u → t ≤ u
  | none => ∀ t, ¬P t

namespace Earliest

variable {P Q : Instant → Prop} {a b : Option Instant}

theorem congr (h : Earliest P a) (hPQ : ∀ t, P t ↔ Q t) : Earliest Q a := by
  obtain rfl : P = Q := funext fun t => propext (hPQ t)
  exact h

theorem unique (h : Earliest P a) (h' : Earliest P b) : a = b := by
  cases a with
  | none =>
    cases b with
    | none => rfl
    | some u => exact absurd h'.1 (h u)
  | some t =>
    cases b with
    | none => exact absurd h.1 (h' t)
    | some u => rw [Instant.le_antisymm (h.2 u h'.1) (h'.2 t h.1)]

/-- An optional time is the earliest of itself. -/
theorem self (a : Option Instant) : Earliest (fun t => a = some t) a := by
  cases a with
  | none => exact fun t h => by cases h
  | some t =>
    refine ⟨rfl, fun u hu => ?_⟩
    obtain rfl := Option.some.inj hu
    exact Instant.le_refl t

/-- The earlier of two is the earliest of what either is the earliest of. -/
theorem earlier (h : Earliest P a) (h' : Earliest Q b) :
    Earliest (fun t => P t ∨ Q t) (Instant.earlier a b) := by
  cases a with
  | none => exact h'.congr fun t => (or_iff_right (h t)).symm
  | some t =>
    cases b with
    | none => exact Earliest.congr (a := some t) h fun u => (or_iff_left (h' u)).symm
    | some u =>
      show Earliest _ (some (min t u))
      rw [Instant.min_def]
      split
      · next hle =>
        refine ⟨.inl h.1, fun v hv => hv.elim (h.2 v) fun hq => ?_⟩
        exact Instant.le_trans hle (h'.2 v hq)
      · next hnot =>
        have hle : u ≤ t := (Instant.le_total t u).resolve_left hnot
        refine ⟨.inr h'.1, fun v hv => hv.elim (fun hp => ?_) (h'.2 v)⟩
        exact Instant.le_trans hle (h.2 v hp)

end Earliest

/-! ## gathering -/

section

variable {user v : Int} {start e : Option Instant} {us us' : List (Int × Option Instant)}

/-- Another user is there after an insertion if it was there before, with the same time. -/
theorem mem_insertStart_of_ne (hne : v ≠ user) :
    (v, e) ∈ insertStart user start us ↔ (v, e) ∈ us := by
  have hnew : ∀ o, (v, e) ≠ (user, o) := fun o h => hne (congrArg Prod.fst h)
  induction us with
  | nil => exact iff_of_false (fun h => hnew _ (List.mem_singleton.1 h)) List.not_mem_nil
  | cons u us ih =>
    obtain ⟨u, o⟩ := u
    unfold insertStart
    split
    · exact List.mem_cons.trans (or_iff_right (hnew start))
    · split
      · next heq =>
        subst heq
        rw [List.mem_cons, List.mem_cons, or_iff_right (hnew _), or_iff_right (hnew _)]
      · exact List.mem_cons.trans ((or_congr_right ih).trans List.mem_cons.symm)

/-- A user that is inserted is there. -/
theorem exists_mem_insertStart (user : Int) (start : Option Instant)
    (us : List (Int × Option Instant)) : ∃ e, (user, e) ∈ insertStart user start us := by
  induction us with
  | nil => exact ⟨start, List.mem_singleton.2 rfl⟩
  | cons u us ih =>
    obtain ⟨u, o⟩ := u
    unfold insertStart
    split
    · exact ⟨start, List.mem_cons_self⟩
    · split
      · next heq =>
        subst heq
        exact ⟨_, List.mem_cons_self⟩
      · obtain ⟨e, he⟩ := ih
        exact ⟨e, List.mem_cons_of_mem _ he⟩

/-- The user that is inserted has the earlier of two times if it was there before. -/
theorem of_mem_insertStart_self (hus : us.Pairwise fun a b => a.1 < b.1)
    (h : (user, e) ∈ insertStart user start us) :
    (∃ o, (user, o) ∈ us ∧ e = Instant.earlier o start) ∨
      (∀ o, (user, o) ∉ us) ∧ e = start := by
  induction us with
  | nil =>
    obtain rfl := congrArg Prod.snd (List.mem_singleton.1 h)
    exact .inr ⟨fun _ => List.not_mem_nil, rfl⟩
  | cons u us ih =>
    obtain ⟨u, o⟩ := u
    obtain ⟨hlt, hus⟩ := List.pairwise_cons.1 hus
    have habove : ∀ v, v ≤ u → ∀ o', (v, o') ∉ us := by
      intro v hv o' hmem
      have : u < v := hlt _ hmem
      omega
    unfold insertStart at h
    split at h
    · next hbefore =>
      have hnot : ∀ o', (user, o') ∉ (u, o) :: us := by
        intro o' hmem
        rcases List.mem_cons.1 hmem with h | h
        · exact absurd (congrArg Prod.fst h) (Int.ne_of_lt hbefore)
        · exact habove user (Int.le_of_lt hbefore) o' h
      rcases List.mem_cons.1 h with h | h
      · exact .inr ⟨hnot, congrArg Prod.snd h⟩
      · exact absurd h (hnot e)
    · split at h
      · next heq =>
        subst heq
        rcases List.mem_cons.1 h with h | h
        · exact .inl ⟨o, List.mem_cons_self, congrArg Prod.snd h⟩
        · exact absurd h (habove user (Int.le_refl _) e)
      · next hne =>
        have hother : ∀ o', (user, o') ∈ (u, o) :: us ↔ (user, o') ∈ us := fun o' =>
          List.mem_cons.trans (or_iff_right fun h => hne (congrArg Prod.fst h))
        rcases List.mem_cons.1 h with h | h
        · exact absurd (congrArg Prod.fst h) hne
        · simp only [hother]
          exact ih hus h

/-- users in ascending order with times are the same list where they are the same set -/
theorem eq_of_ascending (h : us.Pairwise fun a b => a.1 < b.1)
    (h' : us'.Pairwise fun a b => a.1 < b.1) (hmem : ∀ u, u ∈ us ↔ u ∈ us') : us = us' := by
  have hne : ∀ {a b : Int × Option Instant}, a.1 < b.1 → a ≠ b := fun hlt heq =>
    Int.ne_of_lt hlt (congrArg Prod.fst heq)
  refine ((List.perm_ext_iff_of_nodup (h.imp hne) (h'.imp hne)).2 hmem).eq_of_pairwise ?_ h h'
  intro a b _ _ hab hba
  exact absurd hab (Int.not_lt.2 (Int.le_of_lt hba))

end

/-- what was gathered from some windows: their users in ascending order, each with its earliest
start that counts -/
structure Gathered (ws : List Window) (us : List (Int × Option Instant)) : Prop
    extends Action.Participants us where
  has : ∀ w ∈ ws, ∃ e, (w.user, e) ∈ us
  of_mem : ∀ user e, (user, e) ∈ us → (∃ w ∈ ws, w.user = user) ∧
    Earliest (fun t => ∃ w ∈ ws, w.user = user ∧ known? w.starts = some t) e

namespace Gathered

variable {ws : List Window} {us us' : List (Int × Option Instant)} {user : Int}
  {e : Option Instant}

theorem nil : Gathered [] [] where
  ascending := List.Pairwise.nil
  known := fun _ h => by cases h
  has := fun _ h => by cases h
  of_mem := fun _ _ h => by cases h

/-- One window more is gathered. -/
theorem insert (h : Gathered ws us) (w : Window) :
    Gathered (w :: ws) (insertStart w.user (known? w.starts) us) where
  toParticipants := h.insertStart w.user fun t ht => (known?_eq_some_iff.1 ht).2
  has := by
    intro w' hw'
    by_cases hu : w'.user = w.user
    · rw [hu]
      exact exists_mem_insertStart w.user _ us
    · have hold : w' ∈ ws := (List.mem_cons.1 hw').resolve_left fun h => hu (congrArg _ h)
      obtain ⟨e, he⟩ := h.has w' hold
      exact ⟨e, (mem_insertStart_of_ne hu).2 he⟩
  of_mem := by
    intro user e hmem
    simp only [List.exists_mem_cons_iff]
    by_cases hu : user = w.user
    · subst hu
      have hnew : Earliest (fun t => w.user = w.user ∧ known? w.starts = some t)
          (known? w.starts) := (Earliest.self _).congr fun t => (and_iff_right rfl).symm
      refine ⟨.inl rfl, ?_⟩
      rcases of_mem_insertStart_self h.ascending hmem with ⟨o, ho, rfl⟩ | ⟨hnone, rfl⟩
      · exact (h.of_mem _ o ho).2.earlier hnew |>.congr fun t => Or.comm
      · refine hnew.congr fun t => (or_iff_left ?_).symm
        rintro ⟨w', hw', hsame, -⟩
        obtain ⟨o, ho⟩ := h.has w' hw'
        exact hnone o (hsame ▸ ho)
    · have hu' : ¬w.user = user := fun h => hu h.symm
      obtain ⟨hsome, hearliest⟩ := h.of_mem user e ((mem_insertStart_of_ne hu).1 hmem)
      exact ⟨.inr hsome, hearliest.congr fun t => (or_iff_right fun h => hu' h.1).symm⟩

theorem congr {ws' : List Window} (h : Gathered ws us) (hws : ∀ w, w ∈ ws ↔ w ∈ ws') :
    Gathered ws' us where
  toParticipants := h.toParticipants
  has := fun w hw => h.has w ((hws w).2 hw)
  of_mem := by simpa only [hws] using h.of_mem

/-- All windows of a pass are gathered. -/
theorem foldl (h : Gathered ws us) (rest : List Window) :
    Gathered (ws ++ rest)
      (rest.foldl (fun us w => insertStart w.user (known? w.starts) us) us) := by
  induction rest generalizing ws us with
  | nil =>
    rw [List.append_nil]
    exact h
  | cons w rest ih =>
    refine (ih (h.insert w)).congr fun x => ?_
    simp only [List.cons_append, List.mem_cons, List.mem_append]
    exact or_left_comm

theorem mem_iff (h : Gathered ws us) : (user, e) ∈ us ↔ (∃ w ∈ ws, w.user = user) ∧
    Earliest (fun t => ∃ w ∈ ws, w.user = user ∧ known? w.starts = some t) e := by
  refine ⟨h.of_mem user e, ?_⟩
  rintro ⟨⟨w, hw, rfl⟩, hearliest⟩
  obtain ⟨e', he'⟩ := h.has w hw
  rwa [hearliest.unique (h.of_mem _ e' he').2]

/-- What is gathered depends on which windows there are only. -/
theorem unique (h : Gathered ws us) (h' : Gathered ws us') : us = us' :=
  eq_of_ascending h.ascending h'.ascending fun _ => h.mem_iff.trans h'.mem_iff.symm

end Gathered

theorem gathered_liveStarts (windows : List Window) (now : Instant) :
    Gathered (windows.filter (·.isLive now)) (liveStarts windows now) := Gathered.nil.foldl _

/-- The users that are gathered for a course are those that are live in it, each with the earliest
of its starts that count. -/
theorem mem_liveStarts {s : Store} {now : Instant} {course user : Int} {e : Option Instant} :
    (user, e) ∈ liveStarts (s.courseWindows course) now ↔
      s.LiveIn now ⟨user, course⟩ ∧ Earliest (s.StartIn now ⟨user, course⟩) e := by
  have hmem : ∀ w, w ∈ (s.courseWindows course).filter (·.isLive now) ↔
      w ∈ s.windows ∧ w.course = course ∧ w.Live now := by
    intro w
    unfold Store.courseWindows
    rw [List.mem_filter, List.mem_filter, Window.isLive_iff, decide_eq_true_iff, and_assoc]
  rw [(gathered_liveStarts _ now).mem_iff]
  refine and_congr ?_ (iff_of_eq (congrArg (Earliest · e) (funext fun t => propext ?_)))
  · refine exists_congr fun w => ?_
    rw [hmem]
    tauto
  · refine exists_congr fun w => ?_
    rw [hmem, known?_eq_some_iff]
    tauto

theorem exists_mem_liveStarts {s : Store} {now : Instant} {course user : Int} :
    (∃ e, (user, e) ∈ liveStarts (s.courseWindows course) now) ↔ s.LiveIn now ⟨user, course⟩ := by
  constructor
  · rintro ⟨e, he⟩
    exact (mem_liveStarts.1 he).1
  · rintro ⟨w, hw, rfl, rfl, hlive⟩
    refine (gathered_liveStarts _ now).has w (List.mem_filter.2 ⟨?_, Window.isLive_iff.2 hlive⟩)
    exact List.mem_filter.2 ⟨hw, decide_eq_true rfl⟩

end CourseCompletion
