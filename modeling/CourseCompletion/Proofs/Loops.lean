import CourseCompletion.Proofs.Works

/-!
# What operations do that go through many records

The records that `Action.flagEach` and `Action.sweepEach` are given were all loaded before the first
of them is stored; as they are of different keys, each is still as old as its row when its turn
comes (`Fresh`).  `Action.startEach` looks every participant up in its turn instead.
-/

namespace CourseCompletion

/-! ## records of different keys -/

/-- records of different keys, each as its key loads -/
structure Fresh (rs : List Record) (t : CompletionTable) : Prop where
  loads : ∀ r ∈ rs, r.key.Loads (t.row? r.key) r
  nodup : (rs.map Record.key).Nodup

namespace Fresh

variable {r : Record} {rs rs' : List Record} {t t' : CompletionTable}

theorem head (h : Fresh (r :: rs) t) : r.key.Loads (t.row? r.key) r := h.loads r List.mem_cons_self

theorem ne_head (h : Fresh (r :: rs) t) {x : Record} (hx : x ∈ rs) : x.key ≠ r.key := by
  intro he
  exact (List.nodup_cons.1 h.nodup).1 (he ▸ List.mem_map_of_mem hx)

/-- the rest of the records, after the row of the first one changed -/
theorem tail (h : Fresh (r :: rs) t) (hrow : ∀ k, k ≠ r.key → t'.row? k = t.row? k) :
    Fresh rs t' := by
  refine ⟨fun x hx => ?_, (List.nodup_cons.1 h.nodup).2⟩
  rw [hrow x.key (h.ne_head hx)]
  exact h.loads x (List.mem_cons_of_mem r hx)

theorem sublist (h : Fresh rs t) (hs : rs'.Sublist rs) : Fresh rs' t :=
  ⟨fun r hr => h.loads r (hs.subset hr), h.nodup.sublist (hs.map _)⟩

theorem of_findByCourse (hv : t.Valid) {course : Int} (h : t.findByCourse course = .ok rs) :
    Fresh rs t := by
  refine ⟨fun r hr => ?_, CompletionTable.nodup_findByCourse hv h⟩
  obtain ⟨row, hrow, hread, -⟩ := CompletionTable.loads_of_findByCourse hv h hr
  rw [hrow]
  exact ⟨hread.key.symm, hread⟩

end Fresh

namespace Action

/-! ## flags and sweeps -/

/-- the records of a list, each under one commit -/
def each (rs : List Record) (m : Commit) : Key → Commit → Prop :=
  fun k m' => (∃ r ∈ rs, r.key = k) ∧ m' = m

theorem each_cons {r : Record} {rs : List Record} {m : Commit} {k : Key} {m' : Commit}
    (h : (k = r.key ∧ m' = m) ∨ each rs m k m') : each (r :: rs) m k m' := by
  rcases h with ⟨rfl, rfl⟩ | ⟨⟨x, hx, rfl⟩, rfl⟩
  · exact ⟨⟨r, List.mem_cons_self, rfl⟩, rfl⟩
  · exact ⟨⟨x, List.mem_cons_of_mem r hx, rfl⟩, rfl⟩

theorem flagEach_works {now : Instant} (rs : List Record) {s : Session}
    (hk : s.now.IsKnown → now.IsKnown) (hs : s.Calm) (hr : Fresh rs s.table) :
    ∃ s' new, (flagEach now rs).run s = (.ok (), s') ∧ s.Works (each rs (.flag now)) s' new ∧
      completionsIn new = [] := by
  induction rs generalizing s with
  | nil => exact ⟨s, [], rfl, .memory s s.remembered, rfl⟩
  | cons r rs ih =>
    obtain ⟨o, s₁, new₁, hrun, hw, hn⟩ := Commit.works (m := .flag now) hk hs hr.head
      fun _ _ h => by cases h
    have ho : o.justCompleted = false := Commit.justCompleted_flag hs hrun
    have hfresh : Fresh rs s₁.table := hr.tail fun k hne => hw.row?_eq fun m h => hne h.1
    obtain ⟨s', new₂, hrun', hw', hn'⟩ := ih (by rw [hw.now]; exact hk) (hw.calm hs) hfresh
    rw [flagEach_cons]
    refine ⟨s', new₁ ++ new₂, (run_bind_ok hrun _).trans hrun', ?_, ?_⟩
    · refine (hw.trans hw' ?_).mono fun _ _ => each_cons
      rintro k m m' ⟨rfl, -⟩ ⟨⟨x, hx, hkey⟩, -⟩
      exact hr.ne_head hx hkey
    · rw [ho] at hn
      rw [completionsIn_append, List.eq_nil_of_length_eq_zero hn, hn']
      rfl

theorem sweepEach_works (rs : List Record) {s : Session} (hs : s.Calm) (hr : Fresh rs s.table)
    (summary : SweepSummary) :
    ∃ summary' s' new, (sweepEach rs summary).run s = (.ok summary', s') ∧
      s.Works (each rs .sweep) s' new ∧
      summary'.completed = summary.completed + (completionsIn new).length := by
  induction rs generalizing s summary with
  | nil => exact ⟨summary, s, [], rfl, .memory s s.remembered, rfl⟩
  | cons r rs ih =>
    obtain ⟨o, s₁, new₁, hrun, hw, hn⟩ := Commit.works (m := .sweep) (fun _ => trivial) hs
      hr.head fun _ _ h => by cases h
    have hfresh : Fresh rs s₁.table := hr.tail fun k hne => hw.row?_eq fun m h => hne h.1
    obtain ⟨summary', s', new₂, hrun', hw', hn'⟩ := ih (hw.calm hs) hfresh
      ⟨summary.processed + 1, summary.completed + if o.justCompleted then 1 else 0⟩
    refine ⟨summary', s', new₁ ++ new₂, ?_, ?_, ?_⟩
    · rw [sweepEach_cons]
      exact (run_bind_ok hrun _).trans hrun'
    · refine (hw.trans hw' ?_).mono fun _ _ => each_cons
      rintro k m m' ⟨rfl, -⟩ ⟨⟨x, hx, hkey⟩, -⟩
      exact hr.ne_head hx hkey
    · rw [hn', completionsIn_append, List.length_append, hn]
      cases o.justCompleted <;> simp +arith

/-! ## one record -/

theorem load_run {s : Session} (hs : s.Calm) (k : Key) :
    (load k).run s = ((s.table.load k).mapError SourceError.toServiceError, s) := by
  unfold load CompletionTable.load
  refine (run_bind _ _ s).trans ?_
  rw [get?_run hs]
  cases s.table.find k <;> rfl

theorem load_of_loads {s : Session} (hs : s.Calm) {k : Key} {r : Record}
    (h : k.Loads (s.table.row? k) r) : (load k).run s = (.ok r, s) := by
  rw [load_run hs, CompletionTable.load_eq_ok_iff.2 h]
  rfl

theorem aggregate_of_loads {s : Session} (hs : s.Calm) {k : Key} {r : Record}
    (h : k.Loads (s.table.row? k) r) : (aggregate k).run s = (aggregateRecord r).run s :=
  run_bind_ok (load_of_loads hs h) _

/-! ## participants -/

/-- A participant without a record gets one, any other is left alone, or the record cannot be
read. -/
theorem startUser_works {s : Session} (hs : s.Calm) (k : Key)
    {earliest : Option Instant} (ht : ∀ t ∈ earliest, t.IsKnown) (startOnEnrol : Bool) :
    ∃ answer s' new, (startUser k earliest startOnEnrol).run s = (answer, s') ∧
      s.Works (fun k' m => k' = k ∧ m = .first earliest startOnEnrol) s' new ∧
      completionsIn new = [] ∧ (s.table.Readable → ∃ created, answer = .ok created) := by
  rw [startUser_eq]
  cases hfind : s.table.find k with
  | error e =>
    have hget : (get? k).run s = (.error e.toServiceError, s) := by
      rw [get?_run hs, hfind]
      rfl
    refine ⟨_, s, [], run_bind_error hget _, .memory s s.remembered, rfl, fun hr => ?_⟩
    obtain ⟨o, ho⟩ := hr.find k
    rw [hfind] at ho
    cases ho
  | ok found =>
    have hget : (get? k).run s = (.ok found, s) := by
      rw [get?_run hs, hfind]
      rfl
    cases found with
    | some r =>
      exact ⟨_, s, [], run_bind_ok hget _, .memory s s.remembered, rfl, fun _ => ⟨_, rfl⟩⟩
    | none =>
      have hnone : s.table.row? k = none := CompletionTable.find_eq_none_iff.1 hfind
      have hl : k.Loads (s.table.row? k) (.new k) := by rw [hnone]; rfl
      obtain ⟨o, s', new, hrun, hw, hn⟩ := Commit.works (m := .first earliest startOnEnrol)
        (fun _ => ht) hs hl fun _ _ _ => hnone
      refine ⟨.ok o.isApplicable, s', new, (run_bind_ok hget _).trans ?_, hw, ?_, fun _ => ⟨_, rfl⟩⟩
      · refine (run_map _ _ s).trans ?_
        rw [hrun]
        rfl
      · rw [Commit.justCompleted_first hs hrun] at hn
        exact List.eq_nil_of_length_eq_zero hn

/-- participants of a course in ascending order of users, whose starts can be stored -/
structure Participants (us : List (Int × Option Instant)) : Prop where
  ascending : us.Pairwise fun a b => a.1 < b.1
  known : ∀ u ∈ us, ∀ t ∈ u.2, t.IsKnown

theorem isKnown_earlier {a b : Option Instant} (ha : ∀ t ∈ a, t.IsKnown)
    (hb : ∀ t ∈ b, t.IsKnown) : ∀ t ∈ Instant.earlier a b, t.IsKnown := by
  cases a with
  | none => exact hb
  | some x =>
    cases b with
    | none => exact ha
    | some y =>
      intro t ht
      obtain rfl : min x y = t := Option.some.inj ht
      rw [Instant.min_def]
      split
      · exact ha x rfl
      · exact hb y rfl

theorem user_of_mem_insertStart {user : Int} {start : Option Instant}
    {us : List (Int × Option Instant)} {x : Int × Option Instant}
    (hx : x ∈ insertStart user start us) : x.1 = user ∨ ∃ y ∈ us, y.1 = x.1 := by
  induction us with
  | nil =>
    obtain rfl := List.mem_singleton.1 hx
    exact .inl rfl
  | cons u us ih =>
    obtain ⟨v, s⟩ := u
    unfold insertStart at hx
    split at hx
    · rcases List.mem_cons.1 hx with rfl | hx
      · exact .inl rfl
      · exact .inr ⟨x, hx, rfl⟩
    · split at hx
      · next he =>
        rcases List.mem_cons.1 hx with rfl | hx
        · exact .inl he.symm
        · exact .inr ⟨x, List.mem_cons_of_mem _ hx, rfl⟩
      · rcases List.mem_cons.1 hx with rfl | hx
        · exact .inr ⟨_, List.mem_cons_self, rfl⟩
        · rcases ih hx with he | ⟨y, hy, he⟩
          · exact .inl he
          · exact .inr ⟨y, List.mem_cons_of_mem _ hy, he⟩

theorem Participants.insertStart {us : List (Int × Option Instant)} (h : Participants us)
    (user : Int) {start : Option Instant} (hs : ∀ t ∈ start, t.IsKnown) :
    Participants (insertStart user start us) := by
  induction us with
  | nil =>
    refine ⟨List.pairwise_singleton _ _, fun u hu => ?_⟩
    obtain rfl := List.mem_singleton.1 hu
    exact hs
  | cons u us ih =>
    obtain ⟨v, s⟩ := u
    obtain ⟨hlt, hasc⟩ := List.pairwise_cons.1 h.ascending
    have hrest : Participants us := ⟨hasc, fun x hx => h.known x (List.mem_cons_of_mem _ hx)⟩
    have hv := h.known (v, s) List.mem_cons_self
    unfold CourseCompletion.insertStart
    split
    · next hlt' =>
      refine ⟨List.pairwise_cons.2 ⟨fun x hx => ?_, h.ascending⟩, fun x hx => ?_⟩
      · rcases List.mem_cons.1 hx with rfl | hx
        · exact hlt'
        · exact Int.lt_trans hlt' (hlt x hx)
      · rcases List.mem_cons.1 hx with rfl | hx
        · exact hs
        · exact h.known x hx
    · split
      · refine ⟨List.pairwise_cons.2 ⟨hlt, hasc⟩, fun x hx => ?_⟩
        rcases List.mem_cons.1 hx with rfl | hx
        · exact isKnown_earlier hv hs
        · exact hrest.known x hx
      · refine ⟨List.pairwise_cons.2 ⟨fun x hx => ?_, (ih hrest).ascending⟩, fun x hx => ?_⟩
        · rcases user_of_mem_insertStart hx with he | ⟨y, hy, he⟩
          · show v < x.1
            omega
          · show v < x.1
            rw [← he]
            exact hlt y hy
        · rcases List.mem_cons.1 hx with rfl | hx
          · exact hv
          · exact (ih hrest).known x hx

theorem participants_liveStarts (windows : List Window) (now : Instant) :
    Participants (liveStarts windows now) := by
  have step : ∀ (ws : List Window) (us : List (Int × Option Instant)), Participants us →
      Participants (ws.foldl (fun us w => insertStart w.user (known? w.starts) us) us) := by
    intro ws
    induction ws with
    | nil => intro us h; exact h
    | cons w ws ih =>
      intro us h
      exact ih _ (h.insertStart w.user fun t ht => (known?_eq_some_iff.1 ht).2)
  exact step _ [] ⟨List.Pairwise.nil, fun u hu => by cases hu⟩

/-- the first record of each of some participants -/
def begun (course : Int) (startOnEnrol : Bool) (us : List (Int × Option Instant)) :
    Key → Commit → Prop :=
  fun k m => k.course = course ∧ ∃ u ∈ us, u.1 = k.user ∧ m = .first u.2 startOnEnrol

theorem startEach_works (course : Int) (startOnEnrol : Bool) {us : List (Int × Option Instant)}
    (hu : Participants us) {s : Session} (hs : s.Calm) (summary : BulkSummary) :
    ∃ answer s' new, (startEach course startOnEnrol us summary).run s = (answer, s') ∧
      s.Works (begun course startOnEnrol us) s' new ∧ completionsIn new = [] ∧
      (s.table.Valid → s.table.Readable → ∃ summary', answer = .ok summary') := by
  induction us generalizing s summary with
  | nil => exact ⟨_, s, [], rfl, .memory s s.remembered, rfl, fun _ _ => ⟨_, rfl⟩⟩
  | cons u us ih =>
    obtain ⟨user, earliest⟩ := u
    obtain ⟨hlt, hasc⟩ := List.pairwise_cons.1 hu.ascending
    have hu' : Participants us := ⟨hasc, fun x hx => hu.known x (List.mem_cons_of_mem _ hx)⟩
    obtain ⟨answer, s₁, new₁, hrun, hw, hn, hok⟩ := startUser_works hs ⟨user, course⟩
      (hu.known _ List.mem_cons_self) startOnEnrol
    have hw₁ : s.Works (begun course startOnEnrol ((user, earliest) :: us)) s₁ new₁ := by
      refine hw.mono ?_
      rintro k m ⟨rfl, rfl⟩
      exact ⟨rfl, _, List.mem_cons_self, rfl, rfl⟩
    cases answer with
    | error e =>
      refine ⟨_, s₁, new₁, run_bind_error hrun _, hw₁, hn, fun _ hr => ?_⟩
      obtain ⟨_, hfalse⟩ := hok hr
      cases hfalse
    | ok created =>
      obtain ⟨answer, s', new₂, hrun', hw', hn', hok'⟩ := ih hu' (hw.calm hs)
        (if created then { summary with created := summary.created + 1 }
          else { summary with skipped := summary.skipped + 1 })
      refine ⟨answer, s', new₁ ++ new₂, (run_bind_ok hrun _).trans hrun', ?_, ?_,
        fun hv hr => hok' (hw.valid hv) (hw.readable hv hr)⟩
      · refine (hw.trans hw' ?_).mono ?_
        · rintro k m m' ⟨rfl, -⟩ ⟨-, x, hx, hkey, -⟩
          exact absurd hkey (Int.ne_of_gt (hlt x hx))
        · rintro k m (⟨rfl, rfl⟩ | ⟨hc, x, hx, hkey, rfl⟩)
          · exact ⟨rfl, _, List.mem_cons_self, rfl, rfl⟩
          · exact ⟨hc, x, List.mem_cons_of_mem _ hx, hkey, rfl⟩
      · rw [completionsIn_append, hn, hn']
        rfl

end Action

end CourseCompletion
