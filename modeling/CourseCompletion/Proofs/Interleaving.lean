import CourseCompletion.Proofs.ExactlyOnce

/-!
# Loads and commits in any order

Clients of one store load records and commit them later, each in its own time.  A `Copy` is a record
that was loaded and is not committed yet, and a `Floor` is the register with all copies that are
out.

* `Move`           a client loads a record, loads those of a course, or commits a copy;
* `Floor.after`    the floor after some moves;
* `Newer`          a row is the same, or one of a later version took its place: what any move does;
* `Floor.Sound`    what every move keeps, while the table is locked.

As a version never comes back, a copy that can be written is still what its row holds.
-/

namespace CourseCompletion

/-! ## copies -/

/-- the commit is one that goes with a record that is stored, or is not -/
def Commit.fits (m : Commit) (stored : Bool) : Bool :=
  match m with
  | flag _ | sweep => stored
  | first .. => !stored
  | _ => true

/-- A record that was loaded for a commit, with the row that it was loaded from. -/
structure Copy where
  key : Key
  loaded : Option Row
  record : Record
  commit : Commit

namespace Copy

/-- the copy committed to the register, in a scene -/
def commitTo (c : Copy) (g : Register) (scene : Scene) : Except ServiceError Outcome × Register :=
  let (answer, s) := (c.commit.run c.record).run (g.enter scene)
  (answer, .ofSession s)

/-- the copy is of the record that its key loaded as, for a commit that goes with it -/
structure Sound (c : Copy) : Prop where
  loads : c.key.Loads c.loaded c.record
  timely : c.commit.Timely
  fits : c.commit.fits c.loaded.isSome = true

/-- the commit has nothing to write, whatever the register holds -/
def Idle (c : Copy) (scene : Scene) : Prop :=
  ∃ o, ∀ g : Register, c.commitTo g scene = (.ok o, g)

/-- the answer to a commit that is refused; the first record of a participant is passed over when
there is one -/
def Refused (c : Copy) (answer : Except ServiceError Outcome) : Prop :=
  (∃ resource, answer = .error (.conflict resource)) ∨
  (∃ what, answer = .error (.alreadyExists what)) ∨
  (∃ earliest startOnEnrol, c.commit = .first earliest startOnEnrol) ∧ answer = .ok .notApplicable

end Copy

/-! ## moves -/

structure Floor where
  register : Register
  copies : List Copy

/-- What a client can do next. -/
inductive Move where
  | load (k : Key) (m : Commit)
  | loadCourse (course : Int) (m : Commit)
  | commit (i : Nat) (scene : Scene)

/-- the times that the move carries with it lie after the epoch -/
def Move.Timely : Move → Prop
  | load _ m | loadCourse _ m => m.Timely
  | commit _ scene => scene.now.IsKnown

namespace Floor

/-- a floor on a locked store that a snapshot fills, with no copies out -/
def start (snapshot : Snapshot) : Floor := ⟨.start snapshot true, []⟩

/-- the copies of records that are loaded for a commit, as far as it goes with them -/
def copiesOf (t : CompletionTable) (m : Commit) (rs : List Record) : List Copy :=
  (rs.filter fun r => m.fits r.isStored).map fun r => ⟨r.key, t.row? r.key, r, m⟩

/-- the floor after a move; an unreadable row gives no copy -/
def step (f : Floor) : Move → Floor
  | .load k m =>
    match f.register.table.load k with
    | .ok r => { f with copies := f.copies ++ copiesOf f.register.table m [r] }
    | .error _ => f
  | .loadCourse course m =>
    match f.register.table.findByCourse course with
    | .ok rs => { f with copies := f.copies ++ copiesOf f.register.table m rs }
    | .error _ => f
  | .commit i scene =>
    match f.copies[i]? with
    | some c => ⟨(c.commitTo f.register scene).2, f.copies.eraseIdx i⟩
    | none => f

def after (f : Floor) (moves : List Move) : Floor := moves.foldl step f

theorem after_cons (f : Floor) (m : Move) (moves : List Move) :
    f.after (m :: moves) = (f.step m).after moves := rfl

theorem after_append (f : Floor) (moves moves' : List Move) :
    f.after (moves ++ moves') = (f.after moves).after moves' := List.foldl_append

end Floor

/-! ## versions -/

/-- what is under a key is the same, or a row of a later version -/
def Newer (o o' : Option Row) : Prop :=
  o' = o ∨ ∃ row', o' = some row' ∧ ∀ row ∈ o, row.version < row'.version

namespace Newer

variable {o o₁ o' : Option Row}

theorem refl (o : Option Row) : Newer o o := .inl rfl

theorem trans (h : Newer o o₁) (h' : Newer o₁ o') : Newer o o' := by
  rcases h' with rfl | ⟨row', rfl, hlt'⟩
  · exact h
  rcases h with rfl | ⟨row₁, rfl, hlt⟩
  · exact .inr ⟨row', rfl, hlt'⟩
  · exact .inr ⟨row', rfl, fun row hrow => Nat.lt_trans (hlt row hrow) (hlt' row₁ rfl)⟩

/-- What changed never comes back. -/
theorem antisymm (h : Newer o o₁) (h' : Newer o₁ o) : o₁ = o := by
  rcases h with rfl | ⟨row₁, rfl, hlt⟩
  · rfl
  rcases h' with rfl | ⟨row, rfl, hlt'⟩
  · rfl
  · exact absurd (Nat.lt_trans (hlt row rfl) (hlt' row₁ rfl)) (Nat.lt_irrefl _)

end Newer

theorem Commit.Effect.newer {m : Commit} {now : Instant} {k : Key} {o o' : Option Row}
    {cs : List Completion} (h : m.Effect now k o o' cs) : Newer o o' := by
  cases h with
  | left => exact .refl o
  | @wrote r w c id loads progress flag enrolled number =>
    refine .inr ⟨_, rfl, fun row hrow => ?_⟩
    obtain rfl : o = some row := hrow
    exact Nat.lt_succ_self row.version

theorem Register.Step.newer {g g' : Register} {now : Instant} {allowed : Key → Commit → Prop}
    {new : List Event} (h : g.Step now allowed g' new) (k : Key) :
    Newer (g.table.row? k) (g'.table.row? k) := by
  rcases h.effect k with ⟨hrow, -⟩ | ⟨m, -, he⟩
  · exact .inl hrow
  · exact he.newer

/-! ## one commit -/

/-- what a commit decides does not depend on the table of completions -/
theorem Commit.plan_enter (m : Commit) (r : Record) (g g' : Register) (scene : Scene) :
    m.plan r (g.enter scene) = m.plan r (g'.enter scene) := by
  cases m <;> rfl

namespace Copy

variable {c : Copy} {g : Register} {scene : Scene}

theorem commitTo_eq {answer : Except ServiceError Outcome} {s' : Session}
    (h : (c.commit.run c.record).run (g.enter scene) = (answer, s')) :
    c.commitTo g scene = (answer, .ofSession s') := by
  unfold commitTo
  rw [h]

/-- a copy for a first record is a new record -/
theorem Sound.eq_new (hc : c.Sound) {earliest : Option Instant} {startOnEnrol : Bool}
    (h : c.commit = .first earliest startOnEnrol) : c.record = .new c.record.key := by
  have hnone : c.loaded = none := by
    have hfits := hc.fits
    rw [h] at hfits
    simpa [Commit.fits] using hfits
  have hl := hc.loads
  rw [hnone] at hl
  rw [hc.loads.key]
  exact hl

/-- A commit with nothing to write is idle in any other register, too. -/
theorem idle_of_plan {o : Outcome} (h : c.commit.plan c.record (g.enter scene) = .leave o) :
    c.Idle scene := by
  refine ⟨o, fun g' => ?_⟩
  obtain ⟨memory, hrun⟩ := c.commit.run_eq (s := g'.enter scene) rfl c.record
  rw [Commit.plan_enter _ _ g' g, h] at hrun
  exact commitTo_eq hrun

/-- The refusal of a copy that is out of date is a conflict, or there is a row already. -/
theorem refused_of_save {w : Record} {e : SourceError} (hc : c.Sound)
    (hnewer : Newer c.loaded (g.table.row? c.key)) (hkey : w.key = c.key)
    (hstored : w.isStored = c.record.isStored)
    (hw : (c.commit.plan c.record (g.enter scene)).written? = some w)
    (he : g.table.save w = .error e) :
    c.Refused ((c.commit.plan c.record (g.enter scene)).refused e) := by
  cases hp : c.commit.plan c.record (g.enter scene) with
  | leave o =>
    rw [hp] at hw
    cases hw
  | first w' => exact .inr (.inr ⟨Commit.eq_first_of_plan hp, rfl⟩)
  | store w' | finish w' _ =>
    rcases CompletionTable.refusal_of_save he with
      ⟨-, -, entity, key, rfl⟩ | ⟨hst, hnone, -⟩ | ⟨-, row, -, -, -, resource, rfl⟩
    · exact .inr (.inl ⟨_, rfl⟩)
    · -- a row that was loaded is never removed
      exfalso
      rw [hstored, hc.loads.isStored] at hst
      rw [hkey] at hnone
      rcases hnewer with h | ⟨row', h, -⟩
      · rw [← h, hnone] at hst
        cases hst
      · rw [hnone] at h
        cases h
    · exact .inl ⟨resource, rfl⟩

/-- **A commit has nothing to write, is refused because its row changed, or writes over the very row
that it was loaded from.** -/
theorem Sound.commit_cases (hc : c.Sound) (hv : g.table.Valid) (hlock : g.table.locking = true)
    (hnewer : Newer c.loaded (g.table.row? c.key)) (hnow : scene.now.IsKnown) :
    c.Idle scene ∨
    (g.table.row? c.key ≠ c.loaded ∧
      ∃ answer, c.commitTo g scene = (answer, g) ∧ c.Refused answer) ∨
    (g.table.row? c.key = c.loaded ∧ ∃ o g' new row', c.commitTo g scene = (.ok o, g') ∧
      g.Step scene.now (fun k m => k = c.key ∧ m = c.commit) g' new ∧
      (∀ k, g'.table.row? k = if k = c.key then some row' else g.table.row? k) ∧
      row'.version = (c.loaded.map Row.version).getD 0 + 1) := by
  have hplan := Commit.continues (fun _ => hc.timely) (s := g.enter scene) (fun hnow => hnow)
    c.record fun _ _ h => hc.eq_new h
  rcases Commit.run_cases (s := g.enter scene) rfl c.commit c.record with
    ⟨o, memory, hp, -⟩ | ⟨w, e, memory, hw, he, hrun⟩ | ⟨w, saved, t, memory, hw, hsave, hrun⟩
  · exact .inl (idle_of_plan hp)
  · have hp := hplan.progress w hw
    have hkey : w.key = c.key := hp.key.trans hc.loads.key
    refine .inr (.inl ⟨fun hsame => ?_, _, commitTo_eq hrun,
      refused_of_save hc hnewer hkey hp.isStored hw he⟩)
    have hl : c.key.Loads (g.table.row? c.key) c.record := by rw [hsame]; exact hc.loads
    obtain ⟨saved, t, hsave⟩ := hl.exists_save hkey hp.isStored hp.version
    exact absurd (he.symm.trans hsave) (by simp)
  · have hp := hplan.progress w hw
    have hkey : w.key = c.key := hp.key.trans hc.loads.key
    have hs := CompletionTable.saved_of_save hsave
    have hover : w.isStored = (g.table.row? w.key).isSome := hs.overwrites
    have hsame : g.table.row? c.key = c.loaded := by
      rcases hnewer with h | ⟨row', h, hlt⟩
      · exact h
      · -- the version of the row would be that of the copy, or the copy would be new
        rw [hkey, h, hp.isStored, hc.loads.isStored] at hover
        obtain ⟨row, hrow⟩ := Option.isSome_iff_exists.1 hover
        have hversion : row'.version = w.version := hs.version row' (hkey.symm ▸ h) hlock
        have hl := hc.loads
        rw [hrow] at hl
        have hread : c.record.version = row.version := hl.2.version
        exact absurd (hlt row hrow) (by rw [hversion, hp.version, hread]; exact Nat.lt_irrefl _)
    have hl : c.key.Loads (g.table.row? c.key) c.record := by rw [hsame]; exact hc.loads
    have hworks := Session.works_of_saved (s := g.enter scene) (m := c.commit) memory hl hp
      (hplan.reaggregate w hw) (hplan.enrolled w hw) hsave
    obtain ⟨id, hsaved⟩ := hs.saved_eq
    refine .inr (.inr ⟨hsame, _, _, _, CompletionTable.rowOf saved, commitTo_eq hrun,
      .of_works hv hnow hworks, fun k => ?_, ?_⟩)
    · rw [Session.announcing_eq, ← hkey]
      exact hs.row? k
    · rw [hsaved, CompletionTable.rowOf_storedAs, ← hsame, ← hkey]
      rfl

end Copy

/-! ## any number of moves -/

namespace Floor

/-- what every move keeps: a copy is as it was loaded, and its row is that one or of a later
version -/
structure Sound (g₀ : Register) (f : Floor) : Prop where
  valid : f.register.table.Valid
  locking : f.register.table.locking = true
  told : g₀.Told f.register
  copies : ∀ c ∈ f.copies, c.Sound ∧ Newer c.loaded (f.register.table.row? c.key)

theorem sound_start (snapshot : Snapshot) :
    (start snapshot).Sound (.start snapshot true) where
  valid := Register.valid_start snapshot true
  locking := rfl
  told := Register.told_self rfl
  copies _ hc := by cases hc

theorem sound_of_mem_copiesOf {t : CompletionTable} {m : Commit} (hm : m.Timely) {rs : List Record}
    (hl : ∀ r ∈ rs, r.key.Loads (t.row? r.key) r) {c : Copy} (hc : c ∈ copiesOf t m rs) :
    c.Sound ∧ Newer c.loaded (t.row? c.key) := by
  obtain ⟨r, hr, rfl⟩ := List.mem_map.1 hc
  obtain ⟨hmem, hfits⟩ := List.mem_filter.1 hr
  have hload := hl r hmem
  refine ⟨⟨hload, hm, ?_⟩, .refl _⟩
  rw [← hload.isStored]
  exact hfits

namespace Sound

variable {g₀ : Register} {f : Floor}

theorem load (h : f.Sound g₀) {m : Commit} (hm : m.Timely) {rs : List Record}
    (hl : ∀ r ∈ rs, r.key.Loads (f.register.table.row? r.key) r) :
    Sound g₀ { f with copies := f.copies ++ copiesOf f.register.table m rs } where
  valid := h.valid
  locking := h.locking
  told := h.told
  copies c hc := by
    rcases List.mem_append.1 hc with hc | hc
    · exact h.copies c hc
    · exact sound_of_mem_copiesOf hm hl hc

theorem commit (h : f.Sound g₀) {c : Copy} (hc : c ∈ f.copies) {scene : Scene}
    (hnow : scene.now.IsKnown) {copies : List Copy} (hsub : ∀ x ∈ copies, x ∈ f.copies) :
    Sound g₀ ⟨(c.commitTo f.register scene).2, copies⟩ ∧
      ∀ k, Newer (f.register.table.row? k) ((c.commitTo f.register scene).2.table.row? k) := by
  have same : Sound g₀ ⟨f.register, copies⟩ :=
    ⟨h.valid, h.locking, h.told, fun x hx => h.copies x (hsub x hx)⟩
  obtain ⟨hsound, hnewer⟩ := h.copies c hc
  rcases hsound.commit_cases h.valid h.locking hnewer hnow with
    ⟨o, hidle⟩ | ⟨-, answer, hrun, -⟩ | ⟨-, o, g', new, row', hrun, hs, -⟩
  · rw [hidle f.register]
    exact ⟨same, fun k => .refl _⟩
  · rw [hrun]
    exact ⟨same, fun k => .refl _⟩
  · rw [hrun]
    refine ⟨⟨hs.valid, hs.locking.trans h.locking, h.told.step hs, fun x hx => ?_⟩, hs.newer⟩
    obtain ⟨hx₁, hx₂⟩ := h.copies x (hsub x hx)
    exact ⟨hx₁, hx₂.trans (hs.newer x.key)⟩

/-- Every move keeps the floor sound, and gives every row a later version or none. -/
theorem step (h : f.Sound g₀) {m : Move} (hm : m.Timely) :
    (f.step m).Sound g₀ ∧
      ∀ k, Newer (f.register.table.row? k) ((f.step m).register.table.row? k) := by
  cases m with
  | load k m =>
    simp only [Floor.step]
    cases hl : f.register.table.load k with
    | error e => exact ⟨h, fun k => .refl _⟩
    | ok r =>
      refine ⟨h.load hm fun x hx => ?_, fun k => .refl _⟩
      obtain rfl := List.mem_singleton.1 hx
      have hload := CompletionTable.load_eq_ok_iff.1 hl
      rw [hload.key]
      exact hload
  | loadCourse course m =>
    simp only [Floor.step]
    cases hl : f.register.table.findByCourse course with
    | error e => exact ⟨h, fun k => .refl _⟩
    | ok rs =>
      exact ⟨h.load hm (Fresh.of_findByCourse h.valid hl).loads, fun k => .refl _⟩
  | commit i scene =>
    simp only [Floor.step]
    cases hi : f.copies[i]? with
    | none => exact ⟨h, fun k => .refl _⟩
    | some c =>
      exact h.commit (List.mem_of_getElem? hi) hm fun x hx => List.mem_of_mem_eraseIdx hx

theorem after (h : f.Sound g₀) {moves : List Move} (hm : ∀ m ∈ moves, m.Timely) :
    (f.after moves).Sound g₀ ∧
      ∀ k, Newer (f.register.table.row? k) ((f.after moves).register.table.row? k) := by
  induction moves generalizing f with
  | nil => exact ⟨h, fun k => .refl _⟩
  | cons m moves ih =>
    obtain ⟨hs, hn⟩ := h.step (hm m List.mem_cons_self)
    obtain ⟨hs', hn'⟩ := ih hs fun x hx => hm x (List.mem_cons_of_mem _ hx)
    rw [after_cons]
    exact ⟨hs', fun k => (hn k).trans (hn' k)⟩

end Sound

end Floor

/-- **No update is lost.**  Whatever moves clients make on a locked table, each in its own scene,
for every copy that is out then:

* a commit of it that changes the table writes over the very row that the copy was loaded from,
  which has been there ever since the copy was out, or writes a row where there is none; the version
  goes up by one, and no other row changes;
* if the row changed since, the commit leaves the register as it is, and is refused unless it has
  nothing to write;

and one completion was published for every key whose row became complete, and none for any other. -/
theorem no_update_is_lost (snapshot : Snapshot) (moves : List Move) (hm : ∀ m ∈ moves, m.Timely) :
    let start := Floor.start snapshot
    let g := (start.after moves).register
    (∀ c ∈ (start.after moves).copies, ∀ scene : Scene, scene.now.IsKnown →
      let (answer, g') := c.commitTo g scene
      (g'.table ≠ g.table →
        (∃ o, answer = .ok o) ∧ g.table.row? c.key = c.loaded ∧
        (∀ before between, moves = before ++ between → c ∈ (start.after before).copies →
          (start.after before).register.table.row? c.key = c.loaded) ∧
        ∃ row', row'.version = (c.loaded.map Row.version).getD 0 + 1 ∧
          ∀ k, g'.table.row? k = if k = c.key then some row' else g.table.row? k) ∧
      (g.table.row? c.key ≠ c.loaded → g' = g ∧ (c.Refused answer ∨ c.Idle scene))) ∧
    ∀ k, (completionsOf k g.published).length = start.register.table.earned g.table k := by
  intro start g
  have hsound := (Floor.sound_start snapshot).after hm
  refine ⟨fun c hc scene hnow => ?_, fun k => CompletionTable.eq_earned (hsound.1.told.count k)⟩
  obtain ⟨hcopy, hnewer⟩ := hsound.1.copies c hc
  rcases hcopy.commit_cases hsound.1.valid hsound.1.locking hnewer hnow with
    hidle | ⟨hne, answer, hrun, hrefused⟩ | ⟨hsame, o, g', new, row', hrun, -, hrow, hversion⟩
  · obtain ⟨o, hrun⟩ := hidle
    rw [hrun]
    exact ⟨fun hchange => absurd rfl hchange, fun _ => ⟨rfl, .inr ⟨o, hrun⟩⟩⟩
  · rw [hrun]
    exact ⟨fun hchange => absurd rfl hchange, fun _ => ⟨rfl, .inl hrefused⟩⟩
  · rw [hrun]
    refine ⟨fun _ => ⟨⟨o, rfl⟩, hsame, ?_, row', hversion, hrow⟩, fun hne => absurd hsame hne⟩
    intro before between hmoves hheld
    have hbefore : ∀ m ∈ before, m.Timely := fun m hx =>
      hm m (by rw [hmoves]; exact List.mem_append_left _ hx)
    have hbetween : ∀ m ∈ between, m.Timely := fun m hx =>
      hm m (by rw [hmoves]; exact List.mem_append_right _ hx)
    have hheld' := ((Floor.sound_start snapshot).after hbefore).1
    have hlater := (hheld'.after hbetween).2 c.key
    rw [← Floor.after_append, ← hmoves] at hlater
    have hback : Newer _ c.loaded := hsame ▸ hlater
    exact (hheld'.copies c hheld).2.antisymm hback

/-- two clients load the same record and complete it: the second is refused, and one completion is
published -/
theorem second_of_two_clients_is_refused :
    let k : Key := ⟨3, 7⟩
    let scene : Scene := ⟨.empty true, ⟨100, 0, by decide, by decide⟩, []⟩
    let moves : List Move := [.load k (.complete none), .load k (.complete none), .commit 0 scene]
    let c : Copy := ⟨k, none, .new k, .complete none⟩
    let g := ((Floor.start .empty).after moves).register
    (c.commitTo g scene).2 = g ∧ (c.Refused (c.commitTo g scene).1 ∨ c.Idle scene) ∧
      (completionsOf k g.published).length = 1 := by
  intro k scene moves c g
  have htimely : ∀ m ∈ moves, m.Timely := by
    intro m hm
    rcases List.mem_cons.1 hm with rfl | hm
    · trivial
    rcases List.mem_cons.1 hm with rfl | hm
    · trivial
    obtain rfl := List.mem_singleton.1 hm
    show scene.now.IsKnown
    decide
  have hheld : c ∈ ((Floor.start .empty).after moves).copies := List.mem_cons_self
  obtain ⟨hcopies, hcount⟩ := no_update_is_lost .empty moves htimely
  obtain ⟨hstill, hrefused⟩ := (hcopies c hheld scene (by decide)).2 (by decide)
  exact ⟨hstill, hrefused, (hcount k).trans (by decide)⟩

end CourseCompletion
