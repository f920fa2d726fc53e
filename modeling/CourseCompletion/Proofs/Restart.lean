import CourseCompletion.Proofs.Command
import CourseCompletion.Proofs.Machine

/-!
# One process or many

Commands can be run in one session (`Session.serve`), or each in a process of its own, which opens
the file of the store and writes it back (`Program.perform`).  Nobody can tell which by what they
answer, nor by the tables at the end (`Program.restart_is_invisible`).

What carries this on is that the file `Backs` the session: the store that it opens as holds the same
entries as that of the session, and gives the same numbers.  A command that fails does not touch the
file, and leaves the store of the session alone.
-/

namespace CourseCompletion

/-- commands one after the other in one session, each at its time: what they answer, and the session
that they leave -/
def Session.serve : Session → List (Command × Instant) →
    List (Except CommandError Answer) × Session
  | s, [] => ([], s)
  | s, (c, now) :: turns =>
    let (answer, s) := c.run { s with now }
    let (answers, s) := s.serve turns
    (answer :: answers, s)

/-- the file of a path opens as a store with the entries of a session -/
def Files.Backs (fs : Files) (path : String) (s : Session) : Prop :=
  ∃ text snapshot, fs.Holds path text ∧ Snapshot.ofFileText? text = some snapshot ∧
    (Store.ofSnapshot snapshot s.table.locking).Same s.store

namespace Program

/-- how a process ends that answers so: with the answer, or with the error -/
def told : Except CommandError Answer → Option Answer × Option CommandError
  | .ok answer => (some answer, none)
  | .error e => (none, some e)

/-! ## opening and writing the file -/

section

variable {fs : Files} {path text : String}

theorem opens_of_holds {snapshot : Snapshot} (hfile : fs.Holds path text)
    (hread : Snapshot.ofFileText? text = some snapshot) : FileAccess.Opens fs path snapshot := by
  have hfound : (FileAccess.isThere path : StateM Files Bool).run fs = (true, fs) :=
    congrArg (·, fs) hfile.isThere
  exact .present hfound (Files.reads_iff.2 hfile.read) hread

theorem keep_run (hfile : fs.Holds path text) (store : Store) :
    ∃ fs', ((keep (some path) store).run : StateM Files _).run fs = (.ok (), fs') ∧
      fs'.Holds path store.snapshot.fileText := by
  obtain ⟨fs', hwrite, hholds⟩ := hfile.write store.snapshot.fileText
  exact ⟨fs', run_lift_bind_files (Files.run_write hwrite) _, hholds⟩

/-! ## one command -/

/-- the process of a command, by what the command does on the store that the file opens as -/
theorem perform_run {snapshot : Snapshot} (hfile : fs.Holds path text)
    (hread : Snapshot.ofFileText? text = some snapshot) (locking : Bool) (c : Command)
    (now : Instant) {answer : Except CommandError Answer} {s : Session}
    (hrun : c.run (.start (.ofSnapshot snapshot locking) now) = (answer, s)) :
    ∃ fs', (perform (some path) locking true c now : StateM Files _).run fs = (told answer, fs') ∧
      ((∃ e, answer = .error e ∧ fs' = fs) ∨
        ∃ a, answer = .ok a ∧ fs'.Holds path s.store.snapshot.fileText) := by
  have hstore := storeOf_run (opens_of_holds hfile hread) locking
  cases answer with
  | error e => exact ⟨fs, perform_failed hstore hrun, .inl ⟨e, rfl, rfl⟩⟩
  | ok a =>
    obtain ⟨fs', hkeep, hholds⟩ := keep_run hfile s.store
    exact ⟨fs', perform_saved hstore hrun hkeep, .inr ⟨a, rfl, hholds⟩⟩

/-- **One process does what the session does**: it answers the same, and its file backs the session
again, unless a number or version of a row has no room in a file. -/
theorem perform_backs {c : Command} (hc : c.Fits) {s : Session} (hs : s.Sound)
    (hb : fs.Backs path s) (now : Instant)
    (hn : ∀ row ∈ (c.run { s with now }).2.table.rows, row.Numbered) :
    ∃ fs', (perform (some path) s.table.locking true c now : StateM Files _).run fs =
        (told (c.run { s with now }).1, fs') ∧
      fs'.Backs path (c.run { s with now }).2 ∧ (c.run { s with now }).2.Sound ∧
      (c.run { s with now }).2.table.locking = s.table.locking := by
  obtain ⟨text, snapshot, hfile, hread, hsame⟩ := hb
  have hs' : Session.Sound { s with now } :=
    ⟨hs.calm, hs.valid, hs.readable, hs.settled, hs.sized, hs.others⟩
  obtain ⟨hsound, hlock, hfail⟩ := c.run_sound hc hs'
  let opened := Session.start (.ofSnapshot snapshot s.table.locking) now
  obtain ⟨hanswer, hafter⟩ : (c.run opened).1 = (c.run { s with now }).1 ∧
      (c.run opened).2.store.Same (c.run { s with now }).2.store := c.agrees rfl hs.calm rfl hsame
  obtain ⟨fs', hrun, hend⟩ := perform_run hfile hread s.table.locking c now (Prod.eta _).symm
  rw [hanswer] at hrun hend
  refine ⟨fs', hrun, ?_, hsound, hlock⟩
  rcases hend with ⟨e, he, rfl⟩ | ⟨a, -, hholds⟩
  · -- nothing was written, neither in the file nor in the session
    have hstore : (c.run { s with now }).2.store = s.store := hfail e he
    refine ⟨text, snapshot, hfile, hread, ?_⟩
    unfold Session.table at hsame ⊢
    rw [hstore]
    exact hsame
  · rw [hafter.snapshot] at hholds
    have hfits := hsound.fits hn
    exact ⟨_, _, hholds, bind_of_eq_some (Json.ofText?_pretty (Snapshot.fits_toJson hfits))
      (Snapshot.ofJson?_toJson hfits), Store.same_ofSnapshot hsound.valid hsound.settled⟩

/-! ## many commands -/

/-- **Processes one after the other do what the session does**, as long as the numbers and versions
of rows have room in a file. -/
theorem mapM_perform_backs {turns : List (Command × Instant)}
    (hturns : ∀ turn ∈ turns, turn.1.Fits) {s : Session} (hs : s.Sound) (hb : fs.Backs path s)
    (hn : ∀ n, ∀ row ∈ (s.serve (turns.take n)).2.table.rows, row.Numbered) :
    ∃ fs', (turns.mapM fun turn =>
        perform (some path) s.table.locking true turn.1 turn.2 : StateM Files _).run fs =
        ((s.serve turns).1.map told, fs') ∧ fs'.Backs path (s.serve turns).2 ∧
      (s.serve turns).2.table.locking = s.table.locking := by
  induction turns generalizing s fs with
  | nil => exact ⟨fs, rfl, hb, rfl⟩
  | cons turn turns ih =>
    obtain ⟨c, now⟩ := turn
    obtain ⟨fs₁, hfirst, hb₁, hs₁, hlock₁⟩ :=
      perform_backs (hturns _ List.mem_cons_self) hs hb now (hn 1)
    obtain ⟨fs', hrest, hb', hlock'⟩ :=
      ih (fun turn ht => hturns turn (List.mem_cons_of_mem _ ht)) hs₁ hb₁ fun n => hn (n + 1)
    rw [hlock₁] at hrest
    refine ⟨fs', ?_, hb', hlock'.trans hlock₁⟩
    rw [List.mapM_cons, StateT.run_bind, hfirst]
    show StateT.run (do
      let ends ← turns.mapM fun turn => perform (some path) s.table.locking true turn.1 turn.2
      return told (c.run { s with now }).1 :: ends : StateM Files _) fs₁ = _
    rw [StateT.run_bind, hrest]
    rfl

end

/-- **Nobody can tell one process from many.**  Commands that are run each in a process of its own,
which opens the file of the store and writes it back, answer what they would in one session on the
store that the file opens as at first, and leave a file with the tables of that session. -/
theorem restart_is_invisible {fs : Files} {path text : String} {snapshot : Snapshot}
    (hfile : fs.Holds path text) (hread : Snapshot.ofFileText? text = some snapshot)
    (hkeys : Keyed.Unique Row.key snapshot.completions)
    (htimes : ∀ row ∈ snapshot.completions, row.Readable) (locking : Bool) (now : Instant)
    {turns : List (Command × Instant)} (hturns : ∀ turn ∈ turns, turn.1.Fits)
    (hnumbers : ∀ n, ∀ row ∈
      ((Session.start (.ofSnapshot snapshot locking) now).serve (turns.take n)).2.table.rows,
      row.Numbered) :
    let served := (Session.start (.ofSnapshot snapshot locking) now).serve turns
    ∃ fs' text' snapshot',
      (turns.mapM fun turn => perform (some path) locking true turn.1 turn.2 : StateM Files _).run
        fs = (served.1.map told, fs') ∧
      fs'.Holds path text' ∧ Snapshot.ofFileText? text' = some snapshot' ∧
      (Store.ofSnapshot snapshot' locking).snapshot = served.2.store.snapshot := by
  have hfits : snapshot.Fits := Snapshot.fits_of_ofFileText? hread
  have hs := Session.Sound.start hfits hkeys htimes locking now
  have hb : fs.Backs path (.start (.ofSnapshot snapshot locking) now) :=
    ⟨text, snapshot, hfile, hread, .refl (Store.valid_ofSnapshot _ _)⟩
  obtain ⟨fs', hrun, ⟨text', snapshot', hfile', hread', hsame⟩, hlock⟩ :=
    mapM_perform_backs hturns hs hb hnumbers
  rw [hlock] at hsame
  exact ⟨fs', text', snapshot', hrun, hfile', hread', hsame.snapshot⟩

/-- a start in one process is completed, under its number, in the next -/
theorem start_completed_in_next_process :
    let text := "\x7b\"completions\": [[5, 4, 7, 0, 300, 0, 0, 4]]\x7d"
    let turns : List (Command × Instant) :=
      [(.start ⟨3, 7⟩ none, ⟨400, 0, by decide, by decide⟩),
        (.complete ⟨3, 7⟩ (some 250), ⟨500, 0, by decide, by decide⟩)]
    ∃ (fs' : Files) (text' : String) (snapshot' : Snapshot),
      ((turns.mapM fun turn => perform (some "db") true true turn.1 turn.2 : StateM Files _).run
        ⟨[], [], [], [(["db"], text)]⟩).1.map Prod.snd = [none, none] ∧
      fs'.Holds "db" text' ∧ Snapshot.ofFileText? text' = some snapshot' ∧
      ⟨6, 3, 7, 400, 250, 250, 0, 2⟩ ∈ (Store.ofSnapshot snapshot' true).completions.rows := by
  intro text turns
  have hread : Snapshot.ofFileText? text =
      some { Snapshot.empty with completions := [⟨5, 4, 7, 0, 300, 0, 0, 4⟩] } := by
    decide +kernel
  have hfile : Files.Holds ⟨[], [], [], [(["db"], text)]⟩ "db" text := by
    exact ⟨Files.sound_alone [] "db" text, ["db"], Files.place?_db rfl, rfl⟩
  have hturns : ∀ turn ∈ turns, turn.1.Fits := by
    intro turn ht
    rcases List.mem_cons.1 ht with rfl | ht
    · exact ⟨rfl, rfl⟩
    · obtain rfl := List.mem_singleton.1 ht
      exact ⟨rfl, rfl⟩
  obtain ⟨fs', text', snapshot', hrun, hfile', hread', hsame⟩ :=
    restart_is_invisible hfile hread (List.pairwise_singleton _ _) (by decide) true
      ⟨0, 0, by decide, by decide⟩ hturns fun n => by
        rcases n with _ | _ | n
        · decide
        · decide
        · rw [List.take_of_length_le (by simp [turns])]
          decide
  refine ⟨fs', text', snapshot', by rw [hrun]; rfl, hfile', hread', ?_⟩
  have hwritten : ⟨6, 3, 7, 400, 250, 250, 0, 2⟩ ∈
      (Store.ofSnapshot snapshot' true).snapshot.completions := by
    rw [hsame]
    exact List.mem_mergeSort.2 (by decide)
  exact List.mem_mergeSort.1 hwritten

end Program

end CourseCompletion
