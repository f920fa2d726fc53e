import CourseCompletion.Proofs.Command
import CourseCompletion.Proofs.Machine
import CourseCompletion.Proofs.Normal

/-!
# When the file of the store is written

A run writes the file of the store once, at its end, and only if it was told to and nothing failed
(`Program.file_written_only_on_success`).  Then the file holds a text that reads as the tables that
the command left, whatever the file held before: the numbers of a file have room in 64 bits, and so
has what a command makes of them (`Command.fits_run`).  A query leaves the tables as they were
opened, so that all that saving does is bring them into their normal form.

The machine may be any that is not changed by asking about its files.
-/

namespace CourseCompletion

/-! ## what a command leaves -/

namespace Command

/-- The command only asks. -/
def IsQuery : Command → Prop
  | report .. | showRecord _ => True
  | _ => False

variable {c : Command} {s : Session}

/-- A query leaves the store as it was. -/
theorem run_query (hc : c.IsQuery) (hs : s.Calm) : (c.run s).2.store = s.store := by
  have hs' : (s.withMemory []).Calm := hs
  cases c with
  | report user course =>
    obtain ⟨answer, memory, hrun⟩ := Action.still_report hs' user course
    have hmap : (Answer.report <$> Action.report user course).run (s.withMemory []) =
        (answer.map Answer.report, (s.withMemory []).withMemory memory) := by
      rw [Action.run_map, hrun]
    rw [run_of_action rfl hmap]
    rfl
  | showRecord k =>
    obtain ⟨answer, hrun⟩ := storedRecord_run hs' k
    rw [run_of_action rfl hrun]
    rfl
  | enrol => exact hc.elim
  | start => exact hc.elim
  | complete => exact hc.elim
  | aggregate => exact hc.elim
  | bulkStart => exact hc.elim
  | reaggregate => exact hc.elim

/-- **What a command leaves of a file can be written**, as far as the numbers and versions of rows
have room. -/
theorem fits_run (hc : c.Fits) {snapshot : Snapshot} (h : snapshot.Fits) (locking : Bool)
    (now : Instant)
    (hn : ∀ row ∈ (c.run (.start (.ofSnapshot snapshot locking) now)).2.table.rows, row.Numbered) :
    (c.run (.start (.ofSnapshot snapshot locking) now)).2.store.snapshot.Fits := by
  have hv : (Session.start (.ofSnapshot snapshot locking) now).table.Valid :=
    (Store.valid_ofSnapshot snapshot locking).completions
  have hk := run_keeps (s := .start (.ofSnapshot snapshot locking) now) hc rfl hv h.windows
  have hsized := hk.sized hv fun row hrow => (h.rows locking row hrow).sized
  refine Store.fits_snapshot (fun row hrow => ⟨hsized row hrow, hn row hrow⟩) ?_
  rw [hk.clearCompletions]
  exact h.others locking

/-- **A file that is written after a command reads as what the command left**, and after a query as
the normal form of what was opened, whose rows had numbers with room in a file. -/
theorem file_run (hc : c.Fits) {snapshot : Snapshot} (h : snapshot.Fits) (locking : Bool)
    (now : Instant) :
    let ran := c.run (.start (.ofSnapshot snapshot locking) now)
    ((∀ row ∈ ran.2.table.rows, row.Numbered) →
      Snapshot.ofFileText? ran.2.store.snapshot.fileText = some ran.2.store.snapshot) ∧
    (c.IsQuery →
      Snapshot.ofFileText? ran.2.store.snapshot.fileText = some (snapshot.normal locking)) := by
  intro ran
  have hback : ∀ s : Snapshot, s.Fits → Snapshot.ofFileText? s.fileText = some s :=
    fun s hs => bind_of_eq_some (Json.ofText?_pretty (Snapshot.fits_toJson hs))
      (Snapshot.ofJson?_toJson hs)
  refine ⟨fun hn => hback _ (fits_run hc h locking now hn), fun hquery => ?_⟩
  have hstore : ran.2.store = .ofSnapshot snapshot locking := run_query hquery rfl
  rw [hstore]
  exact hback _ (Store.fits_snapshot (h.rows locking) (h.others locking))

end Command

theorem FileAccess.Opens.fits {σ : Type} [FileAccess (StateM σ)] {fs : σ} {path : String}
    {snapshot : Snapshot} (h : FileAccess.Opens fs path snapshot) : snapshot.Fits := by
  cases h with
  | absent => constructor <;> exact fun x hx => by cases hx
  | present _ _ hread => exact Snapshot.fits_of_ofFileText? hread

namespace Program

variable {σ : Type} [FileAccess (StateM σ)]

/-- the configuration that a run of an invocation goes by -/
def configurationOf (i : Invocation) (around : Surroundings) (fs : σ) :
    Except ConfigurationError Configuration :=
  ((configuration i.config around : ExceptT ConfigurationError (StateM σ) _).run.run fs).1

/-- the configuration of a run is the one of its file and the variables, checked -/
theorem configurationOf_eq (hq : FileAccess.Quiet σ) (i : Invocation) (around : Surroundings)
    (fs : σ) : configurationOf i around fs = (do
      let c ← (((configurationAt (i.config.getD (configurationPath around)) i.config.isSome
        "COURSETRACK" around.bindings : ExceptT ConfigurationError (StateM σ) Configuration).run :
        StateM σ _).run fs).1
      c.check
      return c) := by
  have hat := (asks_configurationAt hq (i.config.getD (configurationPath around)) i.config.isSome
    "COURSETRACK" around.bindings).run_eq fs
  unfold configurationOf configuration
  rw [ExceptT.run_bind, run_bind_files hat]
  cases (((configurationAt (i.config.getD (configurationPath around)) i.config.isSome
    "COURSETRACK" around.bindings : ExceptT ConfigurationError (StateM σ) Configuration).run :
    StateM σ _).run fs).1 with
  | error e => rfl
  | ok c =>
    have hchecked : ∀ checked : Except ConfigurationError Unit, ((((do
        checked
        return c) : ExceptT ConfigurationError (StateM σ) Configuration).run :
        StateM σ _).run fs).1 = (do
          checked
          return c) := by
      intro checked
      cases checked <;> rfl
    exact hchecked c.check

/-- the file of the store that an invocation is about -/
def storePath? (i : Invocation) (around : Surroundings) (fs : σ) : Option String :=
  (configurationOf i around fs).toOption.bind fun c => i.data <|> c.dataFile

/-! ## one command -/

section

variable {path : Option String} {locking : Bool} (save : Bool) {c : Command} {now : Instant}
  {fs : σ} (haccepts : ∀ p ∈ path, FileAccess.Accepts fs p)

include haccepts

/-- A command that answers ends its run without an error, and what it left is in the file of the
store, if it was to be saved and there is a file. -/
theorem perform_answers {store : Store} {answer : Answer} {s : Session}
    (hstore : ((storeOf path locking).run : StateM σ _).run fs = (.ok store, fs))
    (hrun : c.run (.start store now) = (.ok answer, s)) :
    ∃ fs', (perform path locking save c now : StateM σ _).run fs = ((some answer, none), fs') ∧
      (save = false ∨ path = none → fs' = fs) ∧
      (save = true → ∀ p ∈ path, FileAccess.Reads fs' p s.store.snapshot.fileText) := by
  cases save with
  | false => exact ⟨fs, perform_unsaved hstore hrun, fun _ => rfl, fun h => by cases h⟩
  | true =>
    cases path with
    | none => exact ⟨fs, perform_saved hstore hrun rfl, fun _ => rfl, fun _ p hp => by cases hp⟩
    | some p =>
      obtain ⟨fs', hkeep, hreads⟩ := keep_accepted (haccepts p rfl) s.store
      refine ⟨fs', perform_saved hstore hrun hkeep, fun h => ?_, fun _ q hq => ?_⟩
      · rcases h with h | h <;> cases h
      · obtain rfl := Option.some.inj hq
        exact hreads

/-- One command ends with an error and nothing written, or else it answered. -/
theorem perform_cases (hq : FileAccess.Quiet σ) :
    (∃ e, (perform path locking save c now : StateM σ _).run fs = ((none, some e), fs)) ∨
      ∃ store answer s, ((storeOf path locking).run : StateM σ _).run fs = (.ok store, fs) ∧
        c.run (.start store now) = (.ok answer, s) ∧
        ∃ fs', (perform path locking save c now : StateM σ _).run fs = ((some answer, none), fs') ∧
          (save = false ∨ path = none → fs' = fs) ∧
          (save = true → ∀ p ∈ path, FileAccess.Reads fs' p s.store.snapshot.fileText) := by
  have hstore := (asks_storeOf hq path locking).run_eq fs
  cases hopened : (((storeOf path locking).run : StateM σ _).run fs).1 with
  | error e =>
    rw [hopened] at hstore
    exact .inl ⟨e, perform_refused hstore⟩
  | ok store =>
    rw [hopened] at hstore
    rcases hrun : c.run (.start store now) with ⟨answer, s⟩
    cases answer with
    | error e => exact .inl ⟨e, perform_failed hstore hrun⟩
    | ok answer =>
      exact .inr ⟨store, answer, s, hstore, hrun, perform_answers save haccepts hstore hrun⟩

end

/-! ## a run -/

section

variable {i : Invocation} {around : Surroundings} {fs : σ}

theorem execute_refused (hq : FileAccess.Quiet σ) {e : ConfigurationError}
    (h : configurationOf i around fs = .error e) :
    (execute i around : StateM σ _).run fs = ((none, some (.ofConfiguration e)), fs) := by
  have hrun := (asks_configuration hq i.config around).run_eq fs
  unfold configurationOf at h
  rw [h] at hrun
  exact (run_bind_files hrun _).trans rfl

theorem execute_configured (hq : FileAccess.Quiet σ) {c : Configuration}
    (h : configurationOf i around fs = .ok c) :
    (execute i around : StateM σ _).run fs =
      (perform (i.data <|> c.dataFile) c.optimisticLocking i.save i.command around.now :
        StateM σ _).run fs := by
  have hrun := (asks_configuration hq i.config around).run_eq fs
  unfold configurationOf at h
  rw [h] at hrun
  exact run_bind_files hrun _

theorem storePath?_of_ok {c : Configuration} (h : configurationOf i around fs = .ok c) :
    storePath? i around fs = (i.data <|> c.dataFile) := by
  unfold storePath?
  rw [h]
  rfl

end

/-- A run that finds no file of a configuration goes by the variables. -/
theorem configurationOf_absent {i : Invocation} {around : Surroundings} {fs : Files}
    (hchosen : i.config = none) (h : ∀ path, fs.isFile path = false) :
    configurationOf i around fs = (do
      let c ← Configuration.load none "COURSETRACK" around.bindings
      c.check
      return c) := by
  rw [configurationOf_eq Files.quiet, configurationAt_run Files.quiet, configurationText_none h,
    hchosen]
  rfl

/-- A run that finds no file of a configuration, and no variables, goes by the defaults. -/
theorem configurationOf_default {i : Invocation} {around : Surroundings} {fs : Files}
    (hchosen : i.config = none) (hbindings : around.bindings = [])
    (h : ∀ path, fs.isFile path = false) : configurationOf i around fs = .ok .default := by
  rw [configurationOf_absent hchosen h, hbindings]
  rfl

/-- **The file of the store is written only on success**, and only if the run was told to.  As long
as the file can be written:

* a run that ends with an error, or was not told to save, or has no file for its store, leaves the
  machine as it was, whatever its command did to its session before;
* a run that ends without one, was told to save and has a file leaves a text there that reads as the
  tables that the command left, as far as the numbers of rows have room in a file, and after a query
  as the normal form of those that were opened;
* a run whose configuration is read, whose file opens and whose command answers ends without an
  error. -/
theorem file_written_only_on_success (hq : FileAccess.Quiet σ) {i : Invocation}
    (hi : i.command.Fits) (around : Surroundings) {fs : σ}
    (haccepts : ∀ path ∈ storePath? i around fs, FileAccess.Accepts fs path) :
    let out := (execute i around : StateM σ _).run fs
    (out.1.2.isSome ∨ i.save = false ∨ storePath? i around fs = none → out.2 = fs) ∧
    (out.1.2 = none → i.save = true → ∀ path ∈ storePath? i around fs, ∃ c opened answer text,
      configurationOf i around fs = .ok c ∧ FileAccess.Opens fs path opened ∧
      let ran := i.command.run (.start (.ofSnapshot opened c.optimisticLocking) around.now)
      ran.1 = .ok answer ∧ out.1 = (some answer, none) ∧ FileAccess.Reads out.2 path text ∧
      ((∀ row ∈ ran.2.table.rows, row.Numbered) →
        Snapshot.ofFileText? text = some ran.2.store.snapshot) ∧
      (i.command.IsQuery →
        Snapshot.ofFileText? text = some (opened.normal c.optimisticLocking))) ∧
    ∀ path ∈ storePath? i around fs, ∀ c opened answer, configurationOf i around fs = .ok c →
      FileAccess.Opens fs path opened →
      (i.command.run (.start (.ofSnapshot opened c.optimisticLocking) around.now)).1 = .ok answer →
      out.1 = (some answer, none) := by
  intro out
  cases hc : configurationOf i around fs with
  | error e =>
    have hout : out = ((none, some (.ofConfiguration e)), fs) := execute_refused hq hc
    rw [hout]
    refine ⟨fun _ => rfl, ?_, ?_⟩
    · intro h
      cases h
    · intro _ _ _ _ _ h
      cases h
  | ok c =>
    have hout : out = (perform (i.data <|> c.dataFile) c.optimisticLocking i.save i.command
        around.now : StateM σ _).run fs := execute_configured hq hc
    rw [storePath?_of_ok hc] at haccepts ⊢
    rw [hout]
    refine ⟨fun h => ?_, fun hok hsave path hpath => ?_, ?_⟩
    · rcases perform_cases i.save haccepts hq with
        ⟨e, hend⟩ | ⟨_, answer, _, -, -, fs', hend, hkept, -⟩
      · rw [hend]
      · rw [hend] at h ⊢
        exact hkept (h.resolve_left Bool.false_ne_true)
    · rcases perform_cases i.save haccepts hq with
        ⟨e, hend⟩ | ⟨store, answer, s, hstore, hrun, fs', hend, -, hreads⟩
      · rw [hend] at hok
        cases hok
      · rw [hpath] at hstore
        obtain ⟨opened, hopens, rfl⟩ := opens_of_storeOf hq hstore
        have hfile := Command.file_run hi hopens.fits c.optimisticLocking around.now
        rw [hrun] at hfile
        rw [hend]
        refine ⟨c, opened, answer, s.store.snapshot.fileText, rfl, hopens, ?_⟩
        rw [hrun]
        exact ⟨rfl, rfl, hreads hsave path hpath, hfile⟩
    · intro path hpath c' opened answer hc' hopens hanswer
      obtain rfl := Except.ok.inj hc'
      have hstore := storeOf_run hopens c.optimisticLocking
      rw [← hpath] at hstore
      obtain ⟨fs', hend, -⟩ := perform_answers i.save haccepts hstore (Prod.ext hanswer rfl)
      rw [hend]

/-- a start makes the file that is not there; a query that finds nothing does not -/
theorem absent_file_written_by_start :
    let fs : Files := ⟨[], [], [], []⟩
    let around : Surroundings := ⟨[], none, false, ⟨400, 0, by decide, by decide⟩⟩
    let ends (c : Command) :=
      (execute ⟨c, some "db", none, true, false, false⟩ around : StateM Files _).run fs
    (ends (.showRecord ⟨3, 7⟩)).2 = fs ∧
    ∃ text snapshot, FileAccess.Reads (ends (.start ⟨3, 7⟩ none)).2 "db" text ∧
      Snapshot.ofFileText? text = some snapshot ∧
      snapshot.completions = [⟨1, 3, 7, 400, 400, 0, 0, 1⟩] := by
  intro fs around ends
  let i (c : Command) : Invocation := ⟨c, some "db", none, true, false, false⟩
  have hplace : fs.place? "db" = some ["db"] := Files.place?_db rfl
  have hthere : (FileAccess.isThere "db" : StateM Files Bool).run fs = (false, fs) := by
    show (fs.isThere "db", fs) = _
    unfold Files.isThere
    rw [hplace]
    rfl
  have haccepts : FileAccess.Accepts fs "db" := by
    have hwrite : fs.write "db" "" = .ok (fs.rewritten ["db"] "") := by
      refine Files.write_eq_ok_iff.2 ⟨fs, ["db"], ?_, hplace, rfl, rfl⟩
      rw [Files.parts_db]
      rfl
    exact Files.accepts hwrite fun _ _ => rfl
  have hstore := storeOf_run (FileAccess.Opens.absent hthere) true
  have hconfiguration : ∀ c, configurationOf (i c) around fs = .ok .default := by
    intro c
    refine configurationOf_default rfl rfl fun path => ?_
    unfold Files.isFile
    exact (Option.any_eq_false _ _).2 fun _ _ => rfl
  have hwritable : ∀ c, ∀ path ∈ storePath? (i c) around fs, FileAccess.Accepts fs path := by
    intro c path hp
    rw [storePath?_of_ok (hconfiguration c)] at hp
    obtain rfl := Option.some.inj hp
    exact haccepts
  let start := Session.start (.ofSnapshot .empty true) around.now
  constructor
  · have hfits : (Command.showRecord ⟨3, 7⟩).Fits := ⟨rfl, rfl⟩
    obtain ⟨hkept, -⟩ := file_written_only_on_success Files.quiet (i := i (.showRecord ⟨3, 7⟩))
      hfits around (hwritable _)
    have hrun : (Command.showRecord ⟨3, 7⟩).run start =
        (.error (.service (.recordNotFound (Key.text ⟨3, 7⟩))), start) := rfl
    have hout : (perform (some "db") true true (.showRecord ⟨3, 7⟩) around.now :
        StateM Files _).run fs = _ := perform_failed hstore hrun
    refine hkept (.inl ?_)
    rw [execute_configured Files.quiet (hconfiguration _)]
    exact congrArg (fun p => p.1.2.isSome) hout
  · have hfits : (Command.start ⟨3, 7⟩ none).Fits := ⟨rfl, rfl⟩
    obtain ⟨-, hwritten, hanswers⟩ := file_written_only_on_success Files.quiet
      (i := i (.start ⟨3, 7⟩ none)) hfits around (hwritable _)
    have hpath : "db" ∈ storePath? (i (.start ⟨3, 7⟩ none)) around fs := by
      rw [storePath?_of_ok (hconfiguration _)]
      rfl
    have hend := hanswers "db" hpath .default .empty _ (hconfiguration _) (.absent hthere) rfl
    obtain ⟨c, opened, answer, text, hc, hopens, -, -, hreads, hread, -⟩ :=
      hwritten (congrArg Prod.snd hend) rfl "db" hpath
    obtain rfl := Except.ok.inj ((hconfiguration _).symm.trans hc)
    cases hopens with
    | absent => exact ⟨text, _, hreads, hread (by decide), List.mergeSort_singleton _⟩
    | present h => cases (Prod.mk.inj (hthere.symm.trans h)).1

end Program

end CourseCompletion
