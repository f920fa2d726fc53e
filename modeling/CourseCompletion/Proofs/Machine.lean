import CourseCompletion.Program
import CourseCompletion.Proofs.Paths

/-!
# What a run does to a machine

A run asks about files before it writes one, and asking changes nothing (`FileAccess.Quiet`).  So
the configuration of a run is read, and its store opened, with the machine as it was at first
(`Program.asks_configuration`, `Program.asks_storeOf`).

`FileAccess.Accepts` says that a file can be written, and read as it was written.  In a tree of
files every path does that can be written at all and leads to no sink (`Files.accepts`).
-/

namespace CourseCompletion

/-! ## one use of the machine after another -/

section

variable {σ α β ε : Type} {x : StateM σ α} {fs fs' : σ} {a : α}

/-- one use of the files, and what follows it -/
theorem run_bind_files (hx : x.run fs = (a, fs')) (f : α → StateM σ β) :
    (x >>= f).run fs = (f a).run fs' := by
  rw [StateT.run_bind, hx]
  rfl

/-- one use of the files where an error may come later -/
theorem run_lift_bind_files (hx : x.run fs = (a, fs')) (f : α → ExceptT ε (StateM σ) β) :
    ((liftM x >>= f : ExceptT ε (StateM σ) β).run : StateM σ _).run fs = (f a).run.run fs' := by
  show (let (a, fs') := x.run fs; (f a).run.run fs') = _
  rw [hx]

end

/-! ## asking -/

/-- The machine is afterwards as it was. -/
def Asks {σ α : Type} (x : StateM σ α) : Prop := ∀ fs, (x.run fs).2 = fs

namespace Asks

variable {σ α β ε : Type}

theorem run_eq {x : StateM σ α} (h : Asks x) (fs : σ) : x.run fs = ((x.run fs).1, fs) :=
  Prod.ext rfl (h fs)

theorem pure (a : α) : Asks (Pure.pure a : StateM σ α) := fun _ => rfl

theorem bind {x : StateM σ α} {f : α → StateM σ β} (hx : Asks x) (hf : ∀ a, Asks (f a)) :
    Asks (x >>= f) := by
  intro fs
  rw [run_bind_files (hx.run_eq fs)]
  exact hf _ fs

/-- where an error may come later -/
theorem bind_lift {x : StateM σ α} {f : α → ExceptT ε (StateM σ) β} (hx : Asks x)
    (hf : ∀ a, Asks (f a).run) : Asks (liftM x >>= f : ExceptT ε (StateM σ) β).run := by
  intro fs
  rw [run_lift_bind_files (hx.run_eq fs)]
  exact hf _ fs

/-- where an error may have come already -/
theorem bind_error {x : ExceptT ε (StateM σ) α} {f : α → ExceptT ε (StateM σ) β} (hx : Asks x.run)
    (hf : ∀ a, Asks (f a).run) : Asks (x >>= f).run := by
  rw [ExceptT.run_bind]
  refine hx.bind fun r => ?_
  cases r with
  | error e => exact .pure _
  | ok a => exact hf a

theorem findM? {p : α → StateM σ Bool} (hp : ∀ a, Asks (p a)) (xs : List α) :
    Asks (xs.findM? p) := by
  induction xs with
  | nil => exact .pure none
  | cons x xs ih =>
    unfold List.findM?
    refine (hp x).bind fun found => ?_
    cases found with
    | true => exact .pure (some x)
    | false => exact ih

end Asks

namespace FileAccess

section

variable (σ : Type) [FileAccess (StateM σ)]

/-- asking about the files of a machine leaves them as they are -/
structure Quiet : Prop where
  workingDirectory : Asks (workingDirectory : StateM σ String)
  isThere : ∀ path, Asks (isThere path : StateM σ Bool)
  isFile : ∀ path, Asks (isFile path : StateM σ Bool)
  read : ∀ path, Asks (read path : StateM σ (Except String String))

end

section

variable {σ : Type} [FileAccess (StateM σ)]

/-- a path leads to a file with a text -/
def Reads (fs : σ) (path text : String) : Prop :=
  (read path : StateM σ (Except String String)).run fs = (.ok text, fs)

/-- whatever is written to a path, nothing fails, and the file has the text that was written -/
def Accepts (fs : σ) (path : String) : Prop :=
  ∀ text, ∃ fs', (write path text : StateM σ (Except String Unit)).run fs = (.ok (), fs') ∧
    Reads fs' path text

/-- the tables that a path opens as: those of its file, or none if there is no file -/
inductive Opens (fs : σ) (path : String) : Snapshot → Prop where
  | absent (h : (isThere path : StateM σ Bool).run fs = (false, fs)) : Opens fs path .empty
  | present {text : String} {snapshot : Snapshot}
      (h : (isThere path : StateM σ Bool).run fs = (true, fs)) (htext : Reads fs path text)
      (hread : Snapshot.ofFileText? text = some snapshot) : Opens fs path snapshot

end

end FileAccess

/-! ### trees of files -/

namespace Files

theorem quiet : FileAccess.Quiet Files :=
  ⟨fun _ => rfl, fun _ _ => rfl, fun _ _ => rfl, fun _ _ => rfl⟩

theorem reads_iff {fs : Files} {path text : String} :
    FileAccess.Reads fs path text ↔ fs.read path = .ok text :=
  ⟨fun h => congrArg Prod.fst h, fun h => congrArg (·, fs) h⟩

theorem run_write {fs fs' : Files} {path text : String} (h : fs.write path text = .ok fs') :
    (FileAccess.write path text : StateM Files (Except String Unit)).run fs = (.ok (), fs') := by
  simp only [FileAccess.write, StateT.run_bind, StateT.run_get, pure_bind, h]
  rfl

theorem write_of_run {fs fs' : Files} {path text : String}
    (h : (FileAccess.write path text : StateM Files (Except String Unit)).run fs =
      (.ok (), fs')) : fs.write path text = .ok fs' := by
  simp only [FileAccess.write, StateT.run_bind, StateT.run_get, pure_bind] at h
  cases hwrite : fs.write path text with
  | ok fs₁ =>
    rw [hwrite] at h
    exact congrArg Except.ok (Prod.mk.inj h).2
  | error e =>
    rw [hwrite] at h
    cases (Prod.mk.inj h).1

/-- **A path that can be written accepts any text**, unless it leads to a sink. -/
theorem accepts {fs fs' : Files} {path old : String} (h : fs.write path old = .ok fs')
    (hsink : ∀ p, fs'.place? path = some p → fs'.isSink p = false) :
    FileAccess.Accepts fs path := by
  intro text
  obtain ⟨fs₁, p, hdirs, hp, hdir, rfl⟩ := write_eq_ok_iff.1 h
  have hnot : ¬fs₁.isSink p = true := by
    intro hs
    rw [if_pos hs] at hsink
    rw [hsink p hp] at hs
    cases hs
  have hwrite : fs.write path text = .ok (fs₁.rewritten p text) :=
    write_eq_ok_iff.2 ⟨fs₁, p, hdirs, hp, hdir, (if_neg hnot).symm⟩
  refine ⟨_, run_write hwrite, reads_iff.2 (read_of_write hwrite fun q hq => ?_)⟩
  rw [place?_mono hp] at hq
  obtain rfl := Option.some.inj hq
  exact Bool.eq_false_iff.2 hnot

end Files

namespace Program

variable {σ : Type} [FileAccess (StateM σ)]

/-! ## before anything is written -/

theorem asks_configurationText (hq : FileAccess.Quiet σ) (path : String) :
    Asks (configurationText path : StateM σ (Option String)) := by
  unfold configurationText
  refine hq.workingDirectory.bind fun directory => ?_
  refine (Asks.findM? hq.isFile _).bind fun found => ?_
  cases found with
  | none => exact .pure none
  | some path => exact (hq.read path).bind fun text => .pure _

/-- no file of a configuration -/
theorem configurationText_none {fs : Files} (h : ∀ path, fs.isFile path = false) (path : String) :
    (configurationText path : StateM Files _).run fs = (none, fs) := by
  have hnone : ∀ paths : List String,
      (paths.findM? FileAccess.isFile : StateM Files _).run fs = (none, fs) := by
    intro paths
    induction paths with
    | nil => rfl
    | cons path paths ih =>
      unfold List.findM?
      have hfile : (FileAccess.isFile path : StateM Files Bool).run fs = (false, fs) :=
        congrArg (·, fs) (h path)
      exact (run_bind_files hfile _).trans ih
  have hdirectory : (FileAccess.workingDirectory : StateM Files String).run fs =
      ("/" ++ "/".intercalate fs.origin, fs) := rfl
  unfold configurationText
  rw [run_bind_files hdirectory]
  exact (run_bind_files (hnone _) _).trans rfl

/-- the configuration of a file that is there if it has to be -/
theorem configurationAt_run (hq : FileAccess.Quiet σ) (path : String) (required : Bool)
    (ours : String) (bindings : Variables) (fs : σ) :
    ((configurationAt path required ours bindings :
        ExceptT ConfigurationError (StateM σ) Configuration).run : StateM σ _).run fs =
      (if required && !((FileAccess.isThere path : StateM σ Bool).run fs).1 then
          .error (.notFound path)
        else Configuration.load ((configurationText path : StateM σ _).run fs).1 ours bindings,
        fs) := by
  have hthere := (hq.isThere path).run_eq fs
  have htext := (asks_configurationText hq path).run_eq fs
  unfold configurationAt
  rw [run_lift_bind_files hthere]
  cases required && !((FileAccess.isThere path : StateM σ Bool).run fs).1 with
  | true => rfl
  | false => exact (run_lift_bind_files htext _).trans rfl

theorem asks_configurationAt (hq : FileAccess.Quiet σ) (path : String) (required : Bool)
    (ours : String) (bindings : Variables) :
    Asks (configurationAt path required ours bindings :
      ExceptT ConfigurationError (StateM σ) Configuration).run := by
  intro fs
  rw [configurationAt_run hq]

theorem asks_configuration (hq : FileAccess.Quiet σ) (chosen : Option String)
    (around : Surroundings) :
    Asks (configuration chosen around :
      ExceptT ConfigurationError (StateM σ) Configuration).run := by
  unfold configuration
  refine (asks_configurationAt hq _ _ _ _).bind_error fun c => ?_
  cases c.check <;> exact .pure _

theorem asks_storeOf (hq : FileAccess.Quiet σ) (path : Option String) (locking : Bool) :
    Asks (storeOf path locking : ExceptT CommandError (StateM σ) Store).run := by
  cases path with
  | none => exact .pure _
  | some path =>
    unfold storeOf
    refine (hq.isThere path).bind_lift fun there => ?_
    cases there with
    | false => exact .pure _
    | true =>
      refine (hq.read path).bind_lift fun text => ?_
      cases text with
      | error detail => exact .pure _
      | ok text =>
        dsimp only
        cases Snapshot.ofFileText? text with
        | none => exact .pure _
        | some snapshot => exact .pure _

/-! ## the store of a file -/

section

variable {fs : σ} {path : String} {snapshot : Snapshot}

theorem storeOf_run (h : FileAccess.Opens fs path snapshot) (locking : Bool) :
    ((storeOf (some path) locking).run : StateM σ _).run fs =
      (.ok (.ofSnapshot snapshot locking), fs) := by
  unfold storeOf
  cases h with
  | absent hthere => exact (run_lift_bind_files hthere _).trans rfl
  | present hthere htext hread =>
    refine (run_lift_bind_files hthere _).trans ?_
    rw [if_pos rfl]
    refine (run_lift_bind_files htext _).trans ?_
    dsimp only
    rw [hread]
    rfl

theorem opens_of_storeOf (hq : FileAccess.Quiet σ) {locking : Bool} {store : Store}
    (h : ((storeOf (some path) locking).run : StateM σ _).run fs = (.ok store, fs)) :
    ∃ snapshot, FileAccess.Opens fs path snapshot ∧ store = .ofSnapshot snapshot locking := by
  have hthere := (hq.isThere path).run_eq fs
  have htext := (hq.read path).run_eq fs
  unfold storeOf at h
  rw [run_lift_bind_files hthere] at h
  cases hfound : ((FileAccess.isThere path : StateM σ Bool).run fs).1 with
  | false =>
    rw [hfound] at h hthere
    exact ⟨.empty, .absent hthere, (Except.ok.inj (Prod.mk.inj h).1).symm⟩
  | true =>
    rw [hfound] at h hthere
    rw [if_pos rfl, run_lift_bind_files htext] at h
    cases hcontent : ((FileAccess.read path : StateM σ _).run fs).1 with
    | error detail =>
      rw [hcontent] at h
      cases (Prod.mk.inj h).1
    | ok text =>
      rw [hcontent] at h htext
      dsimp only at h
      cases hread : Snapshot.ofFileText? text with
      | none =>
        rw [hread] at h
        cases (Prod.mk.inj h).1
      | some snapshot =>
        rw [hread] at h
        exact ⟨snapshot, .present hthere htext hread, (Except.ok.inj (Prod.mk.inj h).1).symm⟩

end

/-! ## one command -/

section

variable {fs fs' : σ} {path : Option String} {locking save : Bool} {c : Command} {now : Instant}
  {store : Store} {s : Session}

theorem keep_accepted {path : String} (h : FileAccess.Accepts fs path) (store : Store) :
    ∃ fs', ((keep (some path) store).run : StateM σ _).run fs = (.ok (), fs') ∧
      FileAccess.Reads fs' path store.snapshot.fileText := by
  obtain ⟨fs', hwrite, hreads⟩ := h store.snapshot.fileText
  exact ⟨fs', run_lift_bind_files hwrite _, hreads⟩

/-- a store that cannot be opened -/
theorem perform_refused {e : CommandError}
    (hstore : ((storeOf path locking).run : StateM σ _).run fs = (.error e, fs)) :
    (perform path locking save c now : StateM σ _).run fs = ((none, some e), fs) :=
  (run_bind_files hstore _).trans rfl

/-- a command that fails, whatever it did to its session before -/
theorem perform_failed {e : CommandError}
    (hstore : ((storeOf path locking).run : StateM σ _).run fs = (.ok store, fs))
    (hrun : c.run (.start store now) = (.error e, s)) :
    (perform path locking save c now : StateM σ _).run fs = ((none, some e), fs) := by
  refine (run_bind_files hstore _).trans ?_
  dsimp only
  rw [hrun]
  rfl

theorem perform_unsaved {a : Answer}
    (hstore : ((storeOf path locking).run : StateM σ _).run fs = (.ok store, fs))
    (hrun : c.run (.start store now) = (.ok a, s)) :
    (perform path locking false c now : StateM σ _).run fs = ((some a, none), fs) := by
  refine (run_bind_files hstore _).trans ?_
  dsimp only
  rw [hrun]
  rfl

theorem perform_saved {a : Answer}
    (hstore : ((storeOf path locking).run : StateM σ _).run fs = (.ok store, fs))
    (hrun : c.run (.start store now) = (.ok a, s))
    (hkeep : ((keep path s.store).run : StateM σ _).run fs = (.ok (), fs')) :
    (perform path locking true c now : StateM σ _).run fs = ((some a, none), fs') := by
  refine (run_bind_files hstore _).trans ?_
  dsimp only
  rw [hrun]
  exact (run_bind_files hkeep _).trans rfl

end

end Program

end CourseCompletion
