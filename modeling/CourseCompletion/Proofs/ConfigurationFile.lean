import CourseCompletion.Proofs.Document
import CourseCompletion.Proofs.Machine
import CourseCompletion.Proofs.Paths

/-!
# Configurations read back

The text of a configuration is a document of up to three lines (`Configuration.fileLines`), and with
no variable of ours it loads as that configuration (`Configuration.load_fileText`), whatever
characters its texts are made of.

`Program.saved_configuration_loads_back`: a configuration that was saved is loaded again from the
same path, whatever was there before.
-/

namespace CourseCompletion

/-- an answer without an error comes from answers without one -/
theorem bind_eq_ok_iff {ε α β : Type} {x : Except ε α} {f : α → Except ε β} {b : β} :
    x >>= f = .ok b ↔ ∃ a, x = .ok a ∧ f a = .ok b := by
  cases x with
  | error e => exact ⟨fun h => (by cases h), fun ⟨_, h, _⟩ => (by cases h)⟩
  | ok a => exact ⟨fun h => ⟨a, rfl, h⟩, fun ⟨_, h, hb⟩ => (Except.ok.inj h).symm ▸ hb⟩

namespace Configuration

/-! ## settings of a configuration -/

/-- **Each part of a configuration comes from the setting of its name**, or is the default. -/
theorem ofSettings_eq_ok_iff {settings : List (List Char × Setting)} {c : Configuration} :
    ofSettings settings = .ok c ↔
      (Setting.last? "log_level" settings).elim (.ok default.logLevel) textOf = .ok c.logLevel ∧
      (Setting.last? "data_file" settings).elim (.ok default.dataFile) (some <$> textOf ·) =
        .ok c.dataFile ∧
      (Setting.last? "optimistic_locking" settings).elim (.ok default.optimisticLocking) flagOf =
        .ok c.optimisticLocking := by
  have hparts : ofSettings settings = (do
      let logLevel ← (Setting.last? "log_level" settings).elim (.ok default.logLevel) textOf
      let dataFile ← (Setting.last? "data_file" settings).elim (.ok default.dataFile)
        (some <$> textOf ·)
      let optimisticLocking ← (Setting.last? "optimistic_locking" settings).elim
        (.ok default.optimisticLocking) flagOf
      return { logLevel, dataFile, optimisticLocking }) := by
    unfold ofSettings
    cases Setting.last? "log_level" settings <;> cases Setting.last? "data_file" settings <;>
      cases Setting.last? "optimistic_locking" settings <;> rfl
  rw [hparts]
  simp only [bind_eq_ok_iff]
  constructor
  · rintro ⟨_, hlevel, _, hfile, _, hlocking, h⟩
    obtain rfl := Except.ok.inj h
    exact ⟨hlevel, hfile, hlocking⟩
  · rintro ⟨hlevel, hfile, hlocking⟩
    exact ⟨_, hlevel, _, hfile, _, hlocking, rfl⟩

/-! ## variables -/

/-- the name of a variable begins with ours and an underscore, in any case -/
def isOurs (ours name : String) : Bool :=
  (Setting.behind? (lower (ours.toList ++ ['_'])) (lower name.toList)).isSome

theorem ofVariable?_eq_none {ours name : String} (h : isOurs ours name = false)
    (value : List Char) : Setting.ofVariable? ours.toList name.toList value = none := by
  unfold isOurs at h
  unfold Setting.ofVariable?
  rw [Option.not_isSome_iff_eq_none.1 (Bool.eq_false_iff.1 h)]
  rfl

theorem variableSettings_eq_nil {ours : String} {bindings : Variables}
    (h : ∀ v ∈ bindings, isOurs ours v.1 = false) : variableSettings ours bindings = [] :=
  List.filterMap_eq_nil_iff.2 fun v hv => ofVariable?_eq_none (h v hv) v.2.toList

/-! ## lines of a configuration -/

open Toml

theorem isBare_logLevel : IsBare "log_level".toList :=
  ⟨_, _, rfl, List.all_eq_true.1 (by decide)⟩

theorem isBare_dataFile : IsBare "data_file".toList :=
  ⟨_, _, rfl, List.all_eq_true.1 (by decide)⟩

theorem isBare_optimisticLocking : IsBare "optimistic_locking".toList :=
  ⟨_, _, rfl, List.all_eq_true.1 (by decide)⟩

theorem denotes_flag (b : Bool) :
    Denotes (if b then "true".toList else "false".toList) (.boolean b) := by
  cases b with
  | true => exact denotes_true
  | false => exact denotes_false

/-- the lines of the file of a configuration -/
def fileLines (c : Configuration) : List Line :=
  ⟨_, _, _, isBare_logLevel, denotes_string c.logLevel.toList⟩ ::
  ((c.dataFile.map fun path => ⟨_, _, _, isBare_dataFile, denotes_string path.toList⟩).toList ++
  [⟨_, _, _, isBare_optimisticLocking, denotes_flag c.optimisticLocking⟩])

theorem fileChars_eq (c : Configuration) : c.fileChars = c.fileLines.flatMap Line.chars := by
  unfold fileChars fileLines line
  cases c.dataFile <;>
    simp only [Option.map_none, Option.map_some, Option.toList_none, Option.toList_some,
      List.nil_append, List.cons_append, List.flatMap_cons, List.flatMap_nil, Line.chars,
      List.append_assoc, List.append_nil]

/-- the names in a file, in their order -/
theorem keys_fileLines (c : Configuration) : List.Sublist (c.fileLines.map Line.key)
    ["log_level".toList, "data_file".toList, "optimistic_locking".toList] := by
  unfold fileLines
  cases c.dataFile with
  | none => exact .cons_cons _ (.cons _ (.cons_cons _ .slnil))
  | some path => exact .refl _

theorem document?_fileChars (c : Configuration) :
    Toml.document? c.fileChars = some (c.fileLines.map Line.entry) := by
  have hkeys : ["log_level".toList, "data_file".toList, "optimistic_locking".toList].Nodup ∧
      momentKey ∉ ["log_level".toList, "data_file".toList, "optimistic_locking".toList] := by
    decide
  rw [fileChars_eq]
  exact document?_lines (hkeys.1.sublist (keys_fileLines c))
    fun hmem => hkeys.2 ((keys_fileLines c).subset hmem)

/-! ## reading it again -/

/-- the settings that a file says -/
theorem fileSettings_fileText (c : Configuration) : fileSettings (some c.fileText) = .ok
    (("log_level".toList, .text c.logLevel.toList) ::
      ((c.dataFile.map fun path => ("data_file".toList, .text path.toList)).toList ++
      [("optimistic_locking".toList, .boolean c.optimisticLocking)])) := by
  have hnames : ∀ key ∈ ["log_level".toList, "data_file".toList, "optimistic_locking".toList],
      Setting.ofKey key = (key, false) := by
    decide
  have hentry : ∀ l ∈ c.fileLines, Setting.named l.entry.1 (Setting.ofNode l.entry.2) =
      (l.key, Setting.ofNode (.scalar l.value)) := by
    intro l hl
    unfold Setting.named
    rw [Line.entry, hnames l.key ((keys_fileLines c).subset (List.mem_map_of_mem hl))]
    rfl
  have hread : fileSettings (some c.fileText) =
      .ok (Setting.ofEntries (c.fileLines.map Line.entry)) := by
    unfold fileSettings fileText
    dsimp only
    rw [String.toList_ofList, document?_fileChars]
    rfl
  rw [hread]
  unfold Setting.ofEntries
  rw [List.map_map]
  refine (congrArg Except.ok (List.map_congr_left hentry)).trans ?_
  unfold fileLines
  cases c.dataFile <;> rfl

theorem fileText_ne_empty (c : Configuration) : c.fileText ≠ "" := by
  intro h
  have hchars := congrArg String.toList h
  rw [fileText, String.toList_ofList, fileChars_eq] at hchars
  cases hchars

theorem textOf_text (s : String) : textOf (.text s.toList) = .ok s :=
  congrArg Except.ok String.ofList_toList

/-- **The text of a configuration loads as that configuration**, where no variable is one of
ours. -/
theorem load_fileText (c : Configuration) {ours : String} {bindings : Variables}
    (h : variableSettings ours bindings = []) : load (some c.fileText) ours bindings = .ok c := by
  generalize hsettings : (("log_level".toList, Setting.text c.logLevel.toList) ::
    ((c.dataFile.map fun path => ("data_file".toList, .text path.toList)).toList ++
      [("optimistic_locking".toList, .boolean c.optimisticLocking)])) = settings
  have hlevel : Setting.last? "log_level" settings = some (.text c.logLevel.toList) := by
    rw [← hsettings]
    cases c.dataFile <;> simp [Setting.last?, Setting.counts]
  have hfile : Setting.last? "data_file" settings = c.dataFile.map (.text ·.toList) := by
    rw [← hsettings]
    cases c.dataFile <;> simp [Setting.last?, Setting.counts]
  have hlocking : Setting.last? "optimistic_locking" settings =
      some (.boolean c.optimisticLocking) := by
    rw [← hsettings]
    cases c.dataFile <;> simp [Setting.last?, Setting.counts]
  have hload : load (some c.fileText) ours bindings = ofSettings settings := by
    unfold load
    rw [fileSettings_fileText, h, hsettings]
    exact congrArg ofSettings (List.append_nil settings)
  rw [hload, ofSettings_eq_ok_iff, hlevel, hfile, hlocking]
  refine ⟨textOf_text c.logLevel, ?_, rfl⟩
  cases c.dataFile with
  | none => rfl
  | some path => exact congrArg (some <$> ·) (textOf_text path)

end Configuration

namespace Program

variable {fs : Files} {path : String}

/-! ## the file of a configuration -/

/-- The file at the end of a path is found under the path from the root, before any other is
tried. -/
theorem configurationText_run (h : fs.Proper) (hlength : (fs.fromRoot path).utf8ByteSize ≤ 4095)
    {p : Place} (hp : fs.place? path = some p) {text : String} (ht : fs.text? p = some text) :
    (configurationText path : StateM Files _).run fs = (some text, fs) := by
  have hne : path ≠ "" := by
    rintro rfl
    cases hp
  have hroot : fs.place? (fs.fromRoot path) = some p :=
    (Files.place?_fromRoot h hne hlength).trans hp
  have hdirectory : (FileAccess.workingDirectory : StateM Files String).run fs =
      ("/" ++ "/".intercalate fs.origin, fs) := rfl
  have hfile : (FileAccess.isFile (fs.fromRoot path) : StateM Files Bool).run fs = (true, fs) :=
    congrArg (·, fs) (Files.isFile_of_text? hroot ht)
  have hread : (FileAccess.read (fs.fromRoot path) : StateM Files _).run fs = (.ok text, fs) :=
    congrArg (·, fs) (Files.read_of_text? hroot ht)
  have hfirst : ∀ others : List String, ((fs.fromRoot path :: others).findM? FileAccess.isFile :
      StateM Files _).run fs = (some (fs.fromRoot path), fs) := by
    intro others
    unfold List.findM?
    exact (run_bind_files hfile _).trans rfl
  unfold configurationText
  rw [run_bind_files hdirectory]
  refine (run_bind_files (hfirst _) _).trans ?_
  exact (run_bind_files hread _).trans rfl

/-- **A saved configuration loads back**: whatever characters its texts are made of, and whatever
the file held before, as long as the file can be written, its path from the root is not too long,
and no variable is one of ours. -/
theorem saved_configuration_loads_back (c : Configuration) (h : fs.Proper)
    (hlength : (fs.fromRoot path).utf8ByteSize ≤ 4095) (haccepts : FileAccess.Accepts fs path)
    (required : Bool) {ours : String} {bindings : Variables}
    (hours : ∀ v ∈ bindings, Configuration.isOurs ours v.1 = false) :
    ∃ fs', ((saveConfiguration path c : ExceptT ConfigurationError (StateM Files) Unit).run :
        StateM Files _).run fs = (.ok (), fs') ∧
      ((configurationAt path required ours bindings :
        ExceptT ConfigurationError (StateM Files) Configuration).run : StateM Files _).run fs' =
        (.ok c, fs') := by
  obtain ⟨fs', hwrite, hread⟩ := haccepts c.fileText
  have hwritten : fs.write path c.fileText = .ok fs' := Files.write_of_run hwrite
  obtain ⟨p, hp, ht⟩ := Files.text?_of_read (Files.reads_iff.1 hread) c.fileText_ne_empty
  rw [← Files.fromRoot_written hwritten] at hlength
  have htext := configurationText_run (h.written hwritten) hlength hp ht
  have hthere : (FileAccess.isThere path : StateM Files Bool).run fs' = (true, fs') :=
    congrArg (·, fs') (Files.isThere_of_text? hp ht)
  have hload : Configuration.load (some c.fileText) ours bindings = .ok c :=
    Configuration.load_fileText c (Configuration.variableSettings_eq_nil hours)
  refine ⟨fs', ?_, ?_⟩
  · unfold saveConfiguration
    exact (run_lift_bind_files hwrite _).trans rfl
  · rw [configurationAt_run Files.quiet, hthere, htext]
    simp [hload]

/-- quotes, a backslash, a line end and a control character, in place of a file that is no
document -/
theorem saved_over_broken_file :
    let fs : Files := ⟨["home"], [["home"]], [], [(["home", "settings"], "log_level = ")]⟩
    let c : Configuration := ⟨"\"007\\\n", some "\x27\x27\x27\x01é", false⟩
    ∃ fs', ((saveConfiguration "settings" c : ExceptT ConfigurationError (StateM Files) Unit).run :
        StateM Files _).run fs = (.ok (), fs') ∧
      ((configurationAt "settings" true "COURSETRACK" [("HOME", "/home")] :
        ExceptT ConfigurationError (StateM Files) Configuration).run : StateM Files _).run fs' =
        (.ok c, fs') := by
  intro fs c
  have hproper : fs.Proper := ⟨by decide, by decide⟩
  have hlength : (fs.fromRoot "settings").utf8ByteSize ≤ 4095 := by decide +kernel
  have hname : Files.IsName "settings" := by decide
  have hplace : fs.place? "settings" = some ["home", "settings"] :=
    Files.place?_name hproper.directory hname
  have hwrite : fs.write "settings" "" = .ok (fs.rewritten ["home", "settings"] "") := by
    refine Files.write_eq_ok_iff.2 ⟨fs, ["home", "settings"], ?_, hplace, by decide, rfl⟩
    rw [Files.parts_name fs hname]
    rfl
  exact saved_configuration_loads_back c hproper hlength (Files.accepts hwrite fun _ _ => rfl) true
    (by decide)

end Program

end CourseCompletion
