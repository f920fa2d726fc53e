import CourseCompletion.Proofs.ConfigurationFile
import CourseCompletion.Proofs.Guess
import CourseCompletion.Proofs.Saving

/-!
# Settings in layers

Of the settings of a file and of the variables, those of the variables come first, and what neither
says has its default (`Layered`).  A text of the file is kept as it is; the value of a variable is
kept as what it is taken for, written out again (`reread`), which is the same text where a
character is part of no number and of no word that stands for one.

* `Setting.last?_append`: what is said later comes first;
* `Configuration.load_eq_ok_iff`: what is loaded from a file and the variables;
* `Configuration.logLevel_of_check`: a level of the log that can be used is kept as it is;
* `Program.settings_come_in_layers`: the same for whole runs, where a variable names the file of the
  store as `--data` does with the value read again.
-/

namespace CourseCompletion

/-! ## what is said last -/

namespace Setting

/-- the values that settings say of a name -/
def valuesOf (name : String) (settings : List (List Char × Setting)) : List Setting :=
  (settings.filter (·.1 = name.toList)).map (·.2)

theorem valuesOf_append (name : String) (xs ys : List (List Char × Setting)) :
    valuesOf name (xs ++ ys) = valuesOf name xs ++ valuesOf name ys := by
  unfold valuesOf
  rw [List.filter_append, List.map_append]

theorem last?_eq (name : String) (settings : List (List Char × Setting)) :
    last? name settings =
      ((valuesOf name settings).reverse.find? counts).or (valuesOf name settings).head? := by
  unfold last? valuesOf
  exact Option.orElse_eq_or

theorem mem_of_last? {name : String} {settings : List (List Char × Setting)} {s : Setting}
    (h : last? name settings = some s) : s ∈ valuesOf name settings := by
  rw [last?_eq, Option.or_eq_some_iff] at h
  rcases h with h | ⟨-, h⟩
  · exact List.mem_reverse.1 (List.mem_of_find?_eq_some h)
  · exact List.mem_of_mem_head? h

/-- **What is said later comes first**, as far as it counts. -/
theorem last?_append (name : String) {xs ys : List (List Char × Setting)}
    (h : ∀ s ∈ valuesOf name ys, s.counts = true) :
    last? name (xs ++ ys) = (valuesOf name ys).getLast?.or (last? name xs) := by
  rw [last?_eq, last?_eq, valuesOf_append]
  cases hlast : (valuesOf name ys).getLast? with
  | none =>
    rw [List.getLast?_eq_none_iff.1 hlast, List.append_nil]
    rfl
  | some s =>
    obtain ⟨before, hys⟩ := List.getLast?_eq_some_iff.1 hlast
    have hs : s.counts = true := h s (List.mem_of_getLast? hlast)
    rw [hys, ← List.append_assoc, List.reverse_append, List.reverse_singleton]
    simp [hs]

/-! ## values read again -/

/-- The value of a variable is no table. -/
theorem counts_ofValue (value : List Char) : (ofValue value).counts = true := by
  obtain ⟨s, hs, -⟩ := chars?_ofValue value
  cases hv : ofValue value with
  | empty =>
    rw [hv] at hs
    cases hs
  | _ => rfl

/-- the text of the value of a variable: what it is taken for, written out -/
def reread (value : String) : String :=
  (((ofValue value.toList).chars?).map String.ofList).getD value

theorem textOf_ofValue (value : String) :
    Configuration.textOf (ofValue value.toList) = .ok (reread value) := by
  obtain ⟨s, hs, -⟩ := chars?_ofValue value.toList
  unfold Configuration.textOf reread
  rw [hs]
  rfl

/-- **A value is kept as it is** where a character is part of no number and no word. -/
theorem reread_of_foreign {value : String} (h : ∃ c ∈ value.toList, isGuessChar c = false) :
    reread value = value := by
  unfold reread
  rw [ofValue_of_foreign h]
  exact String.ofList_toList

/-- What is read again as something with such a character was that before. -/
theorem reread_of_foreign_reread {value : String}
    (h : ∃ c ∈ (reread value).toList, isGuessChar c = false) : reread value = value := by
  obtain ⟨s, hs, hkept⟩ := chars?_ofValue value.toList
  have hreread : reread value = String.ofList s := by
    unfold reread
    rw [hs]
    rfl
  rcases hkept with rfl | hguess
  · rw [hreread, String.ofList_toList]
  · obtain ⟨c, hc, hforeign⟩ := h
    rw [hreread, String.toList_ofList] at hc
    rw [hguess c hc] at hforeign
    cases hforeign

/-- The name of a level has a character that is part of no number and no word. -/
theorem exists_foreign_of_level {s : String} (h : (LogLevel.ofName? s).isSome = true) :
    ∃ c ∈ s.toList, isGuessChar c = false := by
  have hlevels : ∀ l ∈ LogLevel.all, ∀ word ∈ casings l.name.toList,
      word.any (fun c => !isGuessChar c) = true := by
    decide
  obtain ⟨l, hl⟩ := Option.isSome_iff_exists.1 h
  unfold LogLevel.ofName? at hl
  have hfound := List.find?_some hl
  have hname : l.name = String.ofList (s.toList.map Char.toLower) := of_decide_eq_true hfound
  have hsmall : s.toList.map Char.toLower = l.name.toList := by
    rw [hname, String.toList_ofList]
  have hany := hlevels l (List.mem_of_find?_eq_some hl) _ (mem_casings hsmall)
  simpa using hany

end Setting

/-! ## variables -/

/-- the variables of the settings, with the names of these -/
def variableNames : List (String × String) :=
  [("COURSETRACK_LOG_LEVEL", "log_level"), ("COURSETRACK_DATA_FILE", "data_file"),
    ("COURSETRACK_OPTIMISTIC_LOCKING", "optimistic_locking")]

/-- No variable is one of ours but those of the settings. -/
def Variables.Known (vs : Variables) : Prop :=
  ∀ v ∈ vs, Configuration.isOurs "COURSETRACK" v.1 = true → v.1 ∈ variableNames.map Prod.fst

theorem Variables.value?_eq (vs : Variables) (name : String) :
    vs.value? name = ((vs.filter (·.1 = name)).map (·.2)).getLast? := by
  unfold Variables.value?
  rw [← List.head?_filter, List.filter_reverse, List.head?_reverse, List.getLast?_map]

namespace Configuration

open Setting

section

variable {n : String × String} (hn : n ∈ variableNames)

include hn

theorem isOurs_variable : isOurs "COURSETRACK" n.1 = true := by
  have hall : ∀ n ∈ variableNames, isOurs "COURSETRACK" n.1 = true := by decide
  exact hall n hn

theorem ofVariable?_variable (value : List Char) :
    ofVariable? "COURSETRACK".toList n.1.toList value = some (n.2.toList, ofValue value) := by
  have hbehind : ∀ n ∈ variableNames,
      behind? (lower ("COURSETRACK".toList ++ ['_'])) (lower n.1.toList) = some n.2.toList := by
    decide
  have hkey : ∀ n ∈ variableNames, ofKey (withPoints n.2.toList) = (n.2.toList, false) := by
    decide
  unfold ofVariable?
  rw [hbehind n hn, Option.map_some, named, hkey n hn]
  rfl

theorem valuesOf_variableSettings {bindings : Variables} (h : bindings.Known) :
    valuesOf n.2 (variableSettings "COURSETRACK" bindings) =
      ((bindings.filter (·.1 = n.1)).map (·.2)).map (ofValue ·.toList) := by
  induction bindings with
  | nil => rfl
  | cons v bindings ih =>
    have ih := ih fun v hv => h v (List.mem_cons_of_mem _ hv)
    unfold variableSettings at ih ⊢
    rw [List.filterMap_cons, List.filter_cons]
    cases hv : isOurs "COURSETRACK" v.1 with
    | false =>
      have hne : v.1 ≠ n.1 := by
        intro he
        rw [he, isOurs_variable hn] at hv
        cases hv
      rw [ofVariable?_eq_none hv, decide_eq_false hne]
      exact ih
    | true =>
      obtain ⟨n', hn', hname⟩ := List.mem_map.1 (h v List.mem_cons_self hv)
      have hsame : ∀ n ∈ variableNames, ∀ n' ∈ variableNames,
          decide (n'.2.toList = n.2.toList) = decide (n'.1 = n.1) := by
        decide
      rw [← hname, ofVariable?_variable hn']
      unfold valuesOf at ih ⊢
      rw [List.filter_cons, hsame n hn n' hn']
      split
      · rw [List.map_cons, ih]
        rfl
      · exact ih

/-- **The value of a variable comes before what is said in the file.** -/
theorem last?_layers {bindings : Variables} (h : bindings.Known)
    (said : List (List Char × Setting)) :
    last? n.2 (said ++ variableSettings "COURSETRACK" bindings) =
      ((bindings.value? n.1).map (ofValue ·.toList)).or (last? n.2 said) := by
  have hvalues := valuesOf_variableSettings hn h
  have hcounts : ∀ s ∈ valuesOf n.2 (variableSettings "COURSETRACK" bindings),
      s.counts = true := by
    intro s hs
    rw [hvalues] at hs
    obtain ⟨value, -, rfl⟩ := List.mem_map.1 hs
    exact counts_ofValue value.toList
  rw [last?_append n.2 hcounts, hvalues, List.getLast?_map, ← Variables.value?_eq]

end

/-! ## layers -/

/-- the text that settings say of a name, if they say one -/
def textIn? (name : String) (said : List (List Char × Setting)) : Option String :=
  (last? name said).bind fun s => s.chars?.map String.ofList

/-- The level of the log and the file of the store are texts, where they are said. -/
def Textual (said : List (List Char × Setting)) : Prop :=
  ∀ name ∈ ["log_level", "data_file"], ∀ s ∈ valuesOf name said, ∃ t, s = .text t

/-- A configuration has what the variables say, or else what the file says, or else the defaults.
The value of a variable is read again. -/
structure Layered (bindings : Variables) (said : List (List Char × Setting))
    (c : Configuration) : Prop where
  logLevel : c.logLevel = (((bindings.value? "COURSETRACK_LOG_LEVEL").map reread).or
    (textIn? "log_level" said)).getD "info"
  dataFile : c.dataFile = ((bindings.value? "COURSETRACK_DATA_FILE").map reread).or
    (textIn? "data_file" said)
  optimisticLocking : (((bindings.value? "COURSETRACK_OPTIMISTIC_LOCKING").map
    (denoted? ·.toList)).or ((last? "optimistic_locking" said).map flag?)).getD (some true) =
    some c.optimisticLocking

/-- an answer that is there has no error, and else there is a default -/
theorem elim_eq_ok {α β ε : Type} {x : Option α} {f : α → Except ε β} {y : Option β}
    (h : x.map f = y.map .ok) (d : β) : x.elim (.ok d) f = .ok (y.getD d) := by
  cases x with
  | none =>
    obtain rfl := Option.map_eq_none_iff.1 h.symm
    rfl
  | some a =>
    obtain ⟨b, rfl, hb⟩ := Option.map_eq_some_iff.1 h.symm
    exact hb.symm

theorem elim_some_eq_ok {α β ε : Type} {x : Option α} {f : α → Except ε β} {y : Option β}
    (h : x.map f = y.map .ok) : x.elim (.ok none) (some <$> f ·) = .ok y := by
  cases x with
  | none =>
    obtain rfl := Option.map_eq_none_iff.1 h.symm
    rfl
  | some a =>
    obtain ⟨b, rfl, hb⟩ := Option.map_eq_some_iff.1 h.symm
    show some <$> f a = _
    rw [← hb]
    rfl

theorem map_textOf_layers (value : Option String) {setting : Option Setting}
    (h : ∀ s ∈ setting, ∃ t, s = .text t) :
    ((value.map (ofValue ·.toList)).or setting).map textOf =
      ((value.map reread).or (setting.bind fun s => s.chars?.map String.ofList)).map .ok := by
  cases value with
  | some v => exact congrArg some (textOf_ofValue v)
  | none =>
    cases setting with
    | none => rfl
    | some s =>
      obtain ⟨t, rfl⟩ := h s rfl
      rfl

theorem flagOf_eq_ok_iff {s : Setting} {b : Bool} : flagOf s = .ok b ↔ s.flag? = some b := by
  unfold flagOf
  cases s.flag? with
  | none => exact ⟨fun h => (by cases h), fun h => (by cases h)⟩
  | some b' =>
    show Except.ok b' = Except.ok b ↔ some b' = some b
    simp

theorem elim_flagOf_layers (value : Option String) (setting : Option Setting) {b : Bool} :
    ((value.map (ofValue ·.toList)).or setting).elim (.ok true) flagOf = .ok b ↔
      ((value.map (denoted? ·.toList)).or (setting.map flag?)).getD (some true) = some b := by
  cases value with
  | some v =>
    show flagOf (ofValue v.toList) = .ok b ↔ denoted? v.toList = some b
    rw [flagOf_eq_ok_iff, flag?_ofValue]
  | none =>
    cases setting with
    | none => simp
    | some s => exact flagOf_eq_ok_iff

/-- **The settings of a file and of the variables come in layers.** -/
theorem ofSettings_layers {bindings : Variables} (h : bindings.Known)
    {said : List (List Char × Setting)} (hsaid : Textual said) {c : Configuration} :
    ofSettings (said ++ variableSettings "COURSETRACK" bindings) = .ok c ↔
      Layered bindings said c := by
  have hlevel := map_textOf_layers (bindings.value? "COURSETRACK_LOG_LEVEL")
    fun s hs => hsaid "log_level" (by decide) s (mem_of_last? hs)
  have hfile := map_textOf_layers (bindings.value? "COURSETRACK_DATA_FILE")
    fun s hs => hsaid "data_file" (by decide) s (mem_of_last? hs)
  have hlocking := elim_flagOf_layers (b := c.optimisticLocking)
    (bindings.value? "COURSETRACK_OPTIMISTIC_LOCKING") (last? "optimistic_locking" said)
  have hlast : ∀ n ∈ variableNames,
      last? n.2 (said ++ variableSettings "COURSETRACK" bindings) =
        ((bindings.value? n.1).map (ofValue ·.toList)).or (last? n.2 said) :=
    fun n hn => last?_layers hn h said
  simp only [variableNames, List.forall_mem_cons] at hlast
  obtain ⟨hlevels, hfiles, hlockings, -⟩ := hlast
  rw [ofSettings_eq_ok_iff, hlevels, hfiles, hlockings]
  constructor
  · rintro ⟨h₁, h₂, h₃⟩
    have h₁' := (elim_eq_ok hlevel _).symm.trans h₁
    have h₂' := (elim_some_eq_ok hfile).symm.trans h₂
    exact ⟨(Except.ok.inj h₁').symm, (Except.ok.inj h₂').symm, hlocking.1 h₃⟩
  · rintro ⟨h₁, h₂, h₃⟩
    refine ⟨?_, ?_, hlocking.2 h₃⟩
    · rw [h₁]
      exact elim_eq_ok hlevel _
    · rw [h₂]
      exact elim_some_eq_ok hfile

/-- **What is loaded comes in layers**, and nothing is where the file is no document. -/
theorem load_eq_ok_iff {bindings : Variables} (h : bindings.Known) {text : Option String}
    (hsaid : ∀ said, fileSettings text = .ok said → Textual said) {c : Configuration} :
    load text "COURSETRACK" bindings = .ok c ↔
      ∃ said, fileSettings text = .ok said ∧ Layered bindings said c := by
  unfold load
  rw [bind_eq_ok_iff]
  constructor
  · rintro ⟨said, hread, hc⟩
    exact ⟨said, hread, (ofSettings_layers h (hsaid said hread)).1 hc⟩
  · rintro ⟨said, hread, hc⟩
    exact ⟨said, hread, (ofSettings_layers h (hsaid said hread)).2 hc⟩

section

variable {bindings : Variables} (h : bindings.Known) {text : Option String} {c : Configuration}
  (hload : load text "COURSETRACK" bindings = .ok c) {value : String}

include h hload

/-- Where a variable names the file of the store, nothing else does. -/
theorem dataFile_of_load (hvalue : bindings.value? "COURSETRACK_DATA_FILE" = some value) :
    c.dataFile = some (reread value) := by
  obtain ⟨said, -, hc⟩ := bind_eq_ok_iff.1 hload
  obtain ⟨-, hfile, -⟩ := ofSettings_eq_ok_iff.1 hc
  have hlast := last?_layers (n := ("COURSETRACK_DATA_FILE", "data_file")) (by decide) h said
  have htext : some <$> textOf (ofValue value.toList) = .ok (some (reread value)) := by
    rw [textOf_ofValue]
    rfl
  rw [hlast, hvalue] at hfile
  exact Except.ok.inj (hfile.symm.trans htext)

/-- Where a variable names the level of the log, nothing else does. -/
theorem logLevel_of_load (hvalue : bindings.value? "COURSETRACK_LOG_LEVEL" = some value) :
    c.logLevel = reread value := by
  obtain ⟨said, -, hc⟩ := bind_eq_ok_iff.1 hload
  obtain ⟨hlevel, -, -⟩ := ofSettings_eq_ok_iff.1 hc
  have hlast := last?_layers (n := ("COURSETRACK_LOG_LEVEL", "log_level")) (by decide) h said
  rw [hlast, hvalue] at hlevel
  exact Except.ok.inj (hlevel.symm.trans (textOf_ofValue value))

/-- **A level of the log that can be used is kept as it is.** -/
theorem logLevel_of_check (hcheck : c.check = .ok ())
    (hvalue : bindings.value? "COURSETRACK_LOG_LEVEL" = some value) : c.logLevel = value := by
  have hlevel := logLevel_of_load h hload hvalue
  have hname : (LogLevel.ofName? c.logLevel).isSome = true := by
    unfold check at hcheck
    cases hname : LogLevel.ofName? c.logLevel with
    | none =>
      rw [hname] at hcheck
      cases hcheck
    | some l => rfl
  rw [hlevel] at hname ⊢
  exact reread_of_foreign_reread (exists_foreign_of_level hname)

end

end Configuration

namespace Program

variable {σ : Type} [FileAccess (StateM σ)]

theorem configurationAt_eq_ok_iff (hq : FileAccess.Quiet σ) {path : String} {required : Bool}
    {ours : String} {bindings : Variables} {fs : σ} {c : Configuration} :
    ((configurationAt path required ours bindings :
        ExceptT ConfigurationError (StateM σ) Configuration).run : StateM σ _).run fs =
        (.ok c, fs) ↔
      (required = true → ((FileAccess.isThere path : StateM σ Bool).run fs).1 = true) ∧
        Configuration.load ((configurationText path : StateM σ _).run fs).1 ours bindings =
          .ok c := by
  have hpair : ∀ r : Except ConfigurationError Configuration, (r, fs) = (.ok c, fs) ↔ r = .ok c :=
    fun r => ⟨congrArg Prod.fst, congrArg (·, fs)⟩
  rw [configurationAt_run hq]
  refine (hpair _).trans ?_
  cases required <;> cases ((FileAccess.isThere path : StateM σ Bool).run fs).1 <;> simp

/-- The configuration of a run can be used, and is loaded from some text. -/
theorem load_of_configurationOf (hq : FileAccess.Quiet σ) {i : Invocation} {around : Surroundings}
    {fs : σ} {c : Configuration} (h : configurationOf i around fs = .ok c) :
    c.check = .ok () ∧ ∃ text, Configuration.load text "COURSETRACK" around.bindings = .ok c := by
  rw [configurationOf_eq hq] at h
  obtain ⟨c', hat, h⟩ := bind_eq_ok_iff.1 h
  obtain ⟨_, hcheck, hc⟩ := bind_eq_ok_iff.1 h
  obtain rfl := Except.ok.inj hc
  rw [configurationAt_run hq] at hat
  dsimp only at hat
  split at hat
  · cases hat
  · exact ⟨hcheck, _, hat⟩

/-- **Settings come in layers**, the variables before the file and the file before the defaults:

* a configuration is loaded exactly where its file is there, if it has to be, and holds a document,
  and then it has what the layers say, the values of variables read again;
* a value that has a character which no number and no such word as `true` is made of is kept;
* so is the level of the log in every run whose configuration can be used;
* a variable that names the file of the store does what `--data` does with its value read again. -/
theorem settings_come_in_layers (hq : FileAccess.Quiet σ) {around : Surroundings}
    (h : around.bindings.Known) (fs : σ) :
    (∀ path required c, let text := ((configurationText path : StateM σ _).run fs).1
      (∀ said, Configuration.fileSettings text = .ok said → Configuration.Textual said) →
      (((configurationAt path required "COURSETRACK" around.bindings :
          ExceptT ConfigurationError (StateM σ) Configuration).run : StateM σ _).run fs =
          (.ok c, fs) ↔
        (required = true → ((FileAccess.isThere path : StateM σ Bool).run fs).1 = true) ∧
        ∃ said, Configuration.fileSettings text = .ok said ∧
          Configuration.Layered around.bindings said c)) ∧
    (∀ value : String, (∃ c ∈ value.toList, Setting.isGuessChar c = false) →
      Setting.reread value = value) ∧
    (∀ (i : Invocation) (c : Configuration) (value : String),
      configurationOf i around fs = .ok c →
      around.bindings.value? "COURSETRACK_LOG_LEVEL" = some value → c.logLevel = value) ∧
    ∀ (i : Invocation) (value : String),
      around.bindings.value? "COURSETRACK_DATA_FILE" = some value →
      (execute { i with data := none } around : StateM σ _).run fs =
        (execute { i with data := some (Setting.reread value) } around : StateM σ _).run fs := by
  refine ⟨?_, fun value => Setting.reread_of_foreign, ?_, ?_⟩
  · intro path required c text hsaid
    rw [configurationAt_eq_ok_iff hq, Configuration.load_eq_ok_iff h hsaid]
  · intro i c value hc
    obtain ⟨hcheck, text, hload⟩ := load_of_configurationOf hq hc
    exact Configuration.logLevel_of_check h hload hcheck
  · intro i value hvalue
    have hsame : ∀ data, configurationOf { i with data } around fs = configurationOf i around fs :=
      fun _ => rfl
    cases hc : configurationOf i around fs with
    | error e =>
      rw [execute_refused hq ((hsame _).trans hc), execute_refused hq ((hsame _).trans hc)]
    | ok c =>
      obtain ⟨-, text, hload⟩ := load_of_configurationOf hq hc
      rw [execute_configured hq ((hsame _).trans hc), execute_configured hq ((hsame _).trans hc),
        Configuration.dataFile_of_load h hload hvalue]
      rfl

/-- the level of the log from the file, and a path from a variable -/
theorem path_of_variable_kept :
    let fs : Files := ⟨[], [], [], [(["settings"], Configuration.fileText ⟨"warn", none, false⟩)]⟩
    let around : Surroundings := ⟨[("HOME", "/"), ("COURSETRACK_DATA_FILE", "/srv/007")], none,
      false, ⟨400, 0, by decide, by decide⟩⟩
    let i : Invocation := ⟨.showRecord ⟨3, 7⟩, none, some "settings", false, false, false⟩
    ((configurationAt "settings" true "COURSETRACK" around.bindings :
        ExceptT ConfigurationError (StateM Files) Configuration).run : StateM Files _).run fs =
      (.ok ⟨"warn", some "/srv/007", false⟩, fs) ∧
    Setting.reread "/srv/007" = "/srv/007" ∧
    (execute i around : StateM Files _).run fs =
      (execute { i with data := some "/srv/007" } around : StateM Files _).run fs := by
  intro fs around i
  have hknown : around.bindings.Known := by
    unfold Variables.Known
    decide
  have hvalue : around.bindings.value? "COURSETRACK_DATA_FILE" = some "/srv/007" := by decide
  obtain ⟨hloads, hkept, -, hsame⟩ := settings_come_in_layers Files.quiet hknown fs
  have hreread : Setting.reread "/srv/007" = "/srv/007" :=
    hkept _ ⟨'/', by decide, by decide⟩
  refine ⟨?_, hreread, ?_⟩
  · have hname : Files.IsName "settings" := by decide
    have hplace : fs.place? "settings" = some ["settings"] := Files.place?_name rfl hname
    have htext := configurationText_run ⟨rfl, fun _ h => by cases h⟩ (by decide +kernel) hplace rfl
    have hthere : (FileAccess.isThere "settings" : StateM Files Bool).run fs = (true, fs) :=
      congrArg (·, fs) (Files.isThere_of_text? hplace rfl)
    let said : List (List Char × Setting) :=
      [("log_level".toList, .text "warn".toList), ("optimistic_locking".toList, .boolean false)]
    have hread : Configuration.fileSettings
        ((configurationText "settings" : StateM Files _).run fs).1 = .ok said := by
      rw [htext]
      exact Configuration.fileSettings_fileText ⟨"warn", none, false⟩
    refine (hloads "settings" true _ ?_).2 ⟨fun _ => congrArg Prod.fst hthere, said, hread, ?_⟩
    · intro _ h
      obtain rfl := Except.ok.inj (hread.symm.trans h)
      simp [Configuration.Textual, Setting.valuesOf, said]
    · refine ⟨by decide, ?_, by decide +kernel⟩
      rw [hvalue, Option.map_some, hreread]
      rfl
  · have h := hsame i _ hvalue
    rwa [hreread] at h

/-- a value that looks like a number, which `--data` would keep -/
theorem path_of_variable_changed :
    let fs : Files := ⟨[], [], [], []⟩
    let around : Surroundings := ⟨[("COURSETRACK_DATA_FILE", "007")], none, false,
      ⟨400, 0, by decide, by decide⟩⟩
    let i : Invocation := ⟨.showRecord ⟨3, 7⟩, none, none, false, false, false⟩
    around.bindings.Known ∧
    configurationOf i around fs = .ok ⟨"info", some "7", true⟩ ∧
    storePath? i around fs = some "7" ∧
    storePath? { i with data := some "007" } around fs = some "007" := by
  intro fs around i
  have hknown : around.bindings.Known := by
    unfold Variables.Known
    decide
  have hconfiguration : ∀ data, configurationOf { i with data } around fs =
      .ok ⟨"info", some "7", true⟩ := by
    intro data
    have hload : Configuration.load none "COURSETRACK" around.bindings =
        .ok ⟨"info", some "7", true⟩ := by decide
    have habsent : ∀ path, fs.isFile path = false := by
      intro path
      unfold Files.isFile
      exact (Option.any_eq_false _ _).2 fun _ _ => rfl
    rw [configurationOf_absent rfl habsent, hload]
    rfl
  exact ⟨hknown, hconfiguration none, storePath?_of_ok (hconfiguration none),
    storePath?_of_ok (hconfiguration (some "007"))⟩

end Program

end CourseCompletion
