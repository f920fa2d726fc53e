import CourseCompletion.Command.Arguments
import Mathlib.Data.List.Nodup
import Mathlib.Data.List.TakeWhile

/-!
# Command lines and what they say

A command line names a subcommand, writes the options of its command behind the name, and each
common option before or behind it, all in any order.

* `OptionValue`          an option with its value, and `OptionValue.Spells` the ways to write it;
* `Writes`               arguments that write a subcommand, some options of its own and some common
                         ones;
* `Scan.Takes`           arguments that a level takes in whatever comes before and behind them;
* `Scan.takes_spelled`   what is spelled is taken, and all of it is entered.

`command_line_reads_back` says that whatever writes an invocation is read as this invocation, and
that a line without one of the options that the subcommand needs is not read.
-/

namespace CourseCompletion

/-! ## names -/

theorem find?_eq_some_of_unique {α : Type} {p : α → Bool} {x : α} {xs : List α} (hx : x ∈ xs)
    (hp : p x = true) (h : ∀ y, p y = true → y = x) : xs.find? p = some x := by
  obtain ⟨y, hy⟩ := Option.isSome_iff_exists.1 (List.find?_isSome.2 ⟨x, hx, hp⟩)
  rw [hy, h y (List.find?_some hy)]

namespace OptionName

variable {options : List OptionName} {o o' : OptionName} {c : Char}

/-- Every option is found by its name. -/
theorem ofText?_every (o : OptionName) : ofText? every o.text.toList = some o := by
  cases o <;> rfl

theorem text_injective (h : o.text.toList = o'.text.toList) : o = o' := by
  have hfind := ofText?_every o
  rw [h, ofText?_every o'] at hfind
  exact (Option.some.inj hfind).symm

theorem ofText?_text (h : o ∈ options) : ofText? options o.text.toList = some o := by
  refine find?_eq_some_of_unique h (decide_eq_true rfl) fun o' ho' => ?_
  exact text_injective (of_decide_eq_true ho')

/-- Every short form is found by its letter. -/
theorem ofLetter?_every (h : o.letter? = some c) : ofLetter? every c = some o := by
  cases o <;> cases h <;> rfl

theorem ofLetter?_of_letter? (ho : o ∈ options) (h : o.letter? = some c) :
    ofLetter? options c = some o := by
  refine find?_eq_some_of_unique ho (decide_eq_true h) fun o' ho' => ?_
  have hfind := ofLetter?_every h
  rw [ofLetter?_every (of_decide_eq_true ho')] at hfind
  exact Option.some.inj hfind

/-- No name of an option is empty or holds an equals sign. -/
theorem text_fits (o : OptionName) : o.text.toList ≠ [] ∧ ∀ c ∈ o.text.toList, c ≠ '=' := by
  cases o <;> simp [text]

end OptionName

namespace Subcommand

theorem ofText?_text (c : Subcommand) : ofText? c.text = some c := by
  cases c <;> rfl

theorem text_ne_help (c : Subcommand) : c.text ≠ "help" := by
  cases c <;> decide

/-- the options that a subcommand needs -/
def required : Subcommand → List OptionName
  | enrol | start | complete | aggregate | showRecord => [.user, .course]
  | bulkStart | reaggregate => [.course]
  | report => [.user]

end Subcommand

/-! ## arguments by themselves -/

namespace Argument

/-- An argument that begins with two dashes is an option by its name. -/
theorem ofText_long {s : String} {r : List Char} (h : s.toList = '-' :: '-' :: r) (hr : r ≠ []) :
    ofText s = .long (splitValue r).1 (splitValue r).2 := by
  unfold ofText
  rw [h]
  cases r with
  | nil => exact absurd rfl hr
  | cons c r => rfl

theorem splitValue_name {name : List Char} (h : ∀ c ∈ name, c ≠ '=') :
    splitValue name = (name, none) := by
  have hdrop : name.dropWhile (· ≠ '=') = [] := by
    rw [List.dropWhile_eq_nil_iff]
    simpa using h
  unfold splitValue
  rw [hdrop]

theorem splitValue_value {name : List Char} (h : ∀ c ∈ name, c ≠ '=') (value : List Char) :
    splitValue (name ++ '=' :: value) = (name, some value) := by
  have h' : ∀ c ∈ name, decide (c ≠ '=') = true := by simpa using h
  unfold splitValue
  rw [List.dropWhile_append_of_pos h', List.takeWhile_append_of_pos h']
  simp

/-- an option by its name, without a value -/
theorem ofText_name (o : OptionName) : ofText ("--" ++ o.text) = .long o.text.toList none := by
  have ⟨hname, hsign⟩ := o.text_fits
  have htext : ("--" ++ o.text).toList = '-' :: '-' :: o.text.toList := by simp
  rw [ofText_long htext hname, splitValue_name hsign]

/-- an option by its name, with a value, which begins behind the first equals sign -/
theorem ofText_value (o : OptionName) (v : String) :
    ofText ("--" ++ o.text ++ "=" ++ v) = .long o.text.toList (some v.toList) := by
  have htext : ("--" ++ o.text ++ "=" ++ v).toList =
      '-' :: '-' :: (o.text.toList ++ '=' :: v.toList) := by simp
  rw [ofText_long htext (by simp), splitValue_value o.text_fits.2]

theorem ofText_letter {o : OptionName} {c : Char} (h : o.letter? = some c) :
    ofText (String.ofList ['-', c]) = .short [c] := by
  cases o <;> cases h <;> rfl

/-- an argument that is no option, whatever it is -/
def IsPlain (s : String) : Prop := ∃ value, ofText s = .plain value

theorem not_isPlain_of_long {s : String} {name : List Char} {value : Option (List Char)}
    (h : ofText s = .long name value) : ¬IsPlain s := by
  rintro ⟨v, hplain⟩
  rw [h] at hplain
  cases hplain

theorem isPlain_text (c : Subcommand) : IsPlain c.text := by
  cases c <;> exact ⟨_, rfl⟩

/-- What is no name of a subcommand, since it is not plain. -/
theorem ofText?_eq_none {s : String} (h : ¬IsPlain s) : Subcommand.ofText? s = none := by
  refine Option.eq_none_iff_forall_ne_some.2 fun c hc => h ?_
  have hc' : Subcommand.every.find? (·.text = s) = some c := hc
  have htext : c.text = s := by simpa using List.find?_some hc'
  rw [← htext]
  exact isPlain_text c

end Argument

/-! ## options with their values -/

/-- An option with its value. -/
inductive OptionValue where
  | data (path : String)
  | config (path : String)
  | user (n : Int)
  | course (n : Int)
  | time (n : Int)
  | save
  | verbose
  | quiet
  | all
deriving DecidableEq

namespace OptionValue

def option : OptionValue → OptionName
  | data _ => .data
  | config _ => .config
  | user _ => .user
  | course _ => .course
  | time _ => .time
  | save => .save
  | verbose => .verbose
  | quiet => .quiet
  | all => .all

/-- the text of the value -/
def value? : OptionValue → Option String
  | data path | config path => some path
  | user n | course n | time n => some (String.ofList (decimalInt n))
  | save | verbose | quiet | all => none

/-- a value that can be entered: a path is not empty, a number has 64 bits -/
def Fits : OptionValue → Prop
  | data path | config path => path ≠ ""
  | user n | course n | time n => fitsSigned64 n = true
  | save | verbose | quiet | all => True

/-- the ways to write an option: by its name, a value behind an equals sign or as an argument of
its own that is no option, or by its letter -/
inductive Spells : OptionValue → List String → Prop
  | flag {o : OptionValue} (h : o.value? = none) : Spells o ["--" ++ o.option.text]
  | letter {o : OptionValue} {c : Char} (h : o.option.letter? = some c) :
      Spells o [String.ofList ['-', c]]
  | joined {o : OptionValue} {v : String} (h : o.value? = some v) :
      Spells o ["--" ++ o.option.text ++ "=" ++ v]
  | apart {o : OptionValue} {v : String} (h : o.value? = some v)
      (hv : Argument.ofText v = .plain v) : Spells o ["--" ++ o.option.text, v]

end OptionValue

/-- options written one after the other -/
inductive Spelled : List OptionValue → List String → Prop
  | nil : Spelled [] []
  | cons {o : OptionValue} {os : List OptionValue} {written arguments : List String}
      (h : o.Spells written) (hrest : Spelled os arguments) :
      Spelled (o :: os) (written ++ arguments)

/-- a subcommand with options of its own behind it, and common ones before or behind it -/
def Writes (c : Subcommand) (own common : List OptionValue) (arguments : List String) : Prop :=
  ∃ front back behind before after, (front ++ back).Perm common ∧ behind.Perm (own ++ back) ∧
    Spelled front before ∧ Spelled behind after ∧ arguments = before ++ c.text :: after

namespace Command

def subcommand : Command → Subcommand
  | enrol .. => .enrol
  | start .. => .start
  | complete .. => .complete
  | aggregate .. => .aggregate
  | bulkStart .. => .bulkStart
  | reaggregate .. => .reaggregate
  | report .. => .report
  | showRecord .. => .showRecord

/-- the options that say what is asked for -/
def options : Command → List OptionValue
  | enrol k time | start k time | complete k time =>
    [.user k.user, .course k.course] ++ (time.map .time).toList
  | aggregate k | showRecord k => [.user k.user, .course k.course]
  | bulkStart course => [.course course]
  | reaggregate course all => .course course :: if all then [.all] else []
  | report user course => .user user :: (course.map .course).toList

end Command

/-- the common options of an invocation -/
def Invocation.common (i : Invocation) : List OptionValue :=
  (i.data.map .data).toList ++ (i.config.map .config).toList ++ (if i.save then [.save] else []) ++
    (if i.verbose then [.verbose] else []) ++ if i.quiet then [.quiet] else []

/-! ## what is given -/

namespace Given

/-- an option entered with its value -/
def set (g : Given) : OptionValue → Given
  | .data path => { g with data := some path }
  | .config path => { g with config := some path }
  | .user n => { g with user := some n }
  | .course n => { g with course := some n }
  | .time n => { g with time := some n }
  | .save => { g with save := true }
  | .verbose => { g with verbose := true }
  | .quiet => { g with quiet := true }
  | .all => { g with all := true }

/-- what some options give -/
def of (os : List OptionValue) : Given := os.foldl set nothing

variable {g : Given} {o o' : OptionValue} {os os' : List OptionValue}

theorem has_set (g : Given) (o : OptionValue) (p : OptionName) :
    (g.set o).has p = (decide (o.option = p) || g.has p) := by
  cases o <;> cases p <;> rfl

theorem set_comm (h : o.option ≠ o'.option) : (g.set o).set o' = (g.set o').set o := by
  cases o <;> cases o' <;> first | rfl | exact absurd rfl h

theorem has_foldl_set (p : OptionName) :
    (os.foldl set g).has p = true ↔ (∃ o ∈ os, o.option = p) ∨ g.has p = true := by
  induction os generalizing g with
  | nil => simp
  | cons o os ih =>
    rw [List.foldl_cons, ih, has_set]
    simp [or_assoc, or_left_comm]

theorem has_nothing (p : OptionName) : nothing.has p = false := by
  cases p <;> rfl

theorem has_of (p : OptionName) : (of os).has p = true ↔ ∃ o ∈ os, o.option = p := by
  unfold of
  rw [has_foldl_set, has_nothing]
  simp

theorem data_eq_none (h : g.has .data = false) : g.data = none :=
  Option.not_isSome_iff_eq_none.1 (Bool.eq_false_iff.1 h)

theorem config_eq_none (h : g.has .config = false) : g.config = none :=
  Option.not_isSome_iff_eq_none.1 (Bool.eq_false_iff.1 h)

/-- **The order of different options does not show.** -/
theorem of_perm (hnodup : (os.map OptionValue.option).Nodup) (h : os.Perm os') : of os = of os' := by
  refine h.foldl_eq' (fun o ho o' ho' g => ?_) _
  by_cases heq : o.option = o'.option
  · rw [List.inj_on_of_nodup_map hnodup ho ho' heq]
  · exact set_comm heq

/-! ### common options -/

theorem command?_set_common (ho : o.option ∈ OptionName.common) (c : Subcommand) :
    (g.set o).command? c = g.command? c := by
  cases o with
  | user n | course n | time n => exact absurd ho (by simp [OptionValue.option, OptionName.common])
  | all => exact absurd ho (by decide)
  | data path | config path => cases c <;> rfl
  | save | verbose | quiet => cases c <;> rfl

/-- Common options have no part in the command. -/
theorem command?_of_append (hos : ∀ o ∈ os, o.option ∈ OptionName.common) (c : Subcommand) :
    (of (os' ++ os)).command? c = (of os').command? c := by
  unfold of
  rw [List.foldl_append]
  generalize os'.foldl set nothing = g
  induction os generalizing g with
  | nil => rfl
  | cons o os ih =>
    rw [List.foldl_cons, ih fun o' ho' => hos o' (List.mem_cons_of_mem o ho')]
    exact command?_set_common (hos o List.mem_cons_self) c

theorem withOuter_set (ho : o.option ∈ OptionName.common) (hg : g.has o.option = false)
    (outer : Given) : g.withOuter (outer.set o) = (g.withOuter outer).set o := by
  cases o with
  | data path => simp [withOuter, set, data_eq_none hg]
  | config path => simp [withOuter, set, config_eq_none hg]
  | save | verbose | quiet => simp [withOuter, set]
  | user n | course n | time n => exact absurd ho (by simp [OptionValue.option, OptionName.common])
  | all => exact absurd ho (by decide)

theorem withOuter_of (hos : ∀ o ∈ os, o.option ∈ OptionName.common)
    (hg : ∀ o ∈ os, g.has o.option = false) : g.withOuter (of os) = os.foldl set g := by
  have hrun : ∀ outer : Given, g.withOuter (os.foldl set outer) =
      os.foldl set (g.withOuter outer) := by
    induction os with
    | nil => exact fun outer => rfl
    | cons o os ih =>
      intro outer
      have hrest := ih (fun o' ho' => hos o' (List.mem_cons_of_mem o ho'))
        fun o' ho' => hg o' (List.mem_cons_of_mem o ho')
      rw [List.foldl_cons, List.foldl_cons, hrest,
        withOuter_set (hos o List.mem_cons_self) (hg o List.mem_cons_self)]
  have hnothing : g.withOuter nothing = g := by
    simp [withOuter, nothing]
  unfold of
  rw [hrun, hnothing]

/-! ### entering -/

theorem takesValue_option (o : OptionValue) : o.option.takesValue = o.value?.isSome := by
  cases o <;> rfl

theorem raise_option (h : o.value? = none) (g : Given) : g.raise o.option = .ok (g.set o) := by
  cases o <;> first | rfl | cases h

theorem number_decimalInt {n : Int} (h : fitsSigned64 n = true) :
    number (String.ofList (decimalInt n)) = .ok n := by
  unfold number
  rw [String.toList_ofList, signed64?_decimalInt h]
  rfl

theorem put_option {v : String} (h : o.value? = some v) (hfits : o.Fits) (g : Given) :
    g.put v o.option = .ok (g.set o) := by
  cases o with
  | data path | config path =>
    obtain rfl := Option.some.inj h
    have hpath : Given.path path = .ok path := if_neg hfits
    show (Given.path path >>= fun p => _) = _
    rw [hpath]
    rfl
  | user n | course n | time n =>
    obtain rfl := Option.some.inj h
    show (number _ >>= fun p => _) = _
    rw [number_decimalInt hfits]
    rfl
  | save | verbose | quiet | all => cases h

theorem enter_option {v : String} (h : o.value? = some v) (hfits : o.Fits)
    (hg : g.has o.option = false) : g.enter o.option v = .ok (g.set o) := by
  unfold enter
  rw [hg]
  exact put_option h hfits g

end Given

/-! ## what a level takes in -/

namespace Scan

/-- a level that was given something and waits for nothing more -/
structure Holds (s : Scan) (g : Given) : Prop where
  escaped : s.escaped = false
  waiting : s.isWaiting = false
  settle : s.settle = .ok g

theorem holds_start : start.Holds .nothing := ⟨rfl, rfl, rfl⟩

/-- arguments that a level takes in, each as an option or as the value that an option waits for -/
inductive Takes (options : List OptionName) : Scan → List String → Scan → Prop
  | nil (s : Scan) : Takes options s [] s
  | cons {s t s' : Scan} {argument : String} {arguments : List String}
      (h : s.isWaiting = true ∨ ¬Argument.IsPlain argument)
      (htake : ∀ stray, s.take options stray argument = .ok t)
      (hrest : Takes options t arguments s') : Takes options s (argument :: arguments) s'

variable {options : List OptionName} {s t s' : Scan} {written arguments : List String}

namespace Takes

theorem append (h : Takes options s written t) (hrest : Takes options t arguments s') :
    Takes options s (written ++ arguments) s' := by
  induction h with
  | nil s => exact hrest
  | cons h htake _ ih => exact .cons h htake (ih hrest)

theorem foldlM (h : Takes options s written t) (stray : UsageError) :
    written.foldlM (take options stray) s = .ok t := by
  induction h with
  | nil s => rfl
  | cons _ htake _ ih =>
    rw [List.foldlM_cons, htake stray]
    exact ih

/-- Nothing that is taken in before a subcommand is read as a subcommand. -/
theorem read (h : Takes OptionName.leading s written t) (rest : List String) :
    Invocation.read s (written ++ rest) = Invocation.read t rest := by
  induction h with
  | nil s => rfl
  | @cons s t s' argument arguments h htake _ ih =>
    have hstep : Invocation.read s (argument :: (arguments ++ rest)) =
        s.take OptionName.leading (Invocation.stray s argument) argument >>=
          (Invocation.read · (arguments ++ rest)) := by
      rw [Invocation.read]
      by_cases hwaiting : (s.escaped || s.isWaiting) = true
      · rw [if_pos hwaiting]
      · have hplain : ¬Argument.IsPlain argument := by
          refine h.resolve_left fun hw => hwaiting ?_
          rw [hw, Bool.or_true]
        have hhelp : argument ≠ "help" := by
          rintro rfl
          exact hplain ⟨_, rfl⟩
        rw [if_neg hwaiting, if_neg hhelp, Argument.ofText?_eq_none hplain]
    rw [List.cons_append, hstep, htake]
    exact ih

end Takes

variable {g : Given} {o : OptionValue} {os : List OptionValue}

theorem holds_flag (hs : s.Holds g) (h : o.value? = none) (hg : g.has o.option = false) :
    ∃ s', s.flag o.option = .ok s' ∧ s'.Holds (g.set o) := by
  refine ⟨{ s with given := g.set o, pending := none }, ?_, hs.escaped, rfl, rfl⟩
  unfold flag
  rw [hs.settle]
  show (if g.has o.option then _ else _) = _
  rw [hg, Given.raise_option h]
  rfl

theorem take_long {argument : String} {name : List Char} {value : Option (List Char)}
    (hs : s.escaped = false) (h : Argument.ofText argument = .long name value)
    (stray : UsageError) : s.take options stray argument = s.long options name value := by
  unfold take
  rw [hs, h]
  rfl

theorem long_text (ho : o.option ∈ options) (value : Option (List Char)) :
    s.long options o.option.text.toList value =
      if o.value?.isSome then s.valued o.option value
      else if value.isSome then throw .tooManyValues else s.flag o.option := by
  unfold long
  rw [OptionName.ofText?_text ho]
  simp only [Given.takesValue_option]

section

variable (hs : s.Holds g) (ho : o.option ∈ options) (hg : g.has o.option = false)
include hs ho hg

theorem takes_flag (h : o.value? = none) :
    ∃ s', Takes options s ["--" ++ o.option.text] s' ∧ s'.Holds (g.set o) := by
  have hlong := Argument.ofText_name o.option
  obtain ⟨s', hflag, hs'⟩ := holds_flag hs h hg
  refine ⟨s', .cons (.inr (Argument.not_isPlain_of_long hlong)) (fun stray => ?_) (.nil s'), hs'⟩
  rw [take_long hs.escaped hlong, long_text ho, h]
  exact hflag

theorem takes_letter {c : Char} (h : o.option.letter? = some c) :
    ∃ s', Takes options s [String.ofList ['-', c]] s' ∧ s'.Holds (g.set o) := by
  have hshort := Argument.ofText_letter h
  have hv : o.value? = none := by
    cases o <;> first | rfl | cases h
  obtain ⟨s', hflag, hs'⟩ := holds_flag hs hv hg
  refine ⟨s', .cons (.inr ?_) (fun stray => ?_) (.nil s'), hs'⟩
  · rintro ⟨v, hplain⟩
    rw [hshort] at hplain
    cases hplain
  · unfold take
    rw [hs.escaped, hshort]
    show short options s [c] = _
    unfold short
    rw [OptionName.ofLetter?_of_letter? ho h]
    show (s.flag o.option >>= fun t => short options t []) = _
    rw [hflag]
    rfl

theorem takes_joined {v : String} (h : o.value? = some v) (hfits : o.Fits) :
    ∃ s', Takes options s ["--" ++ o.option.text ++ "=" ++ v] s' ∧ s'.Holds (g.set o) := by
  have hlong := Argument.ofText_value o.option v
  refine ⟨{ s with given := g.set o, pending := none },
    .cons (.inr (Argument.not_isPlain_of_long hlong)) (fun stray => ?_) (.nil _),
    hs.escaped, rfl, rfl⟩
  rw [take_long hs.escaped hlong, long_text ho, h]
  show s.valued o.option (some v.toList) = _
  unfold valued
  rw [hs.settle]
  show (g.enter o.option (String.ofList v.toList) >>= fun given => _) = _
  rw [String.ofList_toList, Given.enter_option h hfits hg]
  rfl

/-- A value of its own is entered once the level is settled. -/
theorem takes_apart {v : String} (h : o.value? = some v) (hfits : o.Fits)
    (hplain : Argument.ofText v = .plain v) :
    ∃ s', Takes options s ["--" ++ o.option.text, v] s' ∧ s'.Holds (g.set o) := by
  have hlong := Argument.ofText_name o.option
  let waiting : Scan := ⟨g, some ⟨o.option, none⟩, false⟩
  let full : Scan := ⟨g, some ⟨o.option, some v⟩, false⟩
  have hname : ∀ stray, s.take options stray ("--" ++ o.option.text) = .ok waiting := by
    intro stray
    rw [take_long hs.escaped hlong, long_text ho, h]
    show s.valued o.option none = _
    unfold valued
    rw [hs.settle, hs.escaped]
    rfl
  have hvalue : ∀ stray, waiting.take options stray v = .ok full := by
    intro stray
    unfold take
    rw [hplain]
    rfl
  refine ⟨full, .cons (.inr (Argument.not_isPlain_of_long hlong)) hname
    (.cons (.inl rfl) hvalue (.nil full)), rfl, rfl, ?_⟩
  exact Given.enter_option h hfits hg

/-- An option that is new to a level is taken in by it, however it is written. -/
theorem takes_spells (hfits : o.Fits) (h : o.Spells written) :
    ∃ s', Takes options s written s' ∧ s'.Holds (g.set o) := by
  cases h with
  | flag hv => exact takes_flag hs ho hg hv
  | letter hc => exact takes_letter hs ho hg hc
  | joined hv => exact takes_joined hs ho hg hv hfits
  | apart hv hplain => exact takes_apart hs ho hg hv hfits hplain

end

/-- **What is spelled is taken in, and all of it is entered.** -/
theorem takes_spelled (hs : s.Holds g) (h : Spelled os written)
    (hos : ∀ o ∈ os, o.option ∈ options ∧ o.Fits ∧ g.has o.option = false)
    (hnodup : (os.map OptionValue.option).Nodup) :
    ∃ s', Takes options s written s' ∧ s'.Holds (os.foldl Given.set g) := by
  induction h generalizing s g with
  | nil => exact ⟨s, .nil s, hs⟩
  | @cons o os written arguments hspells _ ih =>
    obtain ⟨ho, hnodup⟩ := List.nodup_cons.1 hnodup
    obtain ⟨hmem, hfits, hg⟩ := hos o List.mem_cons_self
    obtain ⟨t, htakes, ht⟩ := takes_spells hs hmem hg hfits hspells
    have hrest : ∀ o' ∈ os, o'.option ∈ options ∧ o'.Fits ∧ (g.set o).has o'.option = false := by
      intro o' ho'
      obtain ⟨hmem', hfits', hg'⟩ := hos o' (List.mem_cons_of_mem o ho')
      refine ⟨hmem', hfits', ?_⟩
      have hne : o.option ≠ o'.option := fun heq => ho (heq ▸ List.mem_map_of_mem ho')
      rw [Given.has_set, hg', decide_eq_false hne]
      rfl
    obtain ⟨s', htakes', hs'⟩ := ih ht hrest hnodup
    exact ⟨s', htakes.append htakes', hs'⟩

end Scan

/-! ## what is needed -/

namespace Given

variable {g : Given}

/-- A command can be made exactly of what its subcommand needs. -/
theorem command?_isSome_iff (c : Subcommand) :
    (g.command? c).isSome = true ↔ ∀ o ∈ c.required, g.has o = true := by
  obtain ⟨data, config, user, course, time, save, verbose, quiet, all⟩ := g
  cases c <;> cases user <;> cases course <;>
    simp [command?, key?, Subcommand.required, has]

/-- The options of a command make this command. -/
theorem command?_of_options (c : Command) : (of c.options).command? c.subcommand = some c := by
  cases c with
  | enrol k time | start k time | complete k time => cases time <;> rfl
  | report user course => cases course <;> rfl
  | reaggregate course all => cases all <;> rfl
  | aggregate k | showRecord k | bulkStart course => rfl

/-- The common options of an invocation, beside options of another kind. -/
theorem foldl_common (hg : ∀ p ∈ OptionName.common, g.has p = false) (i : Invocation) :
    i.common.foldl set g =
      { g with
        data := i.data
        config := i.config
        save := i.save
        verbose := i.verbose
        quiet := i.quiet } := by
  have hadd : i.common.foldl set g =
      { g with
        data := i.data <|> g.data
        config := i.config <|> g.config
        save := i.save || g.save
        verbose := i.verbose || g.verbose
        quiet := i.quiet || g.quiet } := by
    obtain ⟨command, data, config, save, verbose, quiet⟩ := i
    cases data <;> cases config <;> cases save <;> cases verbose <;> cases quiet <;> rfl
  have hsave : g.save = false := hg .save (by decide)
  have hverbose : g.verbose = false := hg .verbose (by decide)
  have hquiet : g.quiet = false := hg .quiet (by decide)
  rw [hadd, data_eq_none (hg .data (by decide)), config_eq_none (hg .config (by decide)), hsave,
    hverbose, hquiet]
  simp

theorem of_append_common {own : List OptionValue}
    (hown : ∀ o ∈ own, o.option ∉ OptionName.common) (i : Invocation) :
    of (own ++ i.common) =
      { of own with
        data := i.data
        config := i.config
        save := i.save
        verbose := i.verbose
        quiet := i.quiet } := by
  have hnone : ∀ p ∈ OptionName.common, (of own).has p = false := by
    intro p hp
    rw [Bool.eq_false_iff, ne_eq, has_of]
    rintro ⟨o, ho, rfl⟩
    exact hown o ho hp
  have happend : of (own ++ i.common) = i.common.foldl set (of own) := List.foldl_append
  rw [happend, foldl_common hnone]

end Given

/-! ## whole lines -/

theorem Subcommand.given_eq {c : Subcommand} {os : List OptionValue} {arguments : List String}
    (h : Spelled os arguments)
    (hos : ∀ o ∈ os, o.option ∈ c.options ++ OptionName.common ∧ o.Fits)
    (hnodup : (os.map OptionValue.option).Nodup) :
    c.given arguments =
      if ((Given.of os).command? c).isNone then .error .missingArgument else .ok (.of os) := by
  obtain ⟨s, htakes, hs⟩ : ∃ s, Scan.Takes (c.options ++ OptionName.common) .start arguments s ∧
      s.Holds (.of os) :=
    Scan.takes_spelled Scan.holds_start h
      (fun o ho => ⟨(hos o ho).1, (hos o ho).2, Given.has_nothing _⟩) hnodup
  have hread := htakes.foldlM .unknownArgument
  unfold given
  show (List.foldlM _ _ _ >>= fun s : Scan => s.settle >>= fun given => _) = _
  rw [hread]
  show (s.settle >>= fun given => _) = _
  rw [hs.settle]
  show (if _ then _ else _) = _
  split <;> rfl

/-- A line is read as what was given on its levels, if the level behind the subcommand has all that
the subcommand needs. -/
theorem Invocation.ofArguments_eq {c : Subcommand} {front behind : List OptionValue}
    {before after : List String} (hbefore : Spelled front before) (hafter : Spelled behind after)
    (hfront : ∀ o ∈ front, o.option ∈ OptionName.common ∧ o.Fits)
    (hbehind : ∀ o ∈ behind, o.option ∈ c.options ++ OptionName.common ∧ o.Fits)
    (hnodup : ((behind ++ front).map OptionValue.option).Nodup) :
    ofArguments (before ++ c.text :: after) =
      match (Given.of behind).command? c with
      | none => .error .missingArgument
      | some command =>
        let g := Given.of (behind ++ front)
        .ok ⟨command, g.data, g.config, g.save, g.verbose, g.quiet⟩ := by
  rw [List.map_append, List.nodup_append] at hnodup
  obtain ⟨hbehind', hfront', hdisjoint⟩ := hnodup
  obtain ⟨s, htakes, hs⟩ : ∃ s, Scan.Takes OptionName.leading .start before s ∧
      s.Holds (.of front) :=
    Scan.takes_spelled Scan.holds_start hbefore (fun o ho =>
      ⟨List.mem_append_left _ (hfront o ho).1, (hfront o ho).2, Given.has_nothing _⟩) hfront'
  have hgiven := Subcommand.given_eq hafter hbehind hbehind'
  -- the level waits for no value here, so the name of the subcommand is read as such
  have hread : ofArguments (before ++ c.text :: after) =
      c.given after >>= fun inner => s.settle >>= fun outer => ofGiven c inner outer := by
    unfold ofArguments
    rw [htakes.read, read, hs.escaped, hs.waiting, Subcommand.ofText?_text,
      if_neg (by simp), if_neg c.text_ne_help]
  have hhas : ∀ o ∈ front, (Given.of behind).has o.option = false := by
    intro o ho
    rw [Bool.eq_false_iff, ne_eq, Given.has_of]
    rintro ⟨o', ho', heq⟩
    exact hdisjoint _ (List.mem_map_of_mem ho') _ (List.mem_map_of_mem ho) heq
  have houter : (Given.of behind).withOuter (.of front) = .of (behind ++ front) := by
    rw [Given.withOuter_of (fun o ho => (hfront o ho).1) hhas]
    exact List.foldl_append.symm
  have hcommand : (Given.of (behind ++ front)).command? c = (Given.of behind).command? c :=
    Given.command?_of_append (fun o ho => (hfront o ho).1) c
  rw [hread, hgiven, hs.settle]
  cases hc : (Given.of behind).command? c with
  | none => rfl
  | some command =>
    show ofGiven c _ _ = _
    simp only [ofGiven, houter, hcommand, hc]
    rfl

/-! ## invocations -/

/-- The options of a command are options of its subcommand, each at most once. -/
theorem Command.options_sublist (c : Command) :
    (c.options.map OptionValue.option).Sublist c.subcommand.options := by
  refine List.isSublist_iff_sublist.1 ?_
  cases c with
  | enrol k time | start k time | complete k time => cases time <;> rfl
  | report user course => cases course <;> rfl
  | reaggregate course all => cases all <;> rfl
  | aggregate k | showRecord k | bulkStart course => rfl

theorem Invocation.common_sublist (i : Invocation) :
    (i.common.map OptionValue.option).Sublist OptionName.common := by
  refine List.isSublist_iff_sublist.1 ?_
  obtain ⟨command, data, config, save, verbose, quiet⟩ := i
  cases data <;> cases config <;> cases save <;> cases verbose <;> cases quiet <;> rfl

/-- The same of some options of the command with the common ones. -/
theorem Invocation.options_sublist (i : Invocation) {own : List OptionValue}
    (hown : own.Sublist i.command.options) :
    ((own ++ i.common).map OptionValue.option).Sublist
      (i.command.subcommand.options ++ OptionName.common) := by
  rw [List.map_append]
  exact ((hown.map _).trans i.command.options_sublist).append i.common_sublist

/-- What stands on the two levels of a line are the options of both kinds. -/
theorem levels_perm {own common front back behind : List OptionValue}
    (hcommon : (front ++ back).Perm common) (hbehind : behind.Perm (own ++ back)) :
    (behind ++ front).Perm (own ++ common) := by
  calc (behind ++ front).Perm (own ++ back ++ front) := hbehind.append_right front
    _ = own ++ (back ++ front) := List.append_assoc ..
    List.Perm _ (own ++ (front ++ back)) := List.perm_append_comm.append_left own
    List.Perm _ (own ++ common) := hcommon.append_left own

theorem Subcommand.nodup_options (c : Subcommand) : (c.options ++ OptionName.common).Nodup := by
  cases c <;> decide

/-- What writes options of an invocation is read as this invocation, if the options of its command
that are there make a command. -/
theorem Invocation.ofArguments_of_writes {i : Invocation} {own : List OptionValue}
    {arguments : List String} (hi : ∀ o ∈ i.command.options ++ i.common, o.Fits)
    (hown : own.Sublist i.command.options)
    (h : Writes i.command.subcommand own i.common arguments) :
    ofArguments arguments =
      match (Given.of own).command? i.command.subcommand with
      | none => .error .missingArgument
      | some command => .ok { i with command } := by
  obtain ⟨front, back, behind, before, after, hcommon, hbehind, hbefore, hafter, rfl⟩ := h
  have hall := levels_perm hcommon hbehind
  have hsub := i.options_sublist hown
  have hdifferent : ((own ++ i.common).map OptionValue.option).Nodup :=
    i.command.subcommand.nodup_options.sublist hsub
  have hnodup : ((behind ++ front).map OptionValue.option).Nodup :=
    (hall.map _).nodup_iff.2 hdifferent
  have hfits : ∀ o ∈ own ++ i.common, o.Fits := fun o ho =>
    hi o ((hown.append (List.Sublist.refl _)).subset ho)
  have hfront : ∀ o ∈ front, o.option ∈ OptionName.common ∧ o.Fits := by
    intro o ho
    have hmem : o ∈ i.common := hcommon.subset (List.mem_append_left _ ho)
    exact ⟨i.common_sublist.subset (List.mem_map_of_mem hmem),
      hfits o (List.mem_append_right _ hmem)⟩
  have hback : ∀ o ∈ back, o.option ∈ OptionName.common := by
    intro o ho
    have hmem : o ∈ i.common := hcommon.subset (List.mem_append_right _ ho)
    exact i.common_sublist.subset (List.mem_map_of_mem hmem)
  have hlevel : ∀ o ∈ behind, o.option ∈ i.command.subcommand.options ++ OptionName.common ∧
      o.Fits := by
    intro o ho
    have hmem : o ∈ own ++ i.common := hall.subset (List.mem_append_left _ ho)
    exact ⟨hsub.subset (List.mem_map_of_mem hmem), hfits o hmem⟩
  have hcommand : (Given.of behind).command? i.command.subcommand =
      (Given.of own).command? i.command.subcommand := by
    have hbehind' : (behind.map OptionValue.option).Nodup := by
      rw [List.map_append] at hnodup
      exact (List.nodup_append.1 hnodup).1
    rw [Given.of_perm hbehind' hbehind]
    exact Given.command?_of_append hback _
  have hown' : ∀ o ∈ own, o.option ∉ OptionName.common := by
    intro o ho hmem
    have hmem' : o.option ∈ i.command.subcommand.options :=
      i.command.options_sublist.subset (List.mem_map_of_mem (hown.subset ho))
    exact (List.nodup_append.1 i.command.subcommand.nodup_options).2.2 _ hmem' _ hmem rfl
  rw [ofArguments_eq hbefore hafter hfront hlevel hnodup, hcommand, Given.of_perm hnodup hall,
    Given.of_append_common hown']

/-- **Command lines say what they are read as.**  Arguments that name the subcommand of an
invocation, write the options of its command behind the name and each of its common options before
or behind it, in any order and spelled in any way, are read as the invocation.  Without one of the
options that the subcommand needs, they are not read. -/
theorem command_line_reads_back (i : Invocation)
    (hi : ∀ o ∈ i.command.options ++ i.common, o.Fits) :
    (∀ arguments, Writes i.command.subcommand i.command.options i.common arguments →
      Invocation.ofArguments arguments = .ok i) ∧
    ∀ own arguments, own.Sublist i.command.options →
      (∃ p ∈ i.command.subcommand.required, ∀ o ∈ own, o.option ≠ p) →
      Writes i.command.subcommand own i.common arguments →
      Invocation.ofArguments arguments = .error .missingArgument := by
  constructor
  · intro arguments h
    rw [Invocation.ofArguments_of_writes hi (List.Sublist.refl _) h, Given.command?_of_options]
  · rintro own arguments hown ⟨p, hp, hmissing⟩ h
    have hnone : (Given.of own).command? i.command.subcommand = none := by
      rw [← Option.not_isSome_iff_eq_none, Given.command?_isSome_iff]
      intro hall
      obtain ⟨o, ho, heq⟩ := (Given.has_of p).1 (hall p hp)
      exact hmissing o ho heq
    rw [Invocation.ofArguments_of_writes hi hown h, hnone]

/-- a negative time, a value that is the name of the subcommand, a letter, and common options on
both sides; then the same without the course, and with names and values written in other ways -/
theorem negative_time_reads_back :
    let i : Invocation := ⟨.complete ⟨3, 7⟩ (some (-86400)), some "complete", none, true, false, true⟩
    Invocation.ofArguments ["-q", "--data", "complete", "complete", "--time=-86400", "--save",
      "--course=7", "--user", "3"] = .ok i ∧
    Invocation.ofArguments ["complete", "--save", "--time=-86400", "--data=complete", "--user=3",
      "--quiet"] = .error .missingArgument := by
  intro i
  have hi : ∀ o ∈ i.command.options ++ i.common, o.Fits := by
    simp [i, Command.options, Invocation.common, OptionValue.Fits, fitsSigned64]
  obtain ⟨hreads, hmissing⟩ := command_line_reads_back i hi
  have hbefore : Spelled [.quiet, .data "complete"] ["-q", "--data", "complete"] :=
    .cons (.letter rfl) (.cons (.apart rfl rfl) .nil)
  have htime : (OptionValue.time (-86400)).Spells ["--time=-86400"] :=
    .joined (v := "-86400") rfl
  have hcourse : (OptionValue.course 7).Spells ["--course=7"] := .joined (v := "7") rfl
  have hdata : (OptionValue.data "complete").Spells ["--data=complete"] :=
    .joined (v := "complete") rfl
  have huser : (OptionValue.user 3).Spells ["--user=3"] := .joined (v := "3") rfl
  have hbehind : Spelled [.time (-86400), .save, .course 7, .user 3]
      ["--time=-86400", "--save", "--course=7", "--user", "3"] :=
    .cons htime (.cons (.flag rfl) (.cons hcourse (.cons (.apart rfl rfl) .nil)))
  have hbehind' : Spelled [.save, .time (-86400), .data "complete", .user 3, .quiet]
      ["--save", "--time=-86400", "--data=complete", "--user=3", "--quiet"] :=
    .cons (.flag rfl) (.cons htime (.cons hdata (.cons huser (.cons (.flag rfl) .nil))))
  constructor
  · exact hreads _ ⟨_, [.save], _, _, _, by decide, by decide, hbefore, hbehind, rfl⟩
  · refine hmissing [.user 3, .time (-86400)] _ ?_ ⟨.course, by decide, by decide⟩
      ⟨[], [.save, .data "complete", .quiet], _, _, _, by decide, by decide, .nil, hbehind', rfl⟩
    decide

end CourseCompletion
