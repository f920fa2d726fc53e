import CourseCompletion.Proofs.Files
import Mathlib.Data.String.Basic

/-!
# Paths from the root

`Files.fromRoot` makes a path begin at the root.  In a `Proper` tree of files, whose working
directory is there, it leads where the path led (`Files.place?_fromRoot`), and writing a file keeps
a tree proper (`Files.Proper.written`).

A path is split between its slashes (`Path.splitOn_slash`), and one that was joined from names is
split into these names again (`Files.parts_fromRoot`).
-/

namespace CourseCompletion

namespace Path

/-! ## the parts of a path -/

open String in
theorem splitOnAux_slash (before part rest : List Char) (parts : List String) :
    splitOnAux (ofList (before ++ part ++ rest)) "/" ⟨utf8Len before⟩
        ⟨utf8Len before + utf8Len part⟩ 0 parts =
      parts.reverse ++ (List.splitOnPPrepend (· == '/') rest part.reverse).map ofList := by
  induction rest generalizing before part parts with
  | nil =>
    have hend : Pos.Raw.atEnd (ofList (before ++ part ++ []))
        ⟨utf8Len before + utf8Len part⟩ = true := by
      rw [atEnd_iff, rawEndPos_ofList, List.append_nil, utf8Len_append]
      exact Nat.le_refl _
    unfold splitOnAux
    rw [if_pos hend]
    show (Pos.Raw.extract (ofList (before ++ part ++ [])) ⟨utf8Len before⟩
      ⟨utf8Len before + utf8Len part⟩ :: parts).reverse = _
    rw [extract_of_valid before part []]
    simp
  | cons c rest ih =>
    have hend : ¬Pos.Raw.atEnd (ofList (before ++ part ++ c :: rest))
        ⟨utf8Len before + utf8Len part⟩ = true := by
      have hc := c.utf8Size_pos
      rw [atEnd_iff, rawEndPos_ofList, utf8Len_append, utf8Len_append, utf8Len_cons,
        Pos.Raw.mk_le_mk]
      omega
    have hget : Pos.Raw.get (ofList (before ++ part ++ c :: rest))
        ⟨utf8Len before + utf8Len part⟩ = c := by
      have h := get_of_valid (before ++ part) (c :: rest)
      rwa [utf8Len_append] at h
    have hnext : Pos.Raw.next (ofList (before ++ part ++ c :: rest))
        ⟨utf8Len before + utf8Len part⟩ = ⟨utf8Len before + utf8Len part + c.utf8Size⟩ := by
      have h := next_of_valid (before ++ part) c rest
      rwa [utf8Len_append] at h
    unfold splitOnAux
    rw [if_neg hend]
    dsimp only
    rw [hget]
    by_cases hc : c = '/'
    · obtain rfl := hc
      have hpart : Pos.Raw.extract (ofList (before ++ part ++ '/' :: rest)) ⟨utf8Len before⟩
          (Pos.Raw.unoffsetBy ⟨utf8Len before + utf8Len part + '/'.utf8Size⟩
            (Pos.Raw.next "/" 0)) = ofList part :=
        extract_of_valid before part ('/' :: rest)
      have hstart : utf8Len (before ++ part ++ ['/']) =
          utf8Len before + utf8Len part + '/'.utf8Size := by
        rw [utf8Len_append, utf8Len_append]
        rfl
      have h := ih (before ++ part ++ ['/']) [] (ofList part :: parts)
      rw [hstart, List.append_nil, utf8Len_nil, Nat.add_zero, List.append_assoc] at h
      rw [if_pos (by decide), if_pos (by decide), hnext, hpart]
      exact h.trans (by simp [List.splitOnPPrepend_cons_eq_if])
    · have hslash : ¬(c == Pos.Raw.get "/" 0) = true := fun he => hc (eq_of_beq he)
      have hback : Pos.Raw.next (ofList (before ++ part ++ c :: rest))
          (Pos.Raw.unoffsetBy ⟨utf8Len before + utf8Len part⟩ 0) = _ := hnext
      have hlonger : utf8Len before + utf8Len part + c.utf8Size =
          utf8Len before + utf8Len (part ++ [c]) := by
        rw [utf8Len_append, utf8Len_cons, utf8Len_nil]
        omega
      have hchars : before ++ part ++ c :: rest = before ++ (part ++ [c]) ++ rest := by simp
      rw [if_neg hslash, hback, hlonger, hchars, ih before (part ++ [c]) parts]
      simp [List.splitOnPPrepend_cons_eq_if, hc]

/-- The parts of a path are those between its slashes. -/
theorem splitOn_slash (path : String) :
    path.splitOn "/" = (path.toList.splitOn '/').map String.ofList := by
  have h := splitOnAux_slash [] [] path.toList []
  rw [List.nil_append, List.nil_append, String.ofList_toList] at h
  unfold String.splitOn
  rw [if_neg (by decide)]
  exact h

theorem toList_join (directory name : String) (h : '/' ∉ directory.toList.getLast?) :
    (join directory name).toList = directory.toList ++ '/' :: name.toList := by
  have hend : ¬directory.endsWith "/" = true := by
    rw [← String.endsWith_toSlice, String.Slice.endsWith_string_iff]
    rintro ⟨before, hbefore⟩
    refine h ?_
    rw [String.copy_toSlice] at hbefore
    rw [← hbefore]
    exact List.getLast?_concat
  unfold join
  rw [if_neg hend, String.toList_append, String.toList_append, List.append_assoc]
  rfl

end Path

namespace Files

/-! ## paths from the root -/

/-- a name that stands for itself in a path -/
def IsName (name : String) : Prop :=
  name ≠ "" ∧ name ≠ "." ∧ name ≠ ".." ∧ '/' ∉ name.toList ∧ '\x00' ∉ name.toList ∧
    name.utf8ByteSize ≤ 255

instance (name : String) : Decidable (IsName name) := by
  unfold IsName
  infer_instance

/-- the working directory is there, and its path is made of names -/
structure Proper (fs : Files) : Prop where
  directory : fs.isDirectory fs.origin = true
  names : ∀ name ∈ fs.origin, IsName name

/-- a path, from the root -/
def fromRoot (fs : Files) (path : String) : String :=
  Path.within ("/" ++ "/".intercalate fs.origin) path

theorem isDirectory_prefix {fs : Files} {p q : Place} (h : fs.isDirectory (p ++ q) = true) :
    fs.isDirectory p = true := by
  unfold isDirectory at h ⊢
  simp only [Bool.or_eq_true, decide_eq_true_eq, List.any_eq_true, Bool.and_eq_true,
    List.isPrefixOf_iff_prefix] at h ⊢
  have hprefix : ∀ x, p ++ q <+: x → p <+: x := fun x => (List.prefix_append p q).trans
  rcases h with (hroot | ⟨d, hd, hle⟩) | ⟨x, hx, hne, hle⟩
  · exact .inl (.inl (List.append_eq_nil_iff.1 hroot).1)
  · exact .inl (.inr ⟨d, hd, hprefix d hle⟩)
  · refine .inr ⟨x, hx, fun he => hne ?_, hprefix x hle⟩
    -- nothing stands behind a place that is no directory
    obtain ⟨r, hr⟩ := hle
    rw [← he, List.append_assoc, List.append_right_eq_self] at hr
    rw [(List.append_eq_nil_iff.1 hr).1, List.append_nil, he]

theorem step_name {fs : Files} {p : Place} (h : fs.isDirectory p = true) {name : String}
    (hname : IsName name) : fs.step p name = some (p ++ [name]) := by
  obtain ⟨hne, hhere, hup, -, -, hsize⟩ := hname
  unfold step
  rw [if_pos ⟨h, hsize⟩, if_neg (not_or.2 ⟨hne, hhere⟩), if_neg hup]

/-- The path of the working directory leads there. -/
theorem foldlM_step_origin {fs : Files} (h : fs.Proper) :
    fs.origin.foldlM fs.step [] = some fs.origin := by
  have hwalk : ∀ names p, p ++ names = fs.origin → names.foldlM fs.step p = some fs.origin := by
    intro names
    induction names with
    | nil =>
      intro p hp
      rw [List.append_nil] at hp
      exact congrArg some hp
    | cons name names ih =>
      intro p hp
      have hdir : fs.isDirectory p = true := isDirectory_prefix (hp ▸ h.directory)
      rw [List.foldlM_cons, step_name hdir (h.names name (hp ▸ by simp))]
      exact ih _ (by simpa using hp)
  exact hwalk fs.origin [] rfl

theorem mem_intercalate {a sep : Char} {parts : List (List Char)}
    (h : a ∈ [sep].intercalate parts) : a = sep ∨ ∃ part ∈ parts, a ∈ part := by
  induction parts with
  | nil => cases h
  | cons part parts ih =>
    cases parts with
    | nil =>
      rw [List.intercalate_singleton] at h
      exact .inr ⟨part, List.mem_cons_self, h⟩
    | cons next parts =>
      rw [List.intercalate_cons_cons, List.mem_append, List.mem_append, List.mem_singleton] at h
      rcases h with (h | h) | h
      · exact .inr ⟨part, List.mem_cons_self, h⟩
      · exact .inl h
      · exact (ih h).imp_right fun ⟨p, hp, ha⟩ => ⟨p, List.mem_cons_of_mem _ hp, ha⟩

/-- The path of a directory other than the root does not end in a slash. -/
theorem exists_getLast?_intercalate {names : List (List Char)} (hne : names ≠ [])
    (h : ∀ name ∈ names, name ≠ [] ∧ '/' ∉ name) :
    ∃ c, (['/'].intercalate names).getLast? = some c ∧ c ≠ '/' := by
  induction names with
  | nil => exact absurd rfl hne
  | cons name names ih =>
    cases names with
    | nil =>
      obtain ⟨hname, hslash⟩ := h name List.mem_cons_self
      rw [List.intercalate_singleton]
      refine ⟨_, List.getLast?_eq_some_getLast hname, fun hc => hslash ?_⟩
      exact hc ▸ List.getLast_mem hname
    | cons next names =>
      obtain ⟨c, hlast, hc⟩ := ih (List.cons_ne_nil _ _) fun n hn => h n (List.mem_cons_of_mem _ hn)
      refine ⟨c, ?_, hc⟩
      rw [List.intercalate_cons_cons, List.getLast?_append, hlast]
      rfl

theorem toList_fromRoot {fs : Files} (h : fs.Proper) {path : String}
    (hrelative : ¬path.startsWith "/" = true) :
    (fs.fromRoot path).toList =
      ['/'].intercalate ([] :: fs.origin.map String.toList) ++ '/' :: path.toList := by
  have hnames : ∀ name ∈ fs.origin.map String.toList, name ≠ [] ∧ '/' ∉ name := by
    intro name hname
    obtain ⟨n, hn, rfl⟩ := List.mem_map.1 hname
    obtain ⟨hempty, -, -, hslash, -⟩ := h.names n hn
    exact ⟨fun he => hempty (String.toList_eq_nil_iff.1 he), hslash⟩
  unfold fromRoot Path.within
  rw [if_neg hrelative]
  cases horigin : fs.origin with
  | nil =>
    have hroot : "/" ++ "/".intercalate [] = "/" := by decide
    have hend : "/".endsWith "/" = true := by decide +kernel
    unfold Path.join
    rw [hroot, if_pos hend, String.toList_append]
    rfl
  | cons name names =>
    rw [horigin] at hnames
    obtain ⟨c, hlast, hc⟩ := exists_getLast?_intercalate (List.cons_ne_nil _ _) hnames
    have hdirectory : ("/" ++ "/".intercalate (name :: names)).toList =
        ['/'].intercalate ([] :: (name :: names).map String.toList) := by
      rw [String.toList_append, String.toList_intercalate]
      rfl
    rw [Path.toList_join, hdirectory]
    rw [hdirectory, List.map_cons, List.intercalate_cons_cons, List.getLast?_append, hlast]
    exact fun he => hc (Option.some.inj he)

theorem parts_fromRoot {fs : Files} (h : fs.Proper) {path : String}
    (hrelative : ¬path.startsWith "/" = true) :
    fs.parts (fs.fromRoot path) = ([], fs.origin ++ path.splitOn "/") := by
  have hnames : ∀ name ∈ [] :: fs.origin.map String.toList, '/' ∉ name := by
    refine List.forall_mem_cons.2 ⟨List.not_mem_nil, fun name hname => ?_⟩
    obtain ⟨n, hn, rfl⟩ := List.mem_map.1 hname
    exact (h.names n hn).2.2.2.1
  have hsplit : (fs.fromRoot path).splitOn "/" = "" :: (fs.origin ++ path.splitOn "/") := by
    rw [Path.splitOn_slash, Path.splitOn_slash, toList_fromRoot h hrelative]
    have happend := @List.splitOnP_append_cons Char (· == '/')
      (['/'].intercalate ([] :: fs.origin.map String.toList)) path.toList '/' rfl
    have hback := List.splitOn_intercalate '/' hnames (List.cons_ne_nil _ _)
    unfold List.splitOn at hback ⊢
    rw [happend, hback]
    simp
  unfold parts
  rw [hsplit]
  rfl

theorem parts_relative (fs : Files) {path : String} (hne : path ≠ "")
    (hrelative : ¬path.startsWith "/" = true) :
    fs.parts path = (fs.origin, path.splitOn "/") := by
  have hfirst : ∀ rest, path.splitOn "/" ≠ "" :: rest := by
    intro rest he
    obtain ⟨c, r, hpath⟩ := List.exists_cons_of_ne_nil fun he => hne (String.toList_eq_nil_iff.1 he)
    have hc : ¬(c == '/') = true := fun hc => hrelative <| by
      rw [String.startsWith_string_iff, hpath, eq_of_beq hc]
      exact ⟨r, rfl⟩
    rw [Path.splitOn_slash, hpath, List.splitOn_eq_splitOnP, List.splitOnP_cons_eq_if_modifyHead,
      if_neg hc] at he
    cases hrest : List.splitOnP (· == '/') r with
    | nil => exact List.splitOnP_ne_nil _ _ hrest
    | cons part parts =>
      rw [hrest] at he
      have hpart := congrArg String.toList (List.cons.inj he).1
      rw [String.toList_ofList] at hpart
      cases hpart
  unfold parts
  split
  · next rest he => exact absurd he (hfirst rest)
  · rfl

/-- **A path from the root leads where the path leads**, if it is not too long. -/
theorem place?_fromRoot {fs : Files} (h : fs.Proper) {path : String} (hne : path ≠ "")
    (hlength : (fs.fromRoot path).utf8ByteSize ≤ 4095) :
    fs.place? (fs.fromRoot path) = fs.place? path := by
  by_cases habsolute : path.startsWith "/" = true
  · unfold fromRoot Path.within
    rw [if_pos habsolute]
  · have hzero : (fs.fromRoot path).contains '\x00' = path.contains '\x00' := by
      rw [String.contains_char_eq, String.contains_char_eq, toList_fromRoot h habsolute,
        decide_eq_decide, List.mem_append]
      refine ⟨fun hmem => ?_, fun hmem => .inr (List.mem_cons_of_mem _ hmem)⟩
      rcases hmem with hmem | hmem
      · rcases mem_intercalate hmem with he | ⟨name, hname, hin⟩
        · cases he
        · rcases List.mem_cons.1 hname with rfl | hname
          · cases hin
          · obtain ⟨n, hn, rfl⟩ := List.mem_map.1 hname
            exact absurd hin (h.names n hn).2.2.2.2.1
      · exact (List.mem_cons.1 hmem).resolve_left (by decide)
    have hsize : path.utf8ByteSize ≤ (fs.fromRoot path).utf8ByteSize := by
      unfold fromRoot Path.within Path.join
      rw [if_neg habsolute]
      split <;> simp only [String.utf8ByteSize_append] <;> omega
    have hroot : fs.fromRoot path ≠ "" := by
      intro he
      rw [he] at hsize
      exact hne (String.utf8ByteSize_eq_zero_iff.1 (Nat.le_zero.1 hsize))
    unfold place?
    rw [parts_fromRoot h habsolute, parts_relative fs hne habsolute, hzero]
    dsimp only
    rw [List.foldlM_append, foldlM_step_origin h]
    have hlong := Nat.not_lt.2 hlength
    simp only [hroot, hne, hlong, Nat.not_lt.2 (hsize.trans hlength), false_or, or_false]
    rfl

/-! ### names -/

/-- the parts of a name by itself -/
theorem parts_name (fs : Files) {name : String} (h : IsName name) :
    fs.parts name = (fs.origin, [name]) := by
  obtain ⟨hne, -, -, hslash, -⟩ := h
  have hrelative : ¬name.startsWith "/" = true := by
    rw [String.startsWith_string_iff]
    rintro ⟨rest, hrest⟩
    exact hslash (hrest ▸ List.mem_cons_self)
  have hsplit : name.splitOn "/" = [name] := by
    have hpart : ∀ part ∈ [name.toList], '/' ∉ part := by simpa using hslash
    have hwhole := List.splitOn_intercalate '/' hpart (List.cons_ne_nil _ _)
    rw [List.intercalate_singleton] at hwhole
    rw [Path.splitOn_slash, hwhole]
    simp
  rw [parts_relative fs hne hrelative, hsplit]

/-- A name leads into the working directory. -/
theorem place?_name {fs : Files} (h : fs.isDirectory fs.origin = true) {name : String}
    (hname : IsName name) : fs.place? name = some (fs.origin ++ [name]) := by
  obtain ⟨hne, -, -, -, hzero, hsize⟩ := id hname
  have hpath : ¬(name = "" ∨ name.contains '\x00' ∨ 4095 < name.utf8ByteSize) := by
    rw [String.contains_char_eq, decide_eq_true_eq]
    rintro (he | hmem | hlong)
    · exact hne he
    · exact hzero hmem
    · omega
  unfold place?
  rw [if_neg hpath, parts_name fs hname]
  dsimp only
  rw [List.foldlM_cons, step_name h hname]
  rfl

theorem parts_db (fs : Files) : fs.parts "db" = (fs.origin, ["db"]) :=
  parts_name fs (by decide)

theorem place?_db {fs : Files} (h : fs.origin = []) : fs.place? "db" = some ["db"] := by
  rw [place?_name (by rw [h]; rfl) (by decide), h]
  rfl

/-! ## writing -/

section

variable {fs fs' : Files}

theorem withDirectory_mono {p : Place} (h : fs.withDirectory p = some fs') :
    fs'.origin = fs.origin ∧ ∀ q, fs.isDirectory q = true → fs'.isDirectory q = true := by
  unfold withDirectory at h
  split at h
  · cases h
  split at h
  · obtain rfl := Option.some.inj h
    exact ⟨rfl, fun _ hq => hq⟩
  · obtain rfl := Option.some.inj h
    refine ⟨rfl, fun q hq => ?_⟩
    unfold isDirectory at hq ⊢
    rw [List.any_cons]
    simp only [Bool.or_eq_true] at hq ⊢
    exact hq.imp_left (.imp_right .inr)

/-- The directories on the way to a place are added to those that are there. -/
theorem withDirectories_mono {parts : List String} {p : Place}
    (h : fs.withDirectories p parts = some fs') :
    fs'.origin = fs.origin ∧ ∀ q, fs.isDirectory q = true → fs'.isDirectory q = true := by
  induction parts generalizing fs p with
  | nil =>
    obtain rfl := Option.some.inj h
    exact ⟨rfl, fun _ hq => hq⟩
  | cons part parts ih =>
    obtain ⟨q, -, h⟩ := Option.bind_eq_some_iff.1 h
    obtain ⟨fs₁, hmade, h⟩ := Option.bind_eq_some_iff.1 h
    obtain ⟨horigin, hdirectories⟩ := withDirectory_mono hmade
    obtain ⟨horigin', hdirectories'⟩ := ih h
    exact ⟨horigin'.trans horigin, fun q hq => hdirectories' q (hdirectories q hq)⟩

theorem write_mono {path text : String} (h : fs.write path text = .ok fs') :
    fs'.origin = fs.origin ∧ ∀ q, fs.isDirectory q = true → fs'.isDirectory q = true := by
  obtain ⟨fs₁, p, hmade, -, -, rfl⟩ := write_eq_ok_iff.1 h
  obtain ⟨horigin, hdirectories⟩ := withDirectories_mono hmade
  split
  · exact ⟨horigin, hdirectories⟩
  · exact ⟨horigin, fun q hq => isDirectory_mono (hdirectories q hq) text⟩

/-- A file that is written leaves the working directory where it is. -/
theorem Proper.written {path text : String} (h : fs.Proper)
    (hwrite : fs.write path text = .ok fs') : fs'.Proper := by
  obtain ⟨horigin, hdirectories⟩ := write_mono hwrite
  refine ⟨?_, ?_⟩
  · rw [horigin]
    exact hdirectories _ h.directory
  · rw [horigin]
    exact h.names

theorem fromRoot_written {path text : String} (hwrite : fs.write path text = .ok fs')
    (other : String) : fs'.fromRoot other = fs.fromRoot other := by
  unfold fromRoot
  rw [(write_mono hwrite).1]

end

end Files

end CourseCompletion
