import IntervalSuite.FileTree
import Mathlib.Data.List.Basic

/-!
# What writing does to a file tree

A path leads to a location, whatever stands there: `FileTree.locate`. On the way it passes the
locations `FileTree.above`, which have to be directories. Writing makes those that are missing and
stores the file; where it fails, it has made some of them.

* `makes_makeDirectories`, `write_cases`: all that these operations can do.
* `isDirectory_write`: a directory stays a directory.
* `read?_of_directories`: what has been written can be read.
-/

namespace IntervalSuite.FileTree

/-! ## Where a path leads -/

/-- Where a name leads from a location. -/
def step (location : Location) (name : String) : Location :=
  if name = ".." then location.dropLast else location ++ [name]

/-- Where names lead from a location, whatever stands there. -/
def follow (location : Location) (names : List String) : Location := names.foldl step location

/-- The locations that names pass on their way down. -/
def passed (location : Location) : List String → List Location
  | [] => []
  | name :: names =>
    if name = ".." then passed location.dropLast names
    else (location ++ [name]) :: passed (location ++ [name]) names

/-- The location that a path leads to, whatever stands there. -/
def locate (tree : FileTree) (path : String) : Location :=
  follow (tree.origin path) (Path.names path)

/-- The locations above the end of a path. -/
def above (tree : FileTree) (path : String) : List Location :=
  passed (tree.origin path) (Path.names path).dropLast

theorem origin_congr {a b : FileTree} (h : a.workingDirectory = b.workingDirectory)
    (path : String) : a.origin path = b.origin path := by
  simp only [origin, h]

theorem locate_congr {a b : FileTree} (h : a.workingDirectory = b.workingDirectory)
    (path : String) : a.locate path = b.locate path := by
  simp only [locate, origin_congr h]

theorem above_congr {a b : FileTree} (h : a.workingDirectory = b.workingDirectory)
    (path : String) : a.above path = b.above path := by
  simp only [above, origin_congr h]

/-- Every entry stands in a directory. -/
theorem isDirectory_dropLast {tree : FileTree} {location : Location}
    (h : tree.get? location ≠ none) : tree.isDirectory location.dropLast := by
  by_cases hroot : location.dropLast = []
  · rw [hroot]
    rfl
  · have hne : location ≠ [] := by
      rintro rfl
      exact hroot rfl
    obtain ⟨entry, hentry⟩ := Option.ne_none_iff_exists'.mp h
    obtain ⟨-, hparent⟩ := tree.entries.parent _ ((get?_eq_some_iff hne).mp hentry)
    exact isDirectory_iff.mpr ((get?_eq_some_iff hroot).mpr (hparent.resolve_left hroot))

theorem isDirectory_dropLast_of_isDirectory {tree : FileTree} {location : Location}
    (h : tree.isDirectory location) : tree.isDirectory location.dropLast :=
  isDirectory_dropLast (by simp [isDirectory_iff.mp h])

/-! ## New directories -/

/-- `after` is `before` with the directories `made`, as far as they were missing. -/
structure Adds (before : FileTree) (made : List Location) (after : FileTree) : Prop where
  workingDirectory : after.workingDirectory = before.workingDirectory
  get?_eq : ∀ location, after.get? location =
    (before.get? location).or (if location ∈ made then some .directory else none)

theorem Adds.refl {tree : FileTree} {made : List Location}
    (h : ∀ location ∈ made, tree.get? location ≠ none) : Adds tree made tree := by
  refine ⟨rfl, fun location => ?_⟩
  split
  · rename_i hmem
    obtain ⟨entry, hentry⟩ := Option.ne_none_iff_exists'.mp (h location hmem)
    rw [hentry, Option.some_or]
  · rw [Option.or_none]

theorem Adds.trans {a b c : FileTree} {made more : List Location} (h : Adds a made b)
    (h' : Adds b more c) : Adds a (made ++ more) c := by
  refine ⟨h'.workingDirectory.trans h.workingDirectory, fun location => ?_⟩
  rw [h'.get?_eq, h.get?_eq, Option.or_assoc]
  congr 1
  by_cases hmade : location ∈ made <;> simp [hmade]

theorem adds_set {tree : FileTree} {location : Location} {name : String}
    (haccepts : tree.Accepts location name) (h : tree.get? (location ++ [name]) = none) :
    Adds tree [location ++ [name]] (tree.set location name .directory haccepts) := by
  refine ⟨rfl, fun other => ?_⟩
  rw [get?_set]
  by_cases hother : other = location ++ [name]
  · rw [hother, h]
    simp
  · simp [hother]

theorem Adds.get?_file {before after : FileTree} {made : List Location} (h : Adds before made after)
    {location : Location} {content : Content} :
    after.get? location = some (.file content) ↔ before.get? location = some (.file content) := by
  rw [h.get?_eq, Option.or_eq_some_iff]
  constructor
  · rintro (hfile | ⟨-, hmade⟩)
    · exact hfile
    · split at hmade <;> cases hmade
  · exact .inl

theorem Adds.isDirectory {before after : FileTree} {made : List Location}
    (h : Adds before made after) {location : Location} (hdir : before.isDirectory location) :
    after.isDirectory location := by
  rw [isDirectory_iff] at hdir ⊢
  rw [h.get?_eq, hdir, Option.some_or]

/-- Where no file stands, there is a directory or room for one. -/
theorem get?_or_directory {tree : FileTree} {location : Location}
    (h : ∀ content, tree.get? location ≠ some (.file content)) :
    (tree.get? location).or (some .directory) = some .directory := by
  cases hget : tree.get? location with
  | none => rfl
  | some entry =>
    cases entry with
    | directory => rfl
    | file content => exact absurd hget (h content)

/-- A new directory is a directory, unless a file stands there. -/
theorem Adds.isDirectory_of_mem {before after : FileTree} {made : List Location}
    (h : Adds before made after) {location : Location} (hmem : location ∈ made)
    (hfile : ∀ content, before.get? location ≠ some (.file content)) :
    after.isDirectory location := by
  rw [isDirectory_iff, h.get?_eq, if_pos hmem, get?_or_directory hfile]

/-- No file stands at one of the locations. -/
def Free (tree : FileTree) (locations : List Location) : Prop :=
  ∀ location ∈ locations, ∀ content, tree.get? location ≠ some (.file content)

theorem Adds.free_iff {before after : FileTree} {made : List Location} (h : Adds before made after)
    (locations : List Location) : after.Free locations ↔ before.Free locations := by
  simp only [Free, ne_eq, h.get?_file]

/-- What making directories at the locations gives: all of them, and that at `last` is where they lead
to; or some of them, where a file is in the way. -/
inductive Makes (tree : FileTree) (locations : List Location) (last : Location) :
    FileTree × Option Location → Prop
  | reached {after : FileTree} (free : tree.Free locations) (adds : Adds tree locations after)
      (isDirectory : after.isDirectory last) : Makes tree locations last (after, some last)
  | blocked {after : FileTree} {made : List Location} (free : ¬ tree.Free locations)
      (subset : made ⊆ locations) (adds : Adds tree made after) :
      Makes tree locations last (after, none)

/-- One more directory before the others. -/
theorem Makes.cons {tree next : FileTree} {location last : Location} {locations : List Location}
    {result : FileTree × Option Location} (h : Makes next locations last result)
    (hhead : Adds tree [location] next)
    (hfree : ∀ content, tree.get? location ≠ some (.file content)) :
    Makes tree (location :: locations) last result := by
  cases h with
  | reached free adds isDirectory =>
    rw [hhead.free_iff] at free
    exact .reached (List.forall_mem_cons.mpr ⟨hfree, free⟩) (hhead.trans adds) isDirectory
  | blocked free subset adds =>
    rw [hhead.free_iff] at free
    exact .blocked (fun h => free (List.forall_mem_cons.mp h).2) (List.cons_subset_cons _ subset)
      (hhead.trans adds)

/-- **Making directories.** -/
theorem makes_makeDirectories {tree : FileTree} {location : Location} {names : List String}
    (hlocation : tree.isDirectory location)
    (hnames : ∀ name ∈ names, name ≠ ".." → Path.Plain name) :
    Makes tree (passed location names) (follow location names)
      (tree.makeDirectories location names) := by
  induction names generalizing tree location with
  | nil => exact .reached (by simp [Free, passed]) (.refl (by simp [passed])) hlocation
  | cons name names ih =>
    obtain ⟨hname, hnames⟩ := List.forall_mem_cons.mp hnames
    rw [makeDirectories, hlocation, Bool.not_true, if_neg Bool.false_ne_true, passed, follow,
      List.foldl_cons]
    by_cases hup : name = ".."
    · rw [if_pos hup, if_pos hup, step, if_pos hup]
      exact ih (isDirectory_dropLast_of_isDirectory hlocation) hnames
    rw [if_neg hup, if_neg hup, step, if_neg hup]
    cases hget : tree.get? (location ++ [name]) with
    | some entry =>
      cases entry with
      | file content =>
        refine .blocked (fun hfree => ?_) (List.nil_subset _) (.refl (by simp))
        exact hfree _ List.mem_cons_self content hget
      | directory =>
        exact (ih (isDirectory_iff.mpr hget) hnames).cons (.refl (by simp [hget])) (by simp [hget])
    | none =>
      have haccepts : tree.Accepts location name :=
        ⟨hname hup, hlocation, by simp [isDirectory, hget]⟩
      have hchild : (tree.set location name .directory haccepts).isDirectory (location ++ [name]) := by
        rw [isDirectory_iff, get?_set, if_pos rfl]
      simp only [haccepts, dif_pos]
      exact (ih hchild hnames).cons (adds_set haccepts hget) (by simp [hget])

theorem noSlash_of_mem_splitOn {cs part : List Char} (h : part ∈ cs.splitOn '/') : '/' ∉ part := by
  induction cs generalizing part with
  | nil => simp_all
  | cons c cs ih =>
    rw [List.splitOn_cons_eq_if_modifyHead] at h
    split at h
    · rcases List.mem_cons.mp h with rfl | h
      · exact List.not_mem_nil
      · exact ih h
    · rename_i hc
      obtain ⟨first, parts, hsplit⟩ := List.exists_cons_of_ne_nil (List.splitOn_ne_nil '/' cs)
      rw [hsplit] at h ih
      rcases List.mem_cons.mp h with rfl | h
      · rw [List.mem_cons, not_or]
        exact ⟨fun heq => hc (beq_iff_eq.mpr heq.symm), ih List.mem_cons_self⟩
      · exact ih (List.mem_cons_of_mem _ h)

/-- The names along a path are plain, unless they lead up. -/
theorem plain_of_mem_names {path name : String} (h : name ∈ Path.names path) (hup : name ≠ "..") :
    Path.Plain name := by
  obtain ⟨cs, hcs, rfl⟩ := List.mem_map.mp h
  obtain ⟨hmem, hkept⟩ := List.mem_filter.mp hcs
  rw [Bool.and_eq_true, decide_eq_true_eq, decide_eq_true_eq] at hkept
  refine ⟨by simpa using hkept.1, fun hdot => hkept.2 ?_, hup, ?_⟩
  · simpa using congrArg String.toList hdot
  · rw [String.toList_ofList]
    exact noSlash_of_mem_splitOn hmem

/-! ## Files -/

/-- The path can lead to a file: it ends in a name. -/
def EndsInName (path : String) : Prop :=
  (∃ name, (Path.names path).getLast? = some name ∧ name ≠ "..") ∧ Path.endsInDirectory path = false

/-- A file can be written under the path. -/
structure Writable (tree : FileTree) (path : String) : Prop where
  endsInName : EndsInName path
  origin : tree.isDirectory (tree.origin path)
  free : tree.Free (tree.above path)
  notMem_above : tree.locate path ∉ tree.above path
  not_isDirectory : tree.isDirectory (tree.locate path) = false

theorem locate_eq_append {tree : FileTree} {path name : String}
    (hlast : (Path.names path).getLast? = some name) (hname : name ≠ "..") :
    tree.locate path = follow (tree.origin path) (Path.names path).dropLast ++ [name] := by
  rw [locate, ← List.dropLast_append_getLast? _ hlast, List.dropLast_concat, follow,
    List.foldl_append, List.foldl_cons, List.foldl_nil, step, if_neg hname]
  rfl

theorem makes_write {tree : FileTree} {path : String} (h : tree.isDirectory (tree.origin path)) :
    Makes tree (tree.above path) (follow (tree.origin path) (Path.names path).dropLast)
      (tree.makeDirectories (tree.origin path) (Path.names path).dropLast) :=
  makes_makeDirectories h fun _ hname =>
    plain_of_mem_names ((List.dropLast_prefix _).subset hname)

theorem makeDirectories_of_not_isDirectory {tree : FileTree} {location : Location}
    (h : tree.isDirectory location = false) (names : List String) :
    tree.makeDirectories location names = (tree, none) ∨
      tree.makeDirectories location names = (tree, some location) := by
  cases names with
  | nil => exact .inr rfl
  | cons name names => exact .inl (by simp [makeDirectories, h])

/-- From a place that is no directory, nothing can be written. -/
theorem write_of_not_isDirectory {tree : FileTree} {path : String} (content : Content)
    (h : tree.isDirectory (tree.origin path) = false) : tree.write path content = (tree, false) := by
  have hstore (name : String) : tree.store (tree.origin path) name content = (tree, false) := by
    rw [store, dif_neg fun haccepts => ?_]
    rw [haccepts.parent] at h
    cases h
  obtain hmake | hmake := makeDirectories_of_not_isDirectory h (Path.names path).dropLast
  · simp only [write, hmake]
  · cases hlast : (Path.names path).getLast? with
    | none => simp only [write, hmake, hlast]
    | some name => simp only [write, hmake, hlast, hstore, ite_self]

/-- `after` is `tree` with a file written to it: at each location stands the file, what was there
before, or a directory above the file. -/
structure Stores (tree : FileTree) (path : String) (content : Content) (after : FileTree) : Prop where
  workingDirectory : after.workingDirectory = tree.workingDirectory
  get?_eq : ∀ location, after.get? location =
    if location = tree.locate path then some (.file content)
    else (tree.get? location).or (if location ∈ tree.above path then some .directory else none)

/-- The file is stored in the directory that has been reached. -/
theorem write_of_reached {tree middle : FileTree} {path name : String}
    (hlast : (Path.names path).getLast? = some name)
    (hmake : tree.makeDirectories (tree.origin path) (Path.names path).dropLast =
      (middle, some (follow (tree.origin path) (Path.names path).dropLast)))
    (hadds : Adds tree (tree.above path) middle)
    (hdir : middle.isDirectory (follow (tree.origin path) (Path.names path).dropLast))
    (hup : name ≠ "..") (hends : Path.endsInDirectory path = false)
    (hfree : middle.isDirectory (tree.locate path) = false) (content : Content) :
    ∃ after, tree.write path content = (after, true) ∧ Stores tree path content after := by
  rw [locate_eq_append hlast hup] at hfree
  have haccepts : middle.Accepts (follow (tree.origin path) (Path.names path).dropLast) name :=
    ⟨plain_of_mem_names (List.mem_of_getLast? hlast) hup, hdir, hfree⟩
  refine ⟨middle.set _ name (.file content) haccepts, ?_, hadds.workingDirectory, fun location => ?_⟩
  · simp [write, hmake, hlast, hends, store, haccepts]
  · rw [get?_set, hadds.get?_eq, locate_eq_append hlast hup]

/-- Nothing is stored under a path that does not end in a name. -/
theorem write_of_not_endsInName {tree middle : FileTree} {path : String} {location : Location}
    (hmake : tree.makeDirectories (tree.origin path) (Path.names path).dropLast =
      (middle, some location)) (hends : ¬ EndsInName path) (content : Content) :
    tree.write path content = (middle, false) := by
  cases hlast : (Path.names path).getLast? with
  | none => simp only [write, hmake, hlast]
  | some name =>
    simp only [write, hmake, hlast, ite_eq_left_iff]
    intro hpath
    rw [store, dif_neg fun haccepts => hends ?_]
    exact ⟨⟨name, hlast, haccepts.plain.ne_dots⟩, by simpa using hpath⟩

/-- Nothing is stored in the place of a directory. -/
theorem write_of_taken {tree middle : FileTree} {path name : String} {location : Location}
    (hmake : tree.makeDirectories (tree.origin path) (Path.names path).dropLast =
      (middle, some location)) (hlast : (Path.names path).getLast? = some name)
    (hpath : Path.endsInDirectory path = false)
    (htaken : middle.isDirectory (location ++ [name])) (content : Content) :
    tree.write path content = (middle, false) := by
  simp only [write, hmake, hlast, hpath, Bool.false_eq_true, if_false]
  rw [store, dif_neg fun haccepts => ?_]
  rw [haccepts.free] at htaken
  cases htaken

/-- **Writing a file** makes the directories above it and stores it, or fails and has made some of
the directories. -/
theorem write_cases (tree : FileTree) (path : String) (content : Content) :
    (tree.Writable path ∧
      ∃ after, tree.write path content = (after, true) ∧ Stores tree path content after) ∨
    (¬ tree.Writable path ∧ ∃ after made, tree.write path content = (after, false) ∧
      made ⊆ tree.above path ∧ Adds tree made after) := by
  by_cases horigin : tree.isDirectory (tree.origin path)
  swap
  · exact .inr ⟨fun h => horigin h.origin, tree, [],
      write_of_not_isDirectory content (Bool.eq_false_iff.mpr horigin), List.nil_subset _,
      .refl (by simp)⟩
  have hmakes := makes_write horigin
  generalize hmake : tree.makeDirectories (tree.origin path) (Path.names path).dropLast = result
    at hmakes
  cases hmakes with
  | blocked hfree hmade hadds =>
    refine .inr ⟨fun h => hfree h.free, _, _, ?_, hmade, hadds⟩
    simp only [write, hmake]
  | @reached middle hfree hadds hdir =>
    by_cases hends : EndsInName path
    swap
    · exact .inr ⟨fun h => hends h.endsInName, middle, tree.above path,
        write_of_not_endsInName hmake hends content, List.Subset.refl _, hadds⟩
    obtain ⟨⟨name, hlast, hup⟩, hpath⟩ := hends
    by_cases htaken : middle.isDirectory (tree.locate path)
    · -- A directory at the end of the path has been there before, or it has been passed.
      refine .inr ⟨fun h => ?_, middle, tree.above path, ?_, List.Subset.refl _, hadds⟩
      · rw [isDirectory_iff, hadds.get?_eq, Option.or_eq_some_iff] at htaken
        rcases htaken with hbefore | ⟨-, hpassed⟩
        · rw [← isDirectory_iff, h.not_isDirectory] at hbefore
          cases hbefore
        · split at hpassed
          · exact h.notMem_above ‹_›
          · cases hpassed
      · rw [locate_eq_append hlast hup] at htaken
        exact write_of_taken hmake hlast hpath htaken content
    · refine .inl ⟨⟨⟨⟨name, hlast, hup⟩, hpath⟩, horigin, hfree, fun hmem => htaken ?_, ?_⟩,
        write_of_reached hlast hmake hadds hdir hup hpath (Bool.eq_false_iff.mpr htaken) content⟩
      · exact hadds.isDirectory_of_mem hmem (hfree _ hmem)
      · exact Bool.eq_false_iff.mpr fun h => htaken (hadds.isDirectory h)

section

variable {tree after : FileTree} {path : String} {content : Content}

/-- A file that has been written could be written, and this is what it has changed. -/
theorem write_eq_true (h : tree.write path content = (after, true)) :
    tree.Writable path ∧ Stores tree path content after := by
  obtain ⟨hwritable, written, hwrite, hstores⟩ | ⟨-, _, _, hwrite, -⟩ := write_cases tree path content
  · obtain rfl : written = after := congrArg Prod.fst (hwrite.symm.trans h)
    exact ⟨hwritable, hstores⟩
  · cases hwrite.symm.trans h

/-- A directory stays a directory. -/
theorem isDirectory_write (h : tree.write path content = (after, true)) {location : Location}
    (hdir : tree.isDirectory location) : after.isDirectory location := by
  obtain ⟨hwritable, hstores⟩ := write_eq_true h
  have hne : location ≠ tree.locate path := by
    rintro rfl
    rw [hwritable.not_isDirectory] at hdir
    cases hdir
  rw [isDirectory_iff] at hdir ⊢
  rw [hstores.get?_eq, if_neg hne, hdir, Option.some_or]

/-- The locations above a written file are directories. -/
theorem isDirectory_above (h : tree.write path content = (after, true)) {location : Location}
    (hmem : location ∈ tree.above path) : after.isDirectory location := by
  obtain ⟨hwritable, hstores⟩ := write_eq_true h
  have hne : location ≠ tree.locate path := fun heq => hwritable.notMem_above (heq ▸ hmem)
  rw [isDirectory_iff, hstores.get?_eq, if_neg hne, if_pos hmem,
    get?_or_directory (hwritable.free location hmem)]

end

/-! ## Reading a file that has not been written -/

theorem eq_follow_of_walk? {tree : FileTree} {names : List String} {location destination : Location}
    (h : tree.walk? location names = some destination) : destination = follow location names := by
  induction names generalizing location with
  | nil => exact (Option.some.inj h).symm
  | cons name names ih =>
    rw [walk?] at h
    split at h
    · exact ih h
    · cases h

theorem walk?_mono {tree after : FileTree}
    (hdir : ∀ location, tree.isDirectory location → after.isDirectory location)
    {names : List String} {location destination : Location}
    (h : tree.walk? location names = some destination) :
    after.walk? location names = some destination := by
  induction names generalizing location with
  | nil => exact h
  | cons name names ih =>
    rw [walk?] at h ⊢
    split at h
    · rename_i hlocation
      rw [if_pos (hdir location hlocation)]
      exact ih h
    · cases h

theorem resolve?_eq_some_iff {tree : FileTree} {path : String} {location : Location}
    {entry : Entry} : tree.resolve? path = some (location, entry) ↔
      path ≠ "" ∧ tree.walk? (tree.origin path) (Path.names path) = some location ∧
        tree.get? location = some entry ∧ ¬ (Path.endsInDirectory path ∧ entry ≠ .directory) := by
  unfold resolve?
  by_cases hpath : path = ""
  · simp [hpath]
  · simp only [hpath, if_false, Option.bind_eq_bind, Option.bind_eq_some_iff]
    constructor
    · rintro ⟨destination, hwalk, found, hfound, hsome⟩
      split at hsome
      · cases hsome
      · obtain ⟨rfl, rfl⟩ := Prod.mk.inj (Option.some.inj hsome)
        exact ⟨hpath, hwalk, hfound, ‹_›⟩
    · rintro ⟨-, hwalk, hfound, hends⟩
      exact ⟨location, hwalk, entry, hfound, if_neg hends⟩

theorem resolve?_of_hasFile {tree : FileTree} {path : String} (h : tree.hasFile path) :
    ∃ content, tree.resolve? path = some (tree.locate path, .file content) := by
  unfold hasFile at h
  split at h
  · rename_i location content hresolve
    obtain ⟨-, hwalk, -⟩ := resolve?_eq_some_iff.mp hresolve
    exact ⟨content, by rw [hresolve, eq_follow_of_walk? hwalk, locate]⟩
  · cases h

/-- A file is found as before in a tree that has kept the directories and this file. -/
theorem read?_congr {tree after : FileTree} {path : String}
    (hroot : after.workingDirectory = tree.workingDirectory)
    (hdir : ∀ location, tree.isDirectory location → after.isDirectory location)
    (hget : after.get? (tree.locate path) = tree.get? (tree.locate path))
    (h : tree.hasFile path) : after.read? path = tree.read? path := by
  obtain ⟨content, hresolve⟩ := resolve?_of_hasFile h
  have hafter : after.resolve? path = some (tree.locate path, .file content) := by
    obtain ⟨hpath, hwalk, hentry, hends⟩ := resolve?_eq_some_iff.mp hresolve
    refine resolve?_eq_some_iff.mpr ⟨hpath, ?_, hget.trans hentry, hends⟩
    rw [origin, hroot]
    exact walk?_mono hdir hwalk
  rw [read?, read?, hafter, hresolve]

/-! ## Reading a file that has been written -/

/-- Names lead through directories to where they lead. -/
theorem walk?_of_directories {tree : FileTree} {location : Location} {names : List String}
    (hlocation : tree.isDirectory location)
    (hpassed : ∀ other ∈ passed location names.dropLast, tree.isDirectory other) :
    tree.walk? location names = some (follow location names) := by
  induction names generalizing location with
  | nil => rfl
  | cons name names ih =>
    rw [walk?, if_pos hlocation, follow, List.foldl_cons]
    cases names with
    | nil => rfl
    | cons next names =>
      rw [List.dropLast_cons_cons, passed] at hpassed
      by_cases hup : name = ".."
      · rw [if_pos hup] at hpassed
        rw [step, if_pos hup]
        exact ih (isDirectory_dropLast_of_isDirectory hlocation) hpassed
      · rw [if_neg hup] at hpassed
        rw [step, if_neg hup]
        obtain ⟨hchild, hpassed⟩ := List.forall_mem_cons.mp hpassed
        exact ih hchild hpassed

/-- A file below directories can be read. -/
theorem read?_of_directories {tree : FileTree} {path text : String} (hpath : EndsInName path)
    (horigin : tree.isDirectory (tree.origin path))
    (habove : ∀ location ∈ tree.above path, tree.isDirectory location)
    (hget : tree.get? (tree.locate path) = some (.file (.text text))) :
    tree.read? path = some text := by
  have hne : path ≠ "" := by
    rintro rfl
    obtain ⟨⟨name, hlast, -⟩, -⟩ := hpath
    cases hlast
  have hwalk := walk?_of_directories horigin habove
  have hresolve : tree.resolve? path = some (tree.locate path, .file (.text text)) :=
    resolve?_eq_some_iff.mpr ⟨hne, hwalk, hget, by simp [hpath.2]⟩
  rw [read?, hresolve]

end IntervalSuite.FileTree
