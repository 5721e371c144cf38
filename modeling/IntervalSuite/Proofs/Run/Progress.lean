import IntervalSuite.Proofs.Fallible
import IntervalSuite.Proofs.FileTree.Writing
import IntervalSuite.Run
import Mathlib.Data.List.Basic
import Mathlib.Data.List.Induction

/-!
# The progress of a run

A run works through the pairs of its parsed source files and its destinations, file by file. What it
has to do is fixed by the tree that it starts from: the documents are those of the source files
there, and a pair gives an output or fails on its own.

* `Wrote`: a tree after some outputs have been written, entry by entry.
* `Reached`: the state of a run after some pairs.
* `Reached.generatePair`, `Reached.generateFile`: what one pair and one file do to it.
* `reached_of_foldlM`, `stopped_of_foldlM`: the state after any number of files, and where a run
  ends early.
-/

namespace IntervalSuite.Run

open FileTree

/-! ## The work of a run -/

/-- The document in a source file, if the file can be read and parsed. -/
def parsed? (tree : FileTree) (options : Options) (name : String) : Option Itl.Document := do
  let source ← tree.read? (Path.join options.sourceDirectory name)
  (Itl.parseDocument source name).toOption

/-- A parsed source file and a destination. -/
structure Pair where
  name : String
  document : Itl.Document
  destination : Destination

/-- A generated file. -/
structure Output where
  path : String
  generated : Generation.Generated

/-- What a pair gives, unless it can not be rendered. -/
def Pair.output? (options : Options) (pair : Pair) : Option Output :=
  match Generation.generate pair.destination.target pair.document with
  | .ok generated =>
    some ⟨outputPath options.outputDirectory pair.destination (Path.stem pair.name), generated⟩
  | .error _ => none

/-- The pairs of one source file; there are none if it does not parse. -/
def filePairs (tree : FileTree) (options : Options) (destinations : List Destination)
    (name : String) : List Pair :=
  match parsed? tree options name with
  | some document => destinations.map (⟨name, document, ·⟩)
  | none => []

/-- The pairs of all source files, file by file. -/
def pairs (tree : FileTree) (options : Options) (names : List String)
    (destinations : List Destination) : List Pair :=
  names.flatMap (filePairs tree options destinations)

/-- What pairs give, in their order. -/
def outputs (options : Options) (pairs : List Pair) : List Output :=
  pairs.filterMap (Pair.output? options)

@[simp] theorem outputs_append (options : Options) (xs ys : List Pair) :
    outputs options (xs ++ ys) = outputs options xs ++ outputs options ys :=
  List.filterMap_append

@[simp] theorem pairs_append (tree : FileTree) (options : Options) (xs ys : List String)
    (destinations : List Destination) :
    pairs tree options (xs ++ ys) destinations =
      pairs tree options xs destinations ++ pairs tree options ys destinations :=
  List.flatMap_append

theorem mem_outputs_pairs {tree : FileTree} {options : Options} {names : List String}
    {destinations : List Destination} {output : Output}
    (h : output ∈ outputs options (pairs tree options names destinations)) :
    ∃ name ∈ names, ∃ destination ∈ destinations,
      output.path = outputPath options.outputDirectory destination (Path.stem name) := by
  obtain ⟨pair, hpair, houtput⟩ := List.mem_filterMap.mp h
  obtain ⟨name, hname, hmem⟩ := List.mem_flatMap.mp hpair
  unfold filePairs at hmem
  split at hmem
  · obtain ⟨destination, hdestination, rfl⟩ := List.mem_map.mp hmem
    refine ⟨name, hname, destination, hdestination, ?_⟩
    unfold Pair.output? at houtput
    split at houtput
    · rw [← Option.some.inj houtput]
    · cases houtput
  · cases hmem

/-! ## Trees with outputs -/

/-- The last output that leads to a location. -/
def lastAt? (tree : FileTree) (outputs : List Output) (location : Location) : Option Output :=
  outputs.reverse.find? (tree.locate ·.path = location)

/-- What stands at a location when outputs have been written: the last output there, what was there
before, or a directory above an output. -/
def entryAfter (tree : FileTree) (outputs : List Output) (location : Location) : Option Entry :=
  match lastAt? tree outputs location with
  | some output => some (.file (.text output.generated.content))
  | none => (tree.get? location).or
      (if ∃ output ∈ outputs, location ∈ tree.above output.path then some .directory else none)

/-- `after` is `before` with the outputs written to it one after the other. -/
structure Wrote (before : FileTree) (outputs : List Output) (after : FileTree) : Prop where
  workingDirectory : after.workingDirectory = before.workingDirectory
  get?_eq : ∀ location, after.get? location = entryAfter before outputs location
  isDirectory : ∀ location, before.isDirectory location → after.isDirectory location
  origin : ∀ output ∈ outputs, after.isDirectory (before.origin output.path)
  above : ∀ output ∈ outputs, ∀ location ∈ before.above output.path, after.isDirectory location
  endsInName : ∀ output ∈ outputs, EndsInName output.path

theorem Wrote.nil (tree : FileTree) : Wrote tree [] tree where
  workingDirectory := rfl
  get?_eq := by simp [entryAfter, lastAt?]
  isDirectory _ h := h
  origin := by simp
  above := by simp
  endsInName := by simp

theorem entryAfter_concat (tree : FileTree) (outputs : List Output) (output : Output)
    (location : Location) :
    entryAfter tree (outputs ++ [output]) location =
      if location = tree.locate output.path then some (.file (.text output.generated.content))
      else (entryAfter tree outputs location).or
        (if location ∈ tree.above output.path then some .directory else none) := by
  unfold entryAfter lastAt?
  rw [List.reverse_concat, List.find?_cons]
  by_cases hlocation : tree.locate output.path = location
  · simp [hlocation]
  · have hmem : (∃ other ∈ outputs ++ [output], location ∈ tree.above other.path) ↔
        (∃ other ∈ outputs, location ∈ tree.above other.path) ∨
          location ∈ tree.above output.path := by
      simp [or_and_right, exists_or]
    rw [decide_eq_false hlocation, if_neg (Ne.symm hlocation)]
    cases outputs.reverse.find? (tree.locate ·.path = location) with
    | some last => rfl
    | none =>
      simp only [hmem, Option.or_assoc]
      by_cases hold : ∃ other ∈ outputs, location ∈ tree.above other.path <;> simp [hold]

/-- One more output. -/
theorem Wrote.write {before middle after : FileTree} {outputs : List Output} {output : Output}
    (h : Wrote before outputs middle)
    (hwrite : middle.write output.path (.text output.generated.content) = (after, true)) :
    Wrote before (outputs ++ [output]) after := by
  have hlocate := locate_congr h.workingDirectory output.path
  have habove := above_congr h.workingDirectory output.path
  have horigin := origin_congr h.workingDirectory output.path
  obtain ⟨hwritable, hstores⟩ := write_eq_true hwrite
  refine ⟨hstores.workingDirectory.trans h.workingDirectory, fun location => ?_,
    fun location hdir => isDirectory_write hwrite (h.isDirectory location hdir),
    List.forall_mem_append.mpr ⟨fun other hother => ?_, List.forall_mem_singleton.mpr ?_⟩,
    List.forall_mem_append.mpr ⟨fun other hother location hmem => ?_,
      List.forall_mem_singleton.mpr fun location hmem => ?_⟩,
    List.forall_mem_append.mpr ⟨h.endsInName,
      List.forall_mem_singleton.mpr hwritable.endsInName⟩⟩
  · rw [hstores.get?_eq, entryAfter_concat, hlocate, habove, h.get?_eq]
  · exact isDirectory_write hwrite (h.origin other hother)
  · rw [← horigin]
    exact isDirectory_write hwrite hwritable.origin
  · exact isDirectory_write hwrite (h.above other hother location hmem)
  · rw [← habove] at hmem
    exact isDirectory_above hwrite hmem

/-- A source file that is no output reads as before. -/
theorem Wrote.read?_eq {before after : FileTree} {outputs : List Output} {path : String}
    (h : Wrote before outputs after) (hfile : before.hasFile path)
    (hapart : ∀ output ∈ outputs, before.locate output.path ≠ before.locate path) :
    after.read? path = before.read? path := by
  refine read?_congr h.workingDirectory h.isDirectory ?_ hfile
  obtain ⟨content, hresolve⟩ := resolve?_of_hasFile hfile
  obtain ⟨-, -, hget, -⟩ := resolve?_eq_some_iff.mp hresolve
  have hnone : lastAt? before outputs (before.locate path) = none := by
    simpa [lastAt?] using hapart
  rw [h.get?_eq, entryAfter, hnone, hget]
  rfl

/-- There is a last output where an output leads to. -/
theorem exists_lastAt? (tree : FileTree) {outputs : List Output} {output : Output}
    (h : output ∈ outputs) : ∃ last, lastAt? tree outputs (tree.locate output.path) = some last := by
  rw [← Option.isSome_iff_exists, lastAt?, List.find?_isSome]
  exact ⟨output, List.mem_reverse.mpr h, decide_eq_true rfl⟩

/-- An output that has been written can be written again. -/
theorem Wrote.writable {before after : FileTree} {outputs : List Output} {output : Output}
    (h : Wrote before outputs after) (hmem : output ∈ outputs) : after.Writable output.path := by
  have hlocate := locate_congr h.workingDirectory output.path
  have habove := above_congr h.workingDirectory output.path
  have hdir := h.above output hmem
  obtain ⟨last, hlast⟩ := exists_lastAt? before hmem
  have hfile : after.get? (after.locate output.path) =
      some (.file (.text last.generated.content)) := by
    rw [hlocate, h.get?_eq, entryAfter, hlast]
  refine ⟨h.endsInName output hmem, ?_, fun location hlocation other hother => ?_,
    fun hlocation => ?_, ?_⟩
  · rw [origin_congr h.workingDirectory]
    exact h.origin output hmem
  · have := isDirectory_iff.mp (hdir location (habove ▸ hlocation))
    rw [hother] at this
    cases this
  · have := isDirectory_iff.mp (hdir _ (habove ▸ hlocation))
    rw [hfile] at this
    cases this
  · rw [Bool.eq_false_iff, ne_eq, isDirectory_iff, hfile]
    nofun

/-- **Under the path of an output** stands the last output that leads to the same place. -/
theorem Wrote.read?_last {before after : FileTree} {outputs : List Output} {output : Output}
    (h : Wrote before outputs after) (hmem : output ∈ outputs) :
    ∃ last, lastAt? before outputs (before.locate output.path) = some last ∧
      after.read? output.path = some last.generated.content := by
  obtain ⟨last, hlast⟩ := exists_lastAt? before hmem
  refine ⟨last, hlast, read?_of_directories (h.endsInName output hmem) ?_ ?_ ?_⟩
  · rw [origin_congr h.workingDirectory]
    exact h.origin output hmem
  · rw [above_congr h.workingDirectory]
    exact h.above output hmem
  · rw [locate_congr h.workingDirectory, h.get?_eq, entryAfter, hlast]

/-! ## One pair -/

/-- The pair gives no output. -/
def Pair.fails (options : Options) (pair : Pair) : Bool := (pair.output? options).isNone

/-- The state of a run that has done some pairs. -/
structure Reached (tree : FileTree) (options : Options) (files skipped : Nat) (done : List Pair)
    (progress : Progress) : Prop where
  summary : progress.summary = ⟨files, skipped, done.countP (Pair.fails options),
    (outputs options done).map (·.path),
    ((outputs options done).flatMap (·.generated.warnings)).length⟩
  wrote : Wrote tree (outputs options done) progress.tree

/-- **One pair** fails, is written, or ends the run. -/
theorem generatePair_cases (options : Options) (pair : Pair) (progress : Progress) :
    (∃ log, pair.output? options = none ∧
      generatePair options (Path.stem pair.name) pair.document progress pair.destination =
        .ok (Progress.failedPair ⟨progress.tree, log, progress.summary⟩)) ∨
    (∃ output tree log, pair.output? options = some output ∧
      progress.tree.write output.path (.text output.generated.content) = (tree, true) ∧
      generatePair options (Path.stem pair.name) pair.document progress pair.destination =
        .ok (Progress.wrote ⟨progress.tree, log, progress.summary⟩ tree output.path
          output.generated.warnings.length)) ∨
    (∃ output tree log, pair.output? options = some output ∧
      progress.tree.write output.path (.text output.generated.content) = (tree, false) ∧
      generatePair options (Path.stem pair.name) pair.document progress pair.destination =
        .error ⟨⟨tree, log, progress.summary⟩, .write output.path⟩) := by
  unfold Pair.output? generatePair
  cases Generation.generate pair.destination.target pair.document with
  | error e => exact .inl ⟨_, rfl, rfl⟩
  | ok generated =>
    generalize outputPath options.outputDirectory pair.destination (Path.stem pair.name) = path
    simp only [Progress.logged]
    cases hwrite : progress.tree.write path (.text generated.content) with
    | mk tree written =>
      cases written with
      | true => exact .inr (.inl ⟨_, tree, _, rfl, hwrite, rfl⟩)
      | false => exact .inr (.inr ⟨_, tree, _, rfl, hwrite, rfl⟩)

/-- The tree after a write that failed: the outputs before it, and some of the directories above the
output. No earlier output has the same path, so that the write that failed can be told from it. -/
structure Refused (tree : FileTree) (written : List Output) (output : Output) (after : FileTree) :
    Prop where
  path_ne : ∀ earlier ∈ written, earlier.path ≠ output.path
  get?_eq : ∃ made ⊆ tree.above output.path, ∀ location, after.get? location =
    (entryAfter tree written location).or (if location ∈ made then some .directory else none)

section

variable {tree : FileTree} {options : Options} {files skipped : Nat} {done : List Pair}
  {progress next : Progress} {stopped : Stopped}

theorem Reached.start (tree : FileTree) (options : Options) (files destinations : Nat) :
    Reached tree options files 0 [] (.start tree files destinations) :=
  ⟨rfl, .nil tree⟩

/-- What has been logged does not matter. -/
theorem Reached.logged (h : Reached tree options files skipped done progress)
    (log : List LogLine) :
    Reached tree options files skipped done ⟨progress.tree, log, progress.summary⟩ :=
  ⟨h.summary, h.wrote⟩

theorem Reached.generatePair {pair : Pair} (h : Reached tree options files skipped done progress)
    (hstep : Run.generatePair options (Path.stem pair.name) pair.document progress pair.destination =
      .ok next) :
    Reached tree options files skipped (done ++ [pair]) next := by
  obtain ⟨log, houtput, hok⟩ | ⟨output, after, log, houtput, hwrite, hok⟩ | ⟨_, _, _, _, _, hfail⟩ :=
    generatePair_cases options pair progress
  · obtain rfl := Except.ok.inj (hok.symm.trans hstep)
    have hnone : outputs options [pair] = [] := by simp [outputs, houtput]
    refine ⟨?_, ?_⟩
    · simp [Progress.failedPair, h.summary, hnone, Pair.fails, houtput]
    · rw [outputs_append, hnone, List.append_nil]
      exact h.wrote
  · obtain rfl := Except.ok.inj (hok.symm.trans hstep)
    have hone : outputs options [pair] = [output] := by simp [outputs, houtput]
    refine ⟨?_, ?_⟩
    · simp [Progress.wrote, h.summary, hone, Pair.fails, houtput]
    · rw [outputs_append, hone]
      exact h.wrote.write hwrite
  · cases hfail.symm.trans hstep

theorem Reached.generatePair_error (h : Reached tree options files skipped done progress)
    (pair : Pair)
    (hstep : Run.generatePair options (Path.stem pair.name) pair.document progress pair.destination =
      .error stopped) :
    ∃ output, pair.output? options = some output ∧ stopped.error = .write output.path ∧
      Refused tree (outputs options done) output stopped.progress.tree := by
  obtain ⟨_, _, hok⟩ | ⟨_, _, _, _, _, hok⟩ | ⟨output, after, log, houtput, hwrite, hfail⟩ :=
    generatePair_cases options pair progress
  · cases hok.symm.trans hstep
  · cases hok.symm.trans hstep
  · obtain rfl := Except.error.inj (hfail.symm.trans hstep)
    obtain ⟨-, _, hok, -⟩ | ⟨hrefused, after', made, hafter, hmade, hadds⟩ :=
      write_cases progress.tree output.path (.text output.generated.content)
    · cases hok.symm.trans hwrite
    · obtain rfl : after' = after := congrArg Prod.fst (hafter.symm.trans hwrite)
      refine ⟨output, houtput, rfl, fun earlier hmem hpath => hrefused ?_, made, ?_, ?_⟩
      · rw [← hpath]
        exact h.wrote.writable hmem
      · rwa [← above_congr h.wrote.workingDirectory]
      · intro location
        rw [hadds.get?_eq, h.wrote.get?_eq]

/-! ## One file -/

theorem Reached.generatePairs {name : String} {document : Itl.Document}
    {destinations : List Destination} (h : Reached tree options files skipped done progress)
    (hloop : destinations.foldlM (Run.generatePair options (Path.stem name) document) progress =
      .ok next) :
    Reached tree options files skipped (done ++ destinations.map (⟨name, document, ·⟩)) next := by
  induction destinations using List.reverseRecOn generalizing next with
  | nil =>
    obtain rfl := Except.ok.inj hloop
    simpa using h
  | append_singleton destinations destination ih =>
    rw [List.foldlM_append, bind_eq_ok_iff] at hloop
    obtain ⟨middle, hmiddle, hlast⟩ := hloop
    simp only [List.foldlM_cons, List.foldlM_nil, bind_pure] at hlast
    rw [List.map_append, ← List.append_assoc]
    exact (ih hmiddle).generatePair hlast

/-- The source file does not parse. -/
def unparsed (tree : FileTree) (options : Options) (name : String) : Bool :=
  (parsed? tree options name).isNone

/-- **One file** can not be read, is skipped, or goes to the destinations. -/
theorem generateFile_cases {name : String} (destinations : List Destination)
    (hsource : progress.tree.read? (Path.join options.sourceDirectory name) =
      tree.read? (Path.join options.sourceDirectory name)) :
    (tree.read? (Path.join options.sourceDirectory name) = none ∧
      generateFile options destinations progress name =
        .error ⟨progress, .read (Path.join options.sourceDirectory name)⟩) ∨
    (∃ log, (tree.read? (Path.join options.sourceDirectory name)).isSome ∧
      parsed? tree options name = none ∧
      generateFile options destinations progress name =
        .ok (Progress.skippedFile ⟨progress.tree, log, progress.summary⟩)) ∨
    (∃ document log, (tree.read? (Path.join options.sourceDirectory name)).isSome ∧
      parsed? tree options name = some document ∧
      generateFile options destinations progress name =
        destinations.foldlM (generatePair options (Path.stem name) document)
          ⟨progress.tree, log, progress.summary⟩) := by
  simp only [generateFile, parsed?, hsource]
  cases tree.read? (Path.join options.sourceDirectory name) with
  | none => exact .inl ⟨rfl, rfl⟩
  | some source =>
    simp only [Progress.logged, Option.bind_eq_bind, Option.bind_some]
    cases Itl.parseDocument source name with
    | error e => exact .inr (.inl ⟨_, rfl, rfl, rfl⟩)
    | ok document => exact .inr (.inr ⟨document, _, rfl, rfl, rfl⟩)

/-- A file gives the pairs of the document that it holds when its turn comes. -/
theorem Reached.generateFile_now {name : String} {destinations : List Destination}
    (h : Reached tree options files skipped done progress)
    (hstep : Run.generateFile options destinations progress name = .ok next) :
    (progress.tree.read? (Path.join options.sourceDirectory name)).isSome ∧
      Reached tree options files (skipped + [name].countP (unparsed progress.tree options))
        (done ++ filePairs progress.tree options destinations name) next := by
  obtain ⟨-, hfail⟩ | ⟨log, hread, hnone, hok⟩ | ⟨document, log, hread, hsome, hloop⟩ :=
    generateFile_cases destinations
      (rfl : progress.tree.read? (Path.join options.sourceDirectory name) = progress.tree.read? _)
  · cases hfail.symm.trans hstep
  · obtain rfl := Except.ok.inj (hok.symm.trans hstep)
    refine ⟨hread, ?_, ?_⟩
    · simp [Progress.skippedFile, h.summary, filePairs, unparsed, hnone]
    · simpa [Progress.skippedFile, filePairs, hnone] using h.wrote
  · refine ⟨hread, ?_⟩
    simpa [filePairs, unparsed, hsome] using (h.logged log).generatePairs (hloop.symm.trans hstep)

theorem Reached.generateFile {name : String} {destinations : List Destination}
    (h : Reached tree options files skipped done progress)
    (hsource : progress.tree.read? (Path.join options.sourceDirectory name) =
      tree.read? (Path.join options.sourceDirectory name))
    (hstep : Run.generateFile options destinations progress name = .ok next) :
    (tree.read? (Path.join options.sourceDirectory name)).isSome ∧
      Reached tree options files (skipped + [name].countP (unparsed tree options))
        (done ++ filePairs tree options destinations name) next := by
  have hparsed : parsed? progress.tree options name = parsed? tree options name := by
    simp only [parsed?, hsource]
  have hunparsed : unparsed progress.tree options name = unparsed tree options name := by
    rw [unparsed, unparsed, hparsed]
  have hpairs : filePairs progress.tree options destinations name =
      filePairs tree options destinations name := by
    rw [filePairs, filePairs, hparsed]
  obtain ⟨hread, hnext⟩ := h.generateFile_now hstep
  rw [List.countP_singleton, hunparsed, ← List.countP_singleton, hpairs] at hnext
  exact ⟨hsource ▸ hread, hnext⟩

theorem Reached.generateFile_error {name : String} {destinations : List Destination}
    (h : Reached tree options files skipped done progress)
    (hsource : progress.tree.read? (Path.join options.sourceDirectory name) =
      tree.read? (Path.join options.sourceDirectory name))
    (hstep : Run.generateFile options destinations progress name = .error stopped) :
    (tree.read? (Path.join options.sourceDirectory name) = none ∧
      stopped = ⟨progress, .read (Path.join options.sourceDirectory name)⟩) ∨
    ∃ before pair after output,
      filePairs tree options destinations name = before ++ pair :: after ∧
      pair.output? options = some output ∧ stopped.error = .write output.path ∧
      Refused tree (outputs options (done ++ before)) output stopped.progress.tree := by
  obtain ⟨hread, hfail⟩ | ⟨_, _, _, hok⟩ | ⟨document, log, -, hsome, hloop⟩ :=
    generateFile_cases destinations hsource
  · exact .inl ⟨hread, (Except.error.inj (hfail.symm.trans hstep)).symm⟩
  · cases hok.symm.trans hstep
  · obtain ⟨before, destination, after, middle, rfl, hbefore, hfail⟩ :=
      foldlM_eq_error (hloop.symm.trans hstep)
    obtain ⟨output, houtput⟩ := ((h.logged log).generatePairs hbefore).generatePair_error
      ⟨name, document, destination⟩ hfail
    refine .inr ⟨before.map (⟨name, document, ·⟩), ⟨name, document, destination⟩,
      after.map (⟨name, document, ·⟩), output, ?_, houtput⟩
    simp [filePairs, hsome]

/-! ## All files -/

/-- The sources can be found in the tree, and no output leads to one of them. -/
structure Apart (tree : FileTree) (options : Options) (names : List String)
    (destinations : List Destination) : Prop where
  hasFile : ∀ source ∈ names, tree.hasFile (Path.join options.sourceDirectory source)
  locate_ne : ∀ source ∈ names, ∀ name ∈ names, ∀ destination ∈ destinations,
    tree.locate (outputPath options.outputDirectory destination (Path.stem name)) ≠
      tree.locate (Path.join options.sourceDirectory source)

theorem Apart.read?_eq {names before : List String} {destinations : List Destination}
    {source : String} (h : Apart tree options names destinations) (hbefore : before ⊆ names)
    (hreached : Reached tree options files skipped (pairs tree options before destinations) progress)
    (hsource : source ∈ names) :
    progress.tree.read? (Path.join options.sourceDirectory source) =
      tree.read? (Path.join options.sourceDirectory source) := by
  refine hreached.wrote.read?_eq (h.hasFile source hsource) fun output houtput => ?_
  obtain ⟨name, hname, destination, hdestination, hpath⟩ := mem_outputs_pairs houtput
  rw [hpath]
  exact h.locate_ne source hsource name (hbefore hname) destination hdestination

/-- **Any number of files** gives the outputs of their pairs, as the files stand in the tree that
the run starts from. -/
theorem reached_of_foldlM {names done : List String} {destinations : List Destination}
    (h : Apart tree options names destinations) (hdone : done ⊆ names)
    (hloop : done.foldlM (generateFile options destinations)
      (Progress.start tree names.length destinations.length) = .ok next) :
    (∀ source ∈ done, (tree.read? (Path.join options.sourceDirectory source)).isSome) ∧
      Reached tree options names.length (done.countP (unparsed tree options))
        (pairs tree options done destinations) next := by
  induction done using List.reverseRecOn generalizing next with
  | nil =>
    obtain rfl := Except.ok.inj hloop
    exact ⟨by simp, .start tree options _ _⟩
  | append_singleton done name ih =>
    rw [List.foldlM_append, bind_eq_ok_iff] at hloop
    obtain ⟨middle, hmiddle, hlast⟩ := hloop
    simp only [List.foldlM_cons, List.foldlM_nil, bind_pure] at hlast
    obtain ⟨hread, hreached⟩ := ih (fun _ hmem => hdone (List.mem_append_left _ hmem)) hmiddle
    have hname : name ∈ names := hdone (by simp)
    obtain ⟨hsome, hnext⟩ := hreached.generateFile
      (h.read?_eq (fun _ hmem => hdone (List.mem_append_left _ hmem)) hreached hname) hlast
    refine ⟨?_, ?_⟩
    · simpa [or_imp, forall_and] using ⟨hread, hsome⟩
    · simpa [pairs] using hnext

/-- A loop that ends early ends at a file that can not be read, or at an output that can not be
written. -/
theorem stopped_of_foldlM {names : List String} {destinations : List Destination}
    (h : Apart tree options names destinations)
    (hloop : names.foldlM (generateFile options destinations)
      (Progress.start tree names.length destinations.length) = .error stopped) :
    (∃ before name after, names = before ++ name :: after ∧
      stopped.error = .read (Path.join options.sourceDirectory name) ∧
      tree.read? (Path.join options.sourceDirectory name) = none ∧
      Wrote tree (outputs options (pairs tree options before destinations))
        stopped.progress.tree) ∨
    ∃ before pair after output,
      pairs tree options names destinations = before ++ pair :: after ∧
      pair.output? options = some output ∧ stopped.error = .write output.path ∧
      Refused tree (outputs options before) output stopped.progress.tree := by
  obtain ⟨before, name, after, progress, hnames, hbefore, hfail⟩ := foldlM_eq_error hloop
  have hsubset : before ⊆ names := fun _ hmem => hnames ▸ List.mem_append_left _ hmem
  have hname : name ∈ names := by simp [hnames]
  obtain ⟨-, hreached⟩ := reached_of_foldlM h hsubset hbefore
  obtain ⟨hread, rfl⟩ | ⟨first, pair, rest, output, hpairs, houtput, herror, hrefused⟩ :=
    hreached.generateFile_error (h.read?_eq hsubset hreached hname) hfail
  · exact .inl ⟨before, name, after, hnames, rfl, hread, hreached.wrote⟩
  · refine .inr ⟨pairs tree options before destinations ++ first, pair,
      rest ++ pairs tree options after destinations, output, ?_, houtput, herror, hrefused⟩
    have hcons : pairs tree options (name :: after) destinations =
        filePairs tree options destinations name ++ pairs tree options after destinations :=
      List.flatMap_cons
    rw [hnames, pairs_append, hcons, hpairs]
    simp

end

end IntervalSuite.Run
