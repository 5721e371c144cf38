import IntervalSuite.FileTree.Path

/-!
# File trees

The files and directories that a run reads and writes. A location is the list of the names that lead
to it from the root; a path is resolved to a location from the working directory.

* `Entries` are well-formed by themselves, and so is every tree.
* `get?` is the view of a tree: `get?_set` says what storing an entry does to it.
* `makeDirectories` and `write` give back the tree also where they fail half-way.
-/

namespace IntervalSuite

/-- What a file holds. -/
inductive Content where
  | text (text : String)
  /-- Bytes that are no text. -/
  | raw (bytes : List UInt8)
  deriving DecidableEq, Repr

/-- What the bytes of a file hold. -/
def Content.ofBytes (bytes : ByteArray) : Content :=
  match String.fromUTF8? bytes with
  | some s => .text s
  | none => .raw bytes.toList

/-- What stands at a location. -/
inductive Entry where
  | directory
  | file (content : Content)
  deriving DecidableEq, Repr

/-- The names from the root to a file or directory. -/
abbrev Location := List String

/-- Entries under their locations. Their names are plain, and they stand in directories: in the root,
or in one that is among the entries itself. -/
structure Entries where
  toList : List (Location × Entry)
  plain : ∀ e ∈ toList, ∀ name ∈ e.1, Path.Plain name
  parent : ∀ e ∈ toList, e.1 ≠ [] ∧ (e.1.dropLast = [] ∨ (e.1.dropLast, .directory) ∈ toList)

/-- What a function gives for the entries. -/
def Entries.filterMap {α : Type} (entries : Entries) (f : Location × Entry → Option α) : List α :=
  entries.toList.filterMap f

/-- A tree of files and directories. The root is a directory. -/
structure FileTree where
  entries : Entries
  nodup : (entries.toList.map Prod.fst).Nodup
  workingDirectory : Location

namespace FileTree

/-- The tree with nothing in it. -/
def empty (workingDirectory : Location) : FileTree := ⟨⟨[], nofun, nofun⟩, .nil, workingDirectory⟩

/-- The entry at a location. -/
def get? (tree : FileTree) (location : Location) : Option Entry :=
  if location = [] then some .directory else tree.entries.toList.lookup location

/-- There is a directory at the location. -/
def isDirectory (tree : FileTree) (location : Location) : Bool :=
  tree.get? location = some .directory

theorem isDirectory_iff {tree : FileTree} {location : Location} :
    tree.isDirectory location ↔ tree.get? location = some .directory := by
  simp [isDirectory]

/-- What stands at a location is the entry under it. -/
theorem get?_eq_some_iff {tree : FileTree} {location : Location} {entry : Entry}
    (h : location ≠ []) :
    tree.get? location = some entry ↔ (location, entry) ∈ tree.entries.toList := by
  rw [get?, if_neg h, List.lookup_eq_some_iff]
  constructor
  · rintro ⟨front, back, heq, -⟩
    simp [heq]
  · intro hmem
    obtain ⟨front, back, heq⟩ := List.append_of_mem hmem
    have hnodup := tree.nodup
    rw [heq, List.map_append, List.map_cons, List.nodup_append] at hnodup
    refine ⟨front, back, heq, fun e he => ?_⟩
    simpa using (hnodup.2.2 e.1 (List.mem_map_of_mem he) location List.mem_cons_self).symm

/-- An entry with the name can be stored in the directory at the location, and does not take the
place of a directory. -/
structure Accepts (tree : FileTree) (location : Location) (name : String) : Prop where
  plain : Path.Plain name
  parent : tree.isDirectory location
  free : tree.isDirectory (location ++ [name]) = false

instance (tree : FileTree) (location : Location) (name : String) :
    Decidable (tree.Accepts location name) :=
  decidable_of_iff (Path.Plain name ∧ tree.isDirectory location ∧
      tree.isDirectory (location ++ [name]) = false)
    ⟨fun ⟨hplain, hparent, hfree⟩ => ⟨hplain, hparent, hfree⟩,
      fun h => ⟨h.plain, h.parent, h.free⟩⟩

/-- The names that lead to a directory are plain. -/
theorem plain_of_isDirectory {tree : FileTree} {location : Location}
    (h : tree.isDirectory location) : ∀ name ∈ location, Path.Plain name := by
  by_cases hroot : location = []
  · simp [hroot]
  · rw [isDirectory_iff, get?_eq_some_iff hroot] at h
    exact tree.entries.plain _ h

/-- Stores an entry. -/
def set (tree : FileTree) (location : Location) (name : String) (entry : Entry)
    (h : tree.Accepts location name) : FileTree where
  entries :=
    { toList := (location ++ [name], entry) ::
        tree.entries.toList.filter (·.1 ≠ location ++ [name])
      plain := by
        refine List.forall_mem_cons.mpr ⟨fun part hpart => ?_, fun e he => ?_⟩
        · rcases List.mem_append.mp hpart with hpart | hpart
          · exact plain_of_isDirectory h.parent part hpart
          · exact List.mem_singleton.mp hpart ▸ h.plain
        · exact tree.entries.plain e (List.mem_filter.mp he).1
      parent := by
        have hkeep {other : Location} (hne : other ≠ location ++ [name])
            (hdir : other = [] ∨ (other, .directory) ∈ tree.entries.toList) :
            other = [] ∨ (other, .directory) ∈ (location ++ [name], entry) ::
              tree.entries.toList.filter (·.1 ≠ location ++ [name]) :=
          hdir.imp_right fun hmem => by simp [hmem, hne]
        refine List.forall_mem_cons.mpr ⟨⟨by simp, ?_⟩, fun e he => ?_⟩
        · rw [List.dropLast_concat]
          refine hkeep (by simp) ?_
          by_cases hroot : location = []
          · exact .inl hroot
          · exact .inr ((get?_eq_some_iff hroot).mp (isDirectory_iff.mp h.parent))
        · obtain ⟨hne, hdir⟩ := tree.entries.parent e (List.mem_filter.mp he).1
          refine ⟨hne, hkeep (fun heq => ?_) hdir⟩
          -- Nothing stands in the entry that is replaced, since that is no directory.
          rw [heq] at hdir
          have hmem := hdir.resolve_left (by simp)
          have hfree := h.free
          rw [isDirectory_iff.mpr ((get?_eq_some_iff (by simp)).mpr hmem)] at hfree
          cases hfree }
  nodup := by
    refine List.nodup_cons.2 ⟨by simp, ?_⟩
    exact tree.nodup.sublist (List.filter_sublist.map Prod.fst)
  workingDirectory := tree.workingDirectory

/-- The entry is found where it has been stored, and nothing else changes. -/
theorem get?_set (tree : FileTree) {location : Location} {name : String} (other : Location)
    (entry : Entry) (h : tree.Accepts location name) :
    (tree.set location name entry h).get? other =
      if other = location ++ [name] then some entry else tree.get? other := by
  unfold get? set
  by_cases ho : other = location ++ [name]
  · subst ho; simp
  · have hb : (other == location ++ [name]) = false := by simpa using ho
    simp only [List.lookup_cons, hb, ho, if_false]
    congr 1
    induction tree.entries.toList with
    | nil => rfl
    | cons e es ih => grind

/-- Removes an entry and everything below it. -/
def erase (tree : FileTree) (location : Location) : FileTree where
  entries :=
    { toList := tree.entries.toList.filter fun e => !(location.isPrefixOf e.1)
      plain := fun e he => tree.entries.plain e (List.mem_filter.mp he).1
      parent := by
        intro e he
        obtain ⟨hmem, hkept⟩ := List.mem_filter.mp he
        obtain ⟨hne, hdir⟩ := tree.entries.parent e hmem
        refine ⟨hne, hdir.imp_right fun hdir => List.mem_filter.mpr ⟨hdir, ?_⟩⟩
        -- What stands below the directory above an entry stands below the entry.
        simp only [Bool.not_eq_true', Bool.eq_false_iff, ne_eq, List.isPrefixOf_iff_prefix] at hkept ⊢
        exact fun hbelow => hkept (hbelow.trans (List.dropLast_prefix e.1)) }
  nodup := tree.nodup.sublist (List.filter_sublist.map Prod.fst)
  workingDirectory := tree.workingDirectory

/-- The names in a directory. -/
def children (tree : FileTree) (location : Location) : List String :=
  tree.entries.filterMap fun e =>
    match location.isPrefixOf? e.1 with
    | some [name] => some name
    | _ => none

/-! ## Paths -/

/-- Where a path starts. -/
def origin (tree : FileTree) (path : String) : Location :=
  if Path.isAbsolute path then [] else tree.workingDirectory

/-- The location that names lead to; every name but the last one leads to a directory. -/
def walk? (tree : FileTree) (location : Location) : List String → Option Location
  | [] => some location
  | name :: names =>
    if tree.isDirectory location then
      tree.walk? (if name = ".." then location.dropLast else location ++ [name]) names
    else none

/-- The location that a path leads to, and the entry there. -/
def resolve? (tree : FileTree) (path : String) : Option (Location × Entry) := do
  let location ← if path = "" then none else tree.walk? (tree.origin path) (Path.names path)
  let entry ← tree.get? location
  if Path.endsInDirectory path ∧ entry ≠ .directory then none else some (location, entry)

/-- The path leads to a directory. -/
def hasDirectory (tree : FileTree) (path : String) : Bool :=
  match tree.resolve? path with
  | some (_, .directory) => true
  | _ => false

/-- The path leads to a file. -/
def hasFile (tree : FileTree) (path : String) : Bool :=
  match tree.resolve? path with
  | some (_, .file _) => true
  | _ => false

/-- The text of the file that a path leads to. -/
def read? (tree : FileTree) (path : String) : Option String :=
  match tree.resolve? path with
  | some (_, .file (.text text)) => some text
  | _ => none

/-- The names in the directory that a path leads to, in their order. -/
def list? (tree : FileTree) (path : String) : Option (List String) :=
  match tree.resolve? path with
  | some (location, .directory) => some ((tree.children location).mergeSort (· ≤ ·))
  | _ => none

/-! ## Writing -/

/-- Makes the directories that names lead to, as far as no file is in the way, and gives the
location of the last one. Every name starts from a directory. -/
def makeDirectories (tree : FileTree) (location : Location) :
    List String → FileTree × Option Location
  | [] => (tree, some location)
  | name :: names =>
    if !(tree.isDirectory location) then (tree, none)
    else if name = ".." then tree.makeDirectories location.dropLast names
    else
      match tree.get? (location ++ [name]) with
      | some .directory => tree.makeDirectories (location ++ [name]) names
      | some (.file _) => (tree, none)
      | none =>
        if h : tree.Accepts location name then
          (tree.set location name .directory h).makeDirectories (location ++ [name]) names
        else (tree, none)

/-- Stores a file in the directory at the location. The flag tells whether this could be done. -/
def store (tree : FileTree) (location : Location) (name : String) (content : Content) :
    FileTree × Bool :=
  if h : tree.Accepts location name then (tree.set location name (.file content) h, true)
  else (tree, false)

/-- Writes a file and makes the directories above it. The flag tells whether the file has been
written. -/
def write (tree : FileTree) (path : String) (content : Content) : FileTree × Bool :=
  let names := Path.names path
  match tree.makeDirectories (tree.origin path) names.dropLast, names.getLast? with
  | (tree, some location), some name =>
    if Path.endsInDirectory path then (tree, false) else tree.store location name content
  | (tree, _), _ => (tree, false)

end FileTree

end IntervalSuite
