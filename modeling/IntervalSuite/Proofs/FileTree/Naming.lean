import IntervalSuite.Proofs.FileTree.Writing
import Mathlib.Data.List.Nodup
import Mathlib.Data.String.Basic

/-!
# Plain names

The entries of a directory have plain names: not empty, neither `.` nor `..`, and without a slash. A
path that goes on by such a name leads to the entry below the place where it led before.

* `Path.names_join`, `FileTree.locate_join`: one more name.
* `FileTree.plain_of_get?`: all names in a tree are plain.
* `FileTree.pairwise_of_list?`: the names in a directory stand in their order, each of them once.
-/

namespace IntervalSuite.Path

theorem not_isAbsolute {part : String} (h : '/' ∉ part.toList) : isAbsolute part = false := by
  rw [isAbsolute, decide_eq_false_iff_not]
  exact fun hhead => h (List.mem_of_mem_head? hhead)

@[simp] theorem names_empty : names "" = [] := rfl

theorem splitOn_slash (front part : String) :
    (front ++ "/" ++ part).toList.splitOn '/' =
      front.toList.splitOn '/' ++ part.toList.splitOn '/' := by
  simp [List.splitOn_append_cons_self]

theorem names_slash (front part : String) :
    names (front ++ "/" ++ part) = names front ++ names part := by
  simp only [names, splitOn_slash, List.filter_append, List.map_append]

theorem endsInDirectory_slash (front part : String) :
    endsInDirectory (front ++ "/" ++ part) = endsInDirectory part := by
  have hlast := List.getLast?_append_of_ne_nil (front.toList.splitOn '/')
    (List.splitOn_ne_nil '/' part.toList)
  simp only [endsInDirectory, splitOn_slash, hlast]

/-- A part without a slash follows behind the one slash between it and the path. -/
theorem join_cases (path : String) {part : String} (h : '/' ∉ part.toList) :
    (path = "" ∧ join path part = part) ∨
    ∃ front, (path = front ∨ path = front ++ "/") ∧ path ≠ "" ∧
      join path part = front ++ "/" ++ part := by
  have hjoin : join path part =
      if path.toList.getLast?.all (· = '/') then path ++ part else path ++ "/" ++ part := by
    simp [join, not_isAbsolute h]
  by_cases hempty : path = ""
  · subst hempty
    exact .inl ⟨rfl, by simpa using hjoin⟩
  · refine .inr ?_
    obtain ⟨front, last, hlast⟩ : ∃ front last, path.toList = front ++ [last] :=
      (List.eq_nil_or_concat' path.toList).resolve_left (by simpa using hempty)
    rw [hlast, List.getLast?_concat, Option.all_some] at hjoin
    by_cases hslash : last = '/'
    · have hpath : path = String.ofList front ++ "/" := by
        rw [← String.toList_inj, hlast, hslash]
        simp
      refine ⟨String.ofList front, .inr hpath, hempty, ?_⟩
      rw [hjoin, if_pos (by simpa using hslash), hpath]
    · exact ⟨path, .inl rfl, hempty, by rw [hjoin, if_neg (by simpa using hslash)]⟩

/-- Names behind the same path keep their order. -/
theorem join_lt_join (path : String) {a b : String} (ha : '/' ∉ a.toList) (hb : '/' ∉ b.toList)
    (h : a < b) : join path a < join path b := by
  obtain ⟨front, hfront⟩ : ∃ front, ∀ part : String, '/' ∉ part.toList →
      join path part = front ++ part := by
    by_cases hpath : path.toList.getLast?.all (· = '/')
    · exact ⟨path, fun part hpart => by simp [join, not_isAbsolute hpart, hpath]⟩
    · exact ⟨path ++ "/", fun part hpart => by simp [join, not_isAbsolute hpart, hpath]⟩
  rw [hfront a ha, hfront b hb, String.lt_iff_toList_lt, String.toList_append, String.toList_append]
  exact List.append_left_lt h

theorem names_of_noSlash {part : String} (h : '/' ∉ part.toList) (hempty : part ≠ "")
    (hdot : part ≠ ".") : names part = [part] := by
  have hdot' : part.toList ≠ ['.'] := fun heq => hdot (String.toList_inj.mp heq)
  rw [names, List.splitOn_eq_singleton h]
  simp [hempty, hdot']

/-- **One more name.** -/
theorem names_join (path : String) {part : String} (h : '/' ∉ part.toList) (hempty : part ≠ "")
    (hdot : part ≠ ".") : names (join path part) = names path ++ [part] := by
  rw [← names_of_noSlash h hempty hdot]
  obtain ⟨rfl, hjoin⟩ | ⟨front, rfl | rfl, -, hjoin⟩ := join_cases path h
  · rw [hjoin]
    rfl
  · rw [hjoin, names_slash]
  · have hfront : names (front ++ "/") = names front := by
      simpa using names_slash front ""
    rw [hjoin, names_slash, hfront]

theorem endsInDirectory_join (path : String) {part : String} (h : '/' ∉ part.toList) :
    endsInDirectory (join path part) = endsInDirectory part := by
  obtain ⟨-, hjoin⟩ | ⟨front, -, -, hjoin⟩ := join_cases path h
  · rw [hjoin]
  · rw [hjoin, endsInDirectory_slash]

theorem isAbsolute_join (path : String) {part : String} (h : '/' ∉ part.toList) :
    isAbsolute (join path part) = isAbsolute path := by
  have hhead {a b : String} (ha : a ≠ "") : isAbsolute (a ++ b) = isAbsolute a := by
    have ha' : a.toList ≠ [] := by simpa using ha
    rw [isAbsolute, isAbsolute, String.toList_append, List.head?_append_of_ne_nil _ ha']
  obtain ⟨rfl, hjoin⟩ | ⟨front, rfl | rfl, hne, hjoin⟩ := join_cases path h
  · rw [hjoin, not_isAbsolute h]
    rfl
  · rw [hjoin, String.append_assoc, hhead hne]
  · rw [hjoin, hhead hne]

end IntervalSuite.Path

namespace IntervalSuite.FileTree

open IntervalSuite.Path (Plain)

/-- **One more name** leads one step down. -/
theorem locate_join (tree : FileTree) (path : String) {name : String} (h : Plain name) :
    tree.locate (Path.join path name) = tree.locate path ++ [name] := by
  have horigin : tree.origin (Path.join path name) = tree.origin path := by
    rw [origin, Path.isAbsolute_join path h.noSlash, origin]
  rw [locate, Path.names_join path h.noSlash h.ne_empty h.ne_dot, horigin, follow,
    List.foldl_append, List.foldl_cons, List.foldl_nil, step, if_neg h.ne_dots]
  rfl

theorem walk?_concat {tree : FileTree} {location destination : Location} {names : List String}
    {name : String} (h : tree.walk? location names = some destination)
    (hdirectory : tree.isDirectory destination) (hname : name ≠ "..") :
    tree.walk? location (names ++ [name]) = some (destination ++ [name]) := by
  induction names generalizing location with
  | nil =>
    obtain rfl := Option.some.inj h
    rw [List.nil_append, walk?, if_pos hdirectory, if_neg hname, walk?]
  | cons first names ih =>
    rw [walk?] at h
    rw [List.cons_append, walk?]
    split at h
    · rename_i hlocation
      rw [if_pos hlocation]
      exact ih h
    · cases h

/-- **One more name** leads from a directory to the entry of that name in it. -/
theorem resolve?_join_iff {tree : FileTree} {path name : String} {location other : Location}
    {entry : Entry} (h : tree.resolve? path = some (location, .directory)) (hname : Plain name) :
    tree.resolve? (Path.join path name) = some (other, entry) ↔
      other = location ++ [name] ∧ tree.get? other = some entry := by
  obtain ⟨-, hwalk, hget, -⟩ := resolve?_eq_some_iff.mp h
  have hne : Path.join path name ≠ "" := by
    intro hempty
    have hnames := Path.names_join path hname.noSlash hname.ne_empty hname.ne_dot
    rw [hempty, Path.names_empty] at hnames
    exact absurd hnames (by simp)
  have horigin : tree.origin (Path.join path name) = tree.origin path := by
    rw [origin, Path.isAbsolute_join path hname.noSlash, origin]
  have hends : Path.endsInDirectory (Path.join path name) = false := by
    have hdot : name.toList ≠ ['.'] := fun heq => hname.ne_dot (String.toList_inj.mp heq)
    rw [Path.endsInDirectory_join path hname.noSlash, Path.endsInDirectory,
      List.splitOn_eq_singleton hname.noSlash]
    simp [hname.ne_empty, hdot]
  rw [resolve?_eq_some_iff, horigin, Path.names_join path hname.noSlash hname.ne_empty hname.ne_dot,
    walk?_concat hwalk (isDirectory_iff.mpr hget) hname.ne_dots, hends]
  simp [hne, eq_comm]

theorem hasDirectory_join_iff {tree : FileTree} {path name : String} {location : Location}
    (h : tree.resolve? path = some (location, .directory)) (hname : Plain name) :
    tree.hasDirectory (Path.join path name) ↔
      tree.get? (location ++ [name]) = some .directory := by
  have hiff (other : Location) :
      tree.resolve? (Path.join path name) = some (other, .directory) ↔
        other = location ++ [name] ∧ tree.get? other = some .directory :=
    resolve?_join_iff h hname
  unfold hasDirectory
  split
  · rename_i other hresolve
    obtain ⟨rfl, hget⟩ := (hiff other).mp hresolve
    exact iff_of_true rfl hget
  · rename_i hnone
    exact iff_of_false (by decide) fun hget => hnone _ ((hiff _).mpr ⟨rfl, hget⟩)

theorem hasFile_join_iff {tree : FileTree} {path name : String} {location : Location}
    (h : tree.resolve? path = some (location, .directory)) (hname : Plain name) :
    tree.hasFile (Path.join path name) ↔
      ∃ content, tree.get? (location ++ [name]) = some (.file content) := by
  have hiff (other : Location) (content : Content) :
      tree.resolve? (Path.join path name) = some (other, .file content) ↔
        other = location ++ [name] ∧ tree.get? other = some (.file content) :=
    resolve?_join_iff h hname
  unfold hasFile
  split
  · rename_i other content hresolve
    obtain ⟨rfl, hget⟩ := (hiff other content).mp hresolve
    exact iff_of_true rfl ⟨content, hget⟩
  · rename_i hnone
    exact iff_of_false (by decide) fun ⟨content, hget⟩ => hnone _ _ ((hiff _ _).mpr ⟨rfl, hget⟩)

/-- A part without a slash in which a path ends is a plain name. -/
theorem plain_of_endsInName {path part : String} (hslash : '/' ∉ part.toList)
    (h : EndsInName (Path.join path part)) : Plain part := by
  obtain ⟨⟨name, hlast, hdots⟩, hends⟩ := h
  rw [Path.endsInDirectory_join path hslash] at hends
  have hempty : part ≠ "" := by
    rintro rfl
    cases hends
  have hdot : part ≠ "." := by
    rintro rfl
    cases hends
  rw [Path.names_join path hslash hempty hdot, List.getLast?_concat] at hlast
  exact ⟨hempty, hdot, Option.some.inj hlast ▸ hdots, hslash⟩

/-! ## Listings -/

/-- The names that lead to an entry are plain. -/
theorem plain_of_get? {tree : FileTree} {location : Location} (h : tree.get? location ≠ none) :
    ∀ name ∈ location, Plain name := by
  by_cases hroot : location = []
  · simp [hroot]
  · obtain ⟨entry, hentry⟩ := Option.ne_none_iff_exists'.mp h
    exact tree.entries.plain _ ((get?_eq_some_iff hroot).mp hentry)

/-- The name of an entry that stands right below a location. -/
def nameBelow? (location other : Location) : Option String :=
  match location.isPrefixOf? other with
  | some [name] => some name
  | _ => none

theorem nameBelow?_eq_some_iff {location other : Location} {name : String} :
    nameBelow? location other = some name ↔ location ++ [name] = other := by
  rw [← List.isPrefixOf?_eq_some_iff_append_eq, nameBelow?]
  split
  · rename_i heq
    simp [heq]
  · rename_i hne
    exact iff_of_false nofun (hne name)

theorem children_eq (tree : FileTree) (location : Location) :
    tree.children location = tree.entries.toList.filterMap fun e => nameBelow? location e.1 := rfl

theorem nodup_children (tree : FileTree) (location : Location) :
    (tree.children location).Nodup := by
  have hmap : tree.children location =
      (tree.entries.toList.map Prod.fst).filterMap (nameBelow? location) := by
    rw [children_eq, List.filterMap_map]
    rfl
  rw [hmap]
  refine tree.nodup.filterMap fun a b name ha hb => ?_
  rw [Option.mem_def, nameBelow?_eq_some_iff] at ha hb
  rw [← ha, hb]

theorem mem_children_iff {tree : FileTree} {location : Location} {name : String} :
    name ∈ tree.children location ↔ tree.get? (location ++ [name]) ≠ none := by
  rw [Option.ne_none_iff_exists', children_eq, List.mem_filterMap]
  have hne : location ++ [name] ≠ [] := by simp
  constructor
  · rintro ⟨⟨other, entry⟩, hmem, hname⟩
    obtain rfl := nameBelow?_eq_some_iff.mp hname
    exact ⟨entry, (get?_eq_some_iff hne).mpr hmem⟩
  · rintro ⟨entry, hget⟩
    exact ⟨_, (get?_eq_some_iff hne).mp hget, nameBelow?_eq_some_iff.mpr rfl⟩

/-- A listing names the entries of a directory. -/
theorem mem_of_list? {tree : FileTree} {path : String} {names : List String}
    (h : tree.list? path = some names) :
    ∃ location, tree.resolve? path = some (location, .directory) ∧
      ∀ name, name ∈ names ↔ tree.get? (location ++ [name]) ≠ none := by
  unfold list? at h
  split at h
  · rename_i location hresolve
    obtain rfl := Option.some.inj h
    refine ⟨location, hresolve, fun name => ?_⟩
    rw [List.mem_mergeSort, mem_children_iff]
  · cases h

/-- **The names in a directory** stand in their order, each of them once. -/
theorem pairwise_of_list? {tree : FileTree} {path : String} {names : List String}
    (h : tree.list? path = some names) : names.Pairwise (· < ·) := by
  unfold list? at h
  split at h
  · rename_i location hresolve
    obtain rfl := Option.some.inj h
    have hsorted : ((tree.children location).mergeSort (· ≤ ·)).Pairwise
        (fun a b => decide (a ≤ b) = true) :=
      List.pairwise_mergeSort (fun _ _ _ => by simpa using String.le_trans)
        (by simpa using String.le_total) _
    have hnodup := (List.mergeSort_perm (tree.children location) (· ≤ ·)).nodup_iff.mpr
      (nodup_children tree location)
    refine (hsorted.and hnodup).imp fun {a b} hab => ?_
    rw [← String.not_le]
    exact fun hba => hab.2 (String.le_antisymm (by simpa using hab.1) hba)
  · cases h

theorem plain_of_list? {tree : FileTree} {path : String} {names : List String}
    (h : tree.list? path = some names) : ∀ name ∈ names, Plain name := by
  obtain ⟨location, -, hmem⟩ := mem_of_list? h
  exact fun name hname => plain_of_get? ((hmem name).mp hname) name (by simp)

end IntervalSuite.FileTree
