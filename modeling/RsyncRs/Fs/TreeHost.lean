import RsyncRs.Fs.Tree

/-!
# Hosts that are trees

A host may be a tree of files below one path and nothing else. It says what its files are, and
removes them. The names on the way to a file lead to it, and a tree with another file there differs
in nothing else.
-/

/-! ### Entries by name -/

namespace Entries

/-- The first entry of the name. -/
def find? (name : Name) : Entries → Option FsTree
  | .nil => none
  | .cons n node rest => if n.1 = name then some node else rest.find? name

/-- The entries with `f` of the first one of the name. -/
def update (name : Name) (f : FsTree → FsTree) : Entries → Entries
  | .nil => .nil
  | .cons n node rest =>
    if n.1 = name then .cons n (f node) rest else .cons n node (rest.update name f)

/-- The entries without the first one of the name. -/
def erase (name : Name) : Entries → Entries
  | .nil => .nil
  | .cons n node rest => if n.1 = name then rest else .cons n node (rest.erase name)

/-- The entries and more entries after them. -/
def append : Entries → Entries → Entries
  | .nil, more => more
  | .cons n node rest, more => .cons n node (rest.append more)

variable {name : Name} {f g : FsTree → FsTree} {node : FsTree}

theorem find?_update
    (es : Entries) (h : es.find? name = some node) :
  (es.update name f).find? name = some (f node)
  := by
  cases es with
  | nil => cases h
  | cons n node' rest =>
      rw [find?] at h
      rw [update]
      split at h
      · next hname =>
        cases h
        rw [if_pos hname, find?, if_pos hname]
      · next hname =>
        rw [if_neg hname, find?, if_neg hname]
        exact rest.find?_update h

theorem update_update
    (es : Entries) :
  (es.update name f).update name g = es.update name (g ∘ f)
  := by
  cases es with
  | nil => rfl
  | cons n node rest =>
      by_cases hname : n.1 = name
      · rw [update, if_pos hname, update, if_pos hname, update, if_pos hname]
        rfl
      · rw [update, if_neg hname, update, if_neg hname, update, if_neg hname, rest.update_update]

/-- Only what is there matters. -/
theorem update_congr
    (es : Entries) (h : ∀ node, es.find? name = some node → f node = g node) :
  es.update name f = es.update name g
  := by
  cases es with
  | nil => rfl
  | cons n node rest =>
      rw [update, update]
      split
      · next hname =>
        rw [h node (by rw [find?, if_pos hname])]
      · next hname =>
        rw [rest.update_congr fun node' hnode' => h node' (by rw [find?, if_neg hname, hnode'])]

theorem update_id
    (es : Entries) :
  es.update name id = es
  := by
  cases es with
  | nil => rfl
  | cons n node rest =>
      rw [update, rest.update_id]
      split
      · rfl
      · rfl

section

variable (n : EntryName) (node : FsTree) (rest : Entries)

theorem find?_append
    (es : Entries) (h : n.1 ∉ es.names) :
  (es.append (.cons n node rest)).find? n = some node
  := by
  cases es with
  | nil => exact if_pos rfl
  | cons n' node' rest' =>
      rw [names, List.mem_cons, not_or] at h
      rw [append, find?, if_neg (Ne.symm h.1), find?_append rest' h.2]

theorem update_append
    (es : Entries) (h : n.1 ∉ es.names) :
  (es.append (.cons n node rest)).update n f = es.append (.cons n (f node) rest)
  := by
  cases es with
  | nil => exact if_pos rfl
  | cons n' node' rest' =>
      rw [names, List.mem_cons, not_or] at h
      rw [append, update, if_neg (Ne.symm h.1), update_append rest' h.2, append]

theorem erase_append
    (es : Entries) (h : n.1 ∉ es.names) :
  (es.append (.cons n node rest)).erase n = es.append rest
  := by
  cases es with
  | nil => exact if_pos rfl
  | cons n' node' rest' =>
      rw [names, List.mem_cons, not_or] at h
      rw [append, erase, if_neg (Ne.symm h.1), erase_append rest' h.2, append]

end

theorem append_assoc
    (es es' es'' : Entries) :
  (es.append es').append es'' = es.append (es'.append es'')
  := by
  cases es with
  | nil => rfl
  | cons n node rest => rw [append, append, append, rest.append_assoc]

theorem names_append
    (es es' : Entries) :
  (es.append es').names = es.names ++ es'.names
  := by
  cases es with
  | nil => rfl
  | cons n node rest => rw [append, names, names, rest.names_append, List.cons_append]

/-- When the names after some entries differ from theirs, they still do when the first one is among
them. -/
theorem not_mem_append
    {n : EntryName} {node : FsTree} {es left rest : Entries}
    (hdone : ∀ name' ∈ (cons n node rest).names, name' ∉ es.names) (hnew : n.1 ∉ rest.names)
    (hleft : ∀ name' ∈ left.names, name' = n.1) {name' : Name} (h : name' ∈ rest.names) :
  name' ∉ (es.append left).names
  := by
  intro hmem
  rw [names_append] at hmem
  rcases List.mem_append.mp hmem with hmem | hmem
  · exact hdone name' (List.mem_cons_of_mem _ h) hmem
  · exact hnew (hleft name' hmem ▸ h)

end Entries

/-! ### Files by the names on the way -/

namespace FsTree

/-- The file to which the names lead. -/
def fileAt : List Name → FsTree → Option FsTree
  | [], node => some node
  | name :: names, .dir _ entries => (entries.find? name).bind (fileAt names)
  | _ :: _, _ => none

/-- The file, when it is a directory, with `f` of its entries. -/
def mapEntries (f : Entries → Entries) : FsTree → FsTree
  | .dir attrs entries => .dir attrs (f entries)
  | node => node

/-- The tree with `f` of the file where the names lead. -/
def modify (f : FsTree → FsTree) : List Name → FsTree → FsTree
  | [] => f
  | name :: names => mapEntries (Entries.update name (modify f names))

/-- The tree with the file where the names lead. -/
def put (tree : FsTree) (names : List Name) (file : FsTree) : FsTree :=
  tree.modify (fun _ => file) names

variable {tree node : FsTree} {f g : FsTree → FsTree} {names : List Name} {name : Name}

theorem fileAt_modify
    (h : tree.fileAt names = some node) :
  (tree.modify f names).fileAt names = some (f node)
  := by
  induction names generalizing tree with
  | nil =>
      cases h
      rfl
  | cons n names ih =>
      cases tree with
      | dir attrs entries =>
          obtain ⟨child, hfind, hchild⟩ := Option.bind_eq_some_iff.mp h
          rw [modify, mapEntries, fileAt, entries.find?_update hfind]
          exact ih hchild
      | _ => cases h

theorem modify_modify
    (tree : FsTree) (names : List Name) :
  (tree.modify f names).modify g names = tree.modify (g ∘ f) names
  := by
  induction names generalizing tree with
  | nil => rfl
  | cons n names ih =>
      cases tree with
      | dir attrs entries =>
          have hcomp : modify g names ∘ modify f names = modify (g ∘ f) names := funext ih
          rw [modify, modify, modify, mapEntries, mapEntries, mapEntries, entries.update_update,
            hcomp]
      | _ => rfl

/-- Only what is there matters. -/
theorem modify_congr
    (h : tree.fileAt names = some node) (hfg : f node = g node) :
  tree.modify f names = tree.modify g names
  := by
  induction names generalizing tree with
  | nil =>
      cases h
      exact hfg
  | cons n names ih =>
      cases tree with
      | dir attrs entries =>
          obtain ⟨child, hfind, hchild⟩ := Option.bind_eq_some_iff.mp h
          have hupdate : entries.update n (modify f names) = entries.update n (modify g names) := by
            apply entries.update_congr
            intro child' hchild'
            cases hfind.symm.trans hchild'
            exact ih hchild
          rw [modify, modify, mapEntries, mapEntries, hupdate]
      | _ => cases h

theorem modify_id
    (tree : FsTree) (names : List Name) :
  tree.modify id names = tree
  := by
  induction names generalizing tree with
  | nil => rfl
  | cons n names ih =>
      have hid : modify id names = id := funext ih
      cases tree with
      | dir attrs entries => rw [modify, mapEntries, hid, entries.update_id]
      | _ => rfl

theorem fileAt_concat
    (tree : FsTree) (names : List Name) (name : Name) :
  tree.fileAt (names ++ [name]) = (tree.fileAt names).bind (fileAt [name])
  := by
  induction names generalizing tree with
  | nil => rfl
  | cons n names ih =>
      cases tree with
      | dir attrs entries =>
          rw [List.cons_append, fileAt, fileAt, Option.bind_assoc, funext ih]
      | _ => rfl

theorem modify_concat
    (tree : FsTree) (names : List Name) (name : Name) :
  tree.modify f (names ++ [name]) = tree.modify (mapEntries (Entries.update name f)) names
  := by
  induction names generalizing tree with
  | nil => rfl
  | cons n names ih => rw [List.cons_append, modify, modify, funext ih]

/-! ### Entries of directories -/

section

variable {entry : EntryName} {attrs : Attrs} {done rest : Entries}

theorem put_put
    {file file' : FsTree} :
  (tree.put names file).put names file' = tree.put names file'
  := modify_modify tree names

theorem put_self
    (h : tree.fileAt names = some node) :
  tree.put names node = tree
  := by
  have hid : tree.modify (fun _ => node) names = tree.modify id names := modify_congr h rfl
  rw [put, hid, modify_id]

/-- An entry is put into its directory. -/
theorem put_concat
    {file : FsTree} (hdone : entry.1 ∉ done.names)
    (hdir : tree.fileAt names = some (.dir attrs (done.append (.cons entry node rest)))) :
  tree.put (names ++ [entry.1]) file =
    tree.put names (.dir attrs (done.append (.cons entry file rest)))
  := by
  rw [put, modify_concat, put]
  apply modify_congr hdir
  rw [mapEntries, Entries.update_append entry node rest done hdone]

/-- An entry is taken from its directory. -/
theorem modify_erase
    (hdone : entry.1 ∉ done.names)
    (hdir : tree.fileAt names = some (.dir attrs (done.append (.cons entry node rest)))) :
  tree.modify (mapEntries (Entries.erase entry)) names =
    tree.put names (.dir attrs (done.append rest))
  := by
  apply modify_congr hdir
  rw [mapEntries, Entries.erase_append entry node rest done hdone]

theorem fileAt_entry
    (hdone : entry.1 ∉ done.names)
    (hdir : tree.fileAt names = some (.dir attrs (done.append (.cons entry node rest)))) :
  tree.fileAt (names ++ [entry.1]) = some node
  := by
  rw [fileAt_concat, hdir, Option.bind_some, fileAt,
    Entries.find?_append entry node rest done hdone, Option.bind_some, fileAt]

end

end FsTree

/-! ### The host -/

/-- The names that the components are, when they are all names. -/
def FsPath.namesOf : List FsPath.Component → Option (List Name)
  | [] => some []
  | .normal name :: parts => (namesOf parts).map (name :: ·)
  | _ :: _ => none

theorem FsPath.namesOf_normal
    (names : List Name) :
  namesOf (names.map .normal) = some names
  := by
  induction names with
  | nil => rfl
  | cons name names ih => rw [List.map_cons, namesOf, ih, Option.map_some]

namespace FsTree

/-- The names on the way from the path `root` to the path. -/
def namesBelow (root path : FsPath) : Option (List Name) :=
  (FsPath.stripPrefix path root).bind FsPath.namesOf

/-- The file at the path, when the tree is at the path `root`. -/
def find (tree : FsTree) (root path : FsPath) : Option FsTree :=
  (namesBelow root path).bind fun names => tree.fileAt names

/-- The tree without the file at the path, when the tree is at the path `root`. -/
def without (tree : FsTree) (root path : FsPath) : FsTree :=
  match namesBelow root path with
  | none => tree
  | some names =>
    match names.getLast? with
    | none => tree
    | some name => tree.modify (mapEntries (Entries.erase name)) names.dropLast

/-- The answers of a host that is a tree at the path `root`. -/
def answer (root : FsPath) (tree : FsTree) : (c : FsCall) → Option (FsReply c × FsTree)
  | .symlinkMetadata path =>
    some (((tree.find root path).bind metadata).elim (.error "not found") .ok, tree)
  | .readDir path =>
    match tree.find root path with
    | some (.dir _ entries) => some (.ok entries.names, tree)
    | _ => some (.error "not a directory that can be read", tree)
  | .removeFile path =>
    if (tree.find root path).any fun node => !node.isDir then
      some (.ok (), tree.without root path)
    else
      some (.error "not a file", tree)
  | .removeDirAll path =>
    if (tree.find root path).any isDir then
      some (.ok (), tree.without root path)
    else
      some (.error "not a directory", tree)
  | _ => none

variable {root path : FsPath} {names : List Name} {tree node : FsTree} {closed : Bool}
  {w : Endpoint FsTree UInt8} {attrs : Attrs} {es : Entries} {name : EntryName}

theorem namesBelow_of_components
    (h : FsPath.components path = FsPath.components root ++ names.map .normal) :
  namesBelow root path = some names
  := by
  rw [namesBelow, FsPath.stripPrefix, h, if_pos (List.prefix_append _ _), List.drop_left,
    Option.bind_some, FsPath.namesOf_normal]

theorem find_of_components
    (h : FsPath.components path = FsPath.components root ++ names.map .normal) :
  tree.find root path = tree.fileAt names
  := by
  rw [find, namesBelow_of_components h, Option.bind_some]

/-- An entry of a directory is taken away. -/
theorem without_of_components
    (h : FsPath.components path = FsPath.components root ++ (names ++ [name.1]).map .normal) :
  tree.without root path = tree.modify (mapEntries (Entries.erase name)) names
  := by
  rw [without, namesBelow_of_components h]
  dsimp only
  rw [List.getLast?_concat, List.dropLast_concat]

/-- What the host says of a file. -/
theorem returns_symlinkMetadata
    (h : w.host.find root path = some node) :
  ∃ info, Proc.Returns (answer root) closed (Fs.symlinkMetadata path) w info w ∧
    info.toOption = node.metadata
  := by
  have hanswer : answer root w.host (.symlinkMetadata path) =
      some (node.metadata.elim (.error "not found") .ok, w.host) := by
    rw [answer, h, Option.bind_some]
  refine ⟨_, Proc.returns_host hanswer, ?_⟩
  cases node.metadata with
  | none => rfl
  | some m => rfl

theorem returns_readDir
    (h : w.host.find root path = some (.dir attrs es)) :
  Proc.Returns (answer root) closed (Fs.readDir path) w (.ok es.names) w
  := by
  apply Proc.returns_host
  rw [answer, h]

/-- Only the entries of a directory can be read. -/
theorem returns_readDir_error
    (h : w.host.find root path = some node) (hdir : ∀ attrs es, node ≠ .dir attrs es) :
  ∃ msg, Proc.Returns (answer root) closed (Fs.readDir path) w (.error msg) w
  := by
  refine ⟨"not a directory that can be read", Proc.returns_host ?_⟩
  rw [answer, h]
  cases node with
  | dir attrs es => exact absurd rfl (hdir attrs es)
  | _ => rfl

theorem returns_removeFile
    (h : w.host.find root path = some node) (hdir : node.isDir = false) :
  Proc.Returns (answer root) closed (Fs.removeFile path) w (.ok ())
    { w with host := w.host.without root path }
  := by
  apply Proc.returns_host
  rw [answer, h, Option.any_some, hdir]
  rfl

theorem returns_removeDirAll
    (h : w.host.find root path = some node) (hdir : node.isDir = true) :
  Proc.Returns (answer root) closed (Fs.removeDirAll path) w (.ok ())
    { w with host := w.host.without root path }
  := by
  apply Proc.returns_host
  rw [answer, h, Option.any_some, hdir]
  rfl

end FsTree

/-! ### Trees that are walked through -/

mutual

/-- The number of files on the longest way into the tree. -/
def FsTree.height : FsTree → ℕ
  | .dir _ entries => entries.height + 1
  | _ => 1

/-- The same for the highest of the entries. -/
def Entries.height : Entries → ℕ
  | .nil => 0
  | .cons _ node rest => max node.height rest.height

end

mutual

/-- The names in each directory differ. -/
def FsTree.NamesDiffer : FsTree → Prop
  | .dir _ entries => entries.NamesDiffer
  | _ => True

/-- The names of the entries differ, and so do those in directories among them. -/
def Entries.NamesDiffer : Entries → Prop
  | .nil => True
  | .cons name node rest => name.1 ∉ rest.names ∧ node.NamesDiffer ∧ rest.NamesDiffer

end
