import RsyncRs.Flist.Walk
import RsyncRs.Fs.Components

/-!
# What walks select

Files are selected in a tree by rules about their names, by their sizes, and by whether there is
anything in them. The rules may see the names in one form or another. Two forms lead to the same
selection when the rules decide alike wherever anything is selected.
-/

/-! ### Trees -/

mutual

/-- The file is a regular one, a symbolic link, or a directory of such files. -/
def FsTree.Ordinary : FsTree → Prop
  | .file _ _ _ | .symlink _ _ => True
  | .dir _ entries => entries.Ordinary
  | .special _ _ | .sealed _ | .hidden => False

/-- All entries are regular files, symbolic links, or directories of such files. -/
def Entries.Ordinary : Entries → Prop
  | .nil => True
  | .cons _ node rest => node.Ordinary ∧ rest.Ordinary

end

mutual

/-- The names in each directory differ, also as strings. -/
def FsTree.Distinct : FsTree → Prop
  | .dir _ entries => entries.Distinct
  | _ => True

/-- The names of the entries differ as strings, and so do those in directories among them. -/
def Entries.Distinct : Entries → Prop
  | .nil => True
  | .cons name node rest =>
    fromUtf8Lossy name ∉ rest.names.map fromUtf8Lossy ∧ node.Distinct ∧ rest.Distinct

end

/-! ### Selections -/

namespace WalkArgs

mutual

/-- What is selected of a file and in it, when the rules see the name that `nameOf` makes of the
names on the way to a file. -/
def selectFile (args : WalkArgs) (nameOf : List Name → Str) (names : List Name) :
    FsTree → List (List Name)
  | .dir _ entries =>
    if args.filter.isExcluded (nameOf names) true then []
    else if args.pruneEmptyDirs && (selectIn args nameOf names entries).isEmpty then []
    else names :: selectIn args nameOf names entries
  | .file _ data _ =>
    if args.filter.isExcluded (nameOf names) false then []
    else if args.admits (wrapI64 data.length) then [names] else []
  | .symlink _ _ => if args.filter.isExcluded (nameOf names) false then [] else [names]
  | _ => []

/-- What is selected of some entries and in them. -/
def selectIn (args : WalkArgs) (nameOf : List Name → Str) (names : List Name) :
    Entries → List (List Name)
  | .nil => []
  | .cons name node rest =>
    selectFile args nameOf (names ++ [name.1]) node ++ selectIn args nameOf names rest

end

/-- The path of a file in the list. -/
def listedPath (names : List Name) : FsPath :=
  FsPath.ofNames (names.map fromUtf8Lossy)

/-- The name of a file that the rules see. -/
def listedName (names : List Name) : Str :=
  strOf (listedPath names)

variable {args : WalkArgs} {f g : List Name → Str} {names x : List Name}

/-! ### What is listed -/

theorem list_eq
    (args : WalkArgs) (place : WalkPlace) {node : FsTree} {m : Metadata}
    (hm : node.metadata = some m)
    (inside : List Found) :
  args.list place node inside =
    if args.filter.isExcluded (strOf place.rel) node.isDir then []
    else if node.fileType = .symlink then [place.found node m]
    else if node.isDir then
      if args.recursive && args.pruneEmptyDirs && inside.isEmpty then []
      else place.found node m :: inside
    else if args.admits (wrapI64 m.len) then [place.found node m] else []
  := by
  rw [list, hm]
  dsimp only
  rw [FsTree.isDir_metadata hm, FsTree.isSymlink_metadata hm]
  simp only [decide_eq_true_eq]

mutual

/-- What is listed for a file is what is selected. -/
theorem paths_walkFile
    (hrec : args.recursive = true) {place : WalkPlace} (h : place.Ok) {node : FsTree}
    (hnode : node.Ordinary) :
  (args.walkFile place node).map (fun e => e.info.path) =
    (args.selectFile listedName place.names node).map listedPath
  := by
  have hpath : ∀ node m, (place.found node m).info.path = listedPath place.names := by
    intro node m
    have habs : FsPath.isAbsolute place.rel = false := by
      rw [h.rel]
      exact FsPath.isAbsolute_ofNames h.isName_lossy
    rw [WalkPlace.found, path_relInfo habs, h.rel]
    rfl
  have hname : strOf place.rel = listedName place.names := by
    rw [h.rel]
    rfl
  match node with
  | .dir attrs entries =>
    have hin := paths_walkSourceDir hrec h hnode
    have hempty : (args.walkSourceDir place entries).isEmpty =
        (args.selectIn listedName place.names entries).isEmpty := by
      rw [← List.isEmpty_map (f := fun e : Found => e.info.path), hin, List.isEmpty_map]
    have hdir : (FsTree.dir attrs entries).isDir = true := rfl
    have htype : (FsTree.dir attrs entries).fileType ≠ .symlink := nofun
    rw [walkFile, list_eq args place rfl, hname, selectFile, hrec, hdir, if_neg htype, if_pos rfl,
      if_pos rfl, hempty, Bool.true_and]
    split
    · rfl
    split
    · rfl
    · rw [List.map_cons, List.map_cons, hin, hpath]
  | .file attrs data readable =>
    have hdir : (FsTree.file attrs data readable).isDir = false := rfl
    have htype : (FsTree.file attrs data readable).fileType ≠ .symlink := nofun
    have hlen : (FsTree.metadataOf attrs (FsTree.file attrs data readable).bits data.length).len =
      data.length := rfl
    simp only [walkFile]
    rw [list_eq args place rfl, hname, selectFile, hdir, if_neg htype, if_neg Bool.false_ne_true,
      hlen]
    split
    · rfl
    split
    · rw [List.map_singleton, List.map_singleton, hpath]
    · rfl
  | .symlink attrs target =>
    have hdir : (FsTree.symlink attrs target).isDir = false := rfl
    have htype : (FsTree.symlink attrs target).fileType = .symlink := rfl
    simp only [walkFile]
    rw [list_eq args place rfl, hname, selectFile, hdir, if_pos htype]
    split
    · rfl
    · rw [List.map_singleton, List.map_singleton, hpath]

theorem paths_walkSourceDir
    (hrec : args.recursive = true) {place : WalkPlace} (h : place.Ok) {entries : Entries}
    (hentries : entries.Ordinary) :
  (args.walkSourceDir place entries).map (fun e => e.info.path) =
    (args.selectIn listedName place.names entries).map listedPath
  := by
  match entries with
  | .nil => rfl
  | .cons name node rest =>
    rw [walkSourceDir, selectIn, List.map_append, List.map_append,
      paths_walkFile hrec (h.enter name) hentries.1, paths_walkSourceDir hrec h hentries.2]
    rfl

end

/-! ### Two forms of the names -/

mutual

/-- Wherever the rules decide differently about the two forms of a name, in a directory that they
do not exclude, nothing is selected. -/
def AgreeFile (args : WalkArgs) (f g : List Name → Str) (names : List Name) : FsTree → Prop
  | .dir attrs entries =>
    if args.filter.isExcluded (f names) true = args.filter.isExcluded (g names) true then
      args.filter.isExcluded (f names) true = true ∨ AgreeIn args f g names entries
    else
      selectFile args f names (.dir attrs entries) = [] ∧
        selectFile args g names (.dir attrs entries) = []
  | node =>
    args.filter.isExcluded (f names) false = args.filter.isExcluded (g names) false ∨
      selectFile args f names node = [] ∧ selectFile args g names node = []

/-- The same for each of some entries. -/
def AgreeIn (args : WalkArgs) (f g : List Name → Str) (names : List Name) : Entries → Prop
  | .nil => True
  | .cons name node rest =>
    AgreeFile args f g (names ++ [name.1]) node ∧ AgreeIn args f g names rest

end

mutual

/-- Where the rules agree, the same is selected. -/
theorem selectFile_eq
    (names : List Name) {node : FsTree} (h : args.AgreeFile f g names node) :
  args.selectFile f names node = args.selectFile g names node
  := by
  match node with
  | .dir attrs entries =>
    unfold AgreeFile at h
    split at h
    · next heq =>
      rcases h with hexcluded | hin
      · rw [selectFile, selectFile, ← heq, if_pos hexcluded, if_pos hexcluded]
      · rw [selectFile, selectFile, ← heq, selectIn_eq names hin]
    · rw [h.1, h.2]
  | .file attrs data readable =>
    unfold AgreeFile at h
    rcases h with heq | ⟨hf, hg⟩
    · rw [selectFile, selectFile, heq]
    · rw [hf, hg]
  | .symlink attrs target =>
    unfold AgreeFile at h
    rcases h with heq | ⟨hf, hg⟩
    · rw [selectFile, selectFile, heq]
    · rw [hf, hg]
  | .special attrs kind => rfl
  | .sealed attrs => rfl
  | .hidden => rfl

theorem selectIn_eq
    (names : List Name) {entries : Entries} (h : args.AgreeIn f g names entries) :
  args.selectIn f names entries = args.selectIn g names entries
  := by
  match entries with
  | .nil => rfl
  | .cons name node rest =>
    rw [selectIn, selectIn, selectFile_eq _ h.1, selectIn_eq names h.2]

end

mutual

/-- What is selected of a file is below it. -/
theorem prefix_of_mem_selectFile
    {names : List Name} {node : FsTree} (hx : x ∈ args.selectFile f names node) :
  names <+: x
  := by
  match node with
  | .dir attrs entries =>
    rw [selectFile] at hx
    split at hx
    · cases hx
    split at hx
    · cases hx
    rcases List.mem_cons.mp hx with rfl | hx
    · exact List.prefix_refl x
    · obtain ⟨name, -, hname⟩ := prefix_of_mem_selectIn hx
      exact (List.prefix_append names [name]).trans hname
  | .file attrs data readable =>
    rw [selectFile] at hx
    split at hx
    · cases hx
    split at hx
    · obtain rfl := List.mem_singleton.mp hx
      exact List.prefix_refl x
    · cases hx
  | .symlink attrs target =>
    rw [selectFile] at hx
    split at hx
    · cases hx
    · obtain rfl := List.mem_singleton.mp hx
      exact List.prefix_refl x

/-- What is selected of some entries is below one of them. -/
theorem prefix_of_mem_selectIn
    {names : List Name} {entries : Entries} (hx : x ∈ args.selectIn f names entries) :
  ∃ name ∈ entries.names, names ++ [name] <+: x
  := by
  match entries with
  | .nil => cases hx
  | .cons name node rest =>
    rw [selectIn, List.mem_append] at hx
    rcases hx with hx | hx
    · exact ⟨name.1, List.mem_cons_self, prefix_of_mem_selectFile hx⟩
    · obtain ⟨name', hname', hprefix⟩ := prefix_of_mem_selectIn hx
      exact ⟨name', List.mem_cons_of_mem _ hname', hprefix⟩

end

mutual

/-- What is selected of a file has names all the way. -/
theorem isName_of_mem_selectFile
    {names : List Name} {node : FsTree} (hnames : ∀ n ∈ names, FsPath.IsName n)
    (hx : x ∈ args.selectFile f names node) :
  ∀ n ∈ x, FsPath.IsName n
  := by
  match node with
  | .dir attrs entries =>
    rw [selectFile] at hx
    split at hx
    · cases hx
    split at hx
    · cases hx
    rcases List.mem_cons.mp hx with rfl | hx
    · exact hnames
    · exact isName_of_mem_selectIn hnames hx
  | .file attrs data readable =>
    rw [selectFile] at hx
    split at hx
    · cases hx
    split at hx
    · rwa [List.mem_singleton.mp hx]
    · cases hx
  | .symlink attrs target =>
    rw [selectFile] at hx
    split at hx
    · cases hx
    · rwa [List.mem_singleton.mp hx]

theorem isName_of_mem_selectIn
    {names : List Name} {entries : Entries} (hnames : ∀ n ∈ names, FsPath.IsName n)
    (hx : x ∈ args.selectIn f names entries) :
  ∀ n ∈ x, FsPath.IsName n
  := by
  match entries with
  | .nil => cases hx
  | .cons name node rest =>
    rw [selectIn, List.mem_append] at hx
    rcases hx with hx | hx
    · apply isName_of_mem_selectFile _ hx
      intro n hn
      rcases List.mem_append.mp hn with hn | hn
      · exact hnames n hn
      · rw [List.mem_singleton.mp hn]
        exact name.2
    · exact isName_of_mem_selectIn hnames hx

end

/-- What is below two entries is below entries of one name. -/
theorem name_eq_of_below
    {a b : Name} (ha : names ++ [a] <+: x) (hb : names ++ [b] <+: x) :
  a = b
  := by
  have heq := List.prefix_of_prefix_length_le ha hb (by simp)
  rw [List.prefix_append_right_inj] at heq
  simpa using heq

/-- The directory itself is not among what is selected in it. -/
theorem not_mem_selectIn_self
    (names : List Name) (entries : Entries) :
  names ∉ args.selectIn f names entries
  := by
  intro h
  obtain ⟨name, -, hprefix⟩ := prefix_of_mem_selectIn h
  have hle := hprefix.length_le
  simp at hle

/-- What is selected in a directory that the rules do not exclude. -/
theorem mem_selectIn_iff
    (attrs : Attrs) {entries : Entries} (h : args.filter.isExcluded (f names) true = false) :
  x ∈ args.selectIn f names entries ↔
    x ∈ args.selectFile f names (.dir attrs entries) ∧ x ≠ names
  := by
  rw [selectFile, h, if_neg Bool.false_ne_true]
  constructor
  · intro hx
    have hempty : (args.selectIn f names entries).isEmpty = false :=
      List.isEmpty_eq_false_iff_exists_mem.mpr ⟨x, hx⟩
    rw [hempty, Bool.and_false, if_neg Bool.false_ne_true]
    refine ⟨List.mem_cons_of_mem names hx, ?_⟩
    rintro rfl
    exact not_mem_selectIn_self x entries hx
  · rintro ⟨hx, hne⟩
    split at hx
    · cases hx
    · exact (List.mem_cons.mp hx).resolve_left hne

/-- Nothing is selected of a file that the rules exclude. -/
theorem selectFile_excluded
    {node : FsTree} (h : args.filter.isExcluded (f names) node.isDir = true) :
  args.selectFile f names node = []
  := by
  match node with
  | .dir attrs entries =>
    rw [selectFile]
    exact if_pos h
  | .file attrs data readable =>
    rw [selectFile]
    exact if_pos h
  | .symlink attrs target =>
    rw [selectFile]
    exact if_pos h
  | .special attrs kind => rfl
  | .sealed attrs => rfl
  | .hidden => rfl

/-- Where the rules decide differently and the same is selected, that is nothing. -/
theorem selectFile_nil
    {node : FsTree}
    (hne :
      args.filter.isExcluded (f names) node.isDir ≠ args.filter.isExcluded (g names) node.isDir)
    (h : args.selectFile f names node = [] ↔ args.selectFile g names node = []) :
  args.selectFile f names node = [] ∧ args.selectFile g names node = []
  := by
  cases hf : args.filter.isExcluded (f names) node.isDir with
  | true =>
      have hnil := selectFile_excluded hf
      exact ⟨hnil, h.mp hnil⟩
  | false =>
      cases hg : args.filter.isExcluded (g names) node.isDir with
      | true =>
          have hnil := selectFile_excluded hg
          exact ⟨h.mpr hnil, hnil⟩
      | false => exact absurd (hf.trans hg.symm) hne

theorem not_mem_names_of_distinct
    {name : EntryName} {node : FsTree} {rest : Entries}
    (h : (Entries.cons name node rest).Distinct) :
  name.1 ∉ rest.names
  := fun hmem => h.1 (List.mem_map_of_mem hmem)

mutual

/-- Where the same is selected, the rules agree. -/
theorem agreeFile_of_select
    {names : List Name} {node : FsTree} (hnode : node.Ordinary) (hdistinct : node.Distinct)
    (h : ∀ x, x ∈ args.selectFile f names node ↔ x ∈ args.selectFile g names node) :
  args.AgreeFile f g names node
  := by
  have hnil : args.selectFile f names node = [] ↔ args.selectFile g names node = [] := by
    rw [List.eq_nil_iff_forall_not_mem, List.eq_nil_iff_forall_not_mem]
    exact forall_congr' fun x => not_congr (h x)
  match node with
  | .dir attrs entries =>
    unfold AgreeFile
    split
    · next heq =>
      cases hexcluded : args.filter.isExcluded (f names) true with
      | true => exact Or.inl rfl
      | false =>
          right
          apply agreeIn_of_select hnode hdistinct
          intro x
          rw [mem_selectIn_iff attrs hexcluded, mem_selectIn_iff attrs (heq.symm.trans hexcluded),
            h x]
    · next hne => exact selectFile_nil hne hnil
  | .file attrs data readable =>
    unfold AgreeFile
    exact or_iff_not_imp_left.mpr fun hne => selectFile_nil hne hnil
  | .symlink attrs target =>
    unfold AgreeFile
    exact or_iff_not_imp_left.mpr fun hne => selectFile_nil hne hnil

theorem agreeIn_of_select
    {names : List Name} {entries : Entries} (hentries : entries.Ordinary)
    (hdistinct : entries.Distinct)
    (h : ∀ x, x ∈ args.selectIn f names entries ↔ x ∈ args.selectIn g names entries) :
  args.AgreeIn f g names entries
  := by
  match entries with
  | .nil => trivial
  | .cons name node rest =>
    have hnot := not_mem_names_of_distinct hdistinct
    -- What is below the first entry is not below another one.
    have hother : ∀ (k : List Name → Str) x, names ++ [name.1] <+: x →
        x ∉ args.selectIn k names rest := by
      intro k x hx hmem
      obtain ⟨name', hname', hprefix⟩ := prefix_of_mem_selectIn hmem
      exact hnot (name_eq_of_below hx hprefix ▸ hname')
    constructor
    · apply agreeFile_of_select hentries.1 hdistinct.2.1
      intro x
      have hx := h x
      rw [selectIn, selectIn, List.mem_append, List.mem_append] at hx
      constructor
      · intro hmem
        have hprefix := prefix_of_mem_selectFile hmem
        exact (hx.mp (Or.inl hmem)).resolve_right (hother g x hprefix)
      · intro hmem
        have hprefix := prefix_of_mem_selectFile hmem
        exact (hx.mpr (Or.inl hmem)).resolve_right (hother f x hprefix)
    · apply agreeIn_of_select hentries.2 hdistinct.2.2
      intro x
      have hx := h x
      rw [selectIn, selectIn, List.mem_append, List.mem_append] at hx
      constructor
      · intro hmem
        apply (hx.mp (Or.inr hmem)).resolve_left
        intro hfirst
        exact hother f x (prefix_of_mem_selectFile hfirst) hmem
      · intro hmem
        apply (hx.mpr (Or.inr hmem)).resolve_left
        intro hfirst
        exact hother g x (prefix_of_mem_selectFile hfirst) hmem

end

/-! ### Names as strings -/

/-- All the names are strings. -/
def AreStrings (names : List Name) : Prop :=
  ∀ name ∈ names, isUtf8 name = true

theorem map_fromUtf8Lossy_eq_self_iff :
  names.map fromUtf8Lossy = names ↔ AreStrings names
  := by
  unfold AreStrings
  induction names with
  | nil => simp
  | cons name names ih =>
      rw [List.map_cons, List.cons.injEq, ih, fromUtf8Lossy_eq_self_iff, List.forall_mem_cons]

mutual

/-- Where the names differ as strings, so do the paths of what is selected. -/
theorem selectFile_injective
    {names x y : List Name} {node : FsTree} (hdistinct : node.Distinct)
    (hx : x ∈ args.selectFile f names node) (hy : y ∈ args.selectFile g names node)
    (h : x.map fromUtf8Lossy = y.map fromUtf8Lossy) :
  x = y
  := by
  match node with
  | .dir attrs entries =>
    have hin : ∀ (k : List Name → Str) z, z ∈ args.selectFile k names (.dir attrs entries) →
        z = names ∨ z ∈ args.selectIn k names entries := by
      intro k z hz
      rw [selectFile] at hz
      split at hz
      · cases hz
      split at hz
      · cases hz
      · exact List.mem_cons.mp hz
    have hlength : ∀ (k : List Name → Str) z, z ∈ args.selectIn k names entries →
        names.map fromUtf8Lossy ≠ z.map fromUtf8Lossy := by
      intro k z hz heq
      obtain ⟨name, -, hprefix⟩ := prefix_of_mem_selectIn hz
      have hle := hprefix.length_le
      have hlen := congrArg List.length heq
      simp only [List.length_map, List.length_append, List.length_singleton] at hle hlen
      omega
    rcases hin f x hx with rfl | hx
    · rcases hin g y hy with rfl | hy
      · rfl
      · exact absurd h (hlength g y hy)
    · rcases hin g y hy with rfl | hy
      · exact absurd h.symm (hlength f x hx)
      · exact selectIn_injective hdistinct hx hy h
  | .file attrs data readable =>
    have hin : ∀ (k : List Name → Str) z,
        z ∈ args.selectFile k names (.file attrs data readable) → z = names := by
      intro k z hz
      rw [selectFile] at hz
      split at hz
      · cases hz
      split at hz
      · exact List.mem_singleton.mp hz
      · cases hz
    rw [hin f x hx, hin g y hy]
  | .symlink attrs target =>
    have hin : ∀ (k : List Name → Str) z,
        z ∈ args.selectFile k names (.symlink attrs target) → z = names := by
      intro k z hz
      rw [selectFile] at hz
      split at hz
      · cases hz
      · exact List.mem_singleton.mp hz
    rw [hin f x hx, hin g y hy]
  | .special attrs kind => cases hx
  | .sealed attrs => cases hx
  | .hidden => cases hx

theorem selectIn_injective
    {names x y : List Name} {entries : Entries} (hdistinct : entries.Distinct)
    (hx : x ∈ args.selectIn f names entries) (hy : y ∈ args.selectIn g names entries)
    (h : x.map fromUtf8Lossy = y.map fromUtf8Lossy) :
  x = y
  := by
  match entries with
  | .nil => cases hx
  | .cons name node rest =>
    have hother : ∀ (k k' : List Name → Str) a b, a ∈ args.selectFile k (names ++ [name.1]) node →
        b ∈ args.selectIn k' names rest → a.map fromUtf8Lossy ≠ b.map fromUtf8Lossy := by
      intro k k' a b ha hb heq
      obtain ⟨name', hname', hb'⟩ := prefix_of_mem_selectIn hb
      have ha' := (prefix_of_mem_selectFile ha).map fromUtf8Lossy
      have hb'' := hb'.map fromUtf8Lossy
      rw [heq, List.map_append, List.map_singleton] at ha'
      rw [List.map_append, List.map_singleton] at hb''
      apply hdistinct.1
      rw [name_eq_of_below ha' hb'']
      exact List.mem_map_of_mem hname'
    rw [selectIn, List.mem_append] at hx hy
    rcases hx with hx | hx
    · rcases hy with hy | hy
      · exact selectFile_injective hdistinct.2.1 hx hy h
      · exact absurd h (hother f g x y hx hy)
    · rcases hy with hy | hy
      · exact absurd h.symm (hother g f y x hy hx)
      · exact selectIn_injective hdistinct.2.2 hx hy h

end

/-- Two forms of the names lead to the same paths, one of them as they are and the other one as
strings, if the rules agree and all that is selected has names that are strings; where the names
differ as strings, only then. -/
theorem same_paths_of_agree
    {entries : Entries} (hagree : args.AgreeIn f g names entries)
    (hstrings : ∀ x ∈ args.selectIn f names entries, AreStrings x) (x : List Name) :
  x ∈ args.selectIn f names entries ↔
    x ∈ (args.selectIn g names entries).map (List.map fromUtf8Lossy)
  := by
  rw [← selectIn_eq names hagree]
  rw [List.map_congr_left fun y hy => map_fromUtf8Lossy_eq_self_iff.mpr (hstrings y hy),
    List.map_id']

theorem agree_of_same_paths
    {entries : Entries} (hentries : entries.Ordinary) (hdistinct : entries.Distinct)
    (h : ∀ x, x ∈ args.selectIn f names entries ↔
      x ∈ (args.selectIn g names entries).map (List.map fromUtf8Lossy)) :
  args.AgreeIn f g names entries ∧ ∀ x ∈ args.selectIn f names entries, AreStrings x
  := by
  have hstrings : ∀ x ∈ args.selectIn f names entries, AreStrings x := by
    intro x hx
    obtain ⟨y, -, rfl⟩ := List.mem_map.mp ((h x).mp hx)
    intro name hname
    obtain ⟨name, -, rfl⟩ := List.mem_map.mp hname
    exact isUtf8_fromUtf8Lossy name
  refine ⟨agreeIn_of_select hentries hdistinct fun x => ?_, hstrings⟩
  constructor
  · intro hx
    obtain ⟨y, hy, heq⟩ := List.mem_map.mp ((h x).mp hx)
    have hself := map_fromUtf8Lossy_eq_self_iff.mpr (hstrings x hx)
    rw [selectIn_injective hdistinct hx hy (hself.trans heq.symm)]
    exact hy
  · intro hx
    have hmem := (h (x.map fromUtf8Lossy)).mpr (List.mem_map_of_mem hx)
    have hself := map_fromUtf8Lossy_eq_self_iff.mpr (hstrings _ hmem)
    rw [← selectIn_injective hdistinct hmem hx hself]
    exact hmem

end WalkArgs
