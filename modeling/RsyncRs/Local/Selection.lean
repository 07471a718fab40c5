import RsyncRs.Flist.Selection
import RsyncRs.Fs.TreeHost
import RsyncRs.Local.Transfer
import RsyncRs.Program.Yields

/-!
# What a local transfer selects

A local transfer walks through a directory in its own way. It selects what a list of files would
have, except that the rules see the names with slashes for backslashes, and that names which are
no strings stay as they are.
-/

namespace Local

open WalkArgs

variable {W : Type} {act : W → (c : Act UInt8 FsCall) → Answer FsReply c → W → Prop}
  {c : Copying} {names : List Name} {src dest path : FsPath} {st st' : LocalState}

/-! ### What the host shows -/

/-- What the host may answer to a call. -/
def Says (act : W → (c : Act UInt8 FsCall) → Answer FsReply c → W → Prop) (c : FsCall)
    (r : FsReply c) : Prop :=
  ∃ w w', act w (.host c) r w'

mutual

/-- What the host says of the path `path`, when it does, is true of the tree. -/
def ShowsFile (act : W → (c : Act UInt8 FsCall) → Answer FsReply c → W → Prop) (path : FsPath) :
    FsTree → Prop
  | .dir attrs entries =>
    (∀ m, Says act (.symlinkMetadata path) (.ok m) →
      (FsTree.dir attrs entries).metadata = some m) ∧
    (∀ names, Says act (.readDir path) (.ok names) → names = entries.names) ∧
    ShowsIn act path entries
  | node => ∀ m, Says act (.symlinkMetadata path) (.ok m) → node.metadata = some m

/-- The same for each of the entries of a directory. -/
def ShowsIn (act : W → (c : Act UInt8 FsCall) → Answer FsReply c → W → Prop) (path : FsPath) :
    Entries → Prop
  | .nil => True
  | .cons name node rest => ShowsFile act (path.join name) node ∧ ShowsIn act path rest

end

theorem ShowsFile.metadata
    {node : FsTree} {m : Metadata} (h : ShowsFile act path node)
    (hm : Says act (.symlinkMetadata path) (.ok m)) :
  node.metadata = some m
  := by
  cases node with
  | dir attrs entries => exact h.1 m hm
  | _ => exact h m hm

/-! ### What is kept -/

/-- What the walk looks for that selects the same files. -/
def walkArgs (c : Copying) : WalkArgs where
  recursive := true
  filter := c.filter
  maxSize := c.maxSize
  minSize := c.minSize
  pruneEmptyDirs := c.opts.pruneEmptyDirs

/-- The name of a file that the rules see. -/
def slashedName (names : List Name) : Str :=
  filterName (FsPath.ofNames names)

/-- Of the files on the way to which are the names `selected`, the paths have been kept. -/
def Keeps (selected : List (List Name)) (st st' : LocalState) : Prop :=
  ∀ rel, rel ∈ st'.kept ↔ rel ∈ st.kept ∨ ∃ names ∈ selected, rel = names.map .normal

theorem Keeps.nil
    (st : LocalState) :
  Keeps [] st st
  := by
  intro rel
  simp

theorem Keeps.append
    {s t : List (List Name)} {st₀ st₁ st₂ : LocalState} (h₁ : Keeps s st₀ st₁)
    (h₂ : Keeps t st₁ st₂) :
  Keeps (s ++ t) st₀ st₂
  := by
  intro rel
  rw [h₂ rel, h₁ rel]
  simp only [List.mem_append]
  constructor
  · rintro ((h | ⟨x, hx, rfl⟩) | ⟨x, hx, rfl⟩)
    · exact Or.inl h
    · exact Or.inr ⟨x, Or.inl hx, rfl⟩
    · exact Or.inr ⟨x, Or.inr hx, rfl⟩
  · rintro (h | ⟨x, hx | hx, rfl⟩)
    · exact Or.inl (Or.inl h)
    · exact Or.inl (Or.inr ⟨x, hx, rfl⟩)
    · exact Or.inr ⟨x, hx, rfl⟩

theorem Keeps.keep
    {s : List (List Name)} (h : Keeps s st st') (names : List Name) :
  Keeps (names :: s) st (st'.keep (names.map .normal))
  := by
  intro rel
  have hrel := h rel
  simp only [LocalState.keep, List.mem_cons, hrel]
  constructor
  · rintro (rfl | h | ⟨x, hx, rfl⟩)
    · exact Or.inr ⟨names, Or.inl rfl, rfl⟩
    · exact Or.inl h
    · exact Or.inr ⟨x, Or.inr hx, rfl⟩
  · rintro (h | ⟨x, rfl | hx, rfl⟩)
    · exact Or.inr (Or.inl h)
    · exact Or.inl rfl
    · exact Or.inr (Or.inr ⟨x, hx, rfl⟩)

/-! ### Entries -/

theorem yields_copyUnlinked
    (env : LocalEnv) (opts : Options) (src dest rel : FsPath) (info : Metadata) (st : LocalState) :
  Proc.Yields act (copyUnlinked env opts src dest rel info st) fun st' => st'.kept = st.kept
  := by
  unfold copyUnlinked
  apply (Proc.Yields.anything _).bind
  intro destMeta _
  apply Proc.Yields.ite
  · exact fun _ => .pure rfl
  intro _
  apply (Proc.Yields.anything _).bind
  intro b _
  apply Proc.Yields.ite
  · exact fun _ => .pure rfl
  intro _
  apply Proc.Yields.ite
  · exact fun _ => .pure rfl
  intro _
  apply (Proc.Yields.anything _).bind
  intro b _
  apply Proc.Yields.ite
  · exact fun _ => .pure rfl
  intro _
  apply Proc.Yields.ite
  · exact fun _ => .pure rfl
  intro _
  unfold transferEntry
  apply (Proc.Yields.anything _).bind
  intro _ _
  apply Proc.Yields.ite
  · exact fun _ => (Proc.Yields.anything _).bind fun _ _ => .pure rfl
  intro _
  apply Proc.Yields.ite
  · intro _
    apply (Proc.Yields.anything _).bind
    intro _ _
    apply (Proc.Yields.anything _).bind
    intro _ _
    exact (Proc.Yields.anything _).bind fun _ _ => .pure rfl
  · exact fun _ => .pure rfl

/-- The copying of an entry keeps no path. -/
theorem yields_copyEntry
    (env : LocalEnv) (opts : Options) (src dest rel : FsPath) (info : Metadata) (st : LocalState) :
  Proc.Yields act (copyEntry env opts src dest rel info st) fun st' => st'.kept = st.kept
  := by
  unfold copyEntry
  split
  · apply yields_copyUnlinked
  · split
    · exact (Proc.Yields.anything _).bind fun _ _ => .pure rfl
    · split
      · apply yields_copyUnlinked
      · exact (yields_copyUnlinked env opts src dest rel info _).mono fun _ hst => hst

/-! ### Directories -/

theorem yields_orFail
    {α : Type} {p : Session FsReply (Except String α)} {Q : Except String α → Prop}
    (h : Proc.Yields act p Q) :
  Proc.Yields act (Fs.orFail p) fun a => Q (.ok a)
  := by
  apply h.bind
  intro r hr
  cases r with
  | ok a => exact .pure hr
  | error msg => exact .throw

theorem yields_symlinkMetadata
    (path : FsPath) :
  Proc.Yields act (Fs.orFail (Fs.symlinkMetadata path)) fun m =>
    Says act (.symlinkMetadata path) (.ok m)
  := yields_orFail (.host fun w _ w' h => ⟨w, w', h⟩)

theorem yields_readDir
    (path : FsPath) :
  Proc.Yields act (Fs.orFail (Fs.readDir path)) fun names => Says act (.readDir path) (.ok names)
  := yields_orFail (.host fun w _ w' h => ⟨w, w', h⟩)

/-- What an entry adds to the number of those that were copied, and to what is kept. -/
def Adds (selected : List (List Name)) (acc acc' : ℕ × LocalState) : Prop :=
  (acc'.1 = acc.1 ↔ selected = []) ∧ acc.1 ≤ acc'.1 ∧ Keeps selected acc.2 acc'.2

theorem Adds.nil
    (acc : ℕ × LocalState) :
  Adds [] acc acc
  := ⟨by simp, le_rfl, Keeps.nil acc.2⟩

theorem Adds.append
    {s t : List (List Name)} {acc₀ acc₁ acc₂ : ℕ × LocalState} (h₁ : Adds s acc₀ acc₁)
    (h₂ : Adds t acc₁ acc₂) :
  Adds (s ++ t) acc₀ acc₂
  := by
  obtain ⟨hs, hle₁, hkeeps₁⟩ := h₁
  obtain ⟨ht, hle₂, hkeeps₂⟩ := h₂
  refine ⟨?_, hle₁.trans hle₂, hkeeps₁.append hkeeps₂⟩
  rw [List.append_eq_nil_iff, ← hs, ← ht]
  omega

/-- A directory is copied when what is in it is. -/
theorem yields_copyDir
    {entries : Entries} {n : ℕ}
    (hread : ∀ names, Says act (.readDir src) (.ok names) → names = entries.names)
    (h : ∀ n acc, Proc.Yields act
      (Proc.forEach (copyChild c (copyDirRecursive c n) src dest (FsPath.ofNames names)) acc
        entries.names)
      (Adds ((walkArgs c).selectIn slashedName names entries) acc)) :
  Proc.Yields act (copyDirRecursive c n src dest (FsPath.ofNames names) st)
    (Adds ((walkArgs c).selectIn slashedName names entries) (0, st))
  := by
  cases n with
  | zero => exact .throw
  | succ n =>
      rw [copyDirRecursive]
      apply (yields_readDir src).bind
      intro found hfound
      rw [hread found hfound]
      apply (h n (0, st)).bind
      intro acc hacc
      unfold finishDir
      apply Proc.Yields.ite
      · exact fun _ => .pure hacc
      · intro _
        apply (Proc.Yields.anything _).bind
        intro _ _
        exact (Proc.Yields.anything _).bind fun _ _ => .pure hacc

theorem outsideLimits_eq
    (c : Copying) (m : Metadata) :
  outsideLimits c m = (m.isFile && !(walkArgs c).admits (wrapI64 m.len))
  := by
  have hmax : (c.maxSize.any fun max => max < wrapI64 m.len) =
      !(c.maxSize.all (wrapI64 m.len ≤ ·)) := by
    cases c.maxSize with
    | none => rfl
    | some max =>
        rw [Option.any_some, Option.all_some, ← decide_not]
        exact decide_eq_decide.mpr not_le.symm
  have hmin : (c.minSize.any fun min => wrapI64 m.len < min) =
      !(c.minSize.all (· ≤ wrapI64 m.len)) := by
    cases c.minSize with
    | none => rfl
    | some min =>
        rw [Option.any_some, Option.all_some, ← decide_not]
        exact decide_eq_decide.mpr not_le.symm
  rw [outsideLimits, hmax, hmin, ← Bool.not_and]
  rfl

/-- An entry that is no directory is kept. -/
theorem yields_keptEntry
    (c : Copying) (src dest : FsPath) (m : Metadata) (acc : ℕ × LocalState)
    (hnames : ∀ n ∈ names, FsPath.IsName n) :
  Proc.Yields act
    (do
      let st ← copyEntry c.env c.opts src dest (FsPath.ofNames names) m
        (acc.2.keep (FsPath.components (FsPath.ofNames names)))
      pure (acc.1 + 1, st))
    (Adds [names] acc)
  := by
  rw [FsPath.components_ofNames hnames]
  apply (yields_copyEntry _ _ _ _ _ _ _).bind
  intro st hst
  apply Proc.Yields.pure
  refine ⟨by simp, Nat.le_succ _, fun rel => ?_⟩
  rw [hst]
  exact (Keeps.nil acc.2).keep names rel

mutual

/-- What is selected of an entry of a directory is kept. -/
theorem yields_copyChild
    (c : Copying) (n : ℕ) {src : FsPath} (dest : FsPath) {names : List Name} {name : EntryName}
    {node : FsTree} (hnode : node.Ordinary) (hnames : ∀ n ∈ names, FsPath.IsName n)
    (hshows : ShowsFile act (src.join name) node) (acc : ℕ × LocalState) :
  Proc.Yields act
    (copyChild c (copyDirRecursive c n) src dest (FsPath.ofNames names) acc name.1)
    (Adds ((walkArgs c).selectFile slashedName (names ++ [name.1]) node) acc)
  := by
  have hjoin := FsPath.join_ofNames hnames name.2
  have hnames' : ∀ n ∈ names ++ [name.1], FsPath.IsName n := by
    intro n hn
    rcases List.mem_append.mp hn with hn | hn
    · exact hnames n hn
    · rw [List.mem_singleton.mp hn]
      exact name.2
  unfold copyChild
  apply (yields_symlinkMetadata _).bind
  intro m hm
  have hmeta := hshows.metadata hm
  rw [hjoin, FsTree.isDir_metadata hmeta, ← slashedName]
  apply Proc.Yields.ite
  · intro hexcluded
    rw [selectFile_excluded hexcluded]
    exact .pure (Adds.nil acc)
  intro hincluded
  match node with
  | .dir attrs entries =>
    have hdir : (FsTree.dir attrs entries).isDir = true := rfl
    have hin : ¬ (walkArgs c).filter.isExcluded (slashedName (names ++ [name.1])) true = true :=
      hincluded
    rw [hdir, if_pos rfl, selectFile, if_neg hin]
    unfold copySubdir
    apply (Proc.Yields.anything _).bind
    intro _ _
    apply (yields_copyDir hshows.2.1 fun n acc =>
      yields_copyEntries c n (dest.join name) hnode hnames' hshows.2.2 acc).bind
    rintro sub ⟨hcount, -, hkeeps⟩
    have hempty : ((walkArgs c).pruneEmptyDirs &&
        ((walkArgs c).selectIn slashedName (names ++ [name.1]) entries).isEmpty) = true ↔
        sub.1 = 0 ∧ c.opts.pruneEmptyDirs = true := by
      rw [Bool.and_eq_true, List.isEmpty_iff, ← hcount, and_comm]
      rfl
    apply Proc.Yields.ite
    · intro hpruned
      rw [if_pos (hempty.mpr hpruned)]
      rw [hcount.mp hpruned.1] at hkeeps
      exact (Proc.Yields.anything _).bind fun _ _ => .pure ⟨by simp, le_rfl, hkeeps⟩
    · intro hkept
      rw [if_neg (mt hempty.mp hkept), FsPath.components_ofNames hnames']
      exact (Proc.Yields.anything _).bind fun _ _ =>
        .pure ⟨by simp, Nat.le_succ _, hkeeps.keep _⟩
  | .file attrs data readable =>
    have hdir : (FsTree.file attrs data readable).isDir = false := rfl
    have hin : ¬ (walkArgs c).filter.isExcluded (slashedName (names ++ [name.1])) false = true :=
      hincluded
    have hfile : m.isFile = true := FsTree.isFile_metadata hmeta
    have hlen : m.len = data.length := by
      cases hmeta
      rfl
    rw [hdir, if_neg Bool.false_ne_true, outsideLimits_eq, hfile, Bool.true_and, hlen, selectFile,
      if_neg hin]
    cases (walkArgs c).admits (wrapI64 data.length) with
    | true => exact yields_keptEntry c _ _ m acc hnames'
    | false => exact .pure (Adds.nil acc)
  | .symlink attrs target =>
    have hdir : (FsTree.symlink attrs target).isDir = false := rfl
    have hin : ¬ (walkArgs c).filter.isExcluded (slashedName (names ++ [name.1])) false = true :=
      hincluded
    have hfile : m.isFile = false := FsTree.isFile_metadata hmeta
    rw [hdir, if_neg Bool.false_ne_true, outsideLimits_eq, hfile, Bool.false_and,
      if_neg Bool.false_ne_true, selectFile, if_neg hin]
    exact yields_keptEntry c _ _ m acc hnames'

theorem yields_copyEntries
    (c : Copying) (n : ℕ) {src : FsPath} (dest : FsPath) {names : List Name} {entries : Entries}
    (hentries : entries.Ordinary) (hnames : ∀ n ∈ names, FsPath.IsName n)
    (hshows : ShowsIn act src entries) (acc : ℕ × LocalState) :
  Proc.Yields act
    (Proc.forEach (copyChild c (copyDirRecursive c n) src dest (FsPath.ofNames names)) acc
      entries.names)
    (Adds ((walkArgs c).selectIn slashedName names entries) acc)
  := by
  match entries with
  | .nil => exact .pure (Adds.nil acc)
  | .cons name node rest =>
    rw [Entries.names, selectIn]
    apply (yields_copyChild c n dest hentries.1 hnames hshows.1 acc).bind
    intro acc₁ hacc₁
    apply (yields_copyEntries c n dest hentries.2 hnames hshows.2 acc₁).mono
    exact fun acc₂ hacc₂ => hacc₁.append hacc₂

end

/-! ### The selection of a list -/

/-- The paths that have been kept are those that would be listed. -/
def SameSelection (c : Copying) (src : FsPath) (tree : FsTree) (st st' : LocalState) : Prop :=
  ∀ rel, rel ∈ st'.kept ↔
    rel ∈ st.kept ∨ ∃ e ∈ (walkArgs c).walk src tree, FsPath.components e.info.path = rel

/-- The rules decide alike about the two forms of the names wherever anything is selected, and all
that is selected has names that are strings. -/
def Alike (c : Copying) (entries : Entries) : Prop :=
  (walkArgs c).AgreeIn slashedName listedName [] entries ∧
    ∀ x ∈ (walkArgs c).selectIn slashedName [] entries, AreStrings x

theorem map_normal_injective :
  Function.Injective (List.map FsPath.Component.normal)
  := List.map_injective_iff.mpr fun _ _ h => FsPath.Component.normal.inj h

/-- The components of the paths that are listed. -/
theorem components_walk_iff
    (c : Copying) (src : FsPath) (attrs : Attrs) {entries : Entries} (hentries : entries.Ordinary)
    (rel : List FsPath.Component) :
  (∃ e ∈ (walkArgs c).walk src (.dir attrs entries), FsPath.components e.info.path = rel) ↔
    ∃ x ∈ ((walkArgs c).selectIn listedName [] entries).map (List.map fromUtf8Lossy),
      rel = x.map .normal
  := by
  have hpaths : ((walkArgs c).walkSourceDir (.start src) entries).map (fun e => e.info.path) =
      ((walkArgs c).selectIn listedName [] entries).map listedPath :=
    paths_walkSourceDir rfl (WalkPlace.ok_start src) hentries
  have hcomponents : ∀ y ∈ (walkArgs c).selectIn listedName [] entries,
      FsPath.components (listedPath y) = (y.map fromUtf8Lossy).map .normal := by
    intro y hy
    apply FsPath.components_ofNames
    intro n hn
    obtain ⟨n, hmem, rfl⟩ := List.mem_map.mp hn
    exact (isName_of_mem_selectIn (by simp) hy n hmem).lossy
  constructor
  · rintro ⟨e, he, rfl⟩
    have hmem := List.mem_map_of_mem (f := fun e : Found => e.info.path) he
    rw [WalkArgs.walk, hpaths] at hmem
    obtain ⟨y, hy, hpath⟩ := List.mem_map.mp hmem
    exact ⟨_, List.mem_map_of_mem hy, hpath ▸ hcomponents y hy⟩
  · rintro ⟨x, hx, rfl⟩
    obtain ⟨y, hy, rfl⟩ := List.mem_map.mp hx
    have hmem := List.mem_map_of_mem (f := listedPath) hy
    rw [← hpaths] at hmem
    obtain ⟨e, he, hpath⟩ := List.mem_map.mp hmem
    exact ⟨e, he, (congrArg _ hpath).trans (hcomponents y hy)⟩

/-- What a local transfer keeps of a directory is what would be listed of it, if the rules decide
alike about the two forms of the names and all that is selected has names that are strings; where
the names in each directory differ as strings, only then. -/
theorem copyDirRecursive_sameSelection
    (c : Copying) (n : ℕ) (src dest : FsPath) {attrs : Attrs} {entries : Entries}
    (hentries : entries.Ordinary) (hshows : ShowsFile act src (.dir attrs entries)) {w w' : W}
    {total : ℕ}
    (hrun : Prog.Ends act (copyDirRecursive c n src dest [] st).run w (.ok (total, st')) w') :
  (Alike c entries → SameSelection c src (.dir attrs entries) st st') ∧
    (st.kept = [] → entries.Distinct → SameSelection c src (.dir attrs entries) st st' →
      Alike c entries)
  := by
  have hin : ∀ n acc, Proc.Yields act
      (Proc.forEach (copyChild c (copyDirRecursive c n) src dest (FsPath.ofNames [])) acc
        entries.names)
      (Adds ((walkArgs c).selectIn slashedName [] entries) acc) := fun n acc =>
    yields_copyEntries c n dest hentries (by simp) hshows.2.2 acc
  have hyields : Proc.Yields act (copyDirRecursive c n src dest [] st)
      (Adds ((walkArgs c).selectIn slashedName [] entries) (0, st)) :=
    yields_copyDir hshows.2.1 hin
  have hkeeps : Keeps ((walkArgs c).selectIn slashedName [] entries) st st' :=
    (hyields.returns w _ w' hrun).2.2
  constructor
  · rintro ⟨hagree, hstrings⟩ rel
    rw [hkeeps rel, components_walk_iff c src attrs hentries]
    exact or_congr_right (exists_congr fun x =>
      and_congr_left fun _ => same_paths_of_agree hagree hstrings x)
  · intro hnil hdistinct hsame
    apply agree_of_same_paths hentries hdistinct
    intro x
    have hx := hsame (x.map .normal)
    rw [hkeeps _, components_walk_iff c src attrs hentries, hnil] at hx
    simpa only [List.not_mem_nil, false_or, map_normal_injective.eq_iff, exists_eq_right'] using hx

/-- A host on which the paths lead to those files, and which says nothing else of them. -/
def showing (files : FsPath → FsTree) :
    Unit → (c : Act UInt8 FsCall) → Option (Answer FsReply c × Unit)
  | _, .host (.readDir path) =>
    match files path with
    | .dir _ entries => some (.ok entries.names, ())
    | _ => some (.error "not a directory", ())
  | _, .host (.symlinkMetadata path) =>
    some ((files path).metadata.elim (.error "not found") .ok, ())
  | _, _ => none

theorem metadata_of_says
    {files : FsPath → FsTree} {path : FsPath} {m : Metadata}
    (h : Says (Prog.Answers (showing files)) (.symlinkMetadata path) (.ok m)) :
  (files path).metadata = some m
  := by
  obtain ⟨w, w', h⟩ := h
  have hanswer : some ((files path).metadata.elim (Except.error "not found") .ok, ()) =
      some ((Except.ok m : Except String Metadata), w') := h
  cases hm : (files path).metadata with
  | none =>
      rw [hm] at hanswer
      cases hanswer
  | some m' =>
      rw [hm] at hanswer
      cases hanswer
      rfl

theorem names_of_says
    {files : FsPath → FsTree} {path : FsPath} {attrs : Attrs} {entries : Entries}
    {names : List Name} (hdir : files path = .dir attrs entries)
    (h : Says (Prog.Answers (showing files)) (.readDir path) (.ok names)) :
  names = entries.names
  := by
  obtain ⟨w, w', h⟩ := h
  have hanswer : (match files path with
      | .dir _ entries => some (.ok entries.names, ())
      | _ => some (.error "not a directory", ())) =
      some ((Except.ok names : Except String (List Name)), w') := h
  rw [hdir] at hanswer
  cases hanswer
  rfl

/-- The files of a tree at the path `root`. -/
def filesOf (root : FsPath) (tree : FsTree) (path : FsPath) : FsTree :=
  (tree.find root path).getD .hidden

mutual

theorem shows_fileAt
    {root path : FsPath} {names : List Name} {tree : FsTree} (node : FsTree)
    (hpath : FsPath.components path = FsPath.components root ++ names.map .normal)
    (hfile : tree.fileAt names = some node) (hnames : node.NamesDiffer) :
  ShowsFile (Prog.Answers (showing (filesOf root tree))) path node
  := by
  have hat : filesOf root tree path = node := by
    rw [filesOf, FsTree.find_of_components hpath, hfile, Option.getD_some]
  cases node with
  | dir attrs entries =>
      refine ⟨fun m hm => ?_, fun names hread => names_of_says hat hread, ?_⟩
      · rw [← hat]
        exact metadata_of_says hm
      · exact shows_entries entries hpath .nil (fun _ _ h => by cases h) hfile hnames
  | _ =>
      intro m hm
      rw [← hat]
      exact metadata_of_says hm

/-- The entries that follow `done` in a directory are shown. -/
theorem shows_entries
    {root path : FsPath} {names : List Name} {tree : FsTree} {attrs : Attrs} (rest : Entries)
    (hpath : FsPath.components path = FsPath.components root ++ names.map .normal)
    (done : Entries) (hdone : ∀ name ∈ rest.names, name ∉ done.names)
    (hfile : tree.fileAt names = some (.dir attrs (done.append rest)))
    (hnames : rest.NamesDiffer) :
  ShowsIn (Prog.Answers (showing (filesOf root tree))) path rest
  := by
  cases rest with
  | nil => trivial
  | cons name node rest =>
      obtain ⟨hnew, hnode, hrest⟩ := hnames
      have hname := hdone name List.mem_cons_self
      have hpath' : FsPath.components (path.join name) =
          FsPath.components root ++ (names ++ [name.1]).map .normal := by
        rw [FsPath.components_join path name.2, hpath, List.map_append, List.append_assoc]
        rfl
      have hdone' : ∀ n ∈ rest.names, n ∉ (done.append (.cons name node .nil)).names :=
        fun _ => Entries.not_mem_append hdone hnew fun _ => List.mem_singleton.mp
      have hfile' : tree.fileAt names =
          some (.dir attrs ((done.append (.cons name node .nil)).append rest)) := by
        rw [hfile, Entries.append_assoc]
        rfl
      constructor
      · exact shows_fileAt node hpath' (FsTree.fileAt_entry hname hfile) hnode
      · exact shows_entries rest hpath _ hdone' hfile' hrest

end

/-- A file, one that is excluded, one that is too large, and a file and nothing in directories. -/
def smallTree : Entries :=
  .cons ⟨[97], by decide, by decide, by decide, by decide⟩ (.file {} [1, 2, 3] true) <|
  .cons ⟨[98, dot, 111], by decide, by decide, by decide, by decide⟩ (.file {} [1] true) <|
  .cons ⟨[99], by decide, by decide, by decide, by decide⟩ (.file {} [1, 2, 3, 4, 5, 6] true) <|
  .cons ⟨[100], by decide, by decide, by decide, by decide⟩
    (.dir {} <|
      .cons ⟨[101], by decide, by decide, by decide, by decide⟩ (.file {} [1] true) .nil) <|
  .cons ⟨[102], by decide, by decide, by decide, by decide⟩ (.dir {} .nil) .nil

/-- Files that end in `.o` and those of more than five bytes are not copied, nor are directories in
which nothing is. -/
def pickyCopying : Copying where
  opts := { dryRun := true, pruneEmptyDirs := true }
  filter := { rules := [buildRule "*.o".toList false] }
  maxSize := some 5

theorem alike_smallTree :
  Alike pickyCopying smallTree
  := by
  constructor
  · refine ⟨Or.inl ?_, Or.inl ?_, Or.inl ?_, ?_, ?_, trivial⟩
    · decide +kernel
    · decide +kernel
    · decide +kernel
    · rw [AgreeFile, if_pos (by decide +kernel)]
      exact Or.inr ⟨Or.inl (by decide +kernel), trivial⟩
    · rw [AgreeFile, if_pos (by decide +kernel)]
      exact Or.inr trivial
  · have hselected : (walkArgs pickyCopying).selectIn slashedName [] smallTree =
        [[[97]], [[100]], [[100], [101]]] := by
      decide +kernel
    rw [hselected]
    unfold AreStrings
    decide +kernel

theorem shows_smallTree :
  ShowsFile (Prog.Answers (showing (filesOf [115] (.dir {} smallTree)))) [115] (.dir {} smallTree)
  := by
  have hroot : FsPath.components [115] =
      FsPath.components [115] ++ ([] : List Name).map .normal := (List.append_nil _).symm
  apply shows_fileAt _ hroot rfl
  refine ⟨?_, trivial, ?_, trivial, ?_, trivial, ?_, ⟨?_, trivial, trivial⟩, ?_, trivial, trivial⟩
  all_goals decide

theorem copyDirRecursive_sameSelection_smallTree :
  ∃ total st', Prog.Ends (Prog.Answers (showing (filesOf [115] (.dir {} smallTree))))
    (copyDirRecursive pickyCopying 2 [115] [100] [] {}).run () (.ok (total, st')) () ∧
    SameSelection pickyCopying [115] (.dir {} smallTree) {} st'
  := by
  have hordinary : smallTree.Ordinary :=
    ⟨trivial, trivial, trivial, ⟨trivial, trivial⟩, trivial, trivial⟩
  have hreturns : (Prog.eval (showing (filesOf [115] (.dir {} smallTree))) 5
      (copyDirRecursive pickyCopying 2 [115] [100] [] {}).run ()).bind
        (fun x => x.1.toOption.map Prod.fst) = some 2 := by
    decide +kernel
  obtain ⟨⟨r, w'⟩, heval, hr⟩ := Option.bind_eq_some_iff.mp hreturns
  cases r with
  | error e => cases hr
  | ok x =>
      have hends := Prog.ends_of_eval heval
      exact ⟨x.1, x.2, hends, (copyDirRecursive_sameSelection pickyCopying 2 [115] [100] hordinary
        shows_smallTree hends).1 alike_smallTree⟩

/-- A directory with one empty file. -/
def oneFile (name : EntryName) : Entries :=
  .cons name (.file {} [] true) .nil

theorem ordinary_oneFile
    (name : EntryName) :
  (oneFile name).Ordinary
  := ⟨trivial, trivial⟩

/-- The directory is `s`, and there is nothing else. -/
def onlyFile (name : EntryName) (path : FsPath) : FsTree :=
  if path = [115] then .dir {} (oneFile name)
  else if path = FsPath.join [115] name then .file {} [] true
  else .hidden

theorem shows_onlyFile
    {name : EntryName} (hname : FsPath.join [115] name ≠ [115]) :
  ShowsFile (Prog.Answers (showing (onlyFile name))) [115] (.dir {} (oneFile name))
  := by
  have hdir : onlyFile name [115] = .dir {} (oneFile name) := if_pos rfl
  have hfile : onlyFile name (FsPath.join [115] name) = .file {} [] true :=
    (if_neg hname).trans (if_pos rfl)
  refine ⟨fun m hm => ?_, fun names hnames => names_of_says hdir hnames, fun m hm => ?_, trivial⟩
  · rw [← hdir]
    exact metadata_of_says hm
  · rw [← hfile]
    exact metadata_of_says hm

/-- Nothing is changed. -/
def dryCopying : Copying where
  opts := { dryRun := true }

/-- A name that is no string. -/
def rawName : EntryName :=
  ⟨[255], by decide, by decide, by decide, by decide⟩

/-- The name that is kept is not the one that is listed. -/
theorem not_sameSelection :
  ¬ ∀ (c : Copying) (n : ℕ) (src dest : FsPath) (attrs : Attrs) (entries : Entries)
    (files : FsPath → FsTree) (total : ℕ) (st' : LocalState), entries.Ordinary →
    ShowsFile (Prog.Answers (showing files)) src (.dir attrs entries) →
    Prog.Ends (Prog.Answers (showing files)) (copyDirRecursive c n src dest [] {}).run ()
      (.ok (total, st')) () →
    SameSelection c src (.dir attrs entries) {} st'
  := by
  intro h
  have hreturns : (Prog.eval (showing (onlyFile rawName)) 5
      (copyDirRecursive dryCopying 1 [115] [100] [] {}).run ()).bind
        (fun x => x.1.toOption.map fun x => x.2.kept) = some [[.normal [255]]] := by
    decide +kernel
  obtain ⟨⟨r, w'⟩, heval, hr⟩ := Option.bind_eq_some_iff.mp hreturns
  cases r with
  | error e => cases hr
  | ok x =>
      have hkept : x.2.kept = [[.normal [255]]] := Option.some.inj hr
      have hsame := h dryCopying 1 [115] [100] {} (oneFile rawName) (onlyFile rawName) x.1 x.2
        (ordinary_oneFile rawName) (shows_onlyFile (by decide)) (Prog.ends_of_eval heval)
        [.normal [255]]
      rw [hkept] at hsame
      have hwalk : ((walkArgs dryCopying).walk [115] (.dir {} (oneFile rawName))).map
          (fun e => FsPath.components e.info.path) = [[.normal [0xEF, 0xBF, 0xBD]]] := by
        decide +kernel
      rcases hsame.mp List.mem_cons_self with hmem | ⟨e, he, hpath⟩
      · cases hmem
      · have hmem := List.mem_map_of_mem (f := fun e : Found => FsPath.components e.info.path) he
        rw [hwalk, hpath] at hmem
        revert hmem
        decide +kernel

end Local
