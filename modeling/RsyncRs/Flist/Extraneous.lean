import RsyncRs.Fs.Components
import RsyncRs.Fs.Tree

/-!
# Extraneous entries of the destination

After a transfer the entries of the destination that are not in the list can be removed. The walk
through the destination goes into the directories that are kept, and removes every other entry
with what is in it.
-/

/-! ### The walk -/

/-- Numbers of entries removed. -/
structure Deleted where
  files : ℤ := 0
  dirs : ℤ := 0
  symlinks : ℤ := 0
deriving DecidableEq, Repr

/-- The file is a symbolic link. -/
def FsTree.isSymlink (node : FsTree) : Bool :=
  node.fileType = .symlink

/-- One removed entry more. -/
def Deleted.count (acc : Deleted) (node : FsTree) : Deleted :=
  if node.isDir then
    { acc with dirs := wrapI32 (acc.dirs + 1) }
  else if node.isSymlink then
    { acc with symlinks := wrapI32 (acc.symlinks + 1) }
  else
    { acc with files := wrapI32 (acc.files + 1) }

/-- The paths of the list and of the directories above them. -/
def keptPaths (flist : FileList) : List FsPath :=
  flist.files.flatMap fun fi =>
    if fi.path = [dot] ∨ fi.path = [] then [] else FsPath.ancestors fi.path

/-- The path with these components is to be kept. -/
def isKept (kept : List FsPath) (rel : List FsPath.Component) : Bool :=
  kept.any fun p => FsPath.components p = rel

section

variable (root : FsPath) (kept : List FsPath) (dryRun : Bool)

mutual

/-- Go into a file that is kept. -/
def walkKept (path : FsPath) (acc : Deleted) : FsTree → FsTree × Deleted
  | .dir attrs entries =>
    let (entries, acc) := walkExtraneous path acc entries
    (.dir attrs entries, acc)
  | node => (node, acc)

/-- Go through the entries of the directory `cur`. -/
def walkExtraneous (cur : FsPath) (acc : Deleted) : Entries → Entries × Deleted
  | .nil => (.nil, acc)
  | .cons name node rest =>
    match FsPath.stripPrefix (cur.join name) root with
    | none =>
      let (rest, acc) := walkExtraneous cur acc rest
      (.cons name node rest, acc)
    | some rel =>
      if isKept kept rel then
        let (node, acc) := walkKept (cur.join name) acc node
        let (rest, acc) := walkExtraneous cur acc rest
        (.cons name node rest, acc)
      else
        let (rest, acc) := walkExtraneous cur (acc.count node) rest
        if dryRun then (.cons name node rest, acc) else (rest, acc)

end

end

/-- Remove the entries of the destination that are not in the list. -/
def deleteExtraneousFromFlist (flist : FileList) (destDir : FsPath) (dryRun : Bool)
    (dest : FsTree) : FsTree × Deleted :=
  walkKept destDir (keptPaths flist) dryRun destDir {} dest

/-! ### What a tree has -/

/-- The file without what is in it. -/
def FsTree.bare : FsTree → FsTree
  | .dir attrs _ => .dir attrs .nil
  | node => node

mutual

/-- The files below a file, with the names on the way to them. -/
def FsTree.inside (names : List Name) : FsTree → List (List Name × FsTree)
  | .dir _ entries => entries.listing names
  | _ => []

/-- The files in a directory and below, with the names on the way to them. -/
def Entries.listing (names : List Name) : Entries → List (List Name × FsTree)
  | .nil => []
  | .cons name node rest =>
    (names ++ [name.1], node.bare) :: (node.inside (names ++ [name.1]) ++ rest.listing names)

end

/-- The names lead to an entry of the list or to a directory above one. -/
def Provided (flist : FileList) (names : List Name) : Prop :=
  ∃ fi ∈ flist.files, names.map .normal <+: FsPath.components fi.path

instance
    (flist : FileList) (names : List Name) :
  Decidable (Provided flist names)
  := inferInstanceAs (Decidable (∃ fi ∈ flist.files, _))

/-- The entry is removed, and what it is in is not. -/
def Topmost (flist : FileList) (names : List Name) : Prop :=
  ¬ Provided flist names ∧ (names.dropLast = [] ∨ Provided flist names.dropLast)

instance
    (flist : FileList) (names : List Name) :
  Decidable (Topmost flist names)
  := inferInstanceAs (Decidable (_ ∧ _))

/-! ### What is kept -/

/-- The paths kept are those of the list and of the directories above. -/
theorem isKept_iff
    (flist : FileList) {names : List Name} (hne : names ≠ []) :
  isKept (keptPaths flist) (names.map .normal) = true ↔ Provided flist names
  := by
  unfold isKept keptPaths Provided
  simp only [List.any_eq_true, List.mem_flatMap, decide_eq_true_eq]
  have hone : ∀ fi ∈ flist.files,
      (∃ p ∈ (if fi.path = [dot] ∨ fi.path = [] then [] else FsPath.ancestors fi.path),
        FsPath.components p = names.map .normal) ↔
      names.map .normal <+: FsPath.components fi.path := by
    intro fi hfi
    split
    · next hskip =>
      have hshort : FsPath.components fi.path = [.cur] ∨ FsPath.components fi.path = [] := by
        rcases hskip with h | h
        · rw [h]
          apply Or.inl (by decide +kernel)
        · rw [h]
          apply Or.inr (by decide +kernel)
      constructor
      · rintro ⟨p, hp, -⟩
        cases hp
      · intro hpre
        obtain ⟨name, names', rfl⟩ := List.exists_cons_of_ne_nil hne
        rcases hshort with h | h
        · rw [h, List.map_cons, List.cons_prefix_cons] at hpre
          cases hpre.1
        · rw [h] at hpre
          cases List.prefix_nil.mp hpre
    · exact FsPath.names_ancestors_iff hne
  constructor
  · rintro ⟨p, ⟨fi, hfi, hp⟩, heq⟩
    use fi, hfi
    apply (hone fi hfi).mp ⟨p, hp, heq⟩
  · rintro ⟨fi, hfi, hpre⟩
    obtain ⟨p, hp, heq⟩ := (hone fi hfi).mpr hpre
    use p, ⟨fi, hfi, hp⟩, heq

/-! ### What the walk does -/

theorem Provided.of_prefix
    {flist : FileList} {a b : List Name} (h : Provided flist b) (hab : a <+: b) :
  Provided flist a
  := by
  obtain ⟨fi, hfi, hpre⟩ := h
  use fi, hfi
  apply (hab.map _).trans hpre

mutual

/-- What is in a file has more names. -/
theorem FsTree.prefix_of_mem_inside
    (names : List Name) (node : FsTree) {e : List Name × FsTree} (h : e ∈ node.inside names) :
  ∃ name rest, e.1 = names ++ name :: rest
  := by
  cases node with
  | dir attrs entries => exact entries.prefix_of_mem_listing names h
  | _ => cases h

theorem Entries.prefix_of_mem_listing
    (names : List Name) (entries : Entries) {e : List Name × FsTree}
    (h : e ∈ entries.listing names) :
  ∃ name rest, e.1 = names ++ name :: rest
  := by
  cases entries with
  | nil => cases h
  | cons name node rest =>
      rw [Entries.listing] at h
      rcases List.mem_cons.mp h with rfl | h
      · use name, []
      · rcases List.mem_append.mp h with h | h
        · obtain ⟨name', rest', heq⟩ := node.prefix_of_mem_inside (names ++ [name.1]) h
          use name, name' :: rest'
          rw [heq, List.append_assoc, List.singleton_append]
        · exact rest.prefix_of_mem_listing names h

end

/-- Nothing below an entry that is not provided is provided, or topmost. -/
theorem not_provided_inside
    {flist : FileList} {names : List Name} (h : ¬ Provided flist names) (node : FsTree) :
  (node.inside names).filter (fun e => Provided flist e.1) = [] ∧
    (names ≠ [] → (node.inside names).filter (fun e => Topmost flist e.1) = [])
  := by
  constructor
  · rw [List.filter_eq_nil_iff]
    intro e he
    obtain ⟨name, rest, heq⟩ := node.prefix_of_mem_inside names he
    rw [decide_eq_true_eq, heq]
    intro hprov
    exact h (hprov.of_prefix (List.prefix_append _ _))
  · intro hne
    rw [List.filter_eq_nil_iff]
    intro e he
    obtain ⟨name, rest, heq⟩ := node.prefix_of_mem_inside names he
    rw [decide_eq_true_eq, heq]
    rintro ⟨-, hnil | hprov⟩
    · rw [List.dropLast_append_cons] at hnil
      exact hne (List.append_eq_nil_iff.mp hnil).1
    · rw [List.dropLast_append_cons] at hprov
      exact h (hprov.of_prefix (List.prefix_append _ _))

/-- Counting the files of a list. -/
def Deleted.countAll (acc : Deleted) (removed : List (List Name × FsTree)) : Deleted :=
  removed.foldl (fun acc e => acc.count e.2) acc

theorem Deleted.countAll_append
    (acc : Deleted) (xs ys : List (List Name × FsTree)) :
  acc.countAll (xs ++ ys) = (acc.countAll xs).countAll ys
  := List.foldl_append

theorem Deleted.count_bare
    (acc : Deleted) (node : FsTree) :
  acc.count node.bare = acc.count node
  := by
  cases node <;> rfl

/-- The path of an entry, below the root of the walk. -/
theorem stripPrefix_join
    {root cur : FsPath} {names : List Name}
    (hcur : FsPath.components cur = FsPath.components root ++ names.map .normal)
    (name : EntryName) :
  FsPath.components (cur.join name.1) =
      FsPath.components root ++ (names ++ [name.1]).map .normal ∧
    FsPath.stripPrefix (cur.join name.1) root = some ((names ++ [name.1]).map .normal)
  := by
  have hcomp : FsPath.components (cur.join name.1) =
      FsPath.components root ++ (names ++ [name.1]).map .normal := by
    rw [FsPath.components_join cur name.2, hcur, List.map_append, List.append_assoc]
    rfl
  apply And.intro hcomp
  rw [FsPath.stripPrefix, hcomp, if_pos (List.prefix_append _ _), List.drop_left]

/-- What the walk through a kept file leaves of it and counts. -/
structure Cleaned (flist : FileList) (names : List Name) (node : FsTree) (acc : Deleted)
    (r : FsTree × Deleted) : Prop where
  bare : r.1.bare = node.bare
  left : r.1.inside names = (node.inside names).filter fun e => Provided flist e.1
  counts : r.2 = acc.countAll ((node.inside names).filter fun e => Topmost flist e.1)

mutual

theorem cleaned_walkKept
    (flist : FileList) (root : FsPath) {names : List Name}
    (hnames : names = [] ∨ Provided flist names) {path : FsPath}
    (hpath : FsPath.components path = FsPath.components root ++ names.map .normal)
    (acc : Deleted) (node : FsTree) :
  Cleaned flist names node acc (walkKept root (keptPaths flist) false path acc node)
  := by
  cases node with
  | dir attrs entries =>
      obtain ⟨hleft, hcounts⟩ := cleaned_walkExtraneous flist root hnames hpath acc entries
      rw [walkKept]
      exact ⟨rfl, hleft, hcounts⟩
  | _ =>
      rw [walkKept]
      · exact ⟨rfl, rfl, rfl⟩
      · simp

theorem cleaned_walkExtraneous
    (flist : FileList) (root : FsPath) {names : List Name}
    (hnames : names = [] ∨ Provided flist names) {cur : FsPath}
    (hcur : FsPath.components cur = FsPath.components root ++ names.map .normal)
    (acc : Deleted) (entries : Entries) :
  (walkExtraneous root (keptPaths flist) false cur acc entries).1.listing names =
      (entries.listing names).filter (fun e => Provided flist e.1) ∧
    (walkExtraneous root (keptPaths flist) false cur acc entries).2 =
      acc.countAll ((entries.listing names).filter fun e => Topmost flist e.1)
  := by
  cases entries with
  | nil =>
      rw [walkExtraneous]
      apply And.intro rfl rfl
  | cons name node rest =>
      obtain ⟨hpath, hrel⟩ := stripPrefix_join hcur name
      have hne : names ++ [name.1] ≠ [] := by simp
      have hkept := isKept_iff flist hne
      rw [walkExtraneous, hrel]
      dsimp only
      by_cases hprov : Provided flist (names ++ [name.1])
      · have hnode := cleaned_walkKept flist root (Or.inr hprov) hpath acc node
        have hrest := cleaned_walkExtraneous flist root hnames hcur
          (walkKept root (keptPaths flist) false (cur.join name.1) acc node).2 rest
        have htop : ¬ Topmost flist (names ++ [name.1]) := fun h => h.1 hprov
        rw [if_pos (hkept.mpr hprov), Entries.listing, Entries.listing,
          List.filter_cons_of_pos (by simpa using hprov),
          List.filter_cons_of_neg (by simpa using htop), List.filter_append, List.filter_append,
          hnode.bare, hnode.left, hrest.1, hrest.2, Deleted.countAll_append, hnode.counts]
        apply And.intro rfl rfl
      · have hrest := cleaned_walkExtraneous flist root hnames hcur (acc.count node) rest
        obtain ⟨hleft, htop⟩ := not_provided_inside hprov node
        have htopmost : Topmost flist (names ++ [name.1]) := by
          apply And.intro hprov
          rw [List.dropLast_concat]
          apply hnames
        rw [if_neg (fun h => hprov (hkept.mp h)), if_neg (by decide), Entries.listing,
          List.filter_cons_of_neg (by simpa using hprov),
          List.filter_cons_of_pos (by simpa using htopmost), List.filter_append,
          List.filter_append, hleft, htop hne, List.nil_append, List.nil_append, hrest.1, hrest.2,
          ← Deleted.count_bare]
        apply And.intro rfl rfl

end

/-! ### Numbers of removed entries -/

/-- The number, counted in 32 bits. -/
def CountedAs (x : ℤ) (n : ℕ) : Prop :=
  x = wrapI32 n ∧ (n < 2147483648 → x = n)

theorem countedAs_wrapI32
    (n : ℕ) :
  CountedAs (wrapI32 n) n
  := by
  apply And.intro rfl
  intro hn
  apply wrapI32_of_isI32
  constructor <;> omega

/-- Counting one after the other is counting all of them. -/
theorem countAll_eq
    (removed : List (List Name × FsTree)) (files dirs symlinks : ℕ) :
  Deleted.countAll ⟨wrapI32 files, wrapI32 dirs, wrapI32 symlinks⟩ removed =
    { files := wrapI32
        (files + removed.countP fun e => !e.2.isDir && !e.2.isSymlink : ℕ)
      dirs := wrapI32 (dirs + removed.countP fun e => e.2.isDir : ℕ)
      symlinks := wrapI32 (symlinks + removed.countP fun e => e.2.isSymlink : ℕ) }
  := by
  have hsucc : ∀ n : ℕ, wrapI32 (wrapI32 n + 1) = wrapI32 (n + 1 : ℕ) := by
    intro n
    unfold wrapI32
    omega
  induction removed generalizing files dirs symlinks with
  | nil => rfl
  | cons e removed ih =>
      rw [Deleted.countAll, List.foldl_cons, ← Deleted.countAll, Deleted.count]
      cases hdir : e.2.isDir with
      | true =>
          have hlink : e.2.isSymlink = false := by
            unfold FsTree.isDir at hdir
            unfold FsTree.isSymlink
            rw [of_decide_eq_true hdir]
            rfl
          simp only [if_true, hsucc, ih, hdir, hlink, List.countP_cons, Bool.not_true,
            Bool.false_and, Bool.false_eq_true, if_false, Nat.add_zero]
          rw [Nat.add_assoc, Nat.add_comm 1]
      | false =>
          cases hlink : e.2.isSymlink with
          | true =>
              simp only [if_true, hsucc, ih, hdir, hlink, List.countP_cons, Bool.not_true,
                Bool.not_false, Bool.and_false, Bool.false_eq_true, if_false, Nat.add_zero]
              rw [Nat.add_assoc, Nat.add_comm 1]
          | false =>
              simp only [if_true, hsucc, ih, hdir, hlink, List.countP_cons, Bool.not_false,
                Bool.and_self, Bool.false_eq_true, if_false, Nat.add_zero]
              rw [Nat.add_assoc, Nat.add_comm 1]

/-- The removal leaves of the destination the entries of the list and the directories above them,
and returns the numbers of directories, links and other files among the topmost removed
entries. -/
theorem deleteExtraneousFromFlist_removes
    (flist : FileList) (destDir : FsPath) (dest : FsTree) :
  (deleteExtraneousFromFlist flist destDir false dest).1.bare = dest.bare ∧
  (deleteExtraneousFromFlist flist destDir false dest).1.inside [] =
    (dest.inside []).filter (fun e => Provided flist e.1) ∧
  CountedAs (deleteExtraneousFromFlist flist destDir false dest).2.dirs
    (((dest.inside []).filter fun e => Topmost flist e.1).countP fun e => e.2.isDir) ∧
  CountedAs (deleteExtraneousFromFlist flist destDir false dest).2.symlinks
    (((dest.inside []).filter fun e => Topmost flist e.1).countP fun e => e.2.isSymlink) ∧
  CountedAs (deleteExtraneousFromFlist flist destDir false dest).2.files
    (((dest.inside []).filter fun e => Topmost flist e.1).countP fun e =>
      !e.2.isDir && !e.2.isSymlink)
  := by
  have hstart : FsPath.components destDir =
      FsPath.components destDir ++ ([] : List Name).map .normal := by simp
  obtain ⟨hbare, hleft, hcounts⟩ := cleaned_walkKept flist destDir (Or.inl rfl) hstart {} dest
  have hall := countAll_eq ((dest.inside []).filter fun e => Topmost flist e.1) 0 0 0
  simp only [Nat.zero_add] at hall
  have hdeleted : (deleteExtraneousFromFlist flist destDir false dest).2 = _ :=
    hcounts.trans hall
  refine ⟨hbare, hleft, ?_, ?_, ?_⟩
  · rw [hdeleted]
    apply countedAs_wrapI32
  · rw [hdeleted]
    apply countedAs_wrapI32
  · rw [hdeleted]
    apply countedAs_wrapI32
