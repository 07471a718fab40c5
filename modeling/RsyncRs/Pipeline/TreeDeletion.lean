import RsyncRs.Fs.TreeHost
import RsyncRs.Pipeline.Deletion

/-!
# Removal in a tree

A receiver that removes what its list does not have, from a destination that is a tree, leaves of
the tree and counts what the walk through the tree does.
-/

variable {root cur path : FsPath} {kept : List FsPath} {dryRun closed : Bool} {names : List Name}
  {node tree : FsTree} {attrs : Attrs} {entries done rest : Entries} {name : EntryName}
  {acc : Deleted} {w : Endpoint FsTree UInt8}

/-! ### The walk through the tree -/

theorem walkKept_of_not_dir
    (h : ∀ attrs entries, node ≠ .dir attrs entries) :
  walkKept root kept dryRun path acc node = (node, acc)
  := by
  cases node with
  | dir attrs entries => exact absurd rfl (h attrs entries)
  | _ => rfl

/-- The entries of a directory are dealt with one after the other. -/
theorem walkExtraneous_cons :
  walkExtraneous root kept dryRun cur acc (.cons name node rest) =
    ((walkExtraneous root kept dryRun cur acc (.cons name node .nil)).1.append
        (walkExtraneous root kept dryRun cur
          (walkExtraneous root kept dryRun cur acc (.cons name node .nil)).2 rest).1,
      (walkExtraneous root kept dryRun cur
        (walkExtraneous root kept dryRun cur acc (.cons name node .nil)).2 rest).2)
  := by
  rw [walkExtraneous, walkExtraneous]
  cases FsPath.stripPrefix (cur.join name) root with
  | none => rfl
  | some rel =>
      dsimp only
      split
      · rfl
      · split
        · rfl
        · rfl

namespace Receiver

/-! ### One entry -/

theorem any_isDir_metadata
    (node : FsTree) :
  node.metadata.any Metadata.isDir = node.isDir
  := by
  cases h : node.metadata with
  | none =>
      cases node with
      | hidden => rfl
      | _ => cases h
  | some m => exact FsTree.isDir_metadata h

theorem any_isSymlink_metadata
    (node : FsTree) :
  node.metadata.any Metadata.isSymlink = node.isSymlink
  := by
  cases h : node.metadata with
  | none =>
      cases node with
      | hidden => rfl
      | _ => cases h
  | some m => exact FsTree.isSymlink_metadata h

theorem countRemoved_metadata
    (acc : Deleted) (node : FsTree) :
  countRemoved acc node.metadata = acc.count node
  := by
  rw [countRemoved, any_isDir_metadata, any_isSymlink_metadata]
  rfl

/-- An entry that is not kept is removed from the tree. -/
theorem returns_removeEntry
    (hfind : w.host.find root path = some node) :
  Proc.Returns (FsTree.answer root) closed (removeEntry dryRun path node.metadata) w ()
    { w with host := if dryRun then w.host else w.host.without root path }
  := by
  unfold removeEntry
  cases dryRun with
  | true => exact Proc.returns_pure () w
  | false =>
      rw [any_isDir_metadata]
      cases hdir : node.isDir with
      | true => exact (FsTree.returns_removeDirAll hfind hdir).bind (Proc.returns_pure () _)
      | false => exact (FsTree.returns_removeFile hfind hdir).bind (Proc.returns_pure () _)

/-- The procedure goes into a file as the walk through the tree does. -/
def Walks (root : FsPath) (kept : List FsPath) (dryRun closed : Bool)
    (walk : FsPath → Deleted → Session FsReply Deleted) (node : FsTree) : Prop :=
  ∀ (w : Endpoint FsTree UInt8) (names : List Name) (path : FsPath) (acc : Deleted),
    FsPath.components path = FsPath.components root ++ names.map .normal →
    w.host.fileAt names = some node →
    Proc.Returns (FsTree.answer root) closed (walk path acc) w
      (walkKept root kept dryRun path acc node).2
      { w with host := w.host.put names (walkKept root kept dryRun path acc node).1 }

theorem returns_deleteEntry
    {walk : FsPath → Deleted → Session FsReply Deleted}
    (hwalk : Walks root kept dryRun closed walk node)
    (hcur : FsPath.components cur = FsPath.components root ++ names.map .normal)
    (hdone : name.1 ∉ done.names)
    (hdir : w.host.fileAt names = some (.dir attrs (done.append (.cons name node rest)))) :
  Proc.Returns (FsTree.answer root) closed (deleteEntry root kept dryRun walk cur acc name) w
    (walkExtraneous root kept dryRun cur acc (.cons name node .nil)).2
    { w with host := w.host.put names (.dir attrs (done.append
      ((walkExtraneous root kept dryRun cur acc (.cons name node .nil)).1.append rest))) }
  := by
  obtain ⟨hpath, hrel⟩ := stripPrefix_join hcur name
  have hfile := FsTree.fileAt_entry hdone hdir
  have hfind := (FsTree.find_of_components hpath).trans hfile
  obtain ⟨info, hinfo, hmeta⟩ := FsTree.returns_symlinkMetadata hfind
  rw [deleteEntry, hrel, walkExtraneous, hrel]
  dsimp only
  apply hinfo.bind
  rw [hmeta, any_isDir_metadata]
  split
  · cases hnode : node.isDir with
    | true =>
        have hkept := hwalk w _ _ acc hpath hfile
        rw [FsTree.put_concat hdone hdir] at hkept
        exact hkept
    | false =>
        have hkept : walkKept root kept dryRun (cur.join name) acc node = (node, acc) := by
          apply walkKept_of_not_dir
          rintro attrs entries rfl
          cases hnode
        have hself : w.host.put names
            (.dir attrs (done.append (Entries.append (.cons name node .nil) rest))) = w.host :=
          FsTree.put_self hdir
        rw [hkept]
        dsimp only [walkExtraneous]
        rw [hself]
        exact Proc.returns_pure acc w
  · apply (returns_removeEntry hfind).bind
    rw [countRemoved_metadata]
    cases dryRun with
    | true =>
        have hself : w.host.put names
            (.dir attrs (done.append (Entries.append (.cons name node .nil) rest))) = w.host :=
          FsTree.put_self hdir
        dsimp only [walkExtraneous]
        rw [if_pos rfl, if_pos rfl, hself]
        exact Proc.returns_pure _ w
    | false =>
        have hwithout : w.host.without root (cur.join name) =
            w.host.put names (.dir attrs (done.append (Entries.append .nil rest))) :=
          (FsTree.without_of_components hpath).trans (FsTree.modify_erase hdone hdir)
        dsimp only [walkExtraneous]
        rw [if_neg Bool.false_ne_true, if_neg Bool.false_ne_true, hwithout]
        exact Proc.returns_pure _ _

/-! ### The destination -/

theorem names_walkExtraneous_single
    {n : Name} (h : n ∈ (walkExtraneous root kept dryRun cur acc (.cons name node .nil)).1.names) :
  n = name
  := by
  rw [walkExtraneous] at h
  cases hrel : FsPath.stripPrefix (cur.join name) root with
  | none =>
      rw [hrel] at h
      exact List.mem_singleton.mp h
  | some rel =>
      rw [hrel] at h
      dsimp only at h
      split at h
      · exact List.mem_singleton.mp h
      · split at h
        · exact List.mem_singleton.mp h
        · cases h

theorem returns_deleteEntries
    {walk : FsPath → Deleted → Session FsReply Deleted} {n : ℕ}
    (hwalk : ∀ node : FsTree, node.height ≤ n → node.NamesDiffer →
      Walks root kept dryRun closed walk node)
    (rest : Entries) (hheight : rest.height ≤ n) (hnames : rest.NamesDiffer)
    (hcur : FsPath.components cur = FsPath.components root ++ names.map .normal)
    (done : Entries) (hdone : ∀ name ∈ rest.names, name ∉ done.names) (acc : Deleted)
    (w : Endpoint FsTree UInt8)
    (hdir : w.host.fileAt names = some (.dir attrs (done.append rest))) :
  Proc.Returns (FsTree.answer root) closed
    (Proc.forEach (deleteEntry root kept dryRun walk cur) acc rest.names) w
    (walkExtraneous root kept dryRun cur acc rest).2
    { w with host := w.host.put names (.dir attrs (done.append
      (walkExtraneous root kept dryRun cur acc rest).1)) }
  := by
  cases rest with
  | nil =>
      rw [walkExtraneous, FsTree.put_self hdir]
      exact Proc.returns_pure acc w
  | cons name node rest =>
      obtain ⟨hnew, hnode, hrest⟩ := hnames
      obtain ⟨hnodeHeight, hrestHeight⟩ := max_le_iff.mp hheight
      have hname := hdone name List.mem_cons_self
      rw [walkExtraneous_cons]
      apply (returns_deleteEntry (hwalk node hnodeHeight hnode) hcur hname hdir).bind
      generalize hleft : walkExtraneous root kept dryRun cur acc (.cons name node .nil) = x
      obtain ⟨left, acc'⟩ := x
      have hleft' : ∀ n ∈ left.names, n = name.1 := by
        intro n hn
        apply names_walkExtraneous_single
        rw [hleft]
        exact hn
      have hdir' : (w.host.put names (.dir attrs (done.append (left.append rest)))).fileAt names =
          some (.dir attrs ((done.append left).append rest)) := by
        rw [FsTree.put, FsTree.fileAt_modify hdir, Entries.append_assoc]
      have hgo := returns_deleteEntries hwalk rest hrestHeight hrest hcur (done.append left)
        (fun _ => Entries.not_mem_append hdone hnew hleft') acc'
        { w with host := w.host.put names (.dir attrs (done.append (left.append rest))) } hdir'
      rw [FsTree.put_put, Entries.append_assoc] at hgo
      exact hgo

theorem walks_deleteWalk
    {n : ℕ} {node : FsTree} (hheight : node.height ≤ n) (hnames : node.NamesDiffer) :
  Walks root kept dryRun closed (deleteWalk root kept dryRun n) node
  := by
  induction n generalizing node with
  | zero =>
      cases node with
      | dir attrs entries => cases hheight
      | _ => cases hheight
  | succ n ih =>
      intro w names path acc hpath hfile
      have hfind := (FsTree.find_of_components hpath).trans hfile
      rw [deleteWalk]
      by_cases hdir : ∃ attrs entries, node = .dir attrs entries
      · obtain ⟨attrs, entries, rfl⟩ := hdir
        apply (FsTree.returns_readDir hfind).bind
        rw [walkKept]
        exact returns_deleteEntries (fun _ => ih) entries (Nat.le_of_succ_le_succ hheight) hnames
          hpath .nil (fun _ _ h => by cases h) acc w hfile
      · have hother : ∀ attrs entries, node ≠ .dir attrs entries :=
          fun attrs entries h => hdir ⟨attrs, entries, h⟩
        obtain ⟨msg, hread⟩ := FsTree.returns_readDir_error hfind hother
        rw [walkKept_of_not_dir hother, FsTree.put_self hfile]
        exact hread.bind (Proc.returns_pure acc w)

end Receiver

/-- What a receiver removes from a destination that is a tree, and what it counts, is what the
walk through the tree does. -/
theorem returns_deleteExtraneousFromFlist
    (flist : FileList) (destDir : FsPath) (dryRun closed : Bool) {stack : ℕ}
    (w : Endpoint FsTree UInt8) (hheight : w.host.height ≤ stack) (hnames : w.host.NamesDiffer) :
  Proc.Returns (FsTree.answer destDir) closed
    (Receiver.deleteExtraneousFromFlist flist destDir dryRun stack) w
    (deleteExtraneousFromFlist flist destDir dryRun w.host).2
    { w with host := (deleteExtraneousFromFlist flist destDir dryRun w.host).1 }
  := by
  have hwalk : Receiver.Walks destDir (keptPaths flist) dryRun closed
      (Receiver.deleteWalk destDir (keptPaths flist) dryRun stack) w.host :=
    Receiver.walks_deleteWalk hheight hnames
  exact hwalk w [] destDir {} (List.append_nil _).symm rfl
