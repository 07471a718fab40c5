import RsyncRs.Flist.Selection

/-!
# Directories that lead to nothing

A walk adds what it finds to a file list. It adds a directory before it goes into it, and removes
it again when nothing has been added behind it. So the directories that are left are those that
lead to a file.
-/

/-- The entry at an index. -/
def Entries.get? : Entries → ℕ → Option (EntryName × FsTree)
  | .nil, _ => none
  | .cons name node _, 0 => some (name, node)
  | .cons _ _ rest, i + 1 => rest.get? i

/-! ### The walk and the list -/

/-- Add a file at the end of the list. -/
def FileList.push (flist : FileList) (fi : FileInfo) : FileList :=
  { flist with files := flist.files ++ [fi] }

/-- Add files at the end of the list. -/
def FileList.append (flist : FileList) (files : List FileInfo) : FileList :=
  { flist with files := flist.files ++ files }

theorem FileList.append_append
    (flist : FileList) (fs gs : List FileInfo) :
  (flist.append fs).append gs = flist.append (fs ++ gs)
  := by
  unfold append
  rw [List.append_assoc]

@[simp]
theorem FileList.append_nil
    (flist : FileList) :
  flist.append [] = flist
  := by
  unfold append
  rw [List.append_nil]

theorem FileList.push_eq
    (flist : FileList) (fi : FileInfo) :
  flist.push fi = flist.append [fi]
  := rfl

namespace WalkArgs

/-- Add a file to the list, and what is in it, which `inside` adds. -/
def visit (args : WalkArgs) (place : WalkPlace) (node : FsTree) (inside : FileList → FileList)
    (flist : FileList) : FileList :=
  match node.metadata with
  | none => flist
  | some m =>
    let fi := relInfo place.rel node m
    if args.filter.isExcluded (strOf place.rel) m.isDir then
      flist
    else if m.isSymlink then
      flist.push fi
    else if m.isDir then
      if args.recursive then
        let dirIdx := flist.files.length
        let flist := flist.push fi
        let beforeRecurse := flist.files.length
        let flist := inside flist
        if args.pruneEmptyDirs && flist.files.length = beforeRecurse then
          { flist with files := flist.files.eraseIdx dirIdx }
        else
          flist
      else
        flist.push fi
    else if args.admits (wrapI64 m.len) then
      flist.push fi
    else
      flist

mutual

/-- Add a file of a directory to the list. -/
def walkFileInto (args : WalkArgs) (place : WalkPlace) (flist : FileList) : FsTree → FileList
  | .dir attrs entries =>
    args.visit place (.dir attrs entries) (fun flist => walkSourceDirInto args place flist entries)
      flist
  -- a directory that cannot be read adds nothing
  | node => args.visit place node id flist

/-- Add what is in a directory to the list. -/
def walkSourceDirInto (args : WalkArgs) (place : WalkPlace) (flist : FileList) :
    Entries → FileList
  | .nil => flist
  | .cons name node rest =>
    walkSourceDirInto args place (walkFileInto args (place.enter name) flist node) rest

end

/-- A file adds its own entry and those of what is in it. -/
theorem visit_eq
    (args : WalkArgs) (place : WalkPlace) (node : FsTree) {inside : FileList → FileList}
    {found : List Found}
    (hinside : args.recursive = true → ∀ flist, inside flist = flist.append (found.map Found.info))
    (hnone : args.recursive = false → found = []) (flist : FileList) :
  args.visit place node inside flist =
    flist.append ((args.list place node found).map Found.info)
  := by
  unfold visit list
  cases hm : node.metadata with
  | none => simp
  | some m =>
      dsimp only
      by_cases hexcluded : args.filter.isExcluded (strOf place.rel) m.isDir = true
      · rw [if_pos hexcluded, if_pos hexcluded, List.map_nil, FileList.append_nil]
      rw [if_neg hexcluded, if_neg hexcluded]
      by_cases hsymlink : m.isSymlink = true
      · rw [if_pos hsymlink, if_pos hsymlink]
        rfl
      rw [if_neg hsymlink, if_neg hsymlink]
      by_cases hdir : m.isDir = true
      · rw [if_pos hdir, if_pos hdir]
        cases hrec : args.recursive with
        | false =>
            rw [hnone hrec]
            rfl
        | true =>
            rw [hinside hrec, FileList.push_eq, FileList.append_append]
            cases found with
            | nil =>
                -- nothing has been added, and the index is that of the directory
                cases args.pruneEmptyDirs with
                | false => rfl
                | true =>
                    simp [FileList.append, List.eraseIdx_append_of_length_le]
            | cons e found =>
                have hlength : ¬(flist.append ([relInfo place.rel node m] ++
                    (e :: found).map Found.info)).files.length =
                    (flist.append [relInfo place.rel node m]).files.length := by
                  simp [FileList.append]
                rw [decide_eq_false hlength]
                simp
                rfl
      · rw [if_neg hdir, if_neg hdir]
        split
        · rfl
        · simp

mutual

/-- A walk adds the entries that it finds at the end of the list. -/
theorem walkFileInto_eq
    (args : WalkArgs) (place : WalkPlace) (flist : FileList) (node : FsTree) :
  args.walkFileInto place flist node = flist.append ((args.walkFile place node).map Found.info)
  := by
  have hleaf : ∀ node, args.visit place node id flist =
      flist.append ((args.list place node []).map Found.info) :=
    fun node => visit_eq args place node (fun _ _ => by simp) (fun _ => rfl) flist
  cases node with
  | dir attrs entries =>
      rw [walkFileInto, walkFile]
      apply visit_eq
      · intro hrec flist
        rw [hrec, if_pos rfl, walkSourceDirInto_eq]
      · intro hrec
        rw [hrec]
        rfl
  | _ =>
      simp only [walkFileInto, walkFile]
      exact hleaf _

theorem walkSourceDirInto_eq
    (args : WalkArgs) (place : WalkPlace) (flist : FileList) (entries : Entries) :
  args.walkSourceDirInto place flist entries =
    flist.append ((args.walkSourceDir place entries).map Found.info)
  := by
  cases entries with
  | nil => rw [walkSourceDirInto, walkSourceDir, List.map_nil, FileList.append_nil]
  | cons name node rest =>
      rw [walkSourceDirInto, walkSourceDir, walkSourceDirInto_eq args place _ rest,
        walkFileInto_eq args _ flist node, FileList.append_append, List.map_append]

end

/-! ### Ways -/

/-- The file that a way leads to, which says for each directory with which of its entries it goes
on. The way goes through directories that the filter does not exclude, to a file that it does not
exclude. -/
def reach (args : WalkArgs) (place : WalkPlace) (node : FsTree) :
    List ℕ → Option (WalkPlace × FsTree)
  | [] => if args.filter.isExcluded (strOf place.rel) node.isDir then none else some (place, node)
  | i :: way =>
    if args.filter.isExcluded (strOf place.rel) node.isDir then
      none
    else
      match node with
      | .dir _ entries =>
        (entries.get? i).bind fun entry => reach args (place.enter entry.1) entry.2 way
      | _ => none

/-- The file that a way from the entries of a directory leads to. -/
def reachIn (args : WalkArgs) (place : WalkPlace) (entries : Entries) :
    List ℕ → Option (WalkPlace × FsTree)
  | [] => none
  | i :: way => (entries.get? i).bind fun entry => args.reach (place.enter entry.1) entry.2 way

/-- The way leads to a file which is no directory and which the size limits admit. They are about
all files but symbolic links. -/
def LeadsToFile (args : WalkArgs) (reached : List ℕ → Option (WalkPlace × FsTree))
    (way : List ℕ) : Prop :=
  ∃ place node m, reached way = some (place, node) ∧ node.metadata = some m ∧
    node.isDir = false ∧ (node.fileType = .symlink ∨ args.admits (wrapI64 m.len) = true)

/-- The way leads to such a file, or to a directory from which a way leads to one. -/
def Keeps (args : WalkArgs) (reached : List ℕ → Option (WalkPlace × FsTree))
    (way : List ℕ) : Prop :=
  args.LeadsToFile reached way ∨
    (∃ place node, reached way = some (place, node) ∧ node.isDir = true) ∧
      ∃ more, args.LeadsToFile reached (way ++ more)

/-- The entry of the file that a way leads to. -/
def entryAt (reached : List ℕ → Option (WalkPlace × FsTree)) (way : List ℕ) : Option FileInfo :=
  (reached way).bind fun file => file.2.metadata.map (relInfo file.1.rel file.2)

/-- The entries are those of the files that the ways lead to, which are all that are to be kept,
and each way comes before those that go on from it. -/
structure Prunes (args : WalkArgs) (reached : List ℕ → Option (WalkPlace × FsTree))
    (ways : List (List ℕ)) (added : List FileInfo) : Prop where
  entries : added.map some = ways.map (entryAt reached)
  complete (way : List ℕ) : way ∈ ways ↔ args.Keeps reached way
  order : ways.Pairwise fun a b => ¬b <+: a

variable {args : WalkArgs} {reached reached' : List ℕ → Option (WalkPlace × FsTree)}

theorem Keeps.congr
    {a b : List ℕ} (h : ∀ more, reached (a ++ more) = reached' (b ++ more)) :
  args.Keeps reached a ↔ args.Keeps reached' b
  := by
  have hself := h []
  rw [List.append_nil, List.append_nil] at hself
  unfold Keeps LeadsToFile
  simp only [hself, h]

theorem not_keeps_of_none
    (h : ∀ way, reached way = none) (way : List ℕ) :
  ¬args.Keeps reached way
  := by
  have hleads : ∀ way, ¬args.LeadsToFile reached way := by
    rintro way ⟨place, node, m, hreached, -⟩
    cases (h way).symm.trans hreached
  rintro (hway | ⟨-, more, hway⟩)
  · exact hleads _ hway
  · exact hleads _ hway

/-- Where there are no ways, nothing is added. -/
theorem prunes_none
    (h : ∀ way, reached way = none) :
  args.Prunes reached [] []
  where
  entries := rfl
  complete way := by simpa using not_keeps_of_none h way
  order := List.Pairwise.nil

namespace Prunes

variable {ways : List (List ℕ)} {added : List FileInfo}

theorem nodup
    (h : args.Prunes reached ways added) :
  ways.Nodup
  := by
  apply h.order.imp
  rintro a b hab rfl
  exact hab List.prefix_rfl

theorem eq_nil_iff
    (h : args.Prunes reached ways added) :
  added = [] ↔ ways = []
  := by
  have hlength := congrArg List.length h.entries
  rw [List.length_map, List.length_map] at hlength
  rw [← List.length_eq_zero_iff, ← List.length_eq_zero_iff, hlength]

/-- No way stays where it starts. -/
theorem nil_not_mem
    (h : args.Prunes reached ways added) (hroot : reached [] = none) :
  [] ∉ ways
  := by
  rw [h.complete]
  rintro (⟨place, node, m, hreached, -⟩ | ⟨⟨place, node, hreached, -⟩, -⟩)
  · cases hroot.symm.trans hreached
  · cases hroot.symm.trans hreached

variable (h : args.Prunes reached ways added) (hroot : reached [] = none)
  (hway : ∀ i way, reached' (i :: way) = reached (i :: way))
include h hroot hway

/-- The ways from the start of a file are those from what is in it. -/
theorem transfer :
  added.map some = ways.map (entryAt reached') ∧
    ∀ i way, args.Keeps reached' (i :: way) ↔ i :: way ∈ ways
  := by
  constructor
  · rw [h.entries]
    apply List.map_congr_left
    intro way hmem
    cases way with
    | nil => cases h.nil_not_mem hroot hmem
    | cons i way => rw [entryAt, entryAt, hway]
  · intro i way
    rw [h.complete]
    exact Keeps.congr fun more => hway i (way ++ more)

/-- A file that is not kept adds what is in it. -/
theorem skip
    (hkeeps : ¬args.Keeps reached' []) :
  args.Prunes reached' ways added
  := by
  obtain ⟨hentries, hcomplete⟩ := h.transfer hroot hway
  refine ⟨hentries, ?_, h.order⟩
  intro way
  cases way with
  | nil => exact iff_of_false (h.nil_not_mem hroot) hkeeps
  | cons i way => exact (hcomplete i way).symm

/-- A file that is kept adds its entry before what is in it. -/
theorem keep
    {fi : FileInfo} (hkeeps : args.Keeps reached' []) (hentry : entryAt reached' [] = some fi) :
  args.Prunes reached' ([] :: ways) (fi :: added)
  := by
  obtain ⟨hentries, hcomplete⟩ := h.transfer hroot hway
  refine ⟨?_, ?_, ?_⟩
  · rw [List.map_cons, List.map_cons, hentries, hentry]
  · intro way
    cases way with
    | nil => exact iff_of_true List.mem_cons_self hkeeps
    | cons i way =>
        rw [hcomplete, List.mem_cons]
        simp
  · rw [List.pairwise_cons]
    refine ⟨?_, h.order⟩
    intro way hmem hlead
    rw [List.prefix_nil] at hlead
    subst hlead
    exact h.nil_not_mem hroot hmem

/-- A directory is kept when something is added in it. -/
theorem keeps_dir_iff
    {place : WalkPlace} {node : FsTree} (hreached : reached' [] = some (place, node))
    (hdir : node.isDir = true) :
  args.Keeps reached' [] ↔ added ≠ []
  := by
  obtain ⟨-, hcomplete⟩ := h.transfer hroot hway
  have hnot : ¬args.LeadsToFile reached' [] := by
    rintro ⟨place', node', m, hreached', -, hfile, -⟩
    cases hreached.symm.trans hreached'
    rw [hdir] at hfile
    cases hfile
  rw [ne_eq, h.eq_nil_iff]
  constructor
  · rintro (hfile | ⟨-, more, hfile⟩) hnil
    · exact hnot hfile
    · cases more with
      | nil => exact hnot hfile
      | cons i way =>
          have hmem := (hcomplete i way).mp (.inl hfile)
          rw [hnil] at hmem
          cases hmem
  · intro hne
    obtain ⟨way, hmem⟩ := List.exists_mem_of_ne_nil ways hne
    refine .inr ⟨⟨place, node, hreached, hdir⟩, ?_⟩
    cases way with
    | nil => cases h.nil_not_mem hroot hmem
    | cons i way =>
        rcases (hcomplete i way).mpr hmem with hfile | ⟨-, more, hfile⟩
        · exact ⟨_, hfile⟩
        · exact ⟨_, hfile⟩

end Prunes

/-! ### Trees -/

/-- Where the way starts, and the first step of it. -/
theorem reach_nil
    (args : WalkArgs) (place : WalkPlace) (node : FsTree) :
  args.reach place node [] =
    if args.filter.isExcluded (strOf place.rel) node.isDir then none else some (place, node)
  := by
  rw [reach]

theorem reach_cons_dir
    (args : WalkArgs) (place : WalkPlace) (attrs : Attrs) (entries : Entries) (i : ℕ)
    (way : List ℕ) :
  args.reach place (.dir attrs entries) (i :: way) =
    if args.filter.isExcluded (strOf place.rel) true then none
    else args.reachIn place entries (i :: way)
  := by
  rw [reach]
  rfl

theorem reach_cons_leaf
    (args : WalkArgs) (place : WalkPlace) {node : FsTree}
    (hleaf : ∀ attrs entries, node ≠ .dir attrs entries) (i : ℕ) (way : List ℕ) :
  args.reach place node (i :: way) = none
  := by
  rw [reach]
  · exact ite_self _
  · exact hleaf

/-- The entry of a file comes before those of what is in it, if it is to be kept. -/
theorem prunes_list
    (hrec : args.recursive = true) (hprune : args.pruneEmptyDirs = true) {place : WalkPlace}
    {node : FsTree} {ways : List (List ℕ)} {inside : List Found}
    (h : args.Prunes reached ways (inside.map Found.info)) (hroot : reached [] = none)
    (hway : ∀ i way, args.reach place node (i :: way) =
      if args.filter.isExcluded (strOf place.rel) node.isDir then none else reached (i :: way))
    (hinside : node.isDir = false → inside = []) :
  ∃ ways, args.Prunes (args.reach place node) ways
    ((args.list place node inside).map Found.info)
  := by
  have hstart := reach_nil args place node
  by_cases hexcluded : args.filter.isExcluded (strOf place.rel) node.isDir = true
  · -- the filter excludes the file
    have hnone : ∀ way, args.reach place node way = none := by
      intro way
      cases way with
      | nil => rw [hstart, if_pos hexcluded]
      | cons i way => rw [hway, if_pos hexcluded]
    have hlist : args.list place node inside = [] := by
      cases hm : node.metadata with
      | none => rw [list, hm]
      | some m => rw [list_eq args place hm, if_pos hexcluded]
    rw [hlist]
    exact ⟨[], prunes_none hnone⟩
  rw [if_neg hexcluded] at hstart
  have hway' : ∀ i way, args.reach place node (i :: way) = reached (i :: way) := by
    intro i way
    rw [hway, if_neg hexcluded]
  cases hm : node.metadata with
  | none =>
      have hlist : args.list place node inside = [] := by rw [list, hm]
      have hfile : node.isDir = false := by
        cases node with
        | hidden => rfl
        | _ => cases hm
      rw [hlist, ← hinside hfile]
      refine ⟨ways, h.skip hroot hway' ?_⟩
      rintro (⟨place', node', m, hreached, hm', -⟩ | ⟨⟨place', node', hreached, hdir⟩, -⟩)
      · cases hstart.symm.trans hreached
        cases hm.symm.trans hm'
      · cases hstart.symm.trans hreached
        rw [hfile] at hdir
        cases hdir
  | some m =>
      have hentry : entryAt (args.reach place node) [] = some (place.found node m).info := by
        rw [entryAt, hstart, Option.bind_some, hm]
        rfl
      have hlist := list_eq args place hm inside
      rw [if_neg hexcluded] at hlist
      cases hdir : node.isDir with
      | true =>
          have hsymlink : node.fileType ≠ .symlink := by
            intro hlink
            simp [FsTree.isDir, hlink] at hdir
          rw [if_neg hsymlink, if_pos hdir, hrec, hprune, Bool.true_and, Bool.true_and] at hlist
          have hkeeps := h.keeps_dir_iff hroot hway' hstart hdir
          cases inside with
          | nil =>
              rw [hlist]
              exact ⟨ways, h.skip hroot hway' fun hkept => hkeeps.mp hkept rfl⟩
          | cons e inside =>
              rw [hlist]
              refine ⟨_, h.keep hroot hway' (hkeeps.mpr ?_) hentry⟩
              exact List.cons_ne_nil _ _
      | false =>
          rw [hinside hdir] at h hlist
          have hnot : ¬((∃ place' node', args.reach place node [] = some (place', node') ∧
              node'.isDir = true) ∧ ∃ more, args.LeadsToFile (args.reach place node) more) := by
            rintro ⟨⟨place', node', hreached, hdir'⟩, -⟩
            cases hstart.symm.trans hreached
            rw [hdir] at hdir'
            cases hdir'
          by_cases hadmits : node.fileType = .symlink ∨ args.admits (wrapI64 m.len) = true
          · have hfound : args.list place node [] = [place.found node m] := by
              rw [hlist]
              by_cases hlink : node.fileType = .symlink
              · rw [if_pos hlink]
              · rw [if_neg hlink, hdir, if_neg Bool.false_ne_true,
                  if_pos (hadmits.resolve_left hlink)]
            rw [hinside hdir, hfound]
            refine ⟨_, h.keep hroot hway' (.inl ?_) hentry⟩
            exact ⟨place, node, m, hstart, hm, hdir, hadmits⟩
          · obtain ⟨hlink, hsize⟩ := not_or.mp hadmits
            rw [if_neg hlink, hdir, if_neg Bool.false_ne_true, if_neg hsize] at hlist
            rw [hinside hdir, hlist]
            refine ⟨ways, h.skip hroot hway' ?_⟩
            rintro (⟨place', node', m', hreached, hm', -, hadmits'⟩ | hkept)
            · cases hstart.symm.trans hreached
              cases hm.symm.trans hm'
              exact hadmits hadmits'
            · exact hnot hkept

/-- The ways into the first entry of a directory, and those into the other ones. -/
theorem prunes_cons
    {place : WalkPlace} {name : EntryName} {node : FsTree} {rest : Entries}
    {ways ways' : List (List ℕ)} {added added' : List FileInfo}
    (h : args.Prunes (args.reach (place.enter name) node) ways added)
    (h' : args.Prunes (args.reachIn place rest) ways' added') :
  args.Prunes (args.reachIn place (.cons name node rest))
    (ways.map (0 :: ·) ++ ways'.map (List.modifyHead (· + 1))) (added ++ added')
  := by
  have hfirst : ∀ way, args.reachIn place (.cons name node rest) (0 :: way) =
      args.reach (place.enter name) node way := fun _ => rfl
  have hlater : ∀ i way, args.reachIn place (.cons name node rest) ((i + 1) :: way) =
      args.reachIn place rest (i :: way) := fun _ _ => rfl
  have hnil : [] ∉ ways' := h'.nil_not_mem rfl
  refine ⟨?_, ?_, ?_⟩
  · rw [List.map_append, List.map_append, h.entries, h'.entries, List.map_map, List.map_map]
    congr 1
    apply List.map_congr_left
    intro way hmem
    cases way with
    | nil => cases hnil hmem
    | cons i way => rfl
  · intro way
    rw [List.mem_append, List.mem_map, List.mem_map]
    constructor
    · rintro (⟨way, hmem, rfl⟩ | ⟨way, hmem, rfl⟩)
      · rw [h.complete] at hmem
        exact (Keeps.congr fun more => hfirst (way ++ more)).mpr hmem
      · cases way with
        | nil => cases hnil hmem
        | cons i way =>
            rw [h'.complete] at hmem
            exact (Keeps.congr fun more => hlater i (way ++ more)).mpr hmem
    · intro hkeeps
      match way with
      | [] =>
        rcases hkeeps with ⟨place', node', m, hreached, -⟩ | ⟨⟨place', node', hreached, -⟩, -⟩
        · cases hreached
        · cases hreached
      | 0 :: way =>
        left
        refine ⟨way, ?_, rfl⟩
        rw [h.complete]
        exact (Keeps.congr fun more => hfirst (way ++ more)).mp hkeeps
      | (i + 1) :: way =>
        right
        refine ⟨i :: way, ?_, rfl⟩
        rw [h'.complete]
        exact (Keeps.congr fun more => hlater i (way ++ more)).mp hkeeps
  · rw [List.pairwise_append, List.pairwise_map, List.pairwise_map]
    refine ⟨?_, ?_, ?_⟩
    · apply h.order.imp
      intro a b hab hlead
      exact hab (List.cons_prefix_cons.mp hlead).2
    · apply h'.order.imp_of_mem
      intro a b ha hb hab hlead
      cases a with
      | nil => cases hnil ha
      | cons i a =>
          cases b with
          | nil => cases hnil hb
          | cons j b =>
              simp only [List.modifyHead_cons, List.cons_prefix_cons, Nat.add_right_cancel_iff]
                at hlead
              exact hab (List.cons_prefix_cons.mpr hlead)
    · intro a ha b hb hlead
      obtain ⟨a, -, rfl⟩ := List.mem_map.mp ha
      obtain ⟨b, hmem, rfl⟩ := List.mem_map.mp hb
      cases b with
      | nil => cases hnil hmem
      | cons j b =>
          have hhead := (List.cons_prefix_cons.mp hlead).1
          cases hhead

mutual

/-- A walk lists of a file what is to be kept. -/
theorem prunes_walkFile
    (hrec : args.recursive = true) (hprune : args.pruneEmptyDirs = true) (place : WalkPlace)
    (node : FsTree) :
  ∃ ways, args.Prunes (args.reach place node) ways
    ((args.walkFile place node).map Found.info)
  := by
  have hleaf : ∀ node : FsTree, (∀ attrs entries, node ≠ .dir attrs entries) →
      ∃ ways, args.Prunes (args.reach place node) ways
        ((args.list place node []).map Found.info) := by
    intro node hnode
    have hnothing : args.Prunes (fun _ => none) [] [] := prunes_none fun _ => rfl
    apply prunes_list hrec hprune hnothing rfl
    · intro i way
      rw [reach_cons_leaf args place hnode, ite_self]
    · exact fun _ => rfl
  cases node with
  | dir attrs entries =>
      obtain ⟨ways, hways⟩ := prunes_walkSourceDir hrec hprune place entries
      rw [walkFile, hrec, if_pos rfl]
      apply prunes_list hrec hprune hways rfl
      · exact reach_cons_dir args place attrs entries
      · intro hdir
        cases hdir
  | _ =>
      simp only [walkFile]
      apply hleaf
      intro attrs entries h
      cases h

/-- A walk lists of what is in a directory what is to be kept. -/
theorem prunes_walkSourceDir
    (hrec : args.recursive = true) (hprune : args.pruneEmptyDirs = true) (place : WalkPlace)
    (entries : Entries) :
  ∃ ways, args.Prunes (args.reachIn place entries) ways
    ((args.walkSourceDir place entries).map Found.info)
  := by
  cases entries with
  | nil =>
      refine ⟨[], prunes_none ?_⟩
      intro way
      cases way with
      | nil => rfl
      | cons i way => rfl
  | cons name node rest =>
      obtain ⟨ways, hways⟩ := prunes_walkFile hrec hprune (place.enter name) node
      obtain ⟨ways', hways'⟩ := prunes_walkSourceDir hrec hprune place rest
      rw [walkSourceDir, List.map_append]
      exact ⟨_, prunes_cons hways hways'⟩

end

/-- A walk that removes empty directories leaves what was in the list, and adds the files that it
comes to and that the limits admit, each once, and the directories that lead to one of them, each
once and before what is in it. -/
theorem walkSourceDirInto_prunes
    (args : WalkArgs) (hrec : args.recursive = true) (hprune : args.pruneEmptyDirs = true)
    (place : WalkPlace) (flist : FileList) (entries : Entries) :
  ∃ (ways : List (List ℕ)) (added : List FileInfo),
    args.walkSourceDirInto place flist entries =
      { flist with files := flist.files ++ added } ∧
    added.map some = ways.map (entryAt (args.reachIn place entries)) ∧
    ways.Nodup ∧ (∀ way, way ∈ ways ↔ args.Keeps (args.reachIn place entries) way) ∧
    ways.Pairwise fun a b => ¬b <+: a
  := by
  obtain ⟨ways, h⟩ := prunes_walkSourceDir hrec hprune place entries
  refine ⟨ways, _, walkSourceDirInto_eq args place flist entries, h.entries, h.nodup, h.complete,
    h.order⟩

/-- An empty directory, and one with a file. -/
def twoDirs : Entries :=
  let a : EntryName := ⟨bytesOf "a", by decide, by decide, by decide, by decide⟩
  let b : EntryName := ⟨bytesOf "b", by decide, by decide, by decide, by decide⟩
  .cons a (.dir {} .nil) (.cons b (.dir {} (.cons a (.file {} [] true) .nil)) .nil)

theorem walkSourceDirInto_prunes_twoDirs :
  ∃ (ways : List (List ℕ)) (added : List FileInfo),
    walkSourceDirInto { pruneEmptyDirs := true } (.start []) { files := [{}] } twoDirs =
      { files := {} :: added } ∧
    added.map some = ways.map (entryAt (reachIn { pruneEmptyDirs := true } (.start []) twoDirs)) ∧
    ways.Nodup ∧
    (∀ way, way ∈ ways ↔ Keeps { pruneEmptyDirs := true }
      (reachIn { pruneEmptyDirs := true } (.start []) twoDirs) way) ∧
    ways.Pairwise fun a b => ¬b <+: a
  := walkSourceDirInto_prunes { pruneEmptyDirs := true } rfl rfl (.start []) { files := [{}] }
    twoDirs

end WalkArgs
