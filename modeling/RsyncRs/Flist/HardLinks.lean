import Mathlib.Data.List.GetD
import RsyncRs.Flist.Compare
import RsyncRs.Flist.Entry

/-!
# Groups of hard links

The regular files of a list that have the same device and inode form a group. The first of
them is sent with all its metadata, the others refer to it by its place in the list.
-/

/-! ### Marking -/

/-- The device and the inode of a regular file. -/
def linkKey (fi : FileInfo) : Option (ℕ × ℕ) :=
  if ¬ fi.isRegular ∨ fi.ino = 0 then none else some (fi.dev, fi.ino)

/-- The file at a place of the wire. -/
def FileList.onWire (flist : FileList) (wirePos : ℕ) : FileInfo :=
  flist.files.getD (flist.sorted.getD wirePos 0) {}

/-- Add a place to the group with the given key. -/
def pushPosition (groups : List ((ℕ × ℕ) × List ℕ)) (key : ℕ × ℕ) (wirePos : ℕ) :
    List ((ℕ × ℕ) × List ℕ) :=
  match groups with
  | [] => [(key, [wirePos])]
  | (k, positions) :: rest =>
      if k = key then (k, positions ++ [wirePos]) :: rest
      else (k, positions) :: pushPosition rest key wirePos

/-- Add the next place to the group of its file, if it has one. -/
def groupPosition (flist : FileList) (groups : List ((ℕ × ℕ) × List ℕ)) (wirePos : ℕ) :
    List ((ℕ × ℕ) × List ℕ) :=
  match linkKey (flist.onWire wirePos) with
  | none => groups
  | some key => pushPosition groups key wirePos

/-- The groups of the places of a list. -/
def linkGroups (flist : FileList) : List ((ℕ × ℕ) × List ℕ) :=
  (List.range flist.sorted.length).foldl (groupPosition flist) []

/-- The first file of a group. -/
def FileInfo.asLeader (fi : FileInfo) : FileInfo :=
  { fi with flags := fi.flags ||| (flagHlinked ||| flagHlinkFirst) }

/-- A file that refers to the first one of its group. -/
def FileInfo.asFollower (fi : FileInfo) (leader : ℤ) : FileInfo :=
  { fi with flags := fi.flags ||| flagHlinked, hardLinkFirstNdx := leader }

/-- Mark the file at a place, the `i`-th one of its group. -/
def markMember (leaderWirePos : ℤ) (flist : FileList) (member : ℕ × ℕ) : FileList :=
  { flist with files := flist.files.modify (flist.sorted.getD member.1 0) fun fi =>
      if member.2 = 0 then fi.asLeader
      else fi.asFollower (wrapI32 (flist.ndxStart + leaderWirePos)) }

/-- Mark the files of a group. -/
def markGroup (flist : FileList) (positions : List ℕ) : FileList :=
  if positions.length < 2 then
    flist
  else
    let positions := positions.mergeSort
    let leaderWirePos := wrapI32 (positions.headD 0)
    positions.zipIdx.foldl (markMember leaderWirePos) flist

/-- Mark the files of all groups. The groups of the source are the values of a map and come in
any order. -/
def markHardLinks (groups : List ((ℕ × ℕ) × List ℕ)) (flist : FileList) (hardLinks : Bool) :
    FileList :=
  if ¬ hardLinks then flist
  else groups.foldl (fun flist group => markGroup flist group.2) flist

/-! ### The groups -/

/-- The keys of the groups. -/
abbrev groupKeys (groups : List ((ℕ × ℕ) × List ℕ)) : List (ℕ × ℕ) :=
  groups.map Prod.fst

theorem pushPosition_of_mem
    {groups : List ((ℕ × ℕ) × List ℕ)} {key : ℕ × ℕ} (wirePos : ℕ) (h : key ∈ groupKeys groups) :
  groupKeys (pushPosition groups key wirePos) = groupKeys groups
  := by
  induction groups with
  | nil => cases h
  | cons g groups ih =>
      rw [pushPosition]
      split
      · rfl
      · next hne =>
          have h' : key ∈ groupKeys groups := by
            rcases List.mem_cons.mp h with h | h
            · exact absurd h.symm hne
            · apply h
          rw [groupKeys, List.map_cons, ← groupKeys, ih h']
          rfl

theorem pushPosition_of_not_mem
    {groups : List ((ℕ × ℕ) × List ℕ)} {key : ℕ × ℕ} (wirePos : ℕ) (h : key ∉ groupKeys groups) :
  pushPosition groups key wirePos = groups ++ [(key, [wirePos])]
  := by
  induction groups with
  | nil => rfl
  | cons g groups ih =>
      obtain ⟨hne, h'⟩ := not_or.mp (List.mem_cons.not.mp h)
      rw [pushPosition, if_neg (Ne.symm hne), ih h']
      rfl

/-- A group after a place was added has the key of the place and one place more, or it is one
of the groups before. -/
theorem mem_pushPosition
    {groups : List ((ℕ × ℕ) × List ℕ)} (hnodup : (groupKeys groups).Nodup) {key : ℕ × ℕ}
    {wirePos : ℕ}
    (hmem : key ∈ groupKeys groups) {g : (ℕ × ℕ) × List ℕ}
    (h : g ∈ pushPosition groups key wirePos) :
  g ∈ groups ∧ g.1 ≠ key ∨ ∃ positions, (key, positions) ∈ groups ∧
    g = (key, positions ++ [wirePos])
  := by
  induction groups with
  | nil => cases hmem
  | cons a groups ih =>
      obtain ⟨k, positions⟩ := a
      obtain ⟨hk, hnodup'⟩ := List.nodup_cons.mp hnodup
      rw [pushPosition] at h
      split at h
      · next heq =>
          subst heq
          rcases List.mem_cons.mp h with rfl | h
          · right
            exact ⟨positions, List.mem_cons_self, rfl⟩
          · left
            refine ⟨List.mem_cons_of_mem _ h, ?_⟩
            intro heq
            have hmem' : g.1 ∈ groupKeys groups := List.mem_map_of_mem h
            exact hk (heq ▸ hmem')
      · next hne =>
          have hmem' : key ∈ groupKeys groups := by
            rcases List.mem_cons.mp hmem with h | h
            · exact absurd h.symm hne
            · apply h
          rcases List.mem_cons.mp h with rfl | h
          · exact Or.inl ⟨List.mem_cons_self, hne⟩
          · rcases ih hnodup' hmem' h with ⟨hg, hgk⟩ | ⟨ps, hps, rfl⟩
            · exact Or.inl ⟨List.mem_cons_of_mem _ hg, hgk⟩
            · exact Or.inr ⟨ps, List.mem_cons_of_mem _ hps, rfl⟩

/-- The groups are those of the first `n` places: each has exactly the places with its key, in
order, there is one group for each key, and each key that occurs has a group. -/
structure Groups (key : ℕ → Option (ℕ × ℕ)) (n : ℕ) (groups : List ((ℕ × ℕ) × List ℕ)) :
    Prop where
  positions : ∀ g ∈ groups, g.2 = (List.range n).filter (fun i => key i = some g.1)
  nodup : (groupKeys groups).Nodup
  all : ∀ i < n, ∀ k, key i = some k → k ∈ groupKeys groups

/-- The order of the groups does not matter. -/
theorem Groups.perm
    {key : ℕ → Option (ℕ × ℕ)} {n : ℕ} {groups groups' : List ((ℕ × ℕ) × List ℕ)}
    (h : Groups key n groups) (hperm : groups'.Perm groups) :
  Groups key n groups'
  where
  positions := fun g hg => h.positions g (hperm.mem_iff.mp hg)
  nodup := (hperm.map Prod.fst).nodup_iff.mpr h.nodup
  all := fun i hi k hk => (hperm.map Prod.fst).mem_iff.mpr (h.all i hi k hk)

/-- The groups of one place more. -/
theorem Groups.step
    {flist : FileList} {n : ℕ} {groups : List ((ℕ × ℕ) × List ℕ)}
    (h : Groups (fun i => linkKey (flist.onWire i)) n groups) :
  Groups (fun i => linkKey (flist.onWire i)) (n + 1) (groupPosition flist groups n)
  := by
  unfold groupPosition
  cases hkey : linkKey (flist.onWire n) with
  | none =>
      constructor
      · intro g hg
        rw [List.range_succ, List.filter_append, ← h.positions g hg, List.filter_cons_of_neg,
          List.filter_nil, List.append_nil]
        simp [hkey]
      · apply h.nodup
      · intro i hi k hk
        rcases Nat.lt_succ_iff_lt_or_eq.mp hi with hi | rfl
        · apply h.all i hi k hk
        · rw [hkey] at hk
          cases hk
  | some key =>
      dsimp only
      by_cases hmem : key ∈ groupKeys groups
      · constructor
        · intro g hg
          rw [List.range_succ, List.filter_append]
          rcases mem_pushPosition h.nodup hmem hg with ⟨hg, hne⟩ | ⟨positions, hold, rfl⟩
          · rw [← h.positions g hg, List.filter_cons_of_neg, List.filter_nil, List.append_nil]
            simp [hkey, Ne.symm hne]
          · rw [← h.positions _ hold, List.filter_cons_of_pos, List.filter_nil]
            simp [hkey]
        · rw [pushPosition_of_mem n hmem]
          apply h.nodup
        · intro i hi k hk
          rw [pushPosition_of_mem n hmem]
          rcases Nat.lt_succ_iff_lt_or_eq.mp hi with hi | rfl
          · apply h.all i hi k hk
          · rw [hkey] at hk
            cases hk
            apply hmem
      · rw [pushPosition_of_not_mem n hmem]
        constructor
        · intro g hg
          rw [List.range_succ, List.filter_append]
          rcases List.mem_append.mp hg with hg | hg
          · have hne : key ≠ g.1 := by
              intro heq
              exact hmem (heq ▸ List.mem_map_of_mem hg)
            rw [← h.positions g hg, List.filter_cons_of_neg, List.filter_nil, List.append_nil]
            simp [hkey, hne]
          · rw [List.mem_singleton.mp hg, List.filter_cons_of_pos, List.filter_nil,
              List.filter_eq_nil_iff.mpr, List.nil_append]
            · intro i hi hk
              exact hmem (h.all i (List.mem_range.mp hi) key (by simpa using hk))
            · simp [hkey]
        · rw [groupKeys, List.map_append, List.nodup_append]
          refine ⟨h.nodup, by simp, ?_⟩
          rintro k hk k' hk' rfl
          have heq : k = key := by simpa using hk'
          exact hmem (heq ▸ hk)
        · intro i hi k hk
          rw [groupKeys, List.map_append, List.mem_append]
          rcases Nat.lt_succ_iff_lt_or_eq.mp hi with hi | rfl
          · exact Or.inl (h.all i hi k hk)
          · rw [hkey] at hk
            cases hk
            exact Or.inr List.mem_cons_self

theorem groups_linkGroups
    (flist : FileList) :
  Groups (fun i => linkKey (flist.onWire i)) flist.sorted.length (linkGroups flist)
  := by
  have key : ∀ n, Groups (fun i => linkKey (flist.onWire i)) n
      ((List.range n).foldl (groupPosition flist) []) := by
    intro n
    induction n with
    | zero => exact ⟨by simp, by simp [groupKeys], by simp⟩
    | succ n ih =>
        rw [List.range_succ, List.foldl_append]
        apply ih.step
  apply key

/-! ### The marked files -/

/-- What marking the group at these places does to the file at the place `i`. -/
def markAt (positions : List ℕ) (i : ℕ) (fi : FileInfo) : FileInfo :=
  if 2 ≤ positions.length ∧ i ∈ positions then
    if positions.head? = some i then fi.asLeader
    else fi.asFollower (wrapI32 (wrapI32 (positions.headD 0)))
  else
    fi

/-- A list whose files are sent in their order, from the index zero on. -/
structure InOrder (flist : FileList) : Prop where
  sorted : flist.sorted = List.range flist.files.length
  ndxStart : flist.ndxStart = 0

theorem InOrder.getD_sorted
    {flist : FileList} (h : InOrder flist) {i : ℕ} (hi : i < flist.files.length) :
  flist.sorted.getD i 0 = i
  := by
  rw [h.sorted, List.getD_eq_getElem _ _ (by simpa using hi), List.getElem_range]

theorem InOrder.onWire
    {flist : FileList} (h : InOrder flist) {i : ℕ} (hi : i < flist.files.length) :
  flist.onWire i = flist.files[i]
  := by
  rw [FileList.onWire, h.getD_sorted hi, List.getD_eq_getElem _ _ hi]

theorem inOrder_flistSort
    (files : List FileInfo) :
  InOrder (flistSort { files })
  where
  sorted := by
    unfold flistSort
    rw [List.length_mergeSort]
  ndxStart := rfl

/-- The list with other files in the same order. -/
def FileList.withFiles (flist : FileList) (f : ℕ → FileInfo → FileInfo) : FileList :=
  { flist with files := flist.files.mapIdx f }

@[simp]
theorem length_withFiles
    (flist : FileList) (f : ℕ → FileInfo → FileInfo) :
  (flist.withFiles f).files.length = flist.files.length
  := List.length_mapIdx

theorem InOrder.withFiles
    {flist : FileList} (h : InOrder flist) (f : ℕ → FileInfo → FileInfo) :
  InOrder (flist.withFiles f)
  where
  sorted := by
    rw [length_withFiles]
    apply h.sorted
  ndxStart := h.ndxStart

theorem withFiles_id
    (flist : FileList) :
  flist.withFiles (fun _ fi => fi) = flist
  := by
  unfold FileList.withFiles
  congr 1
  apply List.ext_getElem (by simp)
  intro i hi _
  rw [List.getElem_mapIdx]

theorem withFiles_withFiles
    (flist : FileList) (f g : ℕ → FileInfo → FileInfo) :
  (flist.withFiles f).withFiles g = flist.withFiles fun i fi => g i (f i fi)
  := by
  unfold FileList.withFiles
  rw [List.mapIdx_mapIdx]
  rfl

theorem withFiles_congr
    {flist : FileList} {f g : ℕ → FileInfo → FileInfo}
    (h : ∀ i < flist.files.length, ∀ fi, f i fi = g i fi) :
  flist.withFiles f = flist.withFiles g
  := by
  unfold FileList.withFiles
  congr 1
  apply List.ext_getElem (by simp)
  intro i hi _
  rw [List.getElem_mapIdx, List.getElem_mapIdx]
  apply h
  simpa using hi

/-- Marking one file of a list in order. -/
theorem markMember_eq
    {flist : FileList} (h : InOrder flist) (leader : ℤ) {p : ℕ} (hp : p < flist.files.length)
    (k : ℕ) :
  markMember leader flist (p, k) = flist.withFiles fun i fi =>
    if i = p then (if k = 0 then fi.asLeader else fi.asFollower (wrapI32 leader)) else fi
  := by
  unfold markMember FileList.withFiles
  rw [h.getD_sorted hp, h.ndxStart, Int.zero_add]
  congr 1
  apply List.ext_getElem (by simp)
  intro i hi _
  rw [List.getElem_modify, List.getElem_mapIdx]
  simp only [eq_comm]

/-- Marking the files of a group after the first one. -/
theorem markMembers_eq
    {flist : FileList} (h : InOrder flist) (leader : ℤ) {positions : List ℕ}
    (hlt : ∀ p ∈ positions, p < flist.files.length) (k : ℕ) :
  (positions.zipIdx (k + 1)).foldl (markMember leader) flist = flist.withFiles fun i fi =>
    if i ∈ positions then fi.asFollower (wrapI32 leader) else fi
  := by
  have hflags : ∀ fi : FileInfo, (fi.asFollower (wrapI32 leader)).asFollower (wrapI32 leader) =
      fi.asFollower (wrapI32 leader) := by
    intro fi
    unfold FileInfo.asFollower
    rw [Nat.or_assoc, Nat.or_self]
  induction positions generalizing flist k with
  | nil =>
      rw [List.zipIdx_nil, List.foldl_nil]
      simp only [List.not_mem_nil, if_false, withFiles_id]
  | cons p positions ih =>
      rw [List.zipIdx_cons, List.foldl_cons, markMember_eq h leader (hlt p List.mem_cons_self),
        ih (h.withFiles _), withFiles_withFiles]
      · apply withFiles_congr
        intro i _ fi
        by_cases hip : i = p
        · by_cases hmem : i ∈ positions
          · simp [hip ▸ hmem, hip, hflags]
          · rw [hip] at hmem
            simp [hip, hmem]
        · simp [hip]
      · intro q hq
        rw [length_withFiles]
        apply hlt q (List.mem_cons_of_mem _ hq)

/-- Marking a group of places of a list in order. -/
theorem markGroup_eq
    {flist : FileList} (h : InOrder flist) {positions : List ℕ}
    (hascending : positions.Pairwise (· < ·)) (hlt : ∀ p ∈ positions, p < flist.files.length) :
  markGroup flist positions = flist.withFiles (markAt positions)
  := by
  unfold markGroup
  split
  · next hshort =>
      unfold markAt
      simp only [not_le.mpr hshort, false_and, if_false, withFiles_id]
  · next hlong =>
      have hsort : positions.mergeSort = positions := by
        apply List.mergeSort_of_pairwise
        apply hascending.imp
        intro a b hab
        simpa using hab.le
      dsimp only
      rw [hsort]
      cases positions with
      | nil => simp at hlong
      | cons p positions =>
          rw [List.zipIdx_cons, List.foldl_cons, markMember_eq h _ (hlt p List.mem_cons_self),
            Nat.zero_add, ← Nat.zero_add 1, markMembers_eq (h.withFiles _), withFiles_withFiles]
          · apply withFiles_congr
            intro i _ fi
            have hp : p ∉ positions := by
              intro hmem
              exact absurd ((List.pairwise_cons.mp hascending).1 p hmem) (lt_irrefl p)
            unfold markAt
            rw [not_lt] at hlong
            by_cases hip : i = p
            · simp only [hip, if_true, hp, if_false, hlong, List.mem_cons_self, and_self,
                List.head?_cons]
            · simp only [hip, if_false, hlong, true_and, List.mem_cons, false_or,
                List.head?_cons, Option.some.injEq, Ne.symm hip, List.headD_cons]
          · intro q hq
            rw [length_withFiles]
            apply hlt q (List.mem_cons_of_mem _ hq)

/-- Marking the files of all groups of a list in order. -/
theorem markHardLinks_eq
    {flist : FileList} (h : InOrder flist) {groups : List ((ℕ × ℕ) × List ℕ)}
    (hgroups : Groups (fun i => linkKey (flist.onWire i)) flist.sorted.length groups) :
  markHardLinks groups flist true =
    flist.withFiles fun i fi => groups.foldl (fun fi g => markAt g.2 i fi) fi
  := by
  have hlen : flist.sorted.length = flist.files.length := by
    rw [h.sorted, List.length_range]
  have key : ∀ (gs : List ((ℕ × ℕ) × List ℕ)) (flist' : FileList), InOrder flist' →
      flist'.files.length = flist.files.length → (∀ g ∈ gs, g ∈ groups) →
      gs.foldl (fun flist g => markGroup flist g.2) flist' =
        flist'.withFiles fun i fi => gs.foldl (fun fi g => markAt g.2 i fi) fi := by
    intro gs
    induction gs with
    | nil =>
        intro flist' _ _ _
        apply (withFiles_id flist').symm
    | cons g gs ih =>
        intro flist' h' hlen' hmem
        have hpositions := hgroups.positions g (hmem g List.mem_cons_self)
        rw [List.foldl_cons, markGroup_eq h', ih _ (h'.withFiles _) (by simpa using hlen'),
          withFiles_withFiles]
        · rfl
        · intro g' hg'
          apply hmem g' (List.mem_cons_of_mem _ hg')
        · rw [hpositions]
          apply List.Pairwise.filter
          apply List.pairwise_lt_range
        · intro p hp
          rw [hpositions, List.mem_filter, List.mem_range, hlen] at hp
          omega
  unfold markHardLinks
  rw [if_neg (by simp)]
  apply key groups flist h rfl fun _ hg => hg

/-- The group of a file is the only one that marks it. -/
theorem foldl_markAt
    {key : ℕ → Option (ℕ × ℕ)} {n : ℕ} {groups : List ((ℕ × ℕ) × List ℕ)}
    (hgroups : Groups key n groups) {i : ℕ} (hi : i < n) (fi : FileInfo) :
  groups.foldl (fun fi g => markAt g.2 i fi) fi =
    match key i with
    | none => fi
    | some k => markAt ((List.range n).filter fun j => key j = some k) i fi
  := by
  have hmem : ∀ g ∈ groups, i ∈ g.2 ↔ key i = some g.1 := by
    intro g hg
    rw [hgroups.positions g hg, List.mem_filter, List.mem_range]
    simp [hi]
  -- groups of other keys leave the file as it is
  have hother : ∀ gs : List ((ℕ × ℕ) × List ℕ), (∀ g ∈ gs, g ∈ groups) →
      (∀ g ∈ gs, key i ≠ some g.1) → ∀ fi,
      gs.foldl (fun fi g => markAt g.2 i fi) fi = fi := by
    intro gs hsub hne
    induction gs with
    | nil => exact fun _ => rfl
    | cons g gs ih =>
        intro fi
        have hnot : i ∉ g.2 := fun h =>
          hne g List.mem_cons_self ((hmem g (hsub g List.mem_cons_self)).mp h)
        have hsame : markAt g.2 i fi = fi := by
          unfold markAt
          rw [if_neg (fun h => hnot h.2)]
        rw [List.foldl_cons, hsame]
        apply ih (fun g hg => hsub g (List.mem_cons_of_mem _ hg))
          (fun g hg => hne g (List.mem_cons_of_mem _ hg))
  cases hk : key i with
  | none =>
      apply hother groups (fun _ h => h)
      intro g _
      rw [hk]
      nofun
  | some k =>
      dsimp only
      obtain ⟨g, hg, rfl⟩ := List.mem_map.mp (hgroups.all i hi k hk)
      obtain ⟨pre, post, hsplit⟩ := List.append_of_mem hg
      have hnodup := hgroups.nodup
      rw [hsplit, groupKeys, List.map_append, List.map_cons, List.nodup_middle,
        List.nodup_cons, List.mem_append, not_or] at hnodup
      obtain ⟨⟨hpre, hpost⟩, -⟩ := hnodup
      have hne : ∀ gs : List ((ℕ × ℕ) × List ℕ), g.1 ∉ gs.map Prod.fst →
          ∀ g' ∈ gs, key i ≠ some g'.1 := by
        intro gs hgs g' hg' heq
        rw [hk, Option.some.injEq] at heq
        exact hgs (heq ▸ List.mem_map_of_mem hg')
      rw [hsplit, List.foldl_append, List.foldl_cons,
        hother pre (fun g hg => by rw [hsplit]; simp [hg]) (hne pre hpre),
        hother post (fun g hg => by rw [hsplit]; simp [hg]) (hne post hpost),
        hgroups.positions g hg]

/-! ### Leaders -/

/-- The file at `j` is regular and has the device and the inode, other than zero, of the one at
`i`. -/
def LinkedTo (files : List FileInfo) (j i : ℕ) : Prop :=
  ∃ a b, files[j]? = some a ∧ files[i]? = some b ∧ a.isRegular ∧ b.ino ≠ 0 ∧
    a.dev = b.dev ∧ a.ino = b.ino

/-- The file at `j` comes before the one at `i`, and it is the first one that is linked to
it. -/
structure IsLeader (files : List FileInfo) (j i : ℕ) : Prop where
  before : j < i
  linked : LinkedTo files j i
  least : ∀ k < j, ¬ LinkedTo files k i

theorem linkKey_eq_some_iff
    (fi : FileInfo) (k : ℕ × ℕ) :
  linkKey fi = some k ↔ fi.isRegular = true ∧ fi.ino ≠ 0 ∧ (fi.dev, fi.ino) = k
  := by
  unfold linkKey
  by_cases hreg : fi.isRegular = true
  · by_cases hino : fi.ino = 0
    · simp [hino]
    · simp [hreg, hino]
  · simp [hreg]

/-- Files with the same device and inode have the same mode. -/
def ModesAgree (files : List FileInfo) : Prop :=
  ∀ a ∈ files, ∀ b ∈ files, a.dev = b.dev → a.ino = b.ino → a.mode = b.mode

/-- A file is linked to another one exactly when their keys are the same. -/
theorem linkedTo_iff
    {files : List FileInfo} (hmodes : ModesAgree files) {j i : ℕ} (hj : j < files.length)
    (hi : i < files.length) :
  LinkedTo files j i ↔ ∃ k, linkKey files[i] = some k ∧ linkKey files[j] = some k
  := by
  constructor
  · rintro ⟨a, b, ha, hb, hreg, hino, hdev, hsame⟩
    obtain ⟨_, rfl⟩ := List.getElem?_eq_some_iff.mp ha
    obtain ⟨_, rfl⟩ := List.getElem?_eq_some_iff.mp hb
    have hmode := hmodes _ (List.getElem_mem hj) _ (List.getElem_mem hi) hdev hsame
    have hreg' : files[i].isRegular = true := by
      rw [← hreg, FileInfo.isRegular, FileInfo.isRegular, FileInfo.fileType, FileInfo.fileType,
        hmode]
    refine ⟨_, (linkKey_eq_some_iff _ _).mpr ⟨hreg', hino, rfl⟩,
      (linkKey_eq_some_iff _ _).mpr ⟨hreg, hsame ▸ hino, by rw [hdev, hsame]⟩⟩
  · rintro ⟨k, hki, hkj⟩
    obtain ⟨-, hino, rfl⟩ := (linkKey_eq_some_iff _ _).mp hki
    obtain ⟨hreg, -, hsame⟩ := (linkKey_eq_some_iff _ _).mp hkj
    exact ⟨_, _, List.getElem?_eq_getElem hj, List.getElem?_eq_getElem hi, hreg, hino,
      congrArg Prod.fst hsame, congrArg Prod.snd hsame⟩

/-- A file that is linked to one before it has a leader. -/
theorem exists_isLeader
    {files : List FileInfo} {j i : ℕ} (hji : j < i) (hlinked : LinkedTo files j i) :
  ∃ l, IsLeader files l i
  := by
  classical
  have hex : ∃ l, LinkedTo files l i := ⟨j, hlinked⟩
  have hle : Nat.find hex ≤ j := Nat.find_min' hex hlinked
  refine ⟨Nat.find hex, by omega, Nat.find_spec hex, ?_⟩
  intro k hk
  apply Nat.find_min hex hk

theorem IsLeader.unique
    {files : List FileInfo} {j j' i : ℕ} (h : IsLeader files j i) (h' : IsLeader files j' i) :
  j = j'
  := by
  rcases lt_trichotomy j j' with hlt | heq | hlt
  · exact absurd h.linked (h'.least j hlt)
  · apply heq
  · exact absurd h'.linked (h.least j' hlt)

/-- The groups of the files of a sorted list, in any order. -/
def IsLinkGroups (files : List FileInfo) (groups : List ((ℕ × ℕ) × List ℕ)) : Prop :=
  groups.Perm (linkGroups (flistSort { files }))

/-- The files of a sorted list after the marking. -/
def markedFiles (files : List FileInfo) (groups : List ((ℕ × ℕ) × List ℕ)) : List FileInfo :=
  (markHardLinks groups (flistSort { files }) true).files

section Marked

variable {files : List FileInfo} {groups : List ((ℕ × ℕ) × List ℕ)}

theorem markHardLinks_flistSort
    (hgroups : IsLinkGroups files groups) :
  markHardLinks groups (flistSort { files }) true =
    (flistSort { files }).withFiles fun i fi =>
      match linkKey ((flistSort { files }).onWire i) with
      | none => fi
      | some k => markAt ((List.range (flistSort { files }).sorted.length).filter fun j =>
          linkKey ((flistSort { files }).onWire j) = some k) i fi
  := by
  have horder := inOrder_flistSort files
  have hall := (groups_linkGroups (flistSort { files })).perm hgroups
  rw [markHardLinks_eq horder hall]
  apply withFiles_congr
  intro i hi fi
  apply foldl_markAt hall
  rw [horder.sorted, List.length_range]
  apply hi

@[simp]
theorem length_markedFiles
    (hgroups : IsLinkGroups files groups) :
  (markedFiles files groups).length = (flistSort { files }).files.length
  := by
  rw [markedFiles, markHardLinks_flistSort hgroups, length_withFiles]

/-- The file at a place after the marking. -/
theorem getElem_markedFiles
    (hgroups : IsLinkGroups files groups) {i : ℕ} (hi : i < (flistSort { files }).files.length)
    (hi' : i < (markedFiles files groups).length) :
  (markedFiles files groups)[i] =
    match linkKey (flistSort { files }).files[i] with
    | none => (flistSort { files }).files[i]
    | some k => markAt ((List.range (flistSort { files }).files.length).filter fun j =>
        linkKey ((flistSort { files }).files.getD j {}) = some k) i (flistSort { files }).files[i]
  := by
  have horder := inOrder_flistSort files
  have hfilter : ∀ k, ((List.range (flistSort { files }).sorted.length).filter fun j =>
      decide (linkKey ((flistSort { files }).onWire j) = some k)) =
      (List.range (flistSort { files }).files.length).filter fun j =>
        linkKey ((flistSort { files }).files.getD j {}) = some k := by
    intro k
    rw [horder.sorted, List.length_range]
    apply List.filter_congr
    intro j hj
    rw [horder.onWire (List.mem_range.mp hj), List.getD_eq_getElem _ _ (List.mem_range.mp hj)]
  unfold markedFiles
  simp only [markHardLinks_flistSort hgroups, FileList.withFiles, List.getElem_mapIdx, hfilter,
    horder.onWire hi]

/-- A file with a leader refers to it. -/
theorem markedFiles_of_isLeader
    (hgroups : IsLinkGroups files groups) (hmodes : ModesAgree (flistSort { files }).files)
    {j i : ℕ} (h : IsLeader (flistSort { files }).files j i)
    (hi : i < (flistSort { files }).files.length) (hi' : i < (markedFiles files groups).length) :
  (markedFiles files groups)[i] =
    (flistSort { files }).files[i].asFollower (wrapI32 (wrapI32 j))
  := by
  have hj : j < (flistSort { files }).files.length := h.before.trans hi
  obtain ⟨k, hki, hkj⟩ := (linkedTo_iff hmodes hj hi).mp h.linked
  rw [getElem_markedFiles hgroups hi hi', hki]
  dsimp only
  generalize hps : ((List.range (flistSort { files }).files.length).filter fun j =>
    decide (linkKey ((flistSort { files }).files.getD j {}) = some k)) = ps
  have hmem : ∀ l, l ∈ ps ↔ l < (flistSort { files }).files.length ∧
      linkKey ((flistSort { files }).files.getD l {}) = some k := by
    intro l
    rw [← hps, List.mem_filter, List.mem_range, decide_eq_true_iff]
  have hasc : ps.Pairwise (· < ·) := by
    rw [← hps]
    apply List.Pairwise.filter
    apply List.pairwise_lt_range
  have himem : i ∈ ps := (hmem i).mpr ⟨hi, by rw [List.getD_eq_getElem _ _ hi, hki]⟩
  have hjmem : j ∈ ps := (hmem j).mpr ⟨hj, by rw [List.getD_eq_getElem _ _ hj, hkj]⟩
  have hhead : ps.head? = some j := by
    cases ps with
    | nil => cases himem
    | cons p ps =>
        rcases List.mem_cons.mp hjmem with rfl | hjps
        · rfl
        · exfalso
          have hpj := (List.pairwise_cons.mp hasc).1 j hjps
          obtain ⟨hp, hkp⟩ := (hmem p).mp List.mem_cons_self
          rw [List.getD_eq_getElem _ _ hp] at hkp
          exact h.least p hpj ((linkedTo_iff hmodes hp hi).mpr ⟨k, hki, hkp⟩)
  have hne : ps.head? ≠ some i := by
    rw [hhead, ne_eq, Option.some.injEq]
    exact h.before.ne
  have hlen : 2 ≤ ps.length := by
    match ps, himem, hne with
    | [p], himem, hne => exact absurd (by rw [List.mem_singleton.mp himem]; rfl) hne
    | _ :: _ :: _, _, _ => simp
  unfold markAt
  rw [if_pos ⟨hlen, himem⟩, if_neg hne]
  cases ps with
  | nil => cases himem
  | cons p ps =>
      cases hhead
      rfl

/-- A file without a leader is left as it is or is marked as one. -/
theorem markedFiles_of_not_isLeader
    (hgroups : IsLinkGroups files groups) (hmodes : ModesAgree (flistSort { files }).files)
    {i : ℕ} (h : ∀ j, ¬ IsLeader (flistSort { files }).files j i)
    (hi : i < (flistSort { files }).files.length) (hi' : i < (markedFiles files groups).length) :
  (markedFiles files groups)[i] = (flistSort { files }).files[i] ∨
    (markedFiles files groups)[i] = (flistSort { files }).files[i].asLeader
  := by
  rw [getElem_markedFiles hgroups hi hi']
  cases hki : linkKey (flistSort { files }).files[i] with
  | none => exact Or.inl rfl
  | some k =>
      dsimp only
      unfold markAt
      split
      · next hmember =>
          split
          · exact Or.inr rfl
          · next hhead =>
              exfalso
              obtain ⟨hlen, himem⟩ := hmember
              generalize hps : ((List.range (flistSort { files }).files.length).filter fun j =>
                decide (linkKey ((flistSort { files }).files.getD j {}) = some k)) = ps at *
              have hasc : ps.Pairwise (· < ·) := by
                rw [← hps]
                apply List.Pairwise.filter
                apply List.pairwise_lt_range
              cases ps with
              | nil => cases himem
              | cons p ps =>
                  have hpmem : p ∈ p :: ps := List.mem_cons_self
                  rw [← hps, List.mem_filter, List.mem_range, decide_eq_true_iff] at hpmem
                  obtain ⟨hp, hkp⟩ := hpmem
                  rw [List.getD_eq_getElem _ _ hp] at hkp
                  have hpi : p < i := by
                    rcases List.mem_cons.mp himem with rfl | hmem
                    · exact absurd rfl hhead
                    · exact (List.pairwise_cons.mp hasc).1 i hmem
                  obtain ⟨l, hl⟩ := exists_isLeader hpi
                    ((linkedTo_iff hmodes hp hi).mpr ⟨k, hki, hkp⟩)
                  exact h l hl
      · exact Or.inl rfl

end Marked
