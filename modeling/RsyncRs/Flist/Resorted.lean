import RsyncRs.Flist.RoundTrip
import RsyncRs.Program.Outcome

/-!
# References after sorting

The receiver sorts what it has read, and entries may refer to others by their places on the
wire. Whatever has been read, each reference follows its target to the target's new place.
-/

variable {X : Type} {Reply : X → Type} {H : Type}
  {answer : H → (x : X) → Option (Reply x × H)} {closed : Bool} {w w' : Endpoint H UInt8}

/-! ### References on the wire -/

/-- An integer of variable width that has been read has 32 bits. -/
theorem isI32_of_returns_readVarint
    {x : ℤ} (h : Proc.Returns answer closed (readVarint : Session Reply ℤ) w x w') :
  IsI32 x
  := by
  obtain ⟨ch, w₁, -, h⟩ := h.bind_inv
  dsimp only at h
  split at h
  · have := ch.toNat_lt
    rw [h.pure_inv.1]
    constructor <;> omega
  · split at h
    · cases (Prog.Ends.of_ret h).1
    · obtain ⟨bs, w₂, -, h⟩ := h.bind_inv
      split at h
      · cases (Prog.Ends.of_ret h).1
      · rw [h.pure_inv.1]
        apply isI32_wrapI32

/-- An entry that is read in full refers to no other. -/
theorem link_of_returns_readFields
    {protocol checksumLen xflags : ℕ} {prev : Option FileInfo} {name : Option Name × Name}
    {fi : FileInfo}
    (h : Proc.Returns answer closed
      (readFields protocol checksumLen xflags prev name : Session Reply FileInfo) w fi w') :
  fi.hardLinkFirstNdx = -1
  := by
  obtain ⟨size, _, -, h⟩ := h.bind_inv
  obtain ⟨modtime, _, -, h⟩ := h.bind_inv
  obtain ⟨modNsec, _, -, h⟩ := h.bind_inv
  obtain ⟨mode, _, -, h⟩ := h.bind_inv
  obtain ⟨uid, _, -, h⟩ := h.bind_inv
  obtain ⟨gid, _, -, h⟩ := h.bind_inv
  obtain ⟨rdev, _, -, h⟩ := h.bind_inv
  obtain ⟨linkTarget, _, -, h⟩ := h.bind_inv
  obtain ⟨checksum, _, -, h⟩ := h.bind_inv
  obtain ⟨rfl, -⟩ := h.pure_inv
  rfl

/-- An entry refers to no other or to one of the entries read before it. -/
def RefersBack (fi : FileInfo) (before : ℕ) : Prop :=
  fi.hardLinkFirstNdx = -1 ∨ 0 ≤ fi.hardLinkFirstNdx ∧ IsI32 fi.hardLinkFirstNdx ∧
    fi.hardLinkFirstNdx < before

theorem refersBack_of_returns
    {protocol checksumLen xflags : ℕ} {prev : Option FileInfo} {files : List FileInfo}
    {fi : FileInfo}
    (h : Proc.Returns answer closed (recvFileEntryInner protocol checksumLen xflags prev files 0 :
      Session Reply FileInfo) w fi w') :
  RefersBack fi files.length
  := by
  obtain ⟨fullName, w₁, -, h⟩ := h.bind_inv
  split at h
  · obtain ⟨ndx, w₂, hndx, h⟩ := h.bind_inv
    have h32 := isI32_of_returns_readVarint hndx
    rw [sub_zero, wrapI32_of_isI32 h32] at h
    dsimp only at h
    by_cases hpos : 0 ≤ ndx
    · rw [if_pos hpos] at h
      cases hfirst : files[ndx.toNat]? with
      | none =>
          rw [hfirst] at h
          cases (Prog.Ends.of_ret h).1
      | some first =>
          rw [hfirst] at h
          obtain ⟨rfl, -⟩ := h.pure_inv
          obtain ⟨hlt, -⟩ := List.getElem?_eq_some_iff.mp hfirst
          refine Or.inr ⟨hpos, h32, ?_⟩
          dsimp only
          omega
    · rw [if_neg hpos] at h
      cases (Prog.Ends.of_ret h).1
  · apply Or.inl (link_of_returns_readFields h)

/-- Every entry refers to no other or to one before it. -/
def AllReferBack (files : List FileInfo) : Prop :=
  ∀ i fi, files[i]? = some fi → RefersBack fi i

/-- Receiving one entry more keeps this. -/
theorem allReferBack_recvNext
    {protocol checksumLen : ℕ} {preserveUid preserveGid : Bool} {compatFlags : ℕ}
    {files : List FileInfo} (hfiles : AllReferBack files) {x : List FileInfo ⊕ List FileInfo}
    (h : Proc.Returns answer closed (recvNext protocol checksumLen preserveUid preserveGid
      compatFlags files : Session Reply _) w x w') :
  Sum.elim AllReferBack (· = files) x
  := by
  obtain ⟨xflags, w₁, -, h⟩ := h.bind_inv
  dsimp only at h
  split at h
  · obtain ⟨_, _, -, h⟩ := h.bind_inv
    obtain ⟨rfl, -⟩ := h.pure_inv
    rfl
  · obtain ⟨fi, w₂, hfi, h⟩ := h.bind_inv
    obtain ⟨rfl, -⟩ := h.pure_inv
    intro i d hd
    rcases lt_trichotomy i files.length with hlt | rfl | hgt
    · rw [List.getElem?_append_left hlt] at hd
      apply hfiles i d hd
    · rw [List.getElem?_concat_length] at hd
      cases hd
      apply refersBack_of_returns hfi
    · rw [List.getElem?_eq_none] at hd
      · cases hd
      · rw [List.length_append, List.length_singleton]
        omega

/-- What has been read until the list ends. -/
theorem allReferBack_of_returns
    {protocol checksumLen : ℕ} {preserveUid preserveGid : Bool} {compatFlags : ℕ}
    {files : List FileInfo}
    (h : Proc.Returns answer closed (Proc.loop (recvNext protocol checksumLen preserveUid
      preserveGid compatFlags) [] : Session Reply _) w files w') :
  AllReferBack files
  := by
  refine h.loop_keeps (J := AllReferBack) (Q := AllReferBack) ?_ ?_
  · intro files x w w' hfiles hx
    have hkeep := allReferBack_recvNext hfiles hx
    cases x with
    | inl files' => apply hkeep
    | inr files' =>
        rw [show files' = files from hkeep]
        apply hfiles
  · intro i fi hfi
    cases hfi

/-! ### References after the sort -/

/-- The sorted list of the files read: `order` has the place on the wire for each new place. -/
structure Resorted (files : List FileInfo) (flist : FileList) (order : List ℕ) : Prop where
  /-- Every entry of the wire occurs once. -/
  perm : order.Perm (List.range files.length)
  length : flist.files.length = files.length
  /-- An entry is, but for its reference, what was read at its place on the wire. -/
  entry : ∀ k old : ℕ, order[k]? = some old → ∃ fi d : FileInfo, files[old]? = some fi ∧
    flist.files[k]? = some d ∧ d = { fi with hardLinkFirstNdx := d.hardLinkFirstNdx }
  /-- A reference to a place on the wire is one to the new index of what was there. -/
  link : ∀ (k old : ℕ) (fi d : FileInfo), order[k]? = some old → files[old]? = some fi →
    flist.files[k]? = some d → 0 ≤ d.hardLinkFirstNdx → ∃ new target : ℕ,
      fi.hardLinkFirstNdx = flist.ndxStart + target ∧ order[new]? = some target ∧
      d.hardLinkFirstNdx = wrapI32 (flist.ndxStart + new) ∧
      (files.length ≤ 2147483648 → d.hardLinkFirstNdx = flist.ndxStart + new)

theorem perm_order
    (files : List FileInfo) :
  ((sortIndexed files).map Prod.snd).Perm (List.range files.length)
  := by
  have hperm := (List.mergeSort_perm files.zipIdx fun a b => fileLe a.1 b.1).map Prod.snd
  rw [List.zipIdx_map_snd, ← List.range_eq_range'] at hperm
  apply hperm

theorem length_sortIndexed
    (files : List FileInfo) :
  (sortIndexed files).length = files.length
  := by
  rw [sortIndexed, List.length_mergeSort, List.length_zipIdx]

/-- What is sorted is what was read, with the places. -/
theorem getElem?_of_mem_sortIndexed
    {files : List FileInfo} {entry : FileInfo × ℕ} (h : entry ∈ sortIndexed files) :
  files[entry.2]? = some entry.1
  := by
  have hmem := List.mem_mergeSort.mp h
  apply List.mk_mem_zipIdx_iff_getElem?.mp hmem

/-- The new place of a file is where the sorted list has the file. -/
theorem getElem?_oldToNew
    {files : List FileInfo} {old : ℕ} (hold : old < files.length) :
  ((sortIndexed files).map Prod.snd)[oldToNew files old]? = some old
  := by
  have hmem : old ∈ (sortIndexed files).map Prod.snd := by
    rw [(perm_order files).mem_iff]
    apply List.mem_range.mpr hold
  obtain ⟨entry, hentry, heq⟩ := List.mem_map.mp hmem
  unfold oldToNew
  have hlt : (sortIndexed files).findIdx (fun entry => entry.2 = old) <
      (sortIndexed files).length := by
    apply List.findIdx_lt_length_of_exists
    use entry, hentry
    simp [heq]
  have hfound := List.findIdx_getElem (w := hlt)
  rw [List.getElem?_map, List.getElem?_eq_getElem hlt, Option.map_some]
  simpa using hfound

theorem oldToNew_lt
    {files : List FileInfo} {old : ℕ} (hold : old < files.length) :
  oldToNew files old < files.length
  := by
  obtain ⟨hlt, -⟩ := List.getElem?_eq_some_iff.mp (getElem?_oldToNew hold)
  rw [List.length_map, length_sortIndexed] at hlt
  apply hlt

/-- The reference of an entry, at its new place. -/
theorem link_remapHardLink
    {files : List FileInfo} {fi : FileInfo} {i : ℕ} (hback : RefersBack fi i)
    (hi : i < files.length) (hlink : 0 ≤ (remapHardLink files 0 fi).hardLinkFirstNdx) :
  ∃ target : ℕ, target < files.length ∧ fi.hardLinkFirstNdx = target ∧
    (remapHardLink files 0 fi).hardLinkFirstNdx = wrapI32 (oldToNew files target)
  := by
  rcases hback with hnone | ⟨hpos, h32, hlt⟩
  · have hneg : ¬ (0 ≤ fi.hardLinkFirstNdx ∧
        asUsize (wrapI32 (fi.hardLinkFirstNdx - 0)) < files.length) := by
      rintro ⟨h, -⟩
      omega
    rw [remapHardLink, if_neg hneg] at hlink
    omega
  · have hnat : asUsize (wrapI32 (fi.hardLinkFirstNdx - 0)) = fi.hardLinkFirstNdx.toNat := by
      have := h32.2
      rw [sub_zero, wrapI32_of_isI32 h32]
      apply asUsize_of_nonneg hpos (by omega)
    have hin : fi.hardLinkFirstNdx.toNat < files.length := by omega
    refine ⟨fi.hardLinkFirstNdx.toNat, hin, (Int.toNat_of_nonneg hpos).symm, ?_⟩
    rw [remapHardLink, hnat, if_pos ⟨hpos, hin⟩]
    dsimp only
    rw [add_zero, wrapI32_of_isI32 (isI32_wrapI32 _)]

/-- The references of the files read follow their targets. -/
theorem resorted_sortReceived
    {files : List FileInfo} (hfiles : AllReferBack files) :
  Resorted files (sortReceived files) ((sortIndexed files).map Prod.snd)
  := by
  have hget : ∀ k old : ℕ, ((sortIndexed files).map Prod.snd)[k]? = some old → ∃ fi,
      files[old]? = some fi ∧ (sortReceived files).files[k]? = some (remapHardLink files 0 fi) := by
    intro k old hk
    rw [List.getElem?_map, Option.map_eq_some_iff] at hk
    obtain ⟨entry, hentry, rfl⟩ := hk
    use entry.1, getElem?_of_mem_sortIndexed (List.mem_of_getElem? hentry)
    rw [sortReceived, List.getElem?_map, hentry]
    rfl
  refine ⟨perm_order files, ?_, ?_, ?_⟩
  · rw [sortReceived, List.length_map, length_sortIndexed]
  · intro k old hk
    obtain ⟨fi, hfi, hd⟩ := hget k old hk
    use fi, remapHardLink files 0 fi, hfi, hd
    unfold remapHardLink
    split <;> rfl
  · intro k old fi d hk hfi hd hlink
    obtain ⟨fi', hfi', hd'⟩ := hget k old hk
    cases hfi.symm.trans hfi'
    cases hd.symm.trans hd'
    obtain ⟨hold, -⟩ := List.getElem?_eq_some_iff.mp hfi
    obtain ⟨target, htarget, heq, hnew⟩ := link_remapHardLink (hfiles old fi hfi) hold hlink
    have hstart : (sortReceived files).ndxStart = 0 := rfl
    rw [hstart]
    refine ⟨oldToNew files target, target, ?_, getElem?_oldToNew htarget, ?_, ?_⟩
    · rw [heq, zero_add]
    · rw [hnew, zero_add]
    · intro hshort
      have := oldToNew_lt htarget
      rw [hnew, zero_add]
      apply wrapI32_of_isI32
      constructor <;> omega

/-- Whatever list a receiver accepts, every entry of the wire occurs once in the sorted list, and
every reference is to the entry that was at the place referred to. -/
theorem references_follow
    {protocol checksumLen : ℕ} {preserveUid preserveGid : Bool} {compatFlags : ℕ}
    {flist : FileList}
    (h : Proc.Returns answer closed (recvFileListEx protocol checksumLen preserveUid preserveGid
      compatFlags : Session Reply FileList) w flist w') :
  ∃ files order,
    Proc.Returns answer closed (Proc.loop (recvNext protocol checksumLen preserveUid preserveGid
      compatFlags) [] : Session Reply _) w files w' ∧
    Resorted files flist order
  := by
  obtain ⟨files, w₁, hfiles, hret⟩ := h.bind_inv
  obtain ⟨rfl, rfl⟩ := hret.pure_inv
  use files, (sortIndexed files).map Prod.snd, hfiles
  apply resorted_sortReceived (allReferBack_of_returns hfiles)

/-- Two entries as they are on the wire: the second one refers to the first, and comes before it
in order. -/
def swappedPair : List FileInfo :=
  [{ name := [98], mode := 0o100644, hardLinkFirstNdx := -1 },
    { name := [97], mode := 0o100644, flags := flagHlinked, hardLinkFirstNdx := 0 }]

/-- A list whose second entry refers to the first, and comes before it in order. -/
theorem references_follow_swapped :
  ∃ files order,
    Proc.Returns noHost true (Proc.loop (recvNext 31 0 false false 0) [] :
        Session (fun _ => Unit) _)
      { host := (), input := [0x9A, 1, 98, 0, 0, 0, 0x04, 0x02, 1, 97, 0, 0], buffer := [],
        sent := [] } files { host := (), input := [], buffer := [], sent := [] } ∧
    Resorted files (sortReceived swappedPair) order
  := by
  have hread : Proc.Returns noHost true (Proc.loop (recvNext 31 0 false false 0) [] :
      Session (fun _ => Unit) _)
      { host := (), input := [0x9A, 1, 98, 0, 0, 0, 0x04, 0x02, 1, 97, 0, 0], buffer := [],
        sent := [] } swappedPair { host := (), input := [], buffer := [], sent := [] } :=
    Prog.ends_of_eval (n := 10) (by decide +kernel)
  apply references_follow
  apply hread.bind (f := fun files => pure (sortReceived files)) (Proc.returns_pure _ _)
