import RsyncRs.Flist.Misread

/-!
# Sorted lists are received as they were sent

A list of files, directories and symbolic links with names in ASCII reaches the receiver in
the same order, so that an index denotes the same file on both sides.
-/

variable {X : Type} {Reply : X → Type} {H : Type}
  {answer : H → (x : X) → Option (Reply x × H)}

/-- The entry `d` is the entry `fi` as far as it is sent. A symbolic link without a target is sent
with an empty one, and of other files no target is sent. -/
structure SameEntry (protocol checksumLen : ℕ) (preserve : Preserve) (fi d : FileInfo) : Prop
    where
  path : d.path = fi.path
  size : d.size = fi.size
  mode : d.mode = fi.mode
  linkTarget : d.linkTarget = if fi.isSymlink then some (targetOf fi) else none
  modtime : preserve.times = true → d.modtime = fi.modtime
  uid : preserve.uid = true → d.uid = fi.uid
  gid : preserve.gid = true → d.gid = fi.gid
  modNsec : protocol = 31 → d.modNsec = fi.modNsec
  checksum : fi.isRegular = true → 0 < checksumLen →
    d.checksum = some (paddedChecksum checksumLen fi.checksum)

/-- A string in ASCII may be cut everywhere. -/
theorem isCharBoundary_ascii
    {s : Name} (h : ∀ b ∈ s, b < 0x80) {i : ℕ} (hi : i ≤ s.length) :
  isCharBoundary s i = true
  := by
  unfold isCharBoundary
  split_ifs with h0 hlen
  · rfl
  · simpa using le_antisymm hi hlen
  · have hlt : i < s.length := by omega
    rw [List.getD_eq_getElem _ _ hlt]
    simp [h _ (List.getElem_mem hlt)]

/-- The entry is that of a regular file, a directory or a symbolic link. -/
def FileInfo.IsOrdinary (fi : FileInfo) : Prop :=
  fi.isRegular = true ∨ fi.isDir = true ∨ fi.isSymlink = true

instance
    (fi : FileInfo) :
  Decidable fi.IsOrdinary
  := inferInstanceAs (Decidable (_ ∨ _ ∨ _))

theorem FileInfo.IsOrdinary.not_expectsRdev
    {fi : FileInfo} (h : fi.IsOrdinary) (protocol : ℕ) :
  expectsRdev protocol fi.mode = false
  := by
  unfold FileInfo.IsOrdinary FileInfo.isRegular FileInfo.isDir FileInfo.isSymlink
    FileInfo.fileType at h
  unfold expectsRdev
  simp only [decide_eq_true_eq] at h
  rcases h with hk | hk | hk <;> simp [hk]

theorem FileInfo.IsOrdinary.not_sendsRdev
    {fi : FileInfo} (h : fi.IsOrdinary) (protocol : ℕ) (preserve : Preserve) :
  sendsRdev protocol preserve fi = false
  := by
  cases hs : sendsRdev protocol preserve fi with
  | false => rfl
  | true =>
      have he := expectsRdev_of_sendsRdev hs
      rw [h.not_expectsRdev] at he
      cases he

/-- An entry of a regular file, a directory or a symbolic link with a name in ASCII that has been
split, which is not linked to another entry. -/
@[mk_iff]
structure Sendable (fi : FileInfo) : Prop extends fi.Typed where
  kind : fi.IsOrdinary
  ascii : ∀ b ∈ fi.path, b < 0x80
  split : (fi.dirname, fi.name) = splitName fi.path
  alone : isHlinkMember fi = false

instance
    (fi : FileInfo) :
  Decidable (Sendable fi)
  :=
  letI := List.decidableBAll (fun b : UInt8 => b < 0x80) fi.path
  decidable_of_iff _ (sendable_iff fi).symm

/-- A path whose name has been split is put together again. -/
theorem Sendable.not_isRootChild
    {fi : FileInfo} (h : Sendable fi) :
  isRootChild fi.path = false
  := by
  have hname : (named fi.path).path = fi.path := by
    unfold named
    rw [← h.split]
    rfl
  exact not_isRootChild_of_path hname

theorem Sendable.entryOk
    {fi : FileInfo} (h : Sendable fi) {protocol : ℕ} {preserve : Preserve} {sent : List FileInfo}
    (hrest : fi.path.length - sameLen fi.path (prevName sent.getLast?) < 2147483648)
    (htarget : (targetOf fi).length < 2147483648)
    (htime : preserve.times = true → protocol < 30 → IsI32 fi.modtime) :
  EntryOk protocol preserve sent fi
  := by
  have hrefers : refers protocol fi = false := by
    simp [refers, h.alone]
  constructor
  · constructor
    · apply isCharBoundary_ascii h.ascii (sameLen_le _ _).2.1
    · apply hrest
    · apply h.not_isRootChild
  · intro _
    apply htime
  · intro _
    rw [FileInfo.IsOrdinary.not_sendsRdev h.kind, FileInfo.IsOrdinary.not_expectsRdev h.kind]
  · intro _ _
    apply htarget
  · intro hr
    rw [hrefers] at hr
    cases hr

theorem AgreesFully.sameEntry
    {fi d : FileInfo} {protocol checksumLen : ℕ} {preserve : Preserve}
    (h : AgreesFully protocol checksumLen preserve fi d) :
  SameEntry protocol checksumLen preserve fi d
  where
  path := h.path
  size := h.size
  mode := h.mode
  linkTarget := h.target
  modtime := h.modtime
  uid := h.uid
  gid := h.gid
  modNsec := fun hp => h.modNsec hp.ge
  checksum := by
    intro hreg hpos
    rw [h.checksum, if_pos ⟨hpos, hreg⟩]

theorem forall_split_singleton
    {α : Type} {P : List α → α → Prop} {a : α} (h : P [] a) :
  ∀ pre x post, [a] = pre ++ x :: post → P pre x
  := by
  intro pre x post heq
  cases pre with
  | nil =>
      cases heq
      exact h
  | cons p pre => simp at heq

/-- The entries of a list in order are received, and they stay in order. -/
theorem received_inOrder
    (answer : H → (x : X) → Option (Reply x × H)) {protocol checksumLen : ℕ}
    {preserve : Preserve} {files : List FileInfo} (compatFlags : ℕ) (hprotocol : 30 ≤ protocol)
    (hsendable : ∀ fi ∈ files, Sendable fi) (hlen : checksumLen < 9223372036854775808)
    (hrest : ∀ pre fi post, files = pre ++ fi :: post →
      fi.path.length - sameLen fi.path (prevName pre.getLast?) < 2147483648)
    (htarget : ∀ fi ∈ files, (targetOf fi).length < 2147483648)
    (hsorted : files.Pairwise (fileLe · ·)) :
  Received answer protocol checksumLen preserve compatFlags files
      (receivedFiles protocol checksumLen preserve compatFlags files) ∧
    List.Forall₂ (AgreesFully protocol checksumLen preserve) files
      (receivedFiles protocol checksumLen preserve compatFlags files) ∧
    (sortReceived (receivedFiles protocol checksumLen preserve compatFlags files)).files =
      receivedFiles protocol checksumLen preserve compatFlags files
  := by
  have hmem : ∀ {pre fi post}, files = pre ++ fi :: post → fi ∈ files := by
    intro pre fi post hfiles
    rw [hfiles]
    simp
  have hok : ∀ pre fi post, files = pre ++ fi :: post → EntryOk protocol preserve pre fi := by
    intro pre fi post hfiles
    apply (hsendable fi (hmem hfiles)).entryOk (hrest pre fi post hfiles)
    · apply htarget fi (hmem hfiles)
    · omega
  have hreceives : Received answer protocol checksumLen preserve compatFlags files
        (receivedFiles protocol checksumLen preserve compatFlags files) ∧
      List.Forall₂ (AgreesFully protocol checksumLen preserve) files
        (receivedFiles protocol checksumLen preserve compatFlags files) := by
    apply received_receivedFiles (fun p q h => h.toAgrees)
    · intro pre pre' fi post hfiles hrel
      apply agreesFully_receivedEntry (hrel.imp fun _ _ h => h.agreesOwned) (hok pre fi post hfiles)
      simp [refers, (hsendable fi (hmem hfiles)).alone]
    · intro fi hfi
      apply (hsendable fi hfi).toTyped
    · apply hok
    · intro _ _ _ _ _ hp
      omega
    · apply hlen
  obtain ⟨hreceived, hrel⟩ := hreceives
  refine ⟨hreceived, hrel, sortReceived_of_pairwise ?_ ?_⟩
  · apply pairwise_of_named (hrel.imp fun _ _ h => ⟨h.name, h.mode⟩) _ hsorted
    intro fi hfi
    apply (hsendable fi hfi).split
  · intro d hd
    rw [link_of_agreesFully hrel d hd]
    decide

theorem received_sendable
    (answer : H → (x : X) → Option (Reply x × H)) {protocol checksumLen : ℕ}
    {preserve : Preserve} {files : List FileInfo} (compatFlags : ℕ) (hprotocol : 30 ≤ protocol)
    (hsendable : ∀ fi ∈ files, Sendable fi) (hlen : checksumLen < 9223372036854775808)
    (hrest : ∀ pre fi post, files = pre ++ fi :: post →
      fi.path.length - sameLen fi.path (prevName pre.getLast?) < 2147483648)
    (htarget : ∀ fi ∈ files, (targetOf fi).length < 2147483648)
    (hsorted : files.Pairwise (fileLe · ·)) :
  ∃ received, Received answer protocol checksumLen preserve compatFlags files received ∧
    List.Forall₂ (AgreesFully protocol checksumLen preserve) files received ∧
    (sortReceived received).files = received
  := ⟨_, received_inOrder answer compatFlags hprotocol hsendable hlen hrest htarget hsorted⟩

/-- A sorted list of files, directories and symbolic links is received as it was sent, and in
the same order. -/
theorem flist_round_trip
    (answer : H → (x : X) → Option (Reply x × H)) (protocol checksumLen : ℕ)
    (preserve : Preserve) (compatFlags : ℕ) (ioError : ℤ) (flist : FileList)
    (hprotocol : protocol = 30 ∨ protocol = 31) (hio : IsI32 ioError)
    (hsendable : ∀ fi ∈ flist.files, Sendable fi) (hlen : checksumLen < 9223372036854775808)
    (hrest : ∀ pre fi post, (flistSort flist).files = pre ++ fi :: post →
      fi.path.length - sameLen fi.path (prevName pre.getLast?) < 2147483648)
    (htarget : ∀ fi ∈ flist.files, (targetOf fi).length < 2147483648) :
  ∃ d : FileList, Proc.Carries answer
      (sendFileListEx (flistSort flist) protocol checksumLen ioError preserve compatFlags :
        Session Reply Unit) ()
      (recvFileListEx protocol checksumLen preserve.uid preserve.gid compatFlags) d ∧
    List.Forall₂ (SameEntry protocol checksumLen preserve) (flistSort flist).files d.files
  := by
  obtain ⟨received, hreceived, hrel, hfiles⟩ := received_sendable answer compatFlags
    (by omega : 30 ≤ protocol) (fun fi hfi => hsendable fi (List.mem_mergeSort.mp hfi)) hlen hrest
    (fun fi hfi => htarget fi (List.mem_mergeSort.mp hfi)) (pairwise_flistSort flist)
  refine ⟨_, carries_list (sendOrder_flistSort flist) hreceived hio (by omega), ?_⟩
  rw [hfiles]
  exact hrel.imp fun _ _ h => h.sameEntry

/-! ### Examples -/

theorem fileType_entryNamed
    (name : Name) :
  (entryNamed name 0o100644).fileType = .regular
  := show FileType.fromMode 0o100644 = .regular by decide

theorem sendable_entryNamed
    {name : Name} {mode : ℕ} (hascii : ∀ b ∈ name, b < 0x80) (hsep : sep ∉ name)
    (hmode : mode < 4294967296) (hkind : (entryNamed name mode).IsOrdinary) :
  Sendable (entryNamed name mode)
  where
  toTyped := typed_entryNamed (isUtf8_ascii hascii) hmode
  kind := hkind
  ascii := hascii
  split := (if_neg hsep).symm
  alone := by
    simp [isHlinkMember, entryNamed, hasFlag]

theorem sendable_fileNamed
    {name : Name} (hascii : ∀ b ∈ name, b < 0x80) (hsep : sep ∉ name) :
  Sendable (entryNamed name 0o100644)
  := sendable_entryNamed hascii hsep (by decide) (.inl (decide_eq_true (fileType_entryNamed name)))

/-- A directory with two files, whose names start alike, and two links, one of which has lost its
target. -/
def sharedNames : List FileInfo :=
  [{ name := bytesOf "d", mode := 0o040755, modtime := 1700000000 },
   { dirname := bytesOf "d", name := bytesOf "ab", size := 3, mode := 0o100644,
     modtime := 1700000000, uid := 1000, gid := 1000, checksum := some [1, 2, 3] },
   { dirname := bytesOf "d", name := bytesOf "abc", size := 5, mode := 0o100600, modtime := -1,
     modNsec := 250000000, uid := 1000 },
   { dirname := bytesOf "d", name := bytesOf "abd", mode := 0o120777,
     linkTarget := some (bytesOf "ab") },
   { dirname := bytesOf "d", name := bytesOf "l", mode := 0o120777 }]

theorem sendable_sharedNames :
  ∀ fi ∈ sharedNames, Sendable fi
  := by
  decide +kernel

/-- What is sent of the names of a list is no longer than its paths. -/
theorem rest_lt_of_paths
    {files : List FileInfo} {bound : ℕ} (h : ∀ fi ∈ files, fi.path.length < bound) :
  ∀ pre fi post, (flistSort { files }).files = pre ++ fi :: post →
    fi.path.length - sameLen fi.path (prevName pre.getLast?) < bound
  := by
  intro pre fi post hfiles
  have hmem : fi ∈ (flistSort { files }).files := by
    rw [hfiles]
    simp
  exact lt_of_le_of_lt (Nat.sub_le _ _) (h fi (List.mem_mergeSort.mp hmem))

theorem paths_sharedNames :
  ∀ fi ∈ sharedNames, fi.path.length < 2147483648
  := by
  decide +kernel

theorem targets_sharedNames :
  ∀ fi ∈ sharedNames, (targetOf fi).length < 2147483648
  := by
  decide +kernel

/-- A list of one file. -/
def oneFile (name : Name) : FileList :=
  { files := [entryNamed name 0o100644] }

theorem files_flistSort_oneFile
    (name : Name) :
  (flistSort (oneFile name)).files = [entryNamed name 0o100644]
  := List.mergeSort_singleton _

theorem flist_round_trip_sharedNames :
  ∃ d : FileList, Proc.Carries noHost
      (sendFileListEx (flistSort { files := sharedNames }) 31 16 0 { times := true, uid := true }
        128 : Session (fun _ => Unit) Unit) ()
      (recvFileListEx 31 16 true false 128) d ∧
    List.Forall₂ (SameEntry 31 16 { times := true, uid := true })
      (flistSort { files := sharedNames }).files d.files
  := flist_round_trip noHost 31 16 { times := true, uid := true } 128 0 _ (.inr rfl) (by decide)
      sendable_sharedNames (by decide) (rest_lt_of_paths paths_sharedNames)
      targets_sharedNames

/-- The receiver panics on an entry that comes first and whose name is too long. -/
theorem rejects_longName
    {fi : FileInfo} (hlong : 9223372036854775808 ≤ restLenRead fi.path.length)
    (checksumLen : ℕ) (preserve : Preserve) (compatFlags : ℕ) {flags : List UInt8}
    (hflags : Proc.Writes noHost (writeXflags (hasFlag compatFlags cfVarintFlistFlags)
      (sentFlags 31 preserve (hasFlag compatFlags cfVarintFlistFlags) none fi) :
        Session (fun _ => Unit) Unit) flags ()) :
  Proc.Rejects noHost
    (recvNext 31 checksumLen false false compatFlags [] :
      Session (fun _ => Unit) (List FileInfo ⊕ List FileInfo))
    (flags ++ encodeName none fi) (.panic "capacity overflow")
  := by
  have hlt := entryFlags_lt 31 preserve none fi (sameLen fi.path (prevName none))
    (fi.path.length - sameLen fi.path (prevName none))
  have hsame : sameLen fi.path (prevName none) = 0 := by
    simp [sameLen, prevName]
  unfold recvNext
  generalize hasFlag compatFlags cfVarintFlistFlags = varintFlags at hflags ⊢
  have hshort := hasFlag_sameName 31 preserve varintFlags none fi
  have hlen := hasFlag_longName 31 preserve varintFlags none fi
  obtain ⟨flags', hflags', hread⟩ : Proc.Carries noHost
      (writeXflags varintFlags (sentFlags 31 preserve varintFlags none fi) :
        Session (fun _ => Unit) Unit) ()
      (readXflags 31 varintFlags) (sentFlags 31 preserve varintFlags none fi) := by
    apply carries_xflags varintFlags fi.isDir hlt (wireFlags_ne_endlist _ _ _ _ _ _ _ _)
    omega
  have hne : sentFlags 31 preserve varintFlags none fi ≠ 0 := wireFlags_ne_zero _ _ _
  rw [hflags.unique () hflags']
  apply hread.bind_rejects
  rw [if_neg hne]
  unfold recvFileEntryInner
  apply Proc.Rejects.bind
  apply Proc.Rejects.bind
  unfold encodeName
  rw [hsame] at hshort hlen ⊢
  rw [Nat.sub_zero] at hlen ⊢
  apply rejects_readName hshort hlen (by decide) (by decide) _ hlong

/-- A list of one file whose name is too long is sent, but the receiver panics. -/
theorem rejects_list_longName
    {name : Name} (hlong : 9223372036854775808 ≤ restLenRead name.length) (checksumLen : ℕ)
    (preserve : Preserve) (compatFlags : ℕ) :
  ∃ bs rest, Proc.Writes noHost
      (sendFileListEx (flistSort (oneFile name)) 31 checksumLen 0 preserve compatFlags :
        Session (fun _ => Unit) Unit) (bs ++ rest) () ∧
    Proc.Rejects noHost
      (recvFileListEx 31 checksumLen false false compatFlags :
        Session (fun _ => Unit) FileList) bs (.panic "capacity overflow")
  := by
  have hb : isCharBoundary (entryNamed name 0o100644).path
      (sameLen (entryNamed name 0o100644).path (prevName none)) = true := by
    simp [sameLen, prevName, isCharBoundary]
  obtain ⟨flags, fields, hflags, -, hsend⟩ := writes_sendFileEntry noHost 31 checksumLen preserve
    (hasFlag compatFlags cfVarintFlistFlags) hb
  obtain ⟨cs, hend, -⟩ : Proc.Carries noHost
      (do
        sendEndOfList 31 (hasFlag compatFlags cfVarintFlistFlags) 0
        sendTrailer 31 preserve (hasFlag compatFlags cfIncRecurse) 0 :
        Session (fun _ => Unit) Unit) ()
      (recvNext 31 checksumLen preserve.uid preserve.gid compatFlags []) (.inr []) :=
    carries_end checksumLen (by decide) (.inr (.inl (by decide))) []
  have hone : Proc.Writes noHost
      (Proc.forEach (sendNext 31 checksumLen preserve (hasFlag compatFlags cfVarintFlistFlags))
        none [entryNamed name 0o100644] : Session (fun _ => Unit) (Option FileInfo))
      (flags ++ (encodeName none (entryNamed name 0o100644) ++ fields))
      (some (entryNamed name 0o100644)) := by
    rw [Proc.forEach, ← List.append_nil (flags ++ _)]
    apply Proc.Writes.bind (hsend.map fun _ => some _)
    apply Proc.writes_pure
  refine ⟨flags ++ encodeName none (entryNamed name 0o100644), fields ++ cs, ?_, ?_⟩
  · unfold sendFileListEx
    dsimp only
    rw [lift_bind (sendOrder_flistSort _), files_flistSort_oneFile, List.append_assoc,
      ← List.append_assoc _ fields, ← List.append_assoc flags]
    apply hone.bind hend
  · have hlong' : 9223372036854775808 ≤ restLenRead (entryNamed name 0o100644).path.length := hlong
    have hrejects := rejects_longName hlong' checksumLen preserve compatFlags hflags
    exact (Proc.rejects_loop hrejects).bind

/-- A list of one file whose name is too long is not received. -/
theorem not_carries_longName
    {name : Name} (hlong : 9223372036854775808 ≤ restLenRead name.length) (d : FileList) :
  ¬ Proc.Carries noHost
    (sendFileListEx (flistSort (oneFile name)) 31 0 0 {} 0 : Session (fun _ => Unit) Unit) ()
    (recvFileListEx 31 0 false false 0) d
  := by
  rintro ⟨bs, hwrites, hreads⟩
  obtain ⟨cs, rest, hlist, hrejects⟩ := rejects_list_longName hlong 0 {} 0
  rw [hwrites.unique () hlist] at hreads
  exact hrejects.not_reads_append () hreads

/-- A name of two gigabytes. -/
def longName : Name :=
  List.replicate 2147483648 0x61

theorem ascii_longName :
  ∀ b ∈ longName, b < 0x80
  := by
  intro b hb
  rw [List.eq_of_mem_replicate hb]
  decide

theorem sep_not_mem_longName :
  sep ∉ longName
  := by
  intro hsep
  cases List.eq_of_mem_replicate hsep

theorem restLenRead_longName :
  9223372036854775808 ≤ restLenRead longName.length
  := by
  rw [longName, List.length_replicate, restLenRead, if_pos (by omega)]
  unfold asUsize wrapI32
  omega

/-- A link whose target is not known. -/
def lostLink : FileInfo :=
  entryNamed (bytesOf "l") 0o120777

theorem sendable_lostLink :
  Sendable lostLink
  := sendable_entryNamed (by decide +kernel) (by decide) (by decide) (.inr (.inr (by decide)))

/-- A list is received in one way. -/
theorem unique_of_carries
    {s : Session (fun _ => Unit) Unit} {r : Session (fun _ => Unit) FileList} {d d' : FileList}
    (h : Proc.Carries noHost s () r d) (h' : Proc.Carries noHost s () r d') :
  d = d'
  := by
  obtain ⟨bs, hwrites, hreads⟩ := h
  obtain ⟨bs', hwrites', hreads'⟩ := h'
  rw [hwrites'.unique () hwrites] at hreads'
  exact (hreads.unique () hreads' (rfl : bs ++ [] = bs ++ [])).1

/-- A link whose target is not known is received with an empty target. -/
theorem not_keeps_lostLink :
  ¬ ∃ d : FileList, Proc.Carries noHost
      (sendFileListEx (flistSort { files := [lostLink] }) 31 0 0 {} 0 :
        Session (fun _ => Unit) Unit) ()
      (recvFileListEx 31 0 false false 0) d ∧
    List.Forall₂ (fun fi d => d.linkTarget = fi.linkTarget)
      (flistSort { files := [lostLink] }).files d.files
  := by
  rintro ⟨d, hcarries, hkept⟩
  have hfiles : (flistSort { files := [lostLink] }).files = [lostLink] := List.mergeSort_singleton _
  obtain ⟨received, hreceived, hrel, hsorted⟩ : ∃ received,
      Received noHost 31 0 {} 0 [lostLink] received ∧
      List.Forall₂ (AgreesFully 31 0 {}) [lostLink] received ∧
      (sortReceived received).files = received := by
    apply received_sendable
    · decide
    · exact fun fi hfi => List.mem_singleton.mp hfi ▸ sendable_lostLink
    · decide
    · have hpaths : ∀ fi ∈ [lostLink], fi.path.length < 2147483648 := by
        decide
      rw [← hfiles]
      exact rest_lt_of_paths hpaths
    · decide
    · exact List.pairwise_singleton _ _
  rw [← hfiles] at hreceived
  have hsame := unique_of_carries hcarries
    (carries_list (sendOrder_flistSort _) hreceived (by decide) (.inr (.inl (by decide))))
  rw [hsame, hsorted, hfiles] at hkept
  -- the one entry of the list has no target and an empty one
  cases hkept with
  | cons hnone _ =>
      cases hrel with
      | cons hempty _ =>
          rw [hempty.target] at hnone
          cases hnone

/-- A link whose target is not known is received with an empty one, and a file whose name has two
gigabytes is sent, but it is not received. -/
theorem flist_not_round_trip :
  (Sendable lostLink ∧
    ¬ ∃ d : FileList, Proc.Carries noHost
        (sendFileListEx (flistSort { files := [lostLink] }) 31 0 0 {} 0 :
          Session (fun _ => Unit) Unit) ()
        (recvFileListEx 31 0 false false 0) d ∧
      List.Forall₂ (fun fi d => d.linkTarget = fi.linkTarget)
        (flistSort { files := [lostLink] }).files d.files) ∧
  Sendable (entryNamed (List.replicate 2147483648 0x61) 0o100644) ∧
    ∀ d : FileList, ¬ Proc.Carries noHost
      (sendFileListEx (flistSort (oneFile (List.replicate 2147483648 0x61))) 31 0 0 {} 0 :
        Session (fun _ => Unit) Unit) ()
      (recvFileListEx 31 0 false false 0) d
  := ⟨⟨sendable_lostLink, not_keeps_lostLink⟩,
      sendable_fileNamed ascii_longName sep_not_mem_longName,
      not_carries_longName restLenRead_longName⟩
