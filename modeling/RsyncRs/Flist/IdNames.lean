import Mathlib.Data.List.AList
import RsyncRs.Flist.Transfer
import RsyncRs.Io.Marked

/-!
# The names of owners and of groups

A list of names is sent in the order of their numbers, each as a number, a length of one byte
and at most 255 bytes; the number zero ends the list. A name that is cut inside a character
does not arrive as a part of the name.
-/

/-- A name, as the bytes of a string. -/
abbrev IdName : Type :=
  { bs : List UInt8 // isUtf8 bs = true }

/-- Names by the numbers of their owners or groups. -/
abbrev IdNames : Type :=
  AList fun _ : UInt32 => IdName

/-- The string of some bytes. -/
def IdName.ofLossy (bs : List UInt8) : IdName :=
  ⟨fromUtf8Lossy bs, isUtf8_fromUtf8Lossy bs⟩

variable {H X : Type} {Reply : X → Type} {answer : H → (x : X) → Option (Reply x × H)}

/-! ### Sending and receiving -/

/-- The entries in the order of their numbers. -/
def sortedEntries (map : IdNames) : List (Σ _ : UInt32, IdName) :=
  map.entries.mergeSort fun e e' => e.1 ≤ e'.1

/-- Send an entry, unless its number is the one that ends the list. -/
def sendIdEntry (_ : Unit) (e : Σ _ : UInt32, IdName) : Session Reply Unit :=
  if e.1 = 0 then
    pure ()
  else do
    let len := min e.2.val.length 255
    writeVarint (wrapI32 e.1.toNat)
    writeByte (UInt8.ofNat len)
    if 0 < len then writeAll (e.2.val.take len) else pure ()

/-- Send the entries and the mark that ends them. -/
def sendMap (map : IdNames) : Session Reply Unit := do
  Proc.forEach sendIdEntry () (sortedEntries map)
  writeVarint 0

/-- Receive an entry, unless the list ends. -/
def recvMapEntry (map : IdNames) : Session Reply (IdNames ⊕ IdNames) := do
  let id ← readVarint
  if id = 0 then
    pure (.inr map)
  else
    let len ← readByte
    let buf ← recvName len.toNat
    pure (.inl (map.insert (UInt32.ofNat (asU32 id)) (IdName.ofLossy buf)))
where
  /-- Read the bytes of a name. -/
  recvName (len : ℕ) : Session Reply (List UInt8) :=
    if 0 < len then readBytes len else pure []

/-- Receive entries until the list ends. -/
def recvMap (map : IdNames) : Session Reply IdNames :=
  Proc.loop recvMapEntry map

/-! ### The bytes of a list -/

/-- The bytes of an entry. -/
def encodeIdEntry (e : Σ _ : UInt32, IdName) : List UInt8 :=
  if e.1 = 0 then
    []
  else
    encodeVarint (wrapI32 e.1.toNat) ++
      UInt8.ofNat (min e.2.val.length 255) :: e.2.val.take 255

theorem take_min_length
    (bs : List UInt8) (n : ℕ) :
  bs.take (min bs.length n) = bs.take n
  := by
  rw [Nat.min_comm, ← List.take_take, List.take_length]

theorem writes_sendIdEntry
    (e : Σ _ : UInt32, IdName) :
  Proc.Writes answer (sendIdEntry () e : Session Reply Unit) (encodeIdEntry e) ()
  := by
  unfold sendIdEntry encodeIdEntry
  split_ifs with h
  · apply Proc.writes_pure
  · apply (writes_writeVarint _).bind
    rw [← List.singleton_append]
    apply Proc.Writes.bind (writes_writeAll _)
    rw [take_min_length]
    split
    · apply writes_writeAll
    · have hzero : min e.2.val.length 255 = 0 := by omega
      rw [← take_min_length, hzero]
      apply Proc.writes_pure

theorem writes_entries
    (es : List (Σ _ : UInt32, IdName)) :
  Proc.Writes answer (Proc.forEach sendIdEntry () es : Session Reply Unit)
    (es.flatMap encodeIdEntry) ()
  := by
  induction es with
  | nil => apply Proc.writes_pure
  | cons e es ih => apply (writes_sendIdEntry e).bind ih

theorem writes_sendMap
    (map : IdNames) :
  Proc.Writes answer (sendMap map : Session Reply Unit)
    ((sortedEntries map).flatMap encodeIdEntry ++ encodeVarint 0) ()
  := (writes_entries _).bind (writes_writeVarint 0)

/-! ### What is received -/

/-- The name that arrives. -/
def IdName.received (name : IdName) : IdName :=
  IdName.ofLossy (name.val.take 255)

/-- The map after an entry has arrived. -/
def receiveName (map : IdNames) (e : Σ _ : UInt32, IdName) : IdNames :=
  if e.1 = 0 then map else map.insert e.1 e.2.received

theorem wrapI32_toNat_ne_zero
    {id : UInt32} (h : id ≠ 0) :
  wrapI32 id.toNat ≠ 0
  := by
  have hlt := id.toNat_lt
  have hne : id.toNat ≠ 0 := by
    intro hzero
    exact h (UInt32.toNat_inj.mp hzero)
  unfold wrapI32
  omega

theorem ofNat_asU32_wrapI32
    (id : UInt32) :
  UInt32.ofNat (asU32 (wrapI32 id.toNat)) = id
  := by
  have hlt := id.toNat_lt
  have hid : asU32 (wrapI32 id.toNat) = id.toNat := by
    unfold asU32 wrapI32
    omega
  rw [hid, UInt32.ofNat_toNat]

theorem toNat_ofNat_min
    (n : ℕ) :
  (UInt8.ofNat (min n 255)).toNat = min n 255
  := by
  apply UInt8.toNat_ofNat_of_lt'
  unfold UInt8.size
  omega

/-- What is sent for an entry is received as that entry. -/
theorem reads_recvMapEntry
    {e : Σ _ : UInt32, IdName} (h : e.1 ≠ 0) (map : IdNames) :
  Proc.Reads answer (recvMapEntry map : Session Reply _) (encodeIdEntry e)
    (.inl (map.insert e.1 e.2.received))
  := by
  rw [encodeIdEntry, if_neg h]
  apply (reads_readVarint (isI32_wrapI32 _)).bind
  rw [if_neg (wrapI32_toNat_ne_zero h)]
  apply reads_readByte_bind
  rw [toNat_ofNat_min]
  have hname : Proc.Reads answer
      (recvMapEntry.recvName (min e.2.val.length 255) : Session Reply _)
      (e.2.val.take 255) (e.2.val.take 255) := by
    unfold recvMapEntry.recvName
    split
    · apply reads_readBytes
      rw [List.length_take, Nat.min_comm]
    · have hzero : min e.2.val.length 255 = 0 := by omega
      rw [← take_min_length, hzero]
      apply Proc.reads_pure
  apply hname.map_eq
  rw [ofNat_asU32_wrapI32]
  rfl

/-- What is sent for an entry is skipped where the names are not kept. -/
theorem reads_recvIdEntry
    {e : Σ _ : UInt32, IdName} (h : e.1 ≠ 0) :
  Proc.Reads answer (recvIdEntry () : Session Reply _) (encodeIdEntry e) (.inl ())
  := by
  have hid : asU32 (wrapI32 e.1.toNat) ≠ 0 := by
    have hne := wrapI32_toNat_ne_zero h
    have hrange := isI32_wrapI32 e.1.toNat
    unfold IsI32 at hrange
    unfold asU32
    omega
  rw [encodeIdEntry, if_neg h]
  apply (reads_readVarint (isI32_wrapI32 _)).bind
  rw [if_neg hid]
  apply Proc.Reads.map
  apply reads_readByte_bind
  apply Proc.Reads.map
  apply reads_readBytes
  rw [toNat_ofNat_min, List.length_take, Nat.min_comm]

theorem reads_entries
    (es : List (Σ _ : UInt32, IdName)) (map : IdNames) :
  Proc.Reads answer (recvMap map : Session Reply IdNames)
    (es.flatMap encodeIdEntry ++ encodeVarint 0) (es.foldl receiveName map)
  := by
  induction es generalizing map with
  | nil =>
      rw [List.flatMap_nil, List.nil_append]
      apply Proc.reads_loop_done
      apply (reads_readVarint (by decide)).bind_nil
      apply Proc.reads_pure
  | cons e es ih =>
      rw [List.flatMap_cons, List.append_assoc, List.foldl_cons]
      by_cases h : e.1 = 0
      · rw [encodeIdEntry, if_pos h, receiveName, if_pos h, List.nil_append]
        apply ih
      · rw [receiveName, if_neg h]
        apply Proc.reads_loop_again (reads_recvMapEntry h map)
        apply ih

theorem skips_entries
    (es : List (Σ _ : UInt32, IdName)) :
  Proc.Reads answer (recvIdList true : Session Reply Unit)
    (es.flatMap encodeIdEntry ++ encodeVarint 0) ()
  := by
  induction es with
  | nil =>
      rw [List.flatMap_nil, List.nil_append]
      apply Proc.reads_loop_done
      apply (reads_readVarint (by decide)).bind_nil
      apply Proc.reads_pure
  | cons e es ih =>
      rw [List.flatMap_cons, List.append_assoc]
      by_cases h : e.1 = 0
      · rw [encodeIdEntry, if_pos h, List.nil_append]
        apply ih
      · apply Proc.reads_loop_again (reads_recvIdEntry h)
        apply ih

/-! ### The map that is received -/

theorem nodupKeys_sortedEntries
    (map : IdNames) :
  (sortedEntries map).NodupKeys
  := (List.perm_nodupKeys (List.mergeSort_perm _ _)).mpr map.nodupKeys

theorem dlookup_sortedEntries
    (map : IdNames) (id : UInt32) :
  (sortedEntries map).dlookup id = map.lookup id
  := List.perm_dlookup id (nodupKeys_sortedEntries map) (List.mergeSort_perm _ _)

theorem lookup_receiveName_ne
    {e : Σ _ : UInt32, IdName} {id : UInt32} (h : e.1 ≠ id ∨ id = 0) (map : IdNames) :
  (receiveName map e).lookup id = map.lookup id
  := by
  unfold receiveName
  split
  · rfl
  · next hne =>
    apply AList.lookup_insert_ne
    rintro rfl
    rcases h with h | h
    · exact h rfl
    · exact hne h

/-- Under a number other than zero is what arrived last, under zero what was there before. -/
theorem lookup_receiveNames
    {es : List (Σ _ : UInt32, IdName)} (hes : es.NodupKeys) (map : IdNames) (id : UInt32) :
  (es.foldl receiveName map).lookup id =
    if id = 0 then map.lookup id
    else ((es.dlookup id).map IdName.received).or (map.lookup id)
  := by
  induction es generalizing map with
  | nil => simp
  | cons e es ih =>
      obtain ⟨hnot, hnodup⟩ := List.nodupKeys_cons.mp hes
      obtain ⟨id', name⟩ := e
      rw [List.foldl_cons, ih hnodup]
      by_cases hid : id = 0
      · subst hid
        rw [if_pos rfl, if_pos rfl]
        apply lookup_receiveName_ne
        simp
      · rw [if_neg hid, if_neg hid]
        by_cases heq : id' = id
        · subst heq
          have hnone : es.dlookup id' = none := List.dlookup_eq_none.mpr hnot
          rw [hnone, List.dlookup_cons_eq, receiveName, if_neg hid, AList.lookup_insert]
          rfl
        · rw [List.dlookup_cons_ne _ _ (Ne.symm heq), lookup_receiveName_ne]
          exact Or.inl heq

/-- What is received is what was sent, under the same numbers except zero. -/
theorem lookup_received
    (map : IdNames) (id : UInt32) :
  ((sortedEntries map).foldl receiveName ∅).lookup id =
    if id = 0 then none else (map.lookup id).map IdName.received
  := by
  rw [lookup_receiveNames (nodupKeys_sortedEntries map), dlookup_sortedEntries]
  simp

/-! ### The round trip -/

/-- A short name arrives as it is, and a long one as its start. -/
def IdName.Arrives (name name' : IdName) : Prop :=
  (name.val.length ≤ 255 → name' = name) ∧
    (255 < name.val.length → name'.val <+: name.val ∧ name'.val.length ≤ 255)

/-- The list that is sent is received with the same numbers except zero and with the names as
they are to arrive, and the file list skips exactly the same bytes. -/
def IdNamesRoundTrip (map : IdNames) : Prop :=
  ∃ (bytes : List UInt8) (received : IdNames),
    Proc.Writes noHost (sendMap map : Session _ Unit) bytes () ∧
    Proc.Reads noHost (recvMap ∅ : Session _ IdNames) bytes received ∧
    Proc.Reads noHost (recvIdList true : Session _ Unit) bytes () ∧
    (∀ id, id ∈ received ↔ id ∈ map ∧ id ≠ 0) ∧
    ∀ id name, map.lookup id = some name → id ≠ 0 →
      ∃ name', received.lookup id = some name' ∧ name.Arrives name'

/-- Whatever the names are, the bytes of a list are read exactly by both readers, and the
numbers arrive. -/
theorem received_sendMap
    (map : IdNames) :
  ∃ (bytes : List UInt8) (received : IdNames),
    Proc.Writes answer (sendMap map : Session Reply Unit) bytes () ∧
    Proc.Reads answer (recvMap ∅ : Session Reply IdNames) bytes received ∧
    Proc.Reads answer (recvIdList true : Session Reply Unit) bytes () ∧
    ∀ id, received.lookup id =
      if id = 0 then none else (map.lookup id).map IdName.received
  := by
  refine ⟨_, _, writes_sendMap map, reads_entries _ ∅, skips_entries _, ?_⟩
  apply lookup_received

/-- A name arrives as it is to arrive exactly when it is not cut inside a character. -/
theorem IdName.arrives_received_iff
    (name : IdName) :
  name.Arrives name.received ↔
    (255 < name.val.length → isUtf8 (name.val.take 255) = true)
  := by
  constructor
  · intro h hlong
    obtain ⟨hstart, hlen⟩ := h.2 hlong
    apply isUtf8_of_lossy_prefix
    exact List.prefix_take_iff.mpr ⟨hstart, hlen⟩
  · intro h
    constructor
    · intro hshort
      apply Subtype.ext
      rw [IdName.received, IdName.ofLossy, List.take_of_length_le hshort]
      exact fromUtf8Lossy_of_isUtf8 name.property
    · intro hlong
      rw [IdName.received, IdName.ofLossy]
      dsimp only
      rw [fromUtf8Lossy_of_isUtf8 (h hlong)]
      refine ⟨List.take_prefix _ _, ?_⟩
      rw [List.length_take]
      omega

/-- No name is cut inside a character in a list that makes the round trip. -/
theorem IdNamesRoundTrip.not_cut
    {map : IdNames} (h : IdNamesRoundTrip map) {id : UInt32} {name : IdName}
    (hname : map.lookup id = some name) (hid : id ≠ 0) (hlong : 255 < name.val.length) :
  isUtf8 (name.val.take 255) = true
  := by
  obtain ⟨bytes, received, hwrites, hreads, -, -, hnames⟩ := h
  obtain ⟨bytes', received', hwrites', hreads', -, hlookup⟩ :=
    @received_sendMap _ _ _ noHost map
  have hbytes := hwrites.unique () hwrites'
  subst hbytes
  obtain ⟨rfl, -⟩ := hreads.unique () hreads' (rfl : bytes ++ [] = bytes ++ [])
  obtain ⟨name', hname', harrives⟩ := hnames id name hname hid
  rw [hlookup, if_neg hid, hname] at hname'
  cases hname'
  exact name.arrives_received_iff.mp harrives hlong

/-- A list of names makes the round trip exactly when no name that is sent is cut inside a
character. -/
theorem idNames_roundTrip_iff
    (map : IdNames) :
  IdNamesRoundTrip map ↔
    ∀ id name, map.lookup id = some name → id ≠ 0 → 255 < name.val.length →
      isUtf8 (name.val.take 255) = true
  := by
  constructor
  · intro h id name hname hid hlong
    exact h.not_cut hname hid hlong
  · intro h
    obtain ⟨bytes, received, hwrites, hreads, hskips, hlookup⟩ :=
      @received_sendMap _ _ _ noHost map
    refine ⟨bytes, received, hwrites, hreads, hskips, ?_, ?_⟩
    · intro id
      rw [← AList.lookup_isSome, hlookup, ← AList.lookup_isSome]
      by_cases hid : id = 0
      · simp [hid]
      · simp [hid]
    · intro id name hname hid
      refine ⟨name.received, ?_, name.arrives_received_iff.mpr (h id name hname hid)⟩
      rw [hlookup, if_neg hid, hname]
      rfl

/-- A name of 256 bytes whose last character is cut. -/
def cutName : IdName :=
  ⟨List.replicate 253 0x78 ++ 0x78 :: [0xC3, 0xA9], by
    have hpart : utf8Part 0xC3 [0xA9] = (1, true) := rfl
    rw [isUtf8_append _ (by decide), isUtf8_ascii]
    · simp [isUtf8, hpart]
    · intro b hb
      rw [List.eq_of_mem_replicate hb]
      decide⟩

/-- The list that names one user `cutName` does not make the round trip. -/
theorem not_idNames_roundTrip :
  ¬ IdNamesRoundTrip ((∅ : IdNames).insert 42 cutName)
  := by
  intro h
  have hval : cutName.val = List.replicate 253 0x78 ++ 0x78 :: [0xC3, 0xA9] := rfl
  have hname : ((∅ : IdNames).insert 42 cutName).lookup 42 = some cutName :=
    AList.lookup_insert _
  have hlen : 255 < cutName.val.length := by
    rw [hval, List.length_append, List.length_replicate]
    decide
  have htake : cutName.val.take 255 = List.replicate 253 0x78 ++ 0x78 :: [0xC3] := by
    rw [hval, List.take_append, List.length_replicate, List.take_of_length_le]
    · rfl
    · rw [List.length_replicate]
      decide
  have hpart : (utf8Part 0xC3 []).2 = false := rfl
  have hcut := h.not_cut hname (by decide) hlen
  rw [htake, isUtf8_append _ (by decide), isUtf8.eq_2 0xC3, hpart, Bool.false_and,
    Bool.and_false] at hcut
  cases hcut
