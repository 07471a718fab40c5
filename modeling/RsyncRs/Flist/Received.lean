import RsyncRs.Flist.Fields
import RsyncRs.Flist.Transfer

/-!
# Entries are received as they were sent

The receiver has its own entry before each one it reads. As long as the two sides agree on
the entry before, they agree on what the flags stand for, and so on the next entry.
-/

variable {X : Type} {Reply : X → Type} {H : Type}
  {answer : H → (x : X) → Option (Reply x × H)}

/-! ### What the flags of an entry say -/

section Flags

variable {protocol : ℕ} {preserve : Preserve} {varintFlags : Bool} {prev : Option FileInfo}
  {fi : FileInfo}

theorem hasFlag_sameMode :
  hasFlag (sentFlags protocol preserve varintFlags prev fi) xmitSameMode =
    prev.any fun p => decide (fi.mode = p.mode)
  := by
  rw [xmitSameMode, hasFlag_sentFlags (by decide) (by decide), testBit_entryFlags]
  cases prev with
  | none => simp [testBit_sameFlags_none]
  | some p => simp [testBit_sameFlags_some]

theorem hasFlag_sameTime :
  hasFlag (sentFlags protocol preserve varintFlags prev fi) xmitSameTime =
    (!preserve.times || prev.any fun p => decide (fi.modtime = p.modtime))
  := by
  rw [xmitSameTime, hasFlag_sentFlags (by decide) (by decide), testBit_entryFlags]
  cases prev with
  | none => simp [testBit_sameFlags_none]
  | some p => simp [testBit_sameFlags_some]

theorem hasFlag_sameUid :
  hasFlag (sentFlags protocol preserve varintFlags prev fi) xmitSameUid =
    (!preserve.uid || prev.any fun p => decide (fi.uid = p.uid))
  := by
  rw [xmitSameUid, hasFlag_sentFlags (by decide) (by decide), testBit_entryFlags]
  cases prev with
  | none => simp [testBit_sameFlags_none]
  | some p => simp [testBit_sameFlags_some]

theorem hasFlag_sameGid :
  hasFlag (sentFlags protocol preserve varintFlags prev fi) xmitSameGid =
    (!preserve.gid || prev.any fun p => decide (fi.gid = p.gid))
  := by
  rw [xmitSameGid, hasFlag_sentFlags (by decide) (by decide), testBit_entryFlags]
  cases prev with
  | none => simp [testBit_sameFlags_none]
  | some p => simp [testBit_sameFlags_some]

theorem hasFlag_modNsec :
  hasFlag (sentFlags protocol preserve varintFlags prev fi) xmitModNsec =
    decide (fi.modNsec ≠ 0 ∧ 31 ≤ protocol)
  := by
  rw [xmitModNsec, hasFlag_sentFlags (by decide) (by decide), testBit_entryFlags,
    testBit_sameFlags_of_ge _ _ _ (by decide)]
  simp

theorem hasFlag_hlinked :
  hasFlag (sentFlags protocol preserve varintFlags prev fi) xmitHlinked =
    decide (isHlinkMember fi = true ∧ 28 ≤ protocol)
  := by
  rw [xmitHlinked, hasFlag_sentFlags (by decide) (by decide), testBit_entryFlags,
    testBit_sameFlags_of_ge _ _ _ (by decide)]
  simp

theorem hasFlag_hlinkFirst :
  hasFlag (sentFlags protocol preserve varintFlags prev fi) xmitHlinkFirst =
    decide (isHlinkMember fi = true ∧ 28 ≤ protocol ∧ isHlinkLeader fi = true ∧ 30 ≤ protocol)
  := by
  rw [xmitHlinkFirst, hasFlag_sentFlags (by decide) (by decide), testBit_entryFlags,
    testBit_sameFlags_of_ge _ _ _ (by decide)]
  simp

/-- No names of owners or of groups are sent. -/
theorem hasFlag_idNames :
  hasFlag (sentFlags protocol preserve varintFlags prev fi) xmitUserNameFollows = false ∧
    hasFlag (sentFlags protocol preserve varintFlags prev fi) xmitGroupNameFollows = false
  := by
  rw [xmitUserNameFollows, xmitGroupNameFollows, hasFlag_sentFlags (by decide) (by decide),
    hasFlag_sentFlags (by decide) (by decide), testBit_entryFlags, testBit_entryFlags,
    testBit_sameFlags_of_ge _ _ _ (by decide), testBit_sameFlags_of_ge _ _ _ (by decide)]
  simp

end Flags

/-- The receiver takes the entry for one that refers to another entry. -/
def refers (protocol : ℕ) (fi : FileInfo) : Bool :=
  30 ≤ protocol && isHlinkMember fi && !isHlinkLeader fi

theorem refers_iff
    {protocol : ℕ} {preserve : Preserve} {varintFlags : Bool} {prev : Option FileInfo}
    {fi : FileInfo} :
  (30 ≤ protocol ∧ hasFlag (sentFlags protocol preserve varintFlags prev fi) xmitHlinked = true ∧
      ¬ hasFlag (sentFlags protocol preserve varintFlags prev fi) xmitHlinkFirst = true) ↔
    refers protocol fi = true
  := by
  rw [hasFlag_hlinked, hasFlag_hlinkFirst, refers]
  simp only [decide_eq_true_eq, Bool.and_eq_true, Bool.not_eq_true']
  by_cases hp : 30 ≤ protocol
  · have hp' : 28 ≤ protocol := by omega
    simp [hp, hp']
    grind
  · simp [hp]

/-! ### Agreement -/

/-- The two sides agree on the path, the size and the mode of an entry, and on its
modification time where that is preserved. -/
structure Agrees (preserve : Preserve) (fi d : FileInfo) : Prop where
  path : d.path = fi.path
  size : d.size = fi.size
  mode : d.mode = fi.mode
  modtime : preserve.times = true → d.modtime = fi.modtime

/-- The two sides agree on all that is sent of an entry. -/
structure AgreesFully (protocol checksumLen : ℕ) (preserve : Preserve) (fi d : FileInfo) :
    Prop extends Agrees preserve fi d where
  name : (d.dirname, d.name) = splitName fi.path
  uid : preserve.uid = true → d.uid = fi.uid
  gid : preserve.gid = true → d.gid = fi.gid
  modNsec : 31 ≤ protocol → d.modNsec = fi.modNsec
  target : d.linkTarget = if fi.isSymlink then some (targetOf fi) else none
  checksum : d.checksum =
    if 0 < checksumLen ∧ fi.isRegular then some (paddedChecksum checksumLen fi.checksum) else none
  link : d.hardLinkFirstNdx = -1

/-- The two sides agree on what an entry may share with the one before it. -/
structure AgreesOwned (preserve : Preserve) (fi d : FileInfo) : Prop
    extends Agrees preserve fi d where
  uid : preserve.uid = true → d.uid = fi.uid
  gid : preserve.gid = true → d.gid = fi.gid

theorem AgreesFully.agreesOwned
    {protocol checksumLen : ℕ} {preserve : Preserve} {fi d : FileInfo}
    (h : AgreesFully protocol checksumLen preserve fi d) :
  AgreesOwned preserve fi d
  where
  toAgrees := h.toAgrees
  uid := h.uid
  gid := h.gid

section Agreement

variable {protocol checksumLen : ℕ} {preserve : Preserve} {varintFlags : Bool}
  {prev d : Option FileInfo} {fi : FileInfo}

/-- A field that is left out when it is the same is the one of the entry before. -/
theorem eq_of_any
    {α : Type} [DecidableEq α] {R : FileInfo → FileInfo → Prop} {f : FileInfo → α} (x : α)
    (h : Option.Rel R prev d) (hR : ∀ p q, R p q → f q = f p)
    (hany : (prev.any fun p => decide (f fi = f p)) = true) :
  (d.map f).getD x = f fi
  := by
  cases h with
  | none => cases hany
  | @some p q hpq =>
      have heq : f fi = f p := by simpa using hany
      rw [heq]
      apply hR p q hpq

theorem mode_agrees
    (h : Option.Rel (Agrees preserve) prev d)
    (hf : hasFlag (sentFlags protocol preserve varintFlags prev fi) xmitSameMode = true) :
  (d.map FileInfo.mode).getD 0o100644 = fi.mode
  := by
  rw [hasFlag_sameMode] at hf
  apply eq_of_any _ h (fun p q hpq => hpq.mode) hf

/-- The flags of an entry are what the fields of the entry say. -/
theorem flagsFit_sentFlags
    (h : Option.Rel (Agrees preserve) prev d) :
  FlagsFit preserve (sentFlags protocol preserve varintFlags prev fi) d fi
  where
  mode := mode_agrees h
  uid := by
    intro hu
    rw [hasFlag_sameUid, hu]
    rfl
  gid := by
    intro hg
    rw [hasFlag_sameGid, hg]
    rfl
  user := hasFlag_idNames.1
  group := hasFlag_idNames.2

theorem modtime_agrees
    (h : Option.Rel (Agrees preserve) prev d) (ht : preserve.times = true)
    (hfits : protocol < 30 → IsI32 fi.modtime) :
  receivedModtime protocol (sentFlags protocol preserve varintFlags prev fi) d fi = fi.modtime
  := by
  unfold receivedModtime
  rw [hasFlag_sameTime, ht, Bool.not_true, Bool.false_or]
  split_ifs with hs hp
  · apply eq_of_any _ h (fun p q hpq => hpq.modtime ht) hs
  · rfl
  · apply wrapI32_of_isI32 (hfits (by omega))

/-- The fields of an entry agree when the entries before do. -/
theorem agrees_receivedFields
    (h : Option.Rel (Agrees preserve) prev d) (hroot : isRootChild fi.path = false)
    (hfits : preserve.times = true → protocol < 30 → IsI32 fi.modtime) :
  Agrees preserve fi (receivedFields protocol checksumLen
    (sentFlags protocol preserve varintFlags prev fi) d (splitName fi.path) fi)
  where
  path := by
    have hpath := path_named fi.path
    rw [hroot] at hpath
    apply hpath
  size := rfl
  mode := rfl
  modtime := fun ht => modtime_agrees h ht (hfits ht)

theorem agreesFully_receivedFields
    (h : Option.Rel (AgreesOwned preserve) prev d)
    (hroot : isRootChild fi.path = false)
    (hfits : preserve.times = true → protocol < 30 → IsI32 fi.modtime) :
  AgreesFully protocol checksumLen preserve fi (receivedFields protocol checksumLen
    (sentFlags protocol preserve varintFlags prev fi) d (splitName fi.path) fi)
  where
  toAgrees := by
    apply agrees_receivedFields _ hroot hfits
    cases h with
    | none => apply Option.Rel.none
    | some hpq => apply Option.Rel.some hpq.toAgrees
  name := rfl
  uid := by
    intro hu
    dsimp only [receivedFields, receivedFirst]
    rw [hasFlag_sameUid, hu, Bool.not_true, Bool.false_or]
    split
    · next hs => apply eq_of_any _ h (fun p q hpq => hpq.uid hu) hs
    · rfl
  gid := by
    intro hg
    dsimp only [receivedFields, receivedFirst]
    rw [hasFlag_sameGid, hg, Bool.not_true, Bool.false_or]
    split
    · next hs => apply eq_of_any _ h (fun p q hpq => hpq.gid hg) hs
    · rfl
  modNsec := by
    intro hp
    dsimp only [receivedFields, receivedFirst]
    rw [hasFlag_modNsec]
    split
    · rfl
    · next hs =>
      have hz : fi.modNsec = 0 := by
        simpa [hp] using hs
      rw [hz]
  target := rfl
  checksum := rfl
  link := rfl

end Agreement

/-! ### Entries that may be sent -/

/-- The name of `fi` may be sent after `prev`: the bytes that it shares end between two
characters, the length of the others fits into a signed 32-bit integer, and the first byte is
not its only slash. -/
structure NameOk (prev : Option FileInfo) (fi : FileInfo) : Prop where
  boundary : isCharBoundary fi.path (sameLen fi.path (prevName prev)) = true
  short : fi.path.length - sameLen fi.path (prevName prev) < 2147483648
  slash : isRootChild fi.path = false

/-- The entry `fi` may be sent after the entries `sent`. -/
structure EntryOk (protocol : ℕ) (preserve : Preserve) (sent : List FileInfo) (fi : FileInfo) :
    Prop where
  name : NameOk sent.getLast? fi
  /-- The modification time fits into what the protocol has for it. -/
  time : refers protocol fi = false → preserve.times = true → protocol < 30 → IsI32 fi.modtime
  /-- The numbers of a device are sent when they are expected. -/
  rdev : refers protocol fi = false →
    sendsRdev protocol preserve fi = expectsRdev protocol fi.mode
  /-- The length of the target of a link fits into a signed 32-bit integer. -/
  target : refers protocol fi = false → fi.isSymlink = true → (targetOf fi).length < 2147483648
  /-- What refers to another entry refers to one before it that is like it. -/
  link : refers protocol fi = true → 0 ≤ fi.hardLinkFirstNdx ∧
    ∃ first, sent[fi.hardLinkFirstNdx.toNat]? = some first ∧ Agrees preserve fi
      { first with name := fi.name, dirname := fi.dirname }

/-- What the receiver makes of an entry when it has received `received`. -/
def receivedEntry (protocol checksumLen xflags : ℕ) (received : List FileInfo) (fi : FileInfo) :
    FileInfo :=
  if refers protocol fi then
    { received.getD fi.hardLinkFirstNdx.toNat {} with
      name := (splitName fi.path).2, dirname := (splitName fi.path).1, flags := flagHlinked,
      hardLinkFirstNdx := fi.hardLinkFirstNdx, dev := 0, ino := 0, checksum := none }
  else
    receivedFields protocol checksumLen xflags received.getLast? (splitName fi.path) fi

section Entry

variable {protocol checksumLen : ℕ} {preserve : Preserve} {varintFlags : Bool}
  {sent received : List FileInfo} {fi : FileInfo}

theorem rel_getLast
    {R : FileInfo → FileInfo → Prop} (h : List.Forall₂ R sent received) :
  Option.Rel R sent.getLast? received.getLast?
  := by
  have hrev := List.rel_reverse h
  rw [List.getLast?_eq_head?_reverse, List.getLast?_eq_head?_reverse]
  generalize sent.reverse = s at hrev ⊢
  generalize received.reverse = r at hrev ⊢
  cases hrev with
  | nil => apply Option.Rel.none
  | cons hab _ => apply Option.Rel.some hab

theorem prevName_of_rel
    {prev d : Option FileInfo} (h : Option.Rel (Agrees preserve) prev d) :
  prevName d = prevName prev
  := by
  cases h with
  | none => rfl
  | some hpq => apply hpq.path

/-- An entry whose name is cut between two characters is sent. -/
theorem sendFileEntry_eq
    {prev : Option FileInfo}
    (hb : isCharBoundary fi.path (sameLen fi.path (prevName prev)) = true) :
  (sendFileEntry protocol checksumLen preserve varintFlags prev fi : Session Reply Unit) =
    (do
      writeXflags varintFlags (sentFlags protocol preserve varintFlags prev fi)
      writeName (sentFlags protocol preserve varintFlags prev fi)
        (sameLen fi.path (prevName prev)) (fi.path.drop (sameLen fi.path (prevName prev)))
      if isHlinkFollower fi ∧ 30 ≤ protocol then
        writeVarint fi.hardLinkFirstNdx
      else
        writeFields protocol checksumLen preserve
          (sentFlags protocol preserve varintFlags prev fi) fi)
  := by
  have hrest : strFrom fi.path (sameLen fi.path (prevName prev)) =
      .ok (fi.path.drop (sameLen fi.path (prevName prev))) := if_pos hb
  unfold sendFileEntry
  rw [lift_bind hrest, List.length_drop]
  rfl

/-- The bytes of the name of an entry. -/
def encodeName (prev : Option FileInfo) (fi : FileInfo) : List UInt8 :=
  encodeSame (sameLen fi.path (prevName prev)) ++
    (encodeRestLen (fi.path.length - sameLen fi.path (prevName prev)) ++
      fi.path.drop (sameLen fi.path (prevName prev)))

theorem writes_encodeName
    (prev : Option FileInfo) :
  Proc.Writes answer
    (writeName (sentFlags protocol preserve varintFlags prev fi)
      (sameLen fi.path (prevName prev)) (fi.path.drop (sameLen fi.path (prevName prev))) :
      Session Reply Unit) (encodeName prev fi) ()
  := by
  have hlong := hasFlag_longName protocol preserve varintFlags prev fi
  rw [← List.length_drop] at hlong
  rw [encodeName, ← List.length_drop]
  apply writes_writeName (hasFlag_sameName _ _ _ _ _) hlong

/-- The receiver makes the path of an entry of the bytes of its name. -/
theorem reads_encodeName
    {prev d : Option FileInfo} (hd : prevName d = prevName prev) (hfi : isUtf8 fi.path = true)
    (hshort : fi.path.length - sameLen fi.path (prevName prev) < 2147483648) :
  Proc.Reads answer (readName (sentFlags protocol preserve varintFlags prev fi) d :
    Session Reply Name) (encodeName prev fi) fi.path
  := by
  obtain ⟨h255, -, hprev⟩ := sameLen_le fi.path (prevName prev)
  have hread := restLenRead_of_lt hshort
  apply reads_readName (hasFlag_sameName _ _ _ _ _) (hasFlag_longName _ _ _ _ _) h255 _ _
    (by omega)
  · rw [hd, take_sameLen, List.take_append_drop, fromUtf8Lossy_of_isUtf8 hfi]
  · rw [hd]
    apply hprev
  · rw [hread, List.length_drop]

/-- The name of an entry reaches the receiver. -/
theorem carries_name
    {prev d : Option FileInfo} (hd : prevName d = prevName prev) (hfi : isUtf8 fi.path = true)
    (hshort : fi.path.length - sameLen fi.path (prevName prev) < 2147483648) :
  Proc.Carries answer
    (writeName (sentFlags protocol preserve varintFlags prev fi)
      (sameLen fi.path (prevName prev)) (fi.path.drop (sameLen fi.path (prevName prev))) :
      Session Reply Unit) ()
    (readName (sentFlags protocol preserve varintFlags prev fi) d) fi.path
  := ⟨_, writes_encodeName prev, reads_encodeName hd hfi hshort⟩

/-- What follows the name of an entry reaches the receiver. -/
theorem carries_afterName
    (hrel : List.Forall₂ (Agrees preserve) sent received) (hfi : fi.Typed)
    (hok : EntryOk protocol preserve sent fi) (hlen : checksumLen < 9223372036854775808) :
  Proc.Carries answer
    (if isHlinkFollower fi ∧ 30 ≤ protocol then
        writeVarint fi.hardLinkFirstNdx
      else
        writeFields protocol checksumLen preserve
          (sentFlags protocol preserve varintFlags sent.getLast? fi) fi : Session Reply Unit) ()
    (if 30 ≤ protocol ∧
        hasFlag (sentFlags protocol preserve varintFlags sent.getLast? fi) xmitHlinked ∧
        ¬ hasFlag (sentFlags protocol preserve varintFlags sent.getLast? fi) xmitHlinkFirst then
        readFollower (splitName fi.path) received 0
      else
        readFields protocol checksumLen
          (sentFlags protocol preserve varintFlags sent.getLast? fi) received.getLast?
          (splitName fi.path))
    (receivedEntry protocol checksumLen
      (sentFlags protocol preserve varintFlags sent.getLast? fi) received fi)
  := by
  have hrel' := rel_getLast hrel
  unfold receivedEntry
  by_cases hr : refers protocol fi = true
  · -- the index of the entry referred to
    obtain ⟨hndx, first, hfirst, -⟩ := hok.link hr
    have hfollower : isHlinkFollower fi = true ∧ 30 ≤ protocol := by
      unfold refers at hr
      simp only [Bool.and_eq_true, Bool.not_eq_true', decide_eq_true_eq] at hr
      simp [isHlinkFollower, hr, hndx]
    have hlt : fi.hardLinkFirstNdx.toNat < received.length := by
      rw [← hrel.length_eq]
      apply (List.getElem?_eq_some_iff.mp hfirst).1
    rw [if_pos hfollower, if_pos (refers_iff.mpr hr), if_pos hr]
    refine ⟨_, writes_writeVarint _, ?_⟩
    unfold readFollower
    apply (reads_readVarint hfi.hardLinkFirstNdx).bind_nil
    dsimp only
    rw [sub_zero, wrapI32_of_isI32 hfi.hardLinkFirstNdx, if_pos hndx,
      List.getElem?_eq_getElem hlt, List.getD_eq_getElem _ _ hlt]
    apply Proc.reads_pure
  · have hr' : refers protocol fi = false := by simpa using hr
    have hfollower : ¬ (isHlinkFollower fi = true ∧ 30 ≤ protocol) := by
      rintro ⟨hf, hp⟩
      unfold isHlinkFollower at hf
      simp only [Bool.and_eq_true, Bool.not_eq_true', decide_eq_true_eq] at hf
      simp [refers, hf, hp] at hr'
    rw [if_neg hfollower, if_neg (refers_iff.not.mpr hr), if_neg hr]
    apply carries_fields hfi _ (flagsFit_sentFlags hrel') (hok.rdev hr') (hok.target hr') hlen

/-- What the receiver makes of an entry agrees with it. -/
theorem agrees_receivedEntry
    (hrel : List.Forall₂ (Agrees preserve) sent received)
    (hok : EntryOk protocol preserve sent fi) :
  Agrees preserve fi (receivedEntry protocol checksumLen
    (sentFlags protocol preserve varintFlags sent.getLast? fi) received fi)
  := by
  unfold receivedEntry
  cases hr : refers protocol fi with
  | false =>
      rw [if_neg Bool.false_ne_true]
      apply agrees_receivedFields (rel_getLast hrel) hok.name.slash (hok.time hr)
  | true =>
      obtain ⟨-, first, hfirst, hlike⟩ := hok.link hr
      obtain ⟨hlt, hget⟩ := List.getElem?_eq_some_iff.mp hfirst
      have hlt' : fi.hardLinkFirstNdx.toNat < received.length := hrel.length_eq ▸ hlt
      have hagree : Agrees preserve first received[fi.hardLinkFirstNdx.toNat] := by
        rw [← hget]
        apply hrel.get hlt hlt'
      have hpath := path_named fi.path
      rw [hok.name.slash] at hpath
      rw [if_pos rfl, List.getD_eq_getElem _ _ hlt']
      constructor
      · apply hpath
      · apply hagree.size.trans hlike.size
      · apply hagree.mode.trans hlike.mode
      · intro ht
        apply (hagree.modtime ht).trans (hlike.modtime ht)

/-- Where the entry does not refer to another one, they agree on all that is sent of it. -/
theorem agreesFully_receivedEntry
    (hrel : List.Forall₂ (AgreesOwned preserve) sent received)
    (hok : EntryOk protocol preserve sent fi) (hr : refers protocol fi = false) :
  AgreesFully protocol checksumLen preserve fi (receivedEntry protocol checksumLen
    (sentFlags protocol preserve varintFlags sent.getLast? fi) received fi)
  := by
  unfold receivedEntry
  rw [hr, if_neg Bool.false_ne_true]
  apply agreesFully_receivedFields (rel_getLast hrel) hok.name.slash (hok.time hr)

variable {preserveUid preserveGid : Bool} {compatFlags : ℕ}

/-- An entry reaches the receiver. -/
theorem carries_entry
    (hrel : List.Forall₂ (Agrees preserve) sent received) (hfi : fi.Typed)
    (hok : EntryOk protocol preserve sent fi) (hlen : checksumLen < 9223372036854775808)
    (hold : hasFlag compatFlags cfVarintFlistFlags = false → protocol < 28 →
      hasFlag (sentFlags protocol preserve false sent.getLast? fi) xmitExtendedFlags = false) :
  Proc.Carries answer
    (sendFileEntry protocol checksumLen preserve (hasFlag compatFlags cfVarintFlistFlags)
      sent.getLast? fi : Session Reply Unit) ()
    (recvNext protocol checksumLen preserveUid preserveGid compatFlags received)
    (.inl (received ++ [receivedEntry protocol checksumLen
      (sentFlags protocol preserve (hasFlag compatFlags cfVarintFlistFlags) sent.getLast? fi)
      received fi]))
  := by
  have hlt := entryFlags_lt protocol preserve sent.getLast? fi
    (sameLen fi.path (prevName sent.getLast?))
    (fi.path.length - sameLen fi.path (prevName sent.getLast?))
  rw [sendFileEntry_eq hok.name.boundary]
  unfold recvNext
  generalize hv : hasFlag compatFlags cfVarintFlistFlags = varintFlags at *
  apply (carries_xflags varintFlags fi.isDir hlt (wireFlags_ne_endlist _ _ _ _ _ _ _ _) _).bind
  · rw [if_neg (wireFlags_ne_zero _ _ _)]
    have hname := prevName_of_rel (rel_getLast hrel)
    exact ((carries_name hname hfi.path hok.name.short).bind
      (carries_afterName hrel hfi hok hlen)).map fun fi => Sum.inl (received ++ [fi])
  · rintro rfl hp
    apply hold rfl hp

end Entry
