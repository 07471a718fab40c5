import RsyncRs.Flist.RoundTrip

/-!
# Names that are sent without failing

The bytes that a name shares with the name before it are counted without regard to
characters. A name goes through when they end between two characters, and when its length
fits into the protocol.
-/

variable {X : Type} {Reply : X → Type} {H : Type}
  {answer : H → (x : X) → Option (Reply x × H)}

/-! ### Entries that are written -/

theorem emits_writeAll
    (bs : List UInt8) :
  Proc.Emits answer (writeAll bs : Session Reply Unit)
  := ⟨bs, writes_writeAll bs⟩

theorem emits_writeXflags
    (varintFlags : Bool) (xflags : ℕ) :
  Proc.Emits answer (writeXflags varintFlags xflags : Session Reply Unit)
  := by
  unfold writeXflags
  split_ifs
  · apply emits_writeAll
  · apply emits_writeAll
  · apply emits_writeAll

theorem emits_writeId
    (protocol : ℕ) (sent : Bool) (id : ℕ) :
  Proc.Emits answer (writeId protocol sent id : Session Reply Unit)
  := by
  unfold writeId
  split_ifs
  · apply emits_writeAll
  · apply emits_writeAll
  · apply Proc.emits_pure

/-- The fields that come first start with the size. -/
theorem writes_writeFirstFields
    (protocol : ℕ) (preserve : Preserve) (xflags : ℕ) (fi : FileInfo) :
  ∃ bs, Proc.Writes answer
    (writeFirstFields protocol preserve xflags fi : Session Reply Unit)
    (encodeVarlong fi.size 3 ++ bs) ()
  := by
  have hafter : Proc.Emits answer (do
      writeModtime protocol xflags fi
      writeModNsec xflags fi
      writeMode xflags fi
      writeId protocol (preserve.uid && !hasFlag xflags xmitSameUid) fi.uid
      writeId protocol (preserve.gid && !hasFlag xflags xmitSameGid) fi.gid :
      Session Reply Unit) := by
    apply Proc.Emits.bind
    · unfold writeModtime
      split_ifs
      · apply Proc.emits_pure
      · apply emits_writeAll
      · apply emits_writeAll
    apply Proc.Emits.bind
    · unfold writeModNsec
      split_ifs
      · apply emits_writeAll
      · apply Proc.emits_pure
    apply Proc.Emits.bind
    · unfold writeMode
      split_ifs
      · apply Proc.emits_pure
      · apply emits_writeAll
    apply Proc.Emits.bind (emits_writeId _ _ _) (emits_writeId _ _ _)
  obtain ⟨bs, hbs⟩ := hafter
  use bs
  apply (writes_writeVarlong fi.size 3).bind hbs

theorem emits_writeLastFields
    (protocol checksumLen : ℕ) (preserve : Preserve) (fi : FileInfo) :
  Proc.Emits answer (writeLastFields protocol checksumLen preserve fi : Session Reply Unit)
  := by
  apply Proc.Emits.bind
  · unfold writeRdev
    split_ifs
    · apply Proc.Emits.bind (emits_writeAll _) (emits_writeAll _)
    · apply Proc.Emits.bind (emits_writeAll _) (emits_writeAll _)
    · apply Proc.emits_pure
  apply Proc.Emits.bind
  · unfold writeTarget
    split_ifs
    · apply Proc.Emits.bind (emits_writeAll _) (emits_writeAll _)
    · apply Proc.emits_pure
  · unfold writeChecksum
    split_ifs
    · apply emits_writeAll
    · apply Proc.emits_pure

theorem writes_writeFields
    (protocol checksumLen : ℕ) (preserve : Preserve) (xflags : ℕ) (fi : FileInfo) :
  ∃ bs, Proc.Writes answer
    (writeFields protocol checksumLen preserve xflags fi : Session Reply Unit)
    (encodeVarlong fi.size 3 ++ bs) ()
  := by
  obtain ⟨fs, hfs⟩ : ∃ fs, Proc.Writes answer
      (writeFirstFields protocol preserve xflags fi : Session Reply Unit)
      (encodeVarlong fi.size 3 ++ fs) () := writes_writeFirstFields _ _ _ _
  obtain ⟨ls, hls⟩ : Proc.Emits answer
      (writeLastFields protocol checksumLen preserve fi : Session Reply Unit) :=
    emits_writeLastFields _ _ _ _
  use fs ++ ls
  rw [writeFields_eq, ← List.append_assoc]
  apply hfs.bind hls

section Entries

variable {protocol checksumLen : ℕ} {preserve : Preserve} {varintFlags : Bool}
  {prev d : Option FileInfo} {fi : FileInfo}

/-- Write what follows the name of an entry. -/
def writeAfterName (protocol checksumLen : ℕ) (preserve : Preserve) (xflags : ℕ)
    (fi : FileInfo) : Session Reply Unit :=
  if isHlinkFollower fi ∧ 30 ≤ protocol then
    writeVarint fi.hardLinkFirstNdx
  else
    writeFields protocol checksumLen preserve xflags fi

/-- The name of an entry is written between its flags and its fields. -/
theorem writes_sendFileEntry
    (answer : H → (x : X) → Option (Reply x × H)) (protocol checksumLen : ℕ)
    (preserve : Preserve) (varintFlags : Bool)
    (hb : isCharBoundary fi.path (sameLen fi.path (prevName prev)) = true) :
  ∃ flags fields, Proc.Writes answer (writeXflags varintFlags
      (sentFlags protocol preserve varintFlags prev fi) : Session Reply Unit) flags () ∧
    Proc.Writes answer (writeAfterName protocol checksumLen preserve
      (sentFlags protocol preserve varintFlags prev fi) fi : Session Reply Unit) fields () ∧
    Proc.Writes answer (sendFileEntry protocol checksumLen preserve varintFlags prev fi :
      Session Reply Unit) (flags ++ (encodeName prev fi ++ fields)) ()
  := by
  obtain ⟨flags, hflags⟩ : Proc.Emits answer (writeXflags varintFlags
      (sentFlags protocol preserve varintFlags prev fi) : Session Reply Unit) :=
    emits_writeXflags _ _
  have hafter : Proc.Emits answer (writeAfterName protocol checksumLen preserve
      (sentFlags protocol preserve varintFlags prev fi) fi : Session Reply Unit) := by
    unfold writeAfterName
    split_ifs
    · apply emits_writeAll
    · obtain ⟨bs, hbs⟩ := writes_writeFields protocol checksumLen preserve
        (sentFlags protocol preserve varintFlags prev fi) fi
      exact ⟨_, hbs⟩
  obtain ⟨fields, hfields⟩ := hafter
  use flags, fields, hflags, hfields
  rw [sendFileEntry_eq hb]
  apply hflags.bind
  apply (writes_encodeName prev).bind hfields

/-- An entry whose name is cut inside a character is not sent. -/
theorem rejects_sendFileEntry
    (answer : H → (x : X) → Option (Reply x × H)) (protocol checksumLen : ℕ)
    (preserve : Preserve) (varintFlags : Bool)
    (hb : isCharBoundary fi.path (sameLen fi.path (prevName prev)) = false) :
  Proc.Rejects answer
    (sendFileEntry protocol checksumLen preserve varintFlags prev fi : Session Reply Unit) []
    (.panic "byte index is not a char boundary")
  := by
  have hrest : strFrom fi.path (sameLen fi.path (prevName prev)) =
      .error (.panic "byte index is not a char boundary") := by
    rw [strFrom, hb]
    rfl
  apply rejects_lift_bind hrest

/-- What the receiver makes of the bytes of a name: nothing when it panics, and otherwise as
much of the name as the length says that it read. -/
theorem readName_encodeName
    (answer : H → (x : X) → Option (Reply x × H)) (protocol : ℕ) (preserve : Preserve)
    (varintFlags : Bool) (hd : prevName d = prevName prev) (hfi : isUtf8 fi.path = true) :
  Proc.Rejects answer (readName (sentFlags protocol preserve varintFlags prev fi) d :
      Session Reply Name) (encodeName prev fi) (.panic "capacity overflow") ∨
    fi.path.length - sameLen fi.path (prevName prev) < 2147483648 ∧
      Proc.Reads answer (readName (sentFlags protocol preserve varintFlags prev fi) d :
        Session Reply Name) (encodeName prev fi) fi.path ∨
    ∃ pre post full, encodeName prev fi = pre ++ post ∧ full.length < fi.path.length ∧
      Proc.Reads answer (readName (sentFlags protocol preserve varintFlags prev fi) d :
        Session Reply Name) pre full
  := by
  by_cases hshort : fi.path.length - sameLen fi.path (prevName prev) < 2147483648
  · exact .inr (.inl ⟨hshort, reads_encodeName hd hfi hshort⟩)
  obtain ⟨h255, hle, hprev⟩ := sameLen_le fi.path (prevName prev)
  have hlong := hasFlag_longName protocol preserve varintFlags prev fi
  have hsame := hasFlag_sameName protocol preserve varintFlags prev fi
  have hprev' : sameLen fi.path (prevName prev) ≤ (prevName d).length := by
    rw [hd]
    apply hprev
  have hshared : (prevName d).take (sameLen fi.path (prevName prev)) =
      fi.path.take (sameLen fi.path (prevName prev)) := by
    rw [hd, take_sameLen]
  unfold encodeName
  generalize sentFlags protocol preserve varintFlags prev fi = xflags at *
  generalize sameLen fi.path (prevName prev) = same at *
  by_cases hhuge : 9223372036854775808 ≤ restLenRead (fi.path.length - same)
  · apply Or.inl
    apply rejects_readName hsame hlong h255 hprev' _ hhuge
  · -- the rest of the name is cut
    have hsmall := (restLenRead_of_ge (not_lt.mp hshort)).resolve_left hhuge
    generalize hm : restLenRead (fi.path.length - same) = m at *
    have hpart : (fi.path.drop same).take m ++ (fi.path.drop same).drop m =
        fi.path.drop same := List.take_append_drop _ _
    refine .inr (.inr ⟨encodeSame same ++ (encodeRestLen (fi.path.length - same) ++
      (fi.path.drop same).take m), (fi.path.drop same).drop m, _, ?_, ?_,
      reads_readName hsame hlong h255 hprev' ?_ ?_ rfl⟩)
    · rw [List.append_assoc, List.append_assoc, hpart]
    · have htake : fi.path.take same ++ (fi.path.drop same).take m =
          fi.path.take (same + m) := List.take_add.symm
      have hlen := length_fromUtf8Lossy_take_le hfi (same + m)
      rw [hshared, htake]
      omega
    · rw [hm, List.length_take, List.length_drop]
      omega
    · omega

end Entries

/-! ### Names one after the other -/

section Names

variable {protocol checksumLen : ℕ} {preserve : Preserve} {varintFlags : Bool}

/-- The entry `fi` is sent after `prev` without failing, and the receiver, which has `d`
before it, makes the path of `fi` of the bytes of its name. -/
def NameCarried (answer : H → (x : X) → Option (Reply x × H)) (protocol checksumLen : ℕ)
    (preserve : Preserve) (varintFlags : Bool) (prev d : Option FileInfo) (fi : FileInfo)
    (full : Name) : Prop :=
  ∃ flags name fields, Proc.Writes answer (writeXflags varintFlags
      (sentFlags protocol preserve varintFlags prev fi) : Session Reply Unit) flags () ∧
    Proc.Writes answer (sendFileEntry protocol checksumLen preserve varintFlags prev fi :
      Session Reply Unit) (flags ++ (name ++ fields)) () ∧
    Proc.Reads answer (readName (sentFlags protocol preserve varintFlags prev fi) d :
      Session Reply Name) name full ∧
    (named full).path = fi.path

/-- The names of all entries go through, one after the other. -/
def NamesCarried (answer : H → (x : X) → Option (Reply x × H)) (protocol checksumLen : ℕ)
    (preserve : Preserve) (varintFlags : Bool) :
    Option FileInfo → Option FileInfo → List FileInfo → Prop
  | _, _, [] => True
  | prev, d, fi :: files =>
    ∃ full, NameCarried answer protocol checksumLen preserve varintFlags prev d fi full ∧
      NamesCarried answer protocol checksumLen preserve varintFlags (some fi)
        (some (named full)) files

/-- All names may be sent, one after the other. -/
def NamesOk : Option FileInfo → List FileInfo → Prop
  | _, [] => True
  | prev, fi :: files => NameOk prev fi ∧ NamesOk (some fi) files

variable {prev d : Option FileInfo} {fi : FileInfo}

/-- A name goes through exactly when it may be sent. -/
theorem nameCarried_iff
    (host : H) (hd : prevName d = prevName prev) (hfi : isUtf8 fi.path = true) :
  (∃ full, NameCarried answer protocol checksumLen preserve varintFlags prev d fi full) ↔
    NameOk prev fi
  := by
  constructor
  · rintro ⟨full, flags, name, fields, hflags, hsend, hread, hpath⟩
    have hb : isCharBoundary fi.path (sameLen fi.path (prevName prev)) = true := by
      by_contra hb
      have hrejects := rejects_sendFileEntry answer protocol checksumLen preserve varintFlags
        (Bool.not_eq_true _ ▸ hb)
      apply hrejects.not_writes host hsend
    -- the bytes of the name are those that are read
    obtain ⟨flags', fields', hflags', -, hsend'⟩ :=
      writes_sendFileEntry answer protocol checksumLen preserve varintFlags hb
    have hbytes : name ++ fields = encodeName prev fi ++ fields' := by
      have heq := hsend.unique host hsend'
      rw [hflags.unique host hflags'] at heq
      apply List.append_cancel_left heq
    rcases readName_encodeName answer protocol preserve varintFlags hd hfi with
      hrejects | ⟨hshort, hreads⟩ | ⟨pre, post, full', henc, hlt, hreads⟩
    · cases hrejects.not_reads host hread hbytes.symm
    · have hfull : full = fi.path := (hread.unique host hreads hbytes).1
      rw [hfull] at hpath
      exact ⟨hb, hshort, not_isRootChild_of_path hpath⟩
    · rw [henc, List.append_assoc] at hbytes
      have hfull : full = full' := (hread.unique host hreads hbytes).1
      have hle := length_path_named_le full
      rw [hpath, hfull] at hle
      omega
  · intro hok
    obtain ⟨flags, fields, hflags, -, hsend⟩ :=
      writes_sendFileEntry answer protocol checksumLen preserve varintFlags hok.boundary
    use fi.path, flags, encodeName prev fi, fields, hflags, hsend
    use reads_encodeName hd hfi hok.short
    rw [path_named, hok.slash]
    rfl

theorem namesCarried_iff
    (host : H) {files : List FileInfo} (hd : prevName d = prevName prev)
    (hfiles : ∀ fi ∈ files, isUtf8 fi.path = true) :
  NamesCarried answer protocol checksumLen preserve varintFlags prev d files ↔ NamesOk prev files
  := by
  induction files generalizing prev d with
  | nil => rfl
  | cons fi files ih =>
      have hfi := hfiles fi List.mem_cons_self
      have hrest : ∀ fi ∈ files, isUtf8 fi.path = true :=
        fun fi hfi => hfiles fi (List.mem_cons_of_mem _ hfi)
      rw [NamesCarried, NamesOk, ← nameCarried_iff host hd hfi]
      constructor
      · rintro ⟨full, hname, hnames⟩
        have hpath : prevName (some (named full)) = prevName (some fi) := by
          obtain ⟨_, _, _, _, _, _, hpath⟩ := hname
          apply hpath
        exact ⟨⟨full, hname⟩, (ih hpath hrest).mp hnames⟩
      · rintro ⟨⟨full, hname⟩, hnames⟩
        have hpath : prevName (some (named full)) = prevName (some fi) := by
          obtain ⟨_, _, _, _, _, _, hpath⟩ := hname
          apply hpath
        exact ⟨full, hname, (ih hpath hrest).mpr hnames⟩

/-- In every sequence of entries all names go through exactly when each of them may be sent
after the one before it. -/
theorem names_carried_iff
    (answer : H → (x : X) → Option (Reply x × H)) (host : H) (protocol checksumLen : ℕ)
    (preserve : Preserve) (varintFlags : Bool) (files : List FileInfo)
    (hfiles : ∀ fi ∈ files, isUtf8 fi.path = true) :
  NamesCarried answer protocol checksumLen preserve varintFlags none none files ↔
    NamesOk none files
  := namesCarried_iff host rfl hfiles

end Names

/-- An entry with the given name and mode. -/
def entryNamed (name : Name) (mode : ℕ) : FileInfo :=
  { name, mode }

theorem typed_entryNamed
    {name : Name} {mode : ℕ} (hname : isUtf8 name = true) (hmode : mode < 4294967296) :
  (entryNamed name mode).Typed
  where
  size := show IsI64 0 by decide
  modtime := show IsI64 0 by decide
  modNsec := Nat.zero_lt_succ _
  mode := hmode
  uid := Nat.zero_lt_succ _
  gid := Nat.zero_lt_succ _
  rdevMajor := Nat.zero_lt_succ _
  rdevMinor := Nat.zero_lt_succ _
  hardLinkFirstNdx := show IsI32 0 by decide
  path := hname
  target := by
    apply isUtf8_ascii
    nofun

theorem names_carried_ascii :
  NamesCarried noHost 31 0 {} true none none
      [entryNamed (bytesOf "a") 0o100644, entryNamed (bytesOf "ab") 0o100644] ↔
    NamesOk none [entryNamed (bytesOf "a") 0o100644, entryNamed (bytesOf "ab") 0o100644]
  := by
  apply names_carried_iff noHost ()
  intro fi hfi
  apply isUtf8_ascii
  revert fi hfi
  decide +kernel

/-- Two names that differ inside a character: the second one is not sent. -/
theorem names_not_carried :
  ¬ NamesCarried noHost 31 0 {} true none none
    [entryNamed [0xC3, 0xA8] 0o100644, entryNamed [0xC3, 0xA9] 0o100644]
  := by
  rw [namesCarried_iff () rfl]
  · rintro ⟨-, hok, -⟩
    have hb := hok.boundary
    revert hb
    decide
  · intro fi hfi
    rcases List.mem_pair.mp hfi with rfl | rfl
    · simp [entryNamed, FileInfo.path, isUtf8, utf8Part, utf8Len, isSecond, isContinuation,
        continued]
    · simp [entryNamed, FileInfo.path, isUtf8, utf8Part, utf8Len, isSecond, isContinuation,
        continued]
