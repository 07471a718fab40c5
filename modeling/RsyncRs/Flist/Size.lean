import RsyncRs.Flist.Sorted

/-!
# How long a file list is on the wire

What an entry takes is its name, the target of its link, its checksum, and a bounded number of
bytes. A list takes what its entries take, and what marks its end.
-/

variable {X : Type} {Reply : X → Type} {H : Type}
  {answer : H → (x : X) → Option (Reply x × H)}

/-- The procedure writes at most `n` bytes and returns. -/
def EmitsAtMost (answer : H → (x : X) → Option (Reply x × H)) (n : ℕ) (p : Session Reply Unit) :
    Prop :=
  ∃ bs, Proc.Writes answer p bs () ∧ bs.length ≤ n

section Lengths

variable {n m : ℕ} {p q : Session Reply Unit}

theorem emitsAtMost_pure :
  EmitsAtMost answer 0 (pure () : Session Reply Unit)
  := ⟨[], Proc.writes_pure (), le_refl _⟩

theorem EmitsAtMost.bind
    (hp : EmitsAtMost answer n p) (hq : EmitsAtMost answer m q) :
  EmitsAtMost answer (n + m) (p >>= fun _ => q)
  := by
  obtain ⟨bs, hp, hbs⟩ := hp
  obtain ⟨cs, hq, hcs⟩ := hq
  refine ⟨bs ++ cs, hp.bind hq, ?_⟩
  rw [List.length_append]
  omega

theorem EmitsAtMost.mono
    (h : EmitsAtMost answer n p) (hle : n ≤ m) :
  EmitsAtMost answer m p
  := by
  obtain ⟨bs, hp, hbs⟩ := h
  exact ⟨bs, hp, hbs.trans hle⟩

theorem EmitsAtMost.ite
    {c : Prop} [Decidable c] (hp : EmitsAtMost answer n p) (hq : EmitsAtMost answer n q) :
  EmitsAtMost answer n (if c then p else q)
  := by
  split
  · exact hp
  · exact hq

/-- What may be left out takes no more. -/
theorem EmitsAtMost.ite_pure
    {c : Prop} [Decidable c] (hp : EmitsAtMost answer n p) :
  EmitsAtMost answer n (if c then p else pure ())
  := hp.ite (emitsAtMost_pure.mono (Nat.zero_le n))

theorem emitsAtMost_writeAll
    (bs : List UInt8) :
  EmitsAtMost answer bs.length (writeAll bs : Session Reply Unit)
  := ⟨bs, writes_writeAll bs, le_refl _⟩

theorem length_markedBytes_le
    (bs : List UInt8) (cnt : ℕ) (bit : UInt8) (least : ℕ) :
  (markedBytes bs cnt bit least).length ≤ cnt + 1
  := by
  unfold markedBytes
  dsimp only
  split_ifs
  · rw [List.length_cons, List.length_take]
    omega
  · rw [List.length_cons, List.length_take]
    omega
  · rw [List.length_cons, List.length_take]
    omega

theorem emitsAtMost_writeVarint
    (x : ℤ) :
  EmitsAtMost answer 5 (writeVarint x : Session Reply Unit)
  := by
  apply (emitsAtMost_writeAll _).mono
  apply (length_markedBytes_le _ _ _ _).trans
  have hle := significant_le (leBytes 4 x) 1 4
  omega

theorem emitsAtMost_writeVarlong
    (x : ℤ) (minBytes : ℕ) :
  EmitsAtMost answer 9 (writeVarlong x minBytes : Session Reply Unit)
  := by
  apply (emitsAtMost_writeAll _).mono
  apply (length_markedBytes_le _ _ _ _).trans
  have hle := significant_le (leBytes 8 x) minBytes 8
  omega

theorem emitsAtMost_writeInt
    (x : ℤ) :
  EmitsAtMost answer 4 (writeInt x : Session Reply Unit)
  := (emitsAtMost_writeAll _).mono (length_leBytes 4 x).le

/-- What an entry has after its name takes little room, but for the target of a link and the
checksum. -/
theorem emitsAtMost_writeFields
    (protocol checksumLen : ℕ) (preserve : Preserve) (xflags : ℕ) (fi : FileInfo) :
  EmitsAtMost answer (52 + (targetOf fi).length + (paddedChecksum checksumLen fi.checksum).length)
    (writeFields protocol checksumLen preserve xflags fi : Session Reply Unit)
  := by
  have hid : ∀ sent id, EmitsAtMost answer 5 (writeId protocol sent id : Session Reply Unit) := by
    intro sent id
    unfold writeId
    apply EmitsAtMost.ite_pure
    exact (emitsAtMost_writeVarint _).ite ((emitsAtMost_writeInt _).mono (by decide))
  have htime : EmitsAtMost answer 9 (writeModtime protocol xflags fi : Session Reply Unit) := by
    unfold writeModtime
    apply EmitsAtMost.ite (emitsAtMost_pure.mono (by decide))
    exact (emitsAtMost_writeVarlong _ _).ite ((emitsAtMost_writeInt _).mono (by decide))
  have hmode : EmitsAtMost answer 4 (writeMode xflags fi : Session Reply Unit) :=
    EmitsAtMost.ite (emitsAtMost_pure.mono (by decide)) (emitsAtMost_writeInt _)
  have hrdev : EmitsAtMost answer (5 + 5)
      (writeRdev protocol preserve fi : Session Reply Unit) := by
    unfold writeRdev
    apply EmitsAtMost.ite_pure
    apply EmitsAtMost.bind (emitsAtMost_writeVarint _)
    exact (emitsAtMost_writeVarint _).ite ((emitsAtMost_writeInt _).mono (by decide))
  have htarget : EmitsAtMost answer (5 + (targetOf fi).length)
      (writeTarget fi : Session Reply Unit) :=
    ((emitsAtMost_writeVarint _).bind (emitsAtMost_writeAll _)).ite_pure
  have hchecksum : EmitsAtMost answer (paddedChecksum checksumLen fi.checksum).length
      (writeChecksum checksumLen fi : Session Reply Unit) := (emitsAtMost_writeAll _).ite_pure
  have hnsec : EmitsAtMost answer 5 (writeModNsec xflags fi : Session Reply Unit) :=
    (emitsAtMost_writeVarint _).ite_pure
  apply EmitsAtMost.mono
  · exact (emitsAtMost_writeVarlong fi.size 3).bind (htime.bind (hnsec.bind (hmode.bind
      ((hid _ _).bind ((hid _ _).bind (hrdev.bind (htarget.bind hchecksum)))))))
  · omega

theorem emitsAtMost_writeXflags
    (varintFlags : Bool) (xflags : ℕ) :
  EmitsAtMost answer 5 (writeXflags varintFlags xflags : Session Reply Unit)
  := by
  unfold writeXflags
  split_ifs
  · exact emitsAtMost_writeVarint _
  · apply (emitsAtMost_writeAll _).mono
    rw [length_leBytes]
    decide
  · apply (emitsAtMost_writeAll _).mono
    rw [List.length_singleton]
    decide

theorem length_encodeName_le
    (prev : Option FileInfo) (fi : FileInfo) :
  (encodeName prev fi).length ≤ 6 + fi.path.length
  := by
  have hsame : (encodeSame (sameLen fi.path (prevName prev))).length ≤ 1 := by
    unfold encodeSame
    split
    · exact le_refl _
    · exact Nat.zero_le _
  have hlen : ∀ len, (encodeRestLen len).length ≤ 5 := by
    intro len
    unfold encodeRestLen
    split
    · apply (length_markedBytes_le _ _ _ _).trans
      have hle := significant_le (leBytes 4 (wrapI32 len)) 1 4
      omega
    · rw [List.length_singleton]
      decide
  have hrest := hlen (fi.path.length - sameLen fi.path (prevName prev))
  unfold encodeName
  rw [List.length_append, List.length_append, List.length_drop]
  omega

/-- The room that an entry takes at most. -/
def entryRoom (checksumLen : ℕ) (fi : FileInfo) : ℕ :=
  63 + fi.path.length + (targetOf fi).length + checksumLen

theorem emitsAtMost_sendFileEntry
    (protocol checksumLen : ℕ) (preserve : Preserve) (varintFlags : Bool) {prev : Option FileInfo}
    {fi : FileInfo} (hb : isCharBoundary fi.path (sameLen fi.path (prevName prev)) = true) :
  EmitsAtMost answer (entryRoom checksumLen fi)
    (sendFileEntry protocol checksumLen preserve varintFlags prev fi : Session Reply Unit)
  := by
  have hname : EmitsAtMost answer (6 + fi.path.length)
      (writeName (sentFlags protocol preserve varintFlags prev fi)
        (sameLen fi.path (prevName prev)) (fi.path.drop (sameLen fi.path (prevName prev))) :
        Session Reply Unit) :=
    ⟨_, writes_encodeName prev, length_encodeName_le prev fi⟩
  rw [sendFileEntry_eq hb]
  apply EmitsAtMost.mono
  · apply (emitsAtMost_writeXflags _ _).bind
    apply hname.bind
    apply EmitsAtMost.ite _ (emitsAtMost_writeFields protocol checksumLen preserve _ fi)
    apply (emitsAtMost_writeVarint _).mono
    omega
  · rw [length_paddedChecksum]
    unfold entryRoom
    omega

/-- Entries with names in ASCII take the room of each of them. -/
theorem writes_entries_le
    (answer : H → (x : X) → Option (Reply x × H)) (protocol checksumLen : ℕ) (preserve : Preserve)
    (varintFlags : Bool) (files : List FileInfo) (hascii : ∀ fi ∈ files, ∀ b ∈ fi.path, b < 0x80)
    (prev : Option FileInfo) :
  ∃ bs last, Proc.Writes answer
      (Proc.forEach (sendNext protocol checksumLen preserve varintFlags) prev files :
        Session Reply (Option FileInfo)) bs last ∧
    bs.length ≤ (files.map (entryRoom checksumLen)).sum
  := by
  induction files generalizing prev with
  | nil => exact ⟨[], prev, Proc.writes_pure prev, le_refl _⟩
  | cons fi files ih =>
      have hb : isCharBoundary fi.path (sameLen fi.path (prevName prev)) = true :=
        isCharBoundary_ascii (hascii fi (List.mem_cons_self ..)) (sameLen_le _ _).2.1
      obtain ⟨es, hentry, hes⟩ : EmitsAtMost answer (entryRoom checksumLen fi)
          (sendFileEntry protocol checksumLen preserve varintFlags prev fi : Session Reply Unit) :=
        emitsAtMost_sendFileEntry protocol checksumLen preserve varintFlags hb
      obtain ⟨bs, last, hentries, hbs⟩ := ih
        (fun f hf => hascii f (List.mem_cons_of_mem _ hf)) (some fi)
      refine ⟨es ++ bs, last, (hentry.map fun _ => some fi).bind hentries, ?_⟩
      rw [List.length_append, List.map_cons, List.sum_cons]
      omega

theorem emitsAtMost_end
    (answer : H → (x : X) → Option (Reply x × H)) (protocol : ℕ) (preserve : Preserve)
    (varintFlags incRecurse : Bool) (ioError : ℤ) :
  EmitsAtMost answer 20
    (do
      sendEndOfList protocol varintFlags ioError
      sendTrailer protocol preserve incRecurse ioError : Session Reply Unit)
  := by
  have hid : ∀ preserved, EmitsAtMost answer 5 (sendIdList preserved : Session Reply Unit) :=
    fun preserved => (emitsAtMost_writeVarint 0).ite_pure
  apply EmitsAtMost.bind (n := 10) (m := 10)
  · unfold sendEndOfList
    apply EmitsAtMost.ite
    · exact (emitsAtMost_writeVarint 0).bind (emitsAtMost_writeVarint ioError)
    · apply EmitsAtMost.ite
      · exact EmitsAtMost.mono ((emitsAtMost_writeAll _).bind (emitsAtMost_writeVarint ioError))
          (by decide)
      · exact (emitsAtMost_writeAll _).mono (by decide)
  · unfold sendTrailer
    apply EmitsAtMost.ite
    · exact (hid _).bind (hid _)
    · exact ((emitsAtMost_writeInt ioError).mono (by decide)).ite_pure

/-- A list with names in ASCII takes little more than the room of its entries. -/
theorem emitsAtMost_list
    (answer : H → (x : X) → Option (Reply x × H)) {flist : FileList} {order : List FileInfo}
    (horder : sendOrder flist = .ok order) (hascii : ∀ fi ∈ order, ∀ b ∈ fi.path, b < 0x80)
    (protocol checksumLen : ℕ) (ioError : ℤ) (preserve : Preserve) (compatFlags : ℕ) :
  EmitsAtMost answer ((order.map (entryRoom checksumLen)).sum + 20)
    (sendFileListEx flist protocol checksumLen ioError preserve compatFlags : Session Reply Unit)
  := by
  obtain ⟨bs, last, hentries, hbs⟩ := writes_entries_le answer protocol checksumLen preserve
    (hasFlag compatFlags cfVarintFlistFlags) order hascii none
  obtain ⟨cs, hend, hcs⟩ := emitsAtMost_end answer protocol preserve
    (hasFlag compatFlags cfVarintFlistFlags) (hasFlag compatFlags cfIncRecurse) ioError
  refine ⟨bs ++ cs, ?_, ?_⟩
  · unfold sendFileListEx
    dsimp only
    rw [lift_bind horder]
    exact hentries.bind hend
  · rw [List.length_append]
    omega

end Lengths
