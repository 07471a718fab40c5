import RsyncRs.Delta.Sums
import RsyncRs.Program.Frame

/-!
# Requests and replies

A request of the receiver and the reply of the sender start in the same way: the index of the
file, the item flags, and the fields that the flags announce. How they are coded depends on
the protocol.
-/

variable {X : Type} {Reply : X → Type} {H : Type}
  {answer : H → (x : X) → Option (Reply x × H)}

/-! ### Indices -/

/-- Read the index of a file. -/
def readIndex (protocol : ℕ) (rx : NdxState) : Session Reply (ℤ × NdxState) :=
  if 30 ≤ protocol then
    readNdx rx
  else do
    let ndx ← readInt
    pure (ndx, rx)

/-- The bytes of the index of a file, and the state of the coding after it. -/
def encodeIndex (protocol : ℕ) (tx : NdxState) (ndx : ℤ) : List UInt8 × NdxState :=
  if 30 ≤ protocol then encodeNdx tx ndx else (leBytes 4 ndx, tx)

/-- Write the index of a file. -/
def writeIndex (protocol : ℕ) (tx : NdxState) (ndx : ℤ) : Session Reply NdxState :=
  if 30 ≤ protocol then
    writeNdx tx ndx
  else do
    writeInt ndx
    pure tx

/-- Number of phases that the sender echoes. -/
def maxPhase (protocol : ℕ) : ℕ :=
  if 29 ≤ protocol then 2 else 1

/-! ### Item flags and optional fields -/

/-- Read the item flags. -/
def readIflags (protocol : ℕ) : Session Reply ℕ :=
  if 29 ≤ protocol then readShortint else pure itemTransfer

/-- Write the item flags. -/
def writeIflags (protocol : ℕ) (iflags : ℕ) : Session Reply Unit :=
  if 29 ≤ protocol then writeShortint iflags else pure ()

/-- The fields that follow the item flags. -/
structure ItemFields where
  /-- The kind of the basis. -/
  fnamecmpType : UInt8 := 0
  /-- The name of the basis. -/
  xname : Name := []
deriving DecidableEq, Repr

/-- Read the kind of the basis. -/
def readFnamecmpType (iflags : ℕ) : Session Reply UInt8 :=
  if iflags &&& itemBasisTypeFollows ≠ 0 then readByte else pure 0

/-- Read the name of the basis. A name that cannot be read is empty. -/
def readXname (iflags : ℕ) : Session Reply Name :=
  if iflags &&& itemXnameFollows ≠ 0 then do
    let xname ← okOrNone readVstring
    pure (xname.getD [])
  else
    pure []

/-- Read the fields that follow the item flags. -/
def readItemFields (iflags : ℕ) : Session Reply ItemFields := do
  let fnamecmpType ← readFnamecmpType iflags
  let xname ← readXname iflags
  pure { fnamecmpType, xname }

/-- Write the kind of the basis. -/
def writeFnamecmpType (iflags : ℕ) (fnamecmpType : UInt8) : Session Reply Unit :=
  if iflags &&& itemBasisTypeFollows ≠ 0 then writeByte fnamecmpType else pure ()

/-- Write the name of the basis. -/
def writeXname (iflags : ℕ) (xname : Name) : Session Reply Unit :=
  if iflags &&& itemXnameFollows ≠ 0 then writeVstring xname else pure ()

/-- Write the fields that follow the item flags. -/
def writeItemFields (iflags : ℕ) (fields : ItemFields) : Session Reply Unit := do
  writeFnamecmpType iflags fields.fnamecmpType
  writeXname iflags fields.xname

/-! ### What is read is what was written -/

theorem writes_writeIndex
    (protocol : ℕ) (tx : NdxState) (ndx : ℤ) :
  Proc.Writes answer (writeIndex protocol tx ndx : Session Reply NdxState)
    (encodeIndex protocol tx ndx).1 (encodeIndex protocol tx ndx).2
  := by
  unfold writeIndex encodeIndex
  by_cases h : 30 ≤ protocol
  · rw [if_pos h, if_pos h]
    apply writes_writeNdx
  · rw [if_neg h, if_neg h]
    apply (writes_writeInt ndx).map

/-- Reading the bytes of an index gives it back, and both sides of the coding stay in the
same state. -/
theorem reads_readIndex
    (protocol : ℕ) (s : NdxState) {ndx : ℤ} (h₁ : -2147483648 < ndx) (h₂ : ndx < 2147483648) :
  Proc.Reads answer (readIndex protocol s : Session Reply (ℤ × NdxState))
    (encodeIndex protocol s ndx).1 (ndx, (encodeIndex protocol s ndx).2)
  := by
  unfold readIndex encodeIndex
  by_cases h : 30 ≤ protocol
  · rw [if_pos h, if_pos h]
    apply reads_readNdx s h₁ h₂
  · rw [if_neg h, if_neg h]
    apply (reads_readInt ⟨by omega, h₂⟩).map fun ndx => (ndx, s)

/-- The bytes of the item flags. -/
def encodeIflags (protocol : ℕ) (iflags : ℕ) : List UInt8 :=
  if 29 ≤ protocol then leBytes 2 iflags else []

theorem writes_writeIflags
    (protocol iflags : ℕ) :
  Proc.Writes answer (writeIflags protocol iflags : Session Reply Unit)
    (encodeIflags protocol iflags) ()
  := by
  unfold writeIflags encodeIflags
  by_cases h : 29 ≤ protocol
  · rw [if_pos h, if_pos h]
    apply writes_writeAll
  · rw [if_neg h, if_neg h]
    apply Proc.writes_pure

/-- Reading the bytes of the item flags gives them back where there are any. -/
theorem reads_readIflags
    (protocol : ℕ) {iflags : ℕ} (h : iflags < 65536) (hp : protocol < 29 → iflags = itemTransfer) :
  Proc.Reads answer (readIflags protocol : Session Reply ℕ) (encodeIflags protocol iflags) iflags
  := by
  unfold readIflags encodeIflags
  by_cases hp' : 29 ≤ protocol
  · rw [if_pos hp', if_pos hp']
    apply reads_readShortint h
  · rw [if_neg hp', if_neg hp', hp (by omega)]
    apply Proc.reads_pure

/-! ### Steps that only read -/

theorem onlyReads_readBytes
    (n : ℕ) :
  Proc.OnlyReads (readBytes n : Session Reply (List UInt8))
  := Proc.onlyReads_readExact _ n

theorem onlyReads_readByte :
  Proc.OnlyReads (readByte : Session Reply UInt8)
  := Proc.onlyReads_read _

theorem onlyReads_readInt :
  Proc.OnlyReads (readInt : Session Reply ℤ)
  := (onlyReads_readBytes 4).bind fun _ => trivial

theorem onlyReads_readShortint :
  Proc.OnlyReads (readShortint : Session Reply ℕ)
  := (onlyReads_readBytes 2).bind fun _ => trivial

theorem onlyReads_okOrNone
    {α : Type} {p : Session Reply α} (hp : Proc.OnlyReads p) :
  Proc.OnlyReads (okOrNone p)
  := by
  apply hp.attempt.bind
  intro r
  rcases r with (_ | _ | _ | _ | _) | a
  all_goals trivial

theorem onlyReads_lift
    {α : Type} (e : Except Error α) :
  Proc.OnlyReads (liftM e : Session Reply α)
  := by
  cases e with
  | ok a => trivial
  | error e => trivial

theorem onlyReads_readNdxNumber
    (first : UInt8) :
  Proc.OnlyReads (readNdxNumber first : Session Reply (Bool × ℤ))
  := by
  unfold readNdxNumber
  by_cases h : first = 0xFE
  · rw [if_pos h]
    apply onlyReads_readByte.bind
    intro hi
    apply onlyReads_readByte.bind
    intro lo
    by_cases hm : hi &&& 0x80 ≠ 0
    · rw [if_pos hm]
      apply onlyReads_readByte.bind
      intro b1
      apply onlyReads_readByte.bind
      intro b2
      apply Proc.onlyReads_pure
    · rw [if_neg hm]
      apply Proc.onlyReads_pure
  · rw [if_neg h]
    apply Proc.onlyReads_pure

theorem onlyReads_readNdx
    (s : NdxState) :
  Proc.OnlyReads (readNdx s : Session Reply (ℤ × NdxState))
  := by
  apply onlyReads_readByte.bind
  intro b0
  by_cases h0 : b0 = 0x00
  · rw [if_pos h0]
    apply Proc.onlyReads_pure
  rw [if_neg h0]
  by_cases hff : b0 = 0xFF
  · rw [if_pos hff]
    apply onlyReads_readByte.bind
    intro first
    apply (onlyReads_readNdxNumber first).bind
    intro raw
    apply Proc.onlyReads_pure
  · rw [if_neg hff]
    apply (onlyReads_readNdxNumber b0).bind
    intro raw
    apply Proc.onlyReads_pure

theorem onlyReads_readIndex
    (protocol : ℕ) (s : NdxState) :
  Proc.OnlyReads (readIndex protocol s : Session Reply (ℤ × NdxState))
  := by
  unfold readIndex
  by_cases h : 30 ≤ protocol
  · rw [if_pos h]
    apply onlyReads_readNdx
  · rw [if_neg h]
    apply onlyReads_readInt.bind
    intro ndx
    apply Proc.onlyReads_pure

theorem onlyReads_readIflags
    (protocol : ℕ) :
  Proc.OnlyReads (readIflags protocol : Session Reply ℕ)
  := by
  unfold readIflags
  by_cases h : 29 ≤ protocol
  · rw [if_pos h]
    apply onlyReads_readShortint
  · rw [if_neg h]
    apply Proc.onlyReads_pure

theorem onlyReads_readVstring :
  Proc.OnlyReads (readVstring : Session Reply (List UInt8))
  := by
  apply onlyReads_readByte.bind
  intro b0
  have hrest : ∀ n, Proc.OnlyReads (do
      let bs ← readBytes n
      pure (fromUtf8Lossy bs) : Session Reply (List UInt8)) := by
    intro n
    apply (onlyReads_readBytes n).bind
    intro bs
    apply Proc.onlyReads_pure
  split
  · apply onlyReads_readByte.bind
    intro b1
    apply hrest
  · apply hrest

theorem onlyReads_readItemFields
    (iflags : ℕ) :
  Proc.OnlyReads (readItemFields iflags : Session Reply ItemFields)
  := by
  have htype : Proc.OnlyReads (readFnamecmpType iflags : Session Reply UInt8) := by
    unfold readFnamecmpType
    by_cases h : iflags &&& itemBasisTypeFollows ≠ 0
    · rw [if_pos h]
      apply onlyReads_readByte
    · rw [if_neg h]
      apply Proc.onlyReads_pure
  have hname : Proc.OnlyReads (readXname iflags : Session Reply Name) := by
    unfold readXname
    by_cases h : iflags &&& itemXnameFollows ≠ 0
    · rw [if_pos h]
      apply (onlyReads_okOrNone onlyReads_readVstring).bind
      intro xname
      apply Proc.onlyReads_pure
    · rw [if_neg h]
      apply Proc.onlyReads_pure
  apply htype.bind
  intro fnamecmpType
  apply hname.bind
  intro xname
  apply Proc.onlyReads_pure

theorem onlyReads_readSumHead :
  Proc.OnlyReads (readSumHead : Session Reply SumHead)
  := by
  apply onlyReads_readInt.bind
  intro count
  apply onlyReads_readInt.bind
  intro blength
  apply onlyReads_readInt.bind
  intro s2length
  apply onlyReads_readInt.bind
  intro remainder
  apply Proc.onlyReads_pure

theorem onlyReads_readSumBufs
    (head : SumHead) :
  Proc.OnlyReads (readSumBufs head : Session Reply (List SumBuf))
  := by
  have key : ∀ n offset,
      Proc.OnlyReads (readSumBufsFrom head n offset : Session Reply (List SumBuf)) := by
    intro n
    induction n with
    | zero =>
        intro offset
        apply Proc.onlyReads_pure
    | succ n ih =>
        intro offset
        apply onlyReads_readInt.bind
        intro sum1
        apply (onlyReads_lift _).bind
        intro _
        apply (onlyReads_readBytes _).bind
        intro sum2
        apply (ih _).bind
        intro sums
        apply Proc.onlyReads_pure
  apply (onlyReads_lift _).bind
  intro _
  apply key

/-! ### Steps that only write -/

theorem onlyWrites_writeAll
    (bs : List UInt8) :
  Proc.OnlyWrites (writeAll bs : Session Reply Unit)
  := Proc.onlyWrites_write _ bs

theorem onlyWrites_writeIndex
    (protocol : ℕ) (tx : NdxState) (ndx : ℤ) :
  Proc.OnlyWrites (writeIndex protocol tx ndx : Session Reply NdxState)
  := by
  unfold writeIndex
  by_cases h : 30 ≤ protocol
  · rw [if_pos h]
    apply (onlyWrites_writeAll _).bind
    intro _
    apply Proc.onlyWrites_pure
  · rw [if_neg h]
    apply (onlyWrites_writeAll _).bind
    intro _
    apply Proc.onlyWrites_pure

theorem onlyWrites_writeIflags
    (protocol iflags : ℕ) :
  Proc.OnlyWrites (writeIflags protocol iflags : Session Reply Unit)
  := by
  unfold writeIflags
  by_cases h : 29 ≤ protocol
  · rw [if_pos h]
    apply onlyWrites_writeAll
  · rw [if_neg h]
    apply Proc.onlyWrites_pure

theorem onlyWrites_writeVstring
    (s : List UInt8) :
  Proc.OnlyWrites (writeVstring s : Session Reply Unit)
  := by
  have hrest : Proc.OnlyWrites
      (if 0 < s.length then writeAll s else pure () : Session Reply Unit) := by
    by_cases hs : 0 < s.length
    · rw [if_pos hs]
      apply onlyWrites_writeAll
    · rw [if_neg hs]
      apply Proc.onlyWrites_pure
  unfold writeVstring
  by_cases h : 0x7FFF < s.length
  · rw [if_pos h]
    apply Proc.onlyWrites_throw
  rw [if_neg h]
  by_cases hs : 0x7F < s.length
  · rw [if_pos hs]
    apply (onlyWrites_writeAll _).bind fun _ => hrest
  · rw [if_neg hs]
    apply (onlyWrites_writeAll _).bind fun _ => hrest

/-- A name that is too long is not written. -/
theorem fails_writeItemFields
    {closed : Bool} {iflags : ℕ} (hf : iflags &&& itemXnameFollows ≠ 0) {fields : ItemFields}
    (h : 0x7FFF < fields.xname.length) (w : Endpoint H UInt8) :
  ∃ m w', Proc.Fails answer closed (writeItemFields iflags fields : Session Reply Unit) w
    (.other m) w'
  := by
  have hname : ∀ v : Endpoint H UInt8, ∃ m, Proc.Fails answer closed
      (writeXname iflags fields.xname : Session Reply Unit) v (.other m) v := by
    intro v
    apply Exists.intro
    unfold writeXname writeVstring
    rw [if_pos hf, if_pos h]
    apply Prog.Ends.ret
  have htype : ∃ bs, Proc.Writes answer
      (writeFnamecmpType iflags fields.fnamecmpType : Session Reply Unit) bs () := by
    unfold writeFnamecmpType
    by_cases hb : iflags &&& itemBasisTypeFollows ≠ 0
    · rw [if_pos hb]
      exact ⟨_, writes_writeAll _⟩
    · rw [if_neg hb]
      exact ⟨_, Proc.writes_pure _⟩
  obtain ⟨bs, hw⟩ := htype
  obtain ⟨m, hm⟩ := hname { w with buffer := w.buffer ++ bs }
  use m, { w with buffer := w.buffer ++ bs }
  apply (hw closed w).bind_fails hm

theorem onlyWrites_writeItemFields
    (iflags : ℕ) (fields : ItemFields) :
  Proc.OnlyWrites (writeItemFields iflags fields : Session Reply Unit)
  := by
  have htype : Proc.OnlyWrites
      (writeFnamecmpType iflags fields.fnamecmpType : Session Reply Unit) := by
    unfold writeFnamecmpType
    by_cases h : iflags &&& itemBasisTypeFollows ≠ 0
    · rw [if_pos h]
      apply onlyWrites_writeAll
    · rw [if_neg h]
      apply Proc.onlyWrites_pure
  apply htype.bind
  intro _
  unfold writeXname
  by_cases h : iflags &&& itemXnameFollows ≠ 0
  · rw [if_pos h]
    apply onlyWrites_writeVstring
  · rw [if_neg h]
    apply Proc.onlyWrites_pure

/-- The bytes of the fields that follow the item flags. -/
def encodeItemFields (iflags : ℕ) (fields : ItemFields) : List UInt8 :=
  (if iflags &&& itemBasisTypeFollows ≠ 0 then [fields.fnamecmpType] else []) ++
    if iflags &&& itemXnameFollows ≠ 0 then encodeVstring fields.xname else []

theorem writes_writeItemFields
    (iflags : ℕ) {fields : ItemFields} (h : fields.xname.length ≤ 0x7FFF) :
  Proc.Writes answer (writeItemFields iflags fields : Session Reply Unit)
    (encodeItemFields iflags fields) ()
  := by
  have hname : Proc.Writes answer (writeXname iflags fields.xname : Session Reply Unit)
      (if iflags &&& itemXnameFollows ≠ 0 then encodeVstring fields.xname else []) () := by
    unfold writeXname
    by_cases hx : iflags &&& itemXnameFollows ≠ 0
    · rw [if_pos hx, if_pos hx]
      apply writes_writeVstring h
    · rw [if_neg hx, if_neg hx]
      apply Proc.writes_pure
  have htype : Proc.Writes answer
      (writeFnamecmpType iflags fields.fnamecmpType : Session Reply Unit)
      (if iflags &&& itemBasisTypeFollows ≠ 0 then [fields.fnamecmpType] else []) () := by
    unfold writeFnamecmpType
    by_cases hb : iflags &&& itemBasisTypeFollows ≠ 0
    · rw [if_pos hb, if_pos hb]
      apply writes_writeAll
    · rw [if_neg hb, if_neg hb]
      apply Proc.writes_pure
  apply htype.bind hname

/-! ### What is read from a channel is in range -/

section InRange

variable {closed : Bool} {w w' : Endpoint H UInt8}

theorem length_of_readBytes
    {n : ℕ} {bs : List UInt8}
    (h : Proc.Returns answer closed (readBytes n : Session Reply _) w bs w') :
  bs.length = n
  := by
  unfold readBytes at h
  induction n generalizing w w' bs with
  | zero =>
      obtain ⟨h, -⟩ := Prog.Ends.of_ret h
      cases h
      rfl
  | succ n ih =>
      obtain ⟨b, w₁, -, h⟩ := h.bind_inv
      obtain ⟨cs, w₂, hcs, h⟩ := h.bind_inv
      obtain ⟨h, -⟩ := Prog.Ends.of_ret h
      cases h
      rw [List.length_cons, ih hcs]

theorem isI32_of_readInt
    {x : ℤ} (h : Proc.Returns answer closed (readInt : Session Reply ℤ) w x w') :
  IsI32 x
  := by
  obtain ⟨bs, w₁, -, h⟩ := h.bind_inv
  obtain ⟨h, -⟩ := Prog.Ends.of_ret h
  rw [Except.ok.inj h]
  apply isI32_wrapI32

theorem inRange_of_readSumHead
    {head : SumHead}
    (h : Proc.Returns answer closed (readSumHead : Session Reply SumHead) w head w') :
  head.InRange
  := by
  obtain ⟨count, w₁, hcount, h⟩ := h.bind_inv
  obtain ⟨blength, w₂, hblength, h⟩ := h.bind_inv
  obtain ⟨s2length, w₃, hs2length, h⟩ := h.bind_inv
  obtain ⟨remainder, w₄, hremainder, h⟩ := h.bind_inv
  obtain ⟨h, -⟩ := Prog.Ends.of_ret h
  cases h
  constructor
  · apply isI32_of_readInt hcount
  · apply isI32_of_readInt hblength
  · apply isI32_of_readInt hs2length
  · apply isI32_of_readInt hremainder

theorem iflags_of_readIflags
    {protocol iflags : ℕ}
    (h : Proc.Returns answer closed (readIflags protocol : Session Reply ℕ) w iflags w') :
  iflags < 65536 ∧ (protocol < 29 → iflags = itemTransfer)
  := by
  unfold readIflags at h
  by_cases hp : 29 ≤ protocol
  · rw [if_pos hp] at h
    obtain ⟨bs, w₁, hbs, h⟩ := h.bind_inv
    obtain ⟨h, -⟩ := Prog.Ends.of_ret h
    cases h
    constructor
    · have hlt := ofLeBytes_lt bs
      rw [length_of_readBytes hbs] at hlt
      apply hlt
    · intro hlt
      omega
  · rw [if_neg hp] at h
    obtain ⟨h, -⟩ := Prog.Ends.of_ret h
    cases h
    apply And.intro (by decide) fun _ => rfl

/-- A name that is not announced is empty. -/
theorem xname_of_readItemFields
    {iflags : ℕ} (hx : iflags &&& itemXnameFollows = 0) {fields : ItemFields}
    (h : Proc.Returns answer closed (readItemFields iflags : Session Reply _) w fields w') :
  fields.xname = []
  := by
  obtain ⟨fnamecmpType, w₁, -, h⟩ := h.bind_inv
  obtain ⟨xname, w₂, hname, h⟩ := h.bind_inv
  unfold readXname at hname
  rw [if_neg (not_not.mpr hx)] at hname
  obtain ⟨hname, -⟩ := Prog.Ends.of_ret hname
  obtain ⟨h, -⟩ := Prog.Ends.of_ret h
  cases hname
  cases h
  rfl

end InRange
