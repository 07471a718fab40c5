import RsyncRs.Pipeline.Sender

/-!
# Requests for files that cannot be sent

A request for the data of a file reaches the sender as bytes, and the sender answers it in
one round of its loop. When the file cannot be sent, the reply is an echo of the request and
a few fixed bytes.
-/

variable {H : Type}

namespace Sender

variable {answer : H → (x : FsCall) → Option (FsReply x × H)} {closed : Bool}
  {dig : Digests} {F : Flate} {args : SenderArgs}

/-! ### Requests in the input -/

/-- A request for the data of a file. -/
structure Request where
  /-- The index of the file. -/
  ndx : ℤ
  /-- Item flags. -/
  iflags : ℕ
  /-- The fields that follow the flags. -/
  fields : ItemFields
  /-- What is sent ahead of the checksums of the receiver's file. -/
  head : SumHead
deriving DecidableEq, Repr

/-- Read a request for the data of a file, if the input starts with one. -/
def readRequest (protocol : ℕ) (rx : NdxState) : Session FsReply (Option Request) := do
  let (ndx, _) ← readIndex protocol rx
  if ndx = ndxDone then
    pure none
  else
    let iflags ← readIflags protocol
    let fields ← readItemFields iflags
    if iflags &&& itemTransfer = 0 then
      pure none
    else
      let head ← readSumHead
      let _ ← readSumBufs head
      pure (some { ndx, iflags, fields, head })

/-- The file with the index `ndx` cannot be sent: it is not listed, it is not a regular file,
or it cannot be read. -/
def Unsendable (answer : H → (x : FsCall) → Option (FsReply x × H)) (args : SenderArgs) (h : H)
    (ndx : ℤ) : Prop :=
  match args.flist.getByNdx ndx with
  | none => True
  | some fi => fi.isRegular = false ∨
      ∃ e h', answer h (.readFile (args.baseDir.join fi.path)) = some (.error e, h')

/-- The next request asks for the data of a file that cannot be sent, and it can be echoed. -/
def Unservable (answer : H → (x : FsCall) → Option (FsReply x × H)) (closed : Bool)
    (args : SenderArgs) (s : Sender) (w : Endpoint H UInt8) : Prop :=
  ∃ req w', Proc.Returns answer closed (readRequest args.protocol s.rx) w (some req) w' ∧
    req.fields.xname.length ≤ 0x7FFF ∧ Unsendable answer args w.host req.ndx

/-- The bytes of a request for the data of a file, as a receiver sends it. -/
def encodeRequest (protocol : ℕ) (tx : NdxState) (ndx : ℤ) (head : SumHead)
    (sums : List SumBuf) : List UInt8 :=
  (encodeIndex protocol tx ndx).1 ++ (encodeIflags protocol itemTransfer ++
    (encodeSumHead head ++ encodeSumBufs sums))

theorem reads_readItemFields :
  Proc.Reads answer (readItemFields itemTransfer : Session FsReply ItemFields) [] {}
  := by
  have htype : (readFnamecmpType itemTransfer : Session FsReply UInt8) = pure 0 := rfl
  have hname : (readXname itemTransfer : Session FsReply Name) = pure [] := rfl
  rw [readItemFields, htype, hname]
  apply Proc.reads_pure

/-- A request of a receiver is read as it was written. -/
theorem reads_readRequest
    (protocol : ℕ) (rx : NdxState) {ndx : ℤ} (h₁ : -2147483648 < ndx) (h₂ : ndx < 2147483648)
    (hd : ndx ≠ ndxDone) {head : SumHead} (hhead : head.InRange) {sums : List SumBuf}
    (hsums : Proc.Reads answer (readSumBufs head : Session FsReply _) (encodeSumBufs sums) sums) :
  Proc.Reads answer (readRequest protocol rx) (encodeRequest protocol rx ndx head sums)
    (some { ndx, iflags := itemTransfer, fields := {}, head })
  := by
  apply (reads_readIndex protocol rx h₁ h₂).bind
  dsimp only
  rw [if_neg hd]
  have hi : itemTransfer < 65536 := by decide
  apply (reads_readIflags protocol hi fun _ => rfl).bind
  rw [← List.nil_append (encodeSumHead head ++ _)]
  apply reads_readItemFields.bind
  rw [if_neg (by decide)]
  apply (reads_readSumHead hhead).bind
  apply hsums.map

/-! ### Replies -/

/-- What the sender echoes ahead of a reply. -/
def encodeEcho (protocol : ℕ) (tx : NdxState) (ndx : ℤ) (iflags : ℕ) (fields : ItemFields) :
    List UInt8 :=
  (encodeIndex protocol tx ndx).1 ++ (encodeIflags protocol iflags ++
    encodeItemFields iflags fields)

/-- What stands for the reply when a file cannot be sent. -/
def skippedXfer (head : SumHead) : List UInt8 :=
  encodeSumHead head ++ (leBytes 4 0 ++ List.replicate 16 0)

theorem writes_sendSkippedXfer
    (head : SumHead) :
  Proc.Writes answer (sendSkippedXfer head : Session FsReply Unit) (skippedXfer head) ()
  := (writes_writeSumHead head).bind ((writes_writeInt 0).bind (writes_writeAll _))

/-! ### Rounds -/

/-- What the sender has written for a file that it cannot send is in the buffer. -/
theorem returns_sendFile_of_unsendable
    (closed : Bool) (dig : Digests) (F : Flate) (s : Sender) {ndx : ℤ} (head : SumHead)
    (sums : List SumBuf) (w : Endpoint H UInt8)
    (hsend : Unsendable answer args w.host ndx) :
  ∃ h', Proc.Returns answer closed (sendFile dig F args s ndx head sums) w s
    { w with host := h', buffer := w.buffer ++ skippedXfer head }
  := by
  have hskip : ∀ v : Endpoint H UInt8, Proc.Returns answer closed
      (do sendSkippedXfer head; pure s : Session FsReply Sender) v s
      { v with buffer := v.buffer ++ skippedXfer head } := by
    intro v
    apply ((writes_sendSkippedXfer head).map fun _ => s) closed v
  unfold sendFile
  unfold Unsendable at hsend
  cases hfi : args.flist.getByNdx ndx with
  | none =>
      use w.host
      apply hskip
  | some fi =>
      rw [hfi] at hsend
      dsimp only at hsend ⊢
      by_cases hreg : fi.isRegular = false
      · use w.host
        rw [if_pos (by simp [hreg])]
        apply hskip
      · rw [if_neg (by simpa using hreg)]
        obtain ⟨e, h', hans⟩ := hsend.resolve_left hreg
        use h'
        apply Proc.Returns.bind (Proc.returns_host hans)
        exact hskip { w with host := h' }

/-- A round that answers a request for the data of a file. -/
theorem returns_round
    (dig : Digests) (F : Flate) {s : Sender} {w w' : Endpoint H UInt8} {req : Request}
    (h : Proc.Returns answer closed (readRequest args.protocol s.rx) w (some req) w')
    (hx : req.fields.xname.length ≤ 0x7FFF) :
  ∃ rx sums, ∀ s' w'',
    Proc.Returns answer closed
      (sendFile dig F args
        { s with rx := rx, tx := (encodeIndex args.protocol s.tx req.ndx).2 }
        req.ndx req.head sums)
      { w with input := w'.input,
               buffer := w.buffer ++ encodeEcho args.protocol s.tx req.ndx req.iflags req.fields }
      s' w'' →
    Proc.Returns answer closed (round dig F args s) w (.inl s') w''
  := by
  obtain ⟨⟨ndx, rx⟩, w₁, hndx, h⟩ := h.bind_inv
  obtain ⟨hw₁, -⟩ := (onlyReads_readIndex _ _).frame hndx
  dsimp only at h
  by_cases hd : ndx = ndxDone
  · rw [if_pos hd] at h
    cases (Prog.Ends.of_ret h).1
  rw [if_neg hd] at h
  obtain ⟨iflags, w₂, hiflags, h⟩ := h.bind_inv
  obtain ⟨hw₂, -⟩ := (onlyReads_readIflags _).frame hiflags
  obtain ⟨fields, w₃, hfields, h⟩ := h.bind_inv
  obtain ⟨hw₃, -⟩ := (onlyReads_readItemFields _).frame hfields
  by_cases ht : iflags &&& itemTransfer = 0
  · rw [if_pos ht] at h
    cases (Prog.Ends.of_ret h).1
  rw [if_neg ht] at h
  obtain ⟨head, w₄, hhead, h⟩ := h.bind_inv
  obtain ⟨hw₄, hhead'⟩ := onlyReads_readSumHead.frame hhead
  obtain ⟨sums, w₅, hsums, h⟩ := h.bind_inv
  obtain ⟨hw₅, hsums'⟩ := (onlyReads_readSumBufs _).frame hsums
  obtain ⟨he, rfl⟩ := Prog.Ends.of_ret h
  cases he
  use rx, sums
  intro s' w'' hsend
  apply hndx.bind
  dsimp only
  rw [if_neg hd]
  refine Proc.Returns.bind ?_ (Proc.returns_pure _ _)
  apply hiflags.bind
  apply hfields.bind
  have hecho : w₃.buffer = w.buffer := by
    rw [hw₃, hw₂, hw₁]
  apply (writes_writeIndex _ _ _ _ w₃).bind
  apply (writes_writeIflags _ _ _ _).bind
  apply (writes_writeItemFields _ hx _ _).bind
  rw [if_neg ht]
  dsimp only
  refine Proc.Returns.bind (hhead' _ (by rfl)) ?_
  refine Proc.Returns.bind (hsums' _ (by rfl)) ?_
  have hw : w₃.host = w.host ∧ w₃.sent = w.sent := by
    rw [hw₃, hw₂, hw₁]
    apply And.intro rfl rfl
  simp only [hecho, hw.1, hw.2, List.append_assoc]
  apply hsend

end Sender
