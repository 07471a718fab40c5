import RsyncRs.Delta.StoredFlate
import RsyncRs.Pipeline.Request

/-!
# Unflushed replies

A receiver waits for the reply to a request before it sends the next one, so the sender must
not wait for a request while a part of a reply is still in its buffer. That is so as long as
it can send every file that is requested: what stands for a file that it cannot send is
written and not flushed.
-/

variable {H : Type}

namespace Sender

variable {answer : H → (x : FsCall) → Option (FsReply x × H)} {closed : Bool}
  {dig : Digests} {F : Flate} {args : SenderArgs}

/-! ### The buffer after a round -/

/-- After a flush the buffer is empty. -/
theorem buffer_of_flushOk
    {α : Type} {a b : α} {w w' : Endpoint H UInt8}
    (h : Proc.Returns answer closed (do flushOk; pure a : Session FsReply α) w b w') :
  w'.buffer = []
  := by
  have hflush : Proc.Returns answer closed (flushOk : Session FsReply Unit) w ()
      { w with buffer := [], sent := w.sent ++ w.buffer } := returns_flushOk closed w
  have hw := (Proc.Returns.unique (hflush.bind (Proc.returns_pure a _)) h).2
  rw [hw]

/-- When the data of a file have been sent, the buffer is empty. -/
theorem buffer_of_sendData
    {head : SumHead} {sums : List SumBuf} {data : List UInt8} {w w' : Endpoint H UInt8}
    (h : Proc.Returns answer closed (sendData dig F args head sums data) w () w') :
  w'.buffer = []
  := by
  obtain ⟨ops, w₁, -, h⟩ := h.bind_inv
  obtain ⟨_, w₂, -, h⟩ := h.bind_inv
  obtain ⟨_, w₃, -, h⟩ := h.bind_inv
  obtain ⟨_, w₄, -, h⟩ := h.bind_inv
  apply buffer_of_flushOk (h.bind (Proc.returns_pure () _))

/-- When a file that can be sent has been sent, the buffer is empty. -/
theorem buffer_of_sendFile
    {s s' : Sender} {ndx : ℤ} {head : SumHead} {sums : List SumBuf} {w w' : Endpoint H UInt8}
    (hsend : ¬ Unsendable answer args w.host ndx)
    (h : Proc.Returns answer closed (sendFile dig F args s ndx head sums) w s' w') :
  w'.buffer = []
  := by
  unfold sendFile at h
  unfold Unsendable at hsend
  cases hfi : args.flist.getByNdx ndx with
  | none =>
      rw [hfi] at hsend
      cases hsend trivial
  | some fi =>
      rw [hfi] at h hsend
      dsimp only at h hsend
      obtain ⟨hreg, hread⟩ := not_or.mp hsend
      rw [if_neg (by simpa using hreg)] at h
      obtain ⟨r, w₁, hr, h⟩ := h.bind_inv
      cases r with
      | ok data =>
          obtain ⟨_, w₂, hdata, h⟩ := h.bind_inv
          obtain ⟨-, rfl⟩ := Prog.Ends.of_ret h
          apply buffer_of_sendData hdata
      | error e =>
          -- the host has answered with an error
          exfalso
          apply hread
          obtain ⟨h', hans, -⟩ := Proc.Returns.host_inv hr
          use e, h', hans

/-! ### Rounds -/

/-- A name that has been echoed is not too long. -/
theorem length_xname_le
    {iflags : ℕ} {fields : ItemFields} {v v' w w' : Endpoint H UInt8}
    (hr : Proc.Returns answer closed (readItemFields iflags : Session FsReply _) v fields v')
    (hw : Proc.Returns answer closed (writeItemFields iflags fields : Session FsReply _) w () w') :
  fields.xname.length ≤ 0x7FFF
  := by
  by_cases hx : iflags &&& itemXnameFollows ≠ 0
  · obtain ⟨_, w₁, -, hw⟩ := hw.bind_inv
    unfold writeXname at hw
    rw [if_pos hx, writeVstring] at hw
    by_contra hlen
    rw [if_pos (by omega)] at hw
    cases (Prog.Ends.of_ret hw).1
  · obtain ⟨fnamecmpType, v₁, -, hr⟩ := hr.bind_inv
    obtain ⟨xname, v₂, hname, hr⟩ := hr.bind_inv
    unfold readXname at hname
    rw [if_neg hx] at hname
    obtain ⟨hname, -⟩ := Prog.Ends.of_ret hname
    obtain ⟨hr, -⟩ := Prog.Ends.of_ret hr
    cases hname
    cases hr
    apply Nat.zero_le

/-- A round in which the loop goes on leaves the buffer empty, or it has answered a request
for the data of a file. -/
theorem round_cases
    {s s' : Sender} {w w' : Endpoint H UInt8}
    (h : Proc.Returns answer closed (round dig F args s) w (.inl s') w') :
  w'.buffer = [] ∨
    ∃ req v s₁ sums w₁, Proc.Returns answer closed (readRequest args.protocol s.rx) w (some req) v ∧
      req.fields.xname.length ≤ 0x7FFF ∧ w₁.host = w.host ∧
      Proc.Returns answer closed (sendFile dig F args s₁ req.ndx req.head sums) w₁ s' w'
  := by
  obtain ⟨⟨ndx, rx⟩, w₁, hndx, h⟩ := h.bind_inv
  obtain ⟨hw₁, -⟩ := (onlyReads_readIndex _ _).frame hndx
  dsimp only at h
  by_cases hd : ndx = ndxDone
  · -- the mark that ends a phase
    rw [if_pos hd] at h
    unfold endPhase at h
    by_cases hp : maxPhase args.protocol < s.phase + 1
    · rw [if_pos hp] at h
      cases (Prog.Ends.of_ret h).1
    · rw [if_neg hp] at h
      obtain ⟨tx, w₂, -, h⟩ := h.bind_inv
      left
      apply buffer_of_flushOk h
  rw [if_neg hd] at h
  obtain ⟨s₂, w₂, h, hret⟩ := h.bind_inv
  obtain ⟨he, rfl⟩ := Prog.Ends.of_ret hret
  cases he
  obtain ⟨iflags, w₃, hiflags, h⟩ := h.bind_inv
  obtain ⟨hw₃, -⟩ := (onlyReads_readIflags _).frame hiflags
  obtain ⟨fields, w₄, hfields, h⟩ := h.bind_inv
  obtain ⟨hw₄, -⟩ := (onlyReads_readItemFields _).frame hfields
  obtain ⟨tx, w₅, htx, h⟩ := h.bind_inv
  obtain ⟨bs₅, hw₅, -⟩ := (onlyWrites_writeIndex _ _ _).frame htx
  obtain ⟨_, w₆, hflags, h⟩ := h.bind_inv
  obtain ⟨bs₆, hw₆, -⟩ := (onlyWrites_writeIflags _ _).frame hflags
  obtain ⟨_, w₇, hecho, h⟩ := h.bind_inv
  obtain ⟨bs₇, hw₇, -⟩ := (onlyWrites_writeItemFields _ _).frame hecho
  by_cases ht : iflags &&& itemTransfer = 0
  · -- no data are asked for
    rw [if_pos ht] at h
    left
    apply buffer_of_flushOk h
  rw [if_neg ht] at h
  obtain ⟨head, w₈, hhead, h⟩ := h.bind_inv
  obtain ⟨hw₈, hhead'⟩ := onlyReads_readSumHead.frame hhead
  obtain ⟨sums, w₉, hsums, h⟩ := h.bind_inv
  obtain ⟨hw₉, hsums'⟩ := (onlyReads_readSumBufs _).frame hsums
  right
  have hinput : w₄.input = w₇.input := by
    rw [hw₇, hw₆, hw₅]
  refine ⟨{ ndx, iflags, fields, head }, { w₄ with input := w₉.input },
    { s with rx := rx, tx := tx }, sums, w₉, ?_, length_xname_le hfields hecho, ?_, h⟩
  · -- the echo makes no difference to what is read
    apply hndx.bind
    dsimp only
    rw [if_neg hd]
    apply hiflags.bind
    apply hfields.bind
    rw [if_neg ht]
    apply (hhead' w₄ hinput).bind
    apply (hsums' { w₄ with input := w₈.input } rfl).bind
    apply Proc.returns_pure
  · rw [hw₉, hw₈, hw₇, hw₆, hw₅, hw₄, hw₃, hw₁]

/-! ### Runs -/

/-- Whenever the sender, started in `s₀` at `w₀`, is about to read the next index, its buffer
is empty. -/
def RepliesFlushed (answer : H → (x : FsCall) → Option (FsReply x × H)) (closed : Bool)
    (dig : Digests) (F : Flate) (args : SenderArgs) (s₀ : Sender) (w₀ : Endpoint H UInt8) :
    Prop :=
  ∀ s w, Proc.Rounds answer closed (round dig F args) (s₀, w₀) (s, w) → w.buffer = []

/-- A request that cannot be served leaves a part of its reply in the buffer. -/
theorem round_of_unservable
    {s : Sender} {w : Endpoint H UInt8} (h : Unservable answer closed args s w) :
  ∃ s' w', Proc.Returns answer closed (round dig F args s) w (.inl s') w' ∧ w'.buffer ≠ []
  := by
  obtain ⟨req, v, hreq, hx, hsend⟩ := h
  obtain ⟨rx, sums, hround⟩ := returns_round dig F hreq hx
  obtain ⟨h', hskip⟩ := returns_sendFile_of_unsendable closed dig F
    { s with rx := rx, tx := (encodeIndex args.protocol s.tx req.ndx).2 } req.head sums
    { w with input := v.input,
             buffer := w.buffer ++ encodeEcho args.protocol s.tx req.ndx req.iflags req.fields }
    hsend
  refine ⟨_, _, hround _ _ hskip, ?_⟩
  simp [skippedXfer, leBytes]

/-- A round that does not meet a request that cannot be served leaves the buffer empty. -/
theorem buffer_of_round
    {s s' : Sender} {w w' : Endpoint H UInt8} (hs : ¬ Unservable answer closed args s w)
    (h : Proc.Returns answer closed (round dig F args s) w (.inl s') w') :
  w'.buffer = []
  := by
  rcases round_cases h with hb | ⟨req, v, s₁, sums, w₁, hreq, hx, hhost, hsend⟩
  · apply hb
  · apply buffer_of_sendFile ?_ hsend
    rw [hhost]
    intro hun
    apply hs ⟨req, v, hreq, hx, hun⟩

/-- The sender never waits for a request with an unflushed reply exactly when it never meets a
request that it cannot serve. -/
theorem repliesFlushed_iff
    (answer : H → (x : FsCall) → Option (FsReply x × H)) (closed : Bool) (dig : Digests)
    (F : Flate) (args : SenderArgs) (s₀ : Sender) (h₀ : H) (input sent : List UInt8) :
  RepliesFlushed answer closed dig F args s₀
      { host := h₀, input := input, buffer := [], sent := sent } ↔
    ∀ s w, Proc.Rounds answer closed (round dig F args)
        (s₀, { host := h₀, input := input, buffer := [], sent := sent }) (s, w) →
      ¬ Unservable answer closed args s w
  := by
  constructor
  · intro hflushed s w hr hun
    obtain ⟨s', w', hround, hb⟩ := round_of_unservable hun
    apply hb
    apply hflushed s' w' (hr.tail (Proc.round_iff.mpr hround))
  · intro hserved s w hr
    -- by the last round
    rcases Relation.ReflTransGen.cases_tail hr with he | ⟨⟨s₁, w₁⟩, hr₁, hround⟩
    · cases he
      rfl
    · apply buffer_of_round (hserved s₁ w₁ hr₁) (Proc.round_iff.mp hround)

/-- A sender with an empty file list, asked for the data of the file `0`. -/
theorem replies_not_flushed :
  ¬ RepliesFlushed (fun _ _ => none : Unit → (x : FsCall) → Option (FsReply x × Unit)) false
    digestsOfZeros StoredFlate.codec
    { flist := {}, baseDir := [], protocol := 31, checksumSeed := 0, useZlib := false } {}
    { host := (), input := encodeRequest 31 {} 0 ⟨0, 0, 0, 0⟩ [], buffer := [], sent := [] }
  := by
  intro h
  have hreq : Proc.Reads (fun _ _ => none : Unit → (x : FsCall) → Option (FsReply x × Unit))
      (readRequest 31 {}) (encodeRequest 31 {} 0 ⟨0, 0, 0, 0⟩ [])
      (some { ndx := 0, iflags := itemTransfer, fields := {}, head := ⟨0, 0, 0, 0⟩ }) := by
    apply reads_readRequest 31 {} (by decide) (by decide) (by decide)
    · constructor <;> decide
    · apply Proc.reads_pure
  have hun : Unservable (fun _ _ => none : Unit → (x : FsCall) → Option (FsReply x × Unit)) false
      { flist := {}, baseDir := [], protocol := 31, checksumSeed := 0, useZlib := false } {}
      { host := (), input := encodeRequest 31 {} 0 ⟨0, 0, 0, 0⟩ [], buffer := [], sent := [] } := by
    refine ⟨_, _, hreq false _ [] (List.append_nil _).symm, by decide, ?_⟩
    apply trivial
  obtain ⟨s', w', hround, hb⟩ := round_of_unservable
    hun
  apply hb
  apply h s' w' (Relation.ReflTransGen.single (Proc.round_iff.mpr hround))

end Sender
