import RsyncRs.Io.Frame
import RsyncRs.Program.ByteSource
import RsyncRs.Protocol.Types

/-!
# Multiplexed streams

`MplexWriter` wraps what is written into frames, `MplexReader` and `MultiplexStream` take the
frames apart again. The two readers decode the same header by different rules: the stream
rejects a header below the base or with an unknown code, the reader takes it for data.
-/

/-! ### Message codes -/

/-- The first header byte that stands for a frame. -/
def mplexBase : ℕ := 7

/-- The longest payload of a frame. -/
def maxPayload : ℕ := 0x00FFFFFF

/-- Message code of a frame. -/
inductive MsgCode where
  | data
  | errorXfer
  | info
  | error
  | warning
  | errorSocket
  | log
  | client
  | errorUtf8
  | redo
  | stats
  | ioError
  | ioTimeout
  | noop
  | errorExit
  | success
  | deleted
  | noSend
deriving DecidableEq, Repr

namespace MsgCode

/-- The number of a code. -/
def toNat : MsgCode → ℕ
  | data => 0
  | errorXfer => 1
  | info => 2
  | error => 3
  | warning => 4
  | errorSocket => 5
  | log => 6
  | client => 7
  | errorUtf8 => 8
  | redo => 9
  | stats => 10
  | ioError => 22
  | ioTimeout => 33
  | noop => 42
  | errorExit => 86
  | success => 100
  | deleted => 101
  | noSend => 102

/-- The code with the given number. -/
def fromU8 : ℕ → Option MsgCode
  | 0 => some data
  | 1 => some errorXfer
  | 2 => some info
  | 3 => some error
  | 4 => some warning
  | 5 => some errorSocket
  | 6 => some log
  | 7 => some client
  | 8 => some errorUtf8
  | 9 => some redo
  | 10 => some stats
  | 22 => some ioError
  | 33 => some ioTimeout
  | 42 => some noop
  | 86 => some errorExit
  | 100 => some success
  | 101 => some deleted
  | 102 => some noSend
  | _ => none

@[simp]
theorem fromU8_toNat
    (code : MsgCode) :
  fromU8 code.toNat = some code
  := by
  cases code <;> rfl

theorem toNat_lt
    (code : MsgCode) :
  code.toNat < 103
  := by
  cases code <;> decide

end MsgCode

/-- The four bytes of the header of a frame. -/
def frameHeader (code : MsgCode) (len : ℕ) : List UInt8 :=
  leBytes 4 (((mplexBase + code.toNat) <<< 24 ||| len : ℕ) : ℤ)

/-- The header byte of the frames with the given code. -/
def MsgCode.tag (code : MsgCode) : UInt8 :=
  UInt8.ofNat (mplexBase + code.toNat)

theorem MsgCode.toNat_tag
    (code : MsgCode) :
  code.tag.toNat = mplexBase + code.toNat
  := by
  have h := code.toNat_lt
  unfold MsgCode.tag mplexBase
  rw [UInt8.toNat_ofNat_of_lt' (by simp only [UInt8.size]; omega)]

/-- A header is a length and a tag. -/
theorem frameHeader_eq
    (code : MsgCode) {len : ℕ} (h : len ≤ maxPayload) :
  frameHeader code len = leBytes 3 len ++ [code.tag]
  := by
  unfold maxPayload at h
  have hor : (mplexBase + code.toNat) <<< 24 ||| len =
      len + 16777216 * (mplexBase + code.toNat) := by
    rw [← Nat.shiftLeft_add_eq_or_of_lt (by omega), Nat.shiftLeft_eq]
    omega
  have hcode := code.toNat_lt
  unfold frameHeader MsgCode.tag mplexBase
  rw [show (7 + code.toNat) <<< 24 ||| len = len + 16777216 * (7 + code.toNat) from hor]
  simp only [leBytes, List.cons_append, List.nil_append, List.cons.injEq, and_true]
  refine ⟨?_, ?_, ?_, ?_⟩ <;> apply congrArg UInt8.ofNat <;> omega

/-! ### The writer -/

/-- A writer that may wrap what is written into frames. -/
structure MplexWriter where
  /-- What the inner writer was given. -/
  inner : List UInt8 := []
  enabled : Bool := false
deriving DecidableEq, Repr

namespace MplexWriter

/-- One `write`, with the number of bytes that it took. -/
def write (w : MplexWriter) (buf : List UInt8) : ℕ × MplexWriter :=
  if ¬ w.enabled then
    (buf.length, { w with inner := w.inner ++ buf })
  else
    let chunk := min buf.length maxPayload
    (chunk, { w with inner := w.inner ++ frameHeader .data chunk ++ buf.take chunk })

/-- `write` until everything was taken. -/
def writeAll (w : MplexWriter) (buf : List UInt8) : Except Error MplexWriter :=
  if buf = [] then
    .ok w
  else
    let (n, w') := w.write buf
    if n = 0 then
      .error (.io "failed to write whole buffer")
    else
      w'.writeAll (buf.drop n)
termination_by buf.length
decreasing_by
  rename_i hbuf hn
  have : buf.length ≠ 0 := by simpa using hbuf
  rw [List.length_drop]
  omega

/-- Write a message frame. -/
def writeMsg (w : MplexWriter) (code : MsgCode) (data : List UInt8) : Except Error MplexWriter :=
  if maxPayload < data.length then
    .error (.panic "mplex payload too large")
  else
    .ok { w with inner := w.inner ++ frameHeader code data.length ++ data }

end MplexWriter

/-! ### The readers -/

/-- Hexadecimal digits of a byte. -/
def hexByte (b : ℕ) : String :=
  let digit (d : ℕ) : Char := "0123456789ABCDEF".toList.getD d '0'
  String.ofList [digit (b / 16), digit (b % 16)]

/-- A reader that may take frames apart. -/
structure MplexReader where
  inner : ByteSource
  enabled : Bool := false
  /-- Bytes that remain of the current data frame. -/
  pending : ℕ := 0
deriving DecidableEq, Repr

namespace MplexReader

/-- Read and decode the next header. -/
def readHeader (r : MplexReader) : Except Error (MsgCode × ℕ) × MplexReader :=
  match r.inner.readExact 4 with
  | (none, inner) => (.error .unexpectedEof, { r with inner })
  | (some hdr, inner) =>
      let raw := ofLeBytes hdr
      let rawCode := raw >>> 24
      let len := raw &&& 0x00FFFFFF
      -- the subtraction saturates, and an unknown code is taken for data
      let codeVal := rawCode - mplexBase
      let code := (MsgCode.fromU8 codeVal).getD .data
      (.ok (code, len), { r with inner })

/-- Consume the payload of a message. -/
def drainMsg (r : MplexReader) (len : ℕ) : Except Error Unit × MplexReader :=
  match r.inner.readExact len with
  | (none, inner) => (.error .unexpectedEof, { r with inner })
  | (some _, inner) => (.ok (), { r with inner })

end MplexReader

/-- A stream that reads whole buffers of data. -/
structure MultiplexStream where
  reader : ByteSource
  multiplexIn : Bool := false
  pendingData : ℕ := 0
deriving DecidableEq, Repr

namespace MultiplexStream

/-- Read and decode the next header. -/
def readHeader (s : MultiplexStream) : Except Error (MsgCode × ℕ) × MultiplexStream :=
  match s.reader.readExact 4 with
  | (none, reader) => (.error .unexpectedEof, { s with reader })
  | (some hdr, reader) =>
      let raw := ofLeBytes hdr
      let rawCode := raw >>> 24
      let len := raw &&& 0x00FFFFFF
      if rawCode < mplexBase then
        (.error (.other ("multiplex header code 0x" ++ hexByte rawCode ++
          " is below MPLEX_BASE 7")), { s with reader })
      else
        match MsgCode.fromU8 (rawCode - mplexBase) with
        | none =>
            (.error (.other ("unknown multiplex message code: " ++
              toString (rawCode - mplexBase))), { s with reader })
        | some code => (.ok (code, len), { s with reader })

/-- Consume the payload of a message. -/
def handleMsg (s : MultiplexStream) (len : ℕ) : Except Error Unit × MultiplexStream :=
  match s.reader.readExact len with
  | (none, reader) => (.error .unexpectedEof, { s with reader })
  | (some _, reader) => (.ok (), { s with reader })

end MultiplexStream

/-! ### Headers -/

/-- How the reader takes a header byte. -/
def lenientCode (tag : UInt8) : MsgCode :=
  (MsgCode.fromU8 (tag.toNat - mplexBase)).getD .data

/-- The header byte is that of a frame with a known code. -/
def knownTag (tag : UInt8) : Bool :=
  mplexBase ≤ tag.toNat ∧ (MsgCode.fromU8 (tag.toNat - mplexBase)).isSome

/-- The reader takes the header byte for that of a data frame. -/
def takenForData (tag : UInt8) : Bool :=
  lenientCode tag = .data

/-- The header byte of a data frame. -/
def dataTag (tag : UInt8) : Bool :=
  tag.toNat = mplexBase + MsgCode.data.toNat

theorem fromU8_eq_data_iff
    (n : ℕ) :
  MsgCode.fromU8 n = some .data ↔ n = 0
  := by
  unfold MsgCode.fromU8
  split <;> simp_all

/-- Among the known header bytes only that of data is taken for data. -/
theorem takenForData_of_knownTag
    {tag : UInt8} (h : knownTag tag) :
  takenForData tag = dataTag tag
  := by
  simp only [knownTag, Bool.decide_and, Bool.decide_eq_true, Bool.and_eq_true,
    decide_eq_true_eq] at h
  obtain ⟨hbase, hknown⟩ := h
  obtain ⟨code, hcode⟩ := Option.isSome_iff_exists.mp hknown
  have hiff : code = .data ↔ tag.toNat - mplexBase = 0 := by
    rw [← fromU8_eq_data_iff, hcode, Option.some.injEq]
  unfold takenForData lenientCode dataTag
  rw [hcode, Option.getD_some]
  have hdata : MsgCode.data.toNat = 0 := rfl
  rw [decide_eq_decide, hiff, hdata]
  omega

theorem takenForData_tag
    (code : MsgCode) :
  takenForData code.tag = decide (code = .data)
  := by
  unfold takenForData lenientCode
  rw [code.toNat_tag, Nat.add_sub_cancel_left, code.fromU8_toNat, Option.getD_some]

/-- The number in the bytes of a header. -/
theorem ofLeBytes_header
    (b₀ b₁ b₂ tag : UInt8) :
  ofLeBytes [b₀, b₁, b₂, tag] >>> 24 = tag.toNat ∧
    ofLeBytes [b₀, b₁, b₂, tag] &&& 0x00FFFFFF = ofLeBytes [b₀, b₁, b₂]
  := by
  have h₀ := b₀.toNat_lt
  have h₁ := b₁.toNat_lt
  have h₂ := b₂.toNat_lt
  constructor
  · rw [Nat.shiftRight_eq_div_pow]
    simp only [ofLeBytes]
    omega
  · rw [show (0x00FFFFFF : ℕ) = 2 ^ 24 - 1 from rfl, Nat.and_two_pow_sub_one_eq_mod]
    simp only [ofLeBytes]
    omega

namespace MplexReader

theorem readHeader_of_short
    {r : MplexReader} (h : r.inner.bytes.length < 4) :
  ∃ sizes, r.readHeader = (.error .unexpectedEof, { r with inner := ⟨[], sizes⟩ })
  := by
  obtain ⟨sizes, hread⟩ := ByteSource.readExact_of_lt h
  use sizes
  rw [readHeader, hread]

theorem readHeader_cons
    {r : MplexReader} {b₀ b₁ b₂ tag : UInt8} {rest : List UInt8}
    (h : r.inner.bytes = b₀ :: b₁ :: b₂ :: tag :: rest) :
  ∃ sizes, r.readHeader = (.ok (lenientCode tag, ofLeBytes [b₀, b₁, b₂]),
    { r with inner := ⟨rest, sizes⟩ })
  := by
  have henough : 4 ≤ r.inner.bytes.length := by
    rw [h]
    simp
  obtain ⟨sizes, hread⟩ := ByteSource.readExact_of_le henough
  obtain ⟨hcode, hlen⟩ := ofLeBytes_header b₀ b₁ b₂ tag
  use sizes
  rw [h] at hread
  simp only [List.take_succ_cons, List.take_zero, List.drop_succ_cons, List.drop_zero] at hread
  rw [readHeader, hread]
  simp only [hcode, hlen]
  rfl

theorem readHeader_ok
    {r r' : MplexReader} {code : MsgCode} {len : ℕ} (h : r.readHeader = (.ok (code, len), r')) :
  r'.inner.bytes.length + 4 = r.inner.bytes.length
  := by
  rcases Frame.short_or_header r.inner.bytes with hs | ⟨b₀, b₁, b₂, tag, rest, hb⟩
  · obtain ⟨sizes, hread⟩ := readHeader_of_short hs
    rw [hread] at h
    cases h
  · obtain ⟨sizes, hread⟩ := readHeader_cons hb
    rw [hread] at h
    cases h
    rw [hb]
    rfl

/-- The payload of a message is passed over, or the stream ends in it. -/
theorem drainMsg_cases
    (r : MplexReader) (len : ℕ) :
  ∃ sizes, r.drainMsg len = (.ok (), { r with inner := ⟨r.inner.bytes.drop len, sizes⟩ }) ∨
    r.inner.bytes.drop len = [] ∧
      r.drainMsg len = (.error .unexpectedEof, { r with inner := ⟨[], sizes⟩ })
  := by
  by_cases hlen : len ≤ r.inner.bytes.length
  · obtain ⟨sizes, hread⟩ := ByteSource.readExact_of_le hlen
    use sizes
    left
    rw [drainMsg, hread]
  · obtain ⟨sizes, hread⟩ := ByteSource.readExact_of_lt (not_le.mp hlen)
    use sizes
    right
    rw [drainMsg, hread]
    exact ⟨List.drop_eq_nil_of_le (not_le.mp hlen).le, rfl⟩

theorem drainMsg_ok
    {r r' : MplexReader} {len : ℕ} (h : r.drainMsg len = (.ok (), r')) :
  r'.inner.bytes.length ≤ r.inner.bytes.length
  := by
  obtain ⟨sizes, hd | ⟨-, hd⟩⟩ := r.drainMsg_cases len
  · rw [hd] at h
    cases h
    simp
  · rw [hd] at h
    cases h

/-- Read headers until some data is pending. -/
def refill (r : MplexReader) : Except Error Unit × MplexReader :=
  if r.pending ≠ 0 then
    (.ok (), r)
  else
    match _h : r.readHeader with
    | (.error e, r') => (.error e, r')
    | (.ok (code, len), r') =>
        if code = .data then
          -- an empty data frame is skipped
          if len = 0 then r'.refill else (.ok (), { r' with pending := len })
        else
          match _h : r'.drainMsg len with
          | (.error e, r'') => (.error e, r'')
          | (.ok (), r'') => r''.refill
termination_by r.inner.bytes.length
decreasing_by
  · have := readHeader_ok ‹r.readHeader = _›
    omega
  · have := readHeader_ok ‹r.readHeader = _›
    have := drainMsg_ok ‹r'.drainMsg len = _›
    omega

/-- One `read` into a buffer of `n` bytes. -/
def read (r : MplexReader) (n : ℕ) : Except Error (List UInt8) × MplexReader :=
  if ¬ r.enabled then
    let (out, inner) := r.inner.read n
    (.ok out, { r with inner })
  else
    match r.refill with
    | (.error e, r') => (.error e, r')
    | (.ok (), r') =>
        let toRead := min n r'.pending
        let (out, inner) := r'.inner.read toRead
        (.ok out, { r' with inner, pending := r'.pending - out.length })

/-- The results of successive reads into buffers of the given sizes, and the reader after
them. -/
def reads : List ℕ → MplexReader → List (Except Error (List UInt8)) × MplexReader
  | [], r => ([], r)
  | n :: ns, r =>
      let (result, r') := r.read n
      let (results, r'') := reads ns r'
      (result :: results, r'')

/-- What the successful ones among some reads returned. -/
def returned (results : List (Except Error (List UInt8))) : List UInt8 :=
  results.flatMap fun result => result.toOption.getD []

/-! ### What a read does -/

/-- The pending data and the stream in which it lies, once headers are read as needed. -/
def front (r : MplexReader) : Option (ℕ × List UInt8) :=
  if r.pending ≠ 0 then some (r.pending, r.inner.bytes)
  else Frame.nextData (fun _ => true) takenForData r.inner.bytes

theorem refill_of_pending
    {r : MplexReader} (h : r.pending ≠ 0) :
  r.refill = (.ok (), r)
  := by
  rw [refill, if_pos h]

/-- Headers are read up to the next data, or to the end of the stream. -/
theorem refill_spec
    {r : MplexReader} (h : r.pending = 0) :
  ∃ sizes, r.refill = match Frame.nextData (fun _ => true) takenForData r.inner.bytes with
    | none => (.error .unexpectedEof, { r with inner := ⟨[], sizes⟩ })
    | some (len, rest) => (.ok (), { r with inner := ⟨rest, sizes⟩, pending := len })
  := by
  induction hn : r.inner.bytes.length using Nat.strong_induction_on generalizing r with
  | h n ih =>
      rw [refill, if_neg (not_not_intro h)]
      rcases Frame.short_or_header r.inner.bytes with hs | ⟨b₀, b₁, b₂, tag, rest, hb⟩
      · obtain ⟨sizes, hread⟩ := readHeader_of_short hs
        use sizes
        rw [hread, Frame.nextData_of_short hs]
      · obtain ⟨sizes, hread⟩ := readHeader_cons hb
        rw [hb] at hn
        simp only [List.length_cons] at hn
        rw [hread, hb, Frame.nextData_cons, if_neg (not_not_intro rfl)]
        dsimp only
        by_cases htag : lenientCode tag = .data
        · have htaken : takenForData tag = true := by simp [takenForData, htag]
          rw [if_pos htag]
          by_cases hlen : ofLeBytes [b₀, b₁, b₂] = 0
          · obtain ⟨sizes', hrest⟩ := ih rest.length (by omega)
              (r := { r with inner := ⟨rest, sizes⟩ }) h rfl
            use sizes'
            rw [if_pos hlen, hrest, if_neg (fun h => h.2 hlen), hlen, List.drop_zero]
          · use sizes
            rw [if_neg hlen, if_pos ⟨htaken, hlen⟩]
        · have htaken : ¬ (takenForData tag = true ∧ ofLeBytes [b₀, b₁, b₂] ≠ 0) := by
            simp [takenForData, htag]
          rw [if_neg htag, if_neg htaken]
          obtain ⟨sizes', hdrain | ⟨hnil, hdrain⟩⟩ :=
            drainMsg_cases { r with inner := ⟨rest, sizes⟩ } (ofLeBytes [b₀, b₁, b₂])
          · obtain ⟨sizes'', hrest⟩ := ih (rest.drop (ofLeBytes [b₀, b₁, b₂])).length
              (by rw [List.length_drop]; omega)
              (r := { r with inner := ⟨rest.drop (ofLeBytes [b₀, b₁, b₂]), sizes'⟩ }) h rfl
            use sizes''
            rw [hdrain]
            apply hrest
          · use sizes'
            rw [hdrain]
            change rest.drop (ofLeBytes [b₀, b₁, b₂]) = [] at hnil
            rw [hnil, Frame.nextData_of_short (by simp)]

/-- A read on an enabled reader fails at the end of the stream, or returns some of the pending
data. -/
theorem read_spec
    {r : MplexReader} (henabled : r.enabled) (n : ℕ) :
  (r.front = none ∧ ∃ sizes, r.read n =
      (.error .unexpectedEof, { r with inner := ⟨[], sizes⟩, pending := 0 })) ∨
    ∃ p bs k sizes, r.front = some (p, bs) ∧ p ≠ 0 ∧ k ≤ min n p ∧ k ≤ bs.length ∧
      (k = 0 → n = 0 ∨ bs = []) ∧
      r.read n = (.ok (bs.take k), { r with inner := ⟨bs.drop k, sizes⟩, pending := p - k })
  := by
  -- what a read does once some data is pending
  have key : ∀ r' : MplexReader, r'.pending ≠ 0 → r'.enabled = r.enabled →
      r.refill = (.ok (), r') →
      ∃ k sizes, k ≤ min n r'.pending ∧ k ≤ r'.inner.bytes.length ∧
        (k = 0 → n = 0 ∨ r'.inner.bytes = []) ∧
        r.read n = (.ok (r'.inner.bytes.take k),
          { r with inner := ⟨r'.inner.bytes.drop k, sizes⟩, pending := r'.pending - k }) := by
    intro r' hp he hrefill
    refine ⟨r'.inner.delivery (min n r'.pending), r'.inner.sizes.tail, ByteSource.delivery_le _ _,
      ByteSource.delivery_le_length _ _, ?_, ?_⟩
    · intro hk
      rw [ByteSource.delivery_eq_zero_iff] at hk
      rcases hk with hk | hk
      · left
        omega
      · exact Or.inr hk
    · rw [read, if_neg (by simp [henabled]), hrefill]
      simp only [ByteSource.read, ByteSource.length_take_delivery, he]
      rfl
  by_cases hp : r.pending = 0
  · have hfront : r.front = Frame.nextData (fun _ => true) takenForData r.inner.bytes := by
      simp [front, hp]
    obtain ⟨sizes, hrefill⟩ := refill_spec hp
    cases hnext : Frame.nextData (fun _ => true) takenForData r.inner.bytes with
    | none =>
        left
        rw [hnext] at hrefill hfront
        refine ⟨hfront, sizes, ?_⟩
        rw [read, if_neg (by simp [henabled]), hrefill]
        simp [hp]
    | some next =>
        obtain ⟨len, rest⟩ := next
        right
        rw [hnext] at hrefill hfront
        have hpos := (Frame.nextData_pos hnext).1
        obtain ⟨k, sizes', h⟩ := key { r with inner := ⟨rest, sizes⟩, pending := len } hpos rfl
          hrefill
        exact ⟨len, rest, k, sizes', hfront, hpos, h⟩
  · right
    obtain ⟨k, sizes, h⟩ := key r hp rfl (refill_of_pending hp)
    exact ⟨r.pending, r.inner.bytes, k, sizes, by simp [front, hp], hp, h⟩

end MplexReader

namespace MultiplexStream

theorem readHeader_of_short
    {s : MultiplexStream} (h : s.reader.bytes.length < 4) :
  ∃ sizes, s.readHeader = (.error .unexpectedEof, { s with reader := ⟨[], sizes⟩ })
  := by
  obtain ⟨sizes, hread⟩ := ByteSource.readExact_of_lt h
  use sizes
  rw [readHeader, hread]

/-- A header is accepted exactly when its last byte is a known one. -/
theorem readHeader_cons
    {s : MultiplexStream} {b₀ b₁ b₂ tag : UInt8} {rest : List UInt8}
    (h : s.reader.bytes = b₀ :: b₁ :: b₂ :: tag :: rest) :
  ∃ sizes, (knownTag tag ∧ s.readHeader = (.ok (lenientCode tag, ofLeBytes [b₀, b₁, b₂]),
      { s with reader := ⟨rest, sizes⟩ })) ∨
    (¬ knownTag tag ∧ ∃ e, s.readHeader = (.error (.other e), { s with reader := ⟨rest, sizes⟩ }))
  := by
  have henough : 4 ≤ s.reader.bytes.length := by
    rw [h]
    simp
  obtain ⟨sizes, hread⟩ := ByteSource.readExact_of_le henough
  obtain ⟨hcode, hlen⟩ := ofLeBytes_header b₀ b₁ b₂ tag
  rw [h] at hread
  simp only [List.take_succ_cons, List.take_zero, List.drop_succ_cons, List.drop_zero] at hread
  use sizes
  rw [readHeader, hread]
  simp only [hcode, hlen]
  by_cases hbase : tag.toNat < mplexBase
  · right
    rw [if_pos hbase]
    exact ⟨by simp [knownTag, hbase], _, rfl⟩
  · rw [if_neg hbase]
    cases hc : MsgCode.fromU8 (tag.toNat - mplexBase) with
    | none =>
        right
        exact ⟨by simp [knownTag, hc], _, rfl⟩
    | some code =>
        left
        rw [lenientCode, hc]
        exact ⟨by simp [knownTag, hc, not_lt.mp hbase], rfl⟩

theorem readHeader_ok
    {s s' : MultiplexStream} {code : MsgCode} {len : ℕ} (h : s.readHeader = (.ok (code, len), s')) :
  s'.reader.bytes.length + 4 = s.reader.bytes.length
  := by
  rcases Frame.short_or_header s.reader.bytes with hs | ⟨b₀, b₁, b₂, tag, rest, hb⟩
  · obtain ⟨sizes, hread⟩ := readHeader_of_short hs
    rw [hread] at h
    cases h
  · obtain ⟨sizes, ⟨-, hread⟩ | ⟨-, e, hread⟩⟩ := readHeader_cons hb
    · rw [hread] at h
      cases h
      rw [hb]
      rfl
    · rw [hread] at h
      cases h

/-- The payload of a message is passed over, or the stream ends in it. -/
theorem handleMsg_cases
    (s : MultiplexStream) (len : ℕ) :
  ∃ sizes, s.handleMsg len = (.ok (), { s with reader := ⟨s.reader.bytes.drop len, sizes⟩ }) ∨
    s.handleMsg len = (.error .unexpectedEof, { s with reader := ⟨[], sizes⟩ })
  := by
  by_cases hlen : len ≤ s.reader.bytes.length
  · obtain ⟨sizes, hread⟩ := ByteSource.readExact_of_le hlen
    use sizes
    left
    rw [handleMsg, hread]
  · obtain ⟨sizes, hread⟩ := ByteSource.readExact_of_lt (not_le.mp hlen)
    use sizes
    right
    rw [handleMsg, hread]

theorem handleMsg_ok
    {s s' : MultiplexStream} {len : ℕ} (h : s.handleMsg len = (.ok (), s')) :
  s'.reader.bytes = s.reader.bytes.drop len ∧ s'.pendingData = s.pendingData
  := by
  obtain ⟨sizes, hd | hd⟩ := s.handleMsg_cases len
  · rw [hd] at h
    cases h
    exact ⟨rfl, rfl⟩
  · rw [hd] at h
    cases h

/-- Read headers until some data is pending. -/
def refill (s : MultiplexStream) : Except Error Unit × MultiplexStream :=
  if s.pendingData ≠ 0 then
    (.ok (), s)
  else
    match _h : s.readHeader with
    | (.error e, s') => (.error e, s')
    | (.ok (code, len), s') =>
        if code = .data then
          { s' with pendingData := len }.refill
        else
          match _h : s'.handleMsg len with
          | (.error e, s'') => (.error e, s'')
          | (.ok (), s'') => s''.refill
termination_by s.reader.bytes.length
decreasing_by
  · have := readHeader_ok ‹s.readHeader = _›
    omega
  · have := readHeader_ok ‹s.readHeader = _›
    have := congrArg List.length (handleMsg_ok ‹s'.handleMsg len = _›).1
    rw [List.length_drop] at this
    omega

theorem refill_of_pending
    {s : MultiplexStream} (h : s.pendingData ≠ 0) :
  s.refill = (.ok (), s)
  := by
  rw [refill, if_pos h]

/-- When headers are read up to some pending data, these are the next data behind known
headers. -/
theorem refill_ok
    {s s' : MultiplexStream} (hpending : s.pendingData = 0) (h : s.refill = (.ok (), s')) :
  Frame.nextData knownTag dataTag s.reader.bytes = some (s'.pendingData, s'.reader.bytes)
  := by
  induction hn : s.reader.bytes.length using Nat.strong_induction_on generalizing s with
  | h n ih =>
      rw [refill, if_neg (not_not_intro hpending)] at h
      rcases Frame.short_or_header s.reader.bytes with hs | ⟨b₀, b₁, b₂, tag, rest, hb⟩
      · obtain ⟨sizes, hread⟩ := readHeader_of_short hs
        rw [hread] at h
        cases h
      · obtain ⟨sizes, ⟨hk, hread⟩ | ⟨-, e, hread⟩⟩ := readHeader_cons hb
        · rw [hb] at hn
          simp only [List.length_cons] at hn
          rw [hread] at h
          dsimp only at h
          rw [hb, Frame.nextData_cons, if_neg (not_not_intro hk), ← takenForData_of_knownTag hk]
          by_cases htag : lenientCode tag = .data
          · have htaken : takenForData tag = true := by simp [takenForData, htag]
            rw [if_pos htag] at h
            by_cases hlen : ofLeBytes [b₀, b₁, b₂] = 0
            · rw [if_neg (fun h => h.2 hlen), hlen, List.drop_zero]
              apply ih rest.length (by omega) hlen h rfl
            · rw [refill_of_pending hlen] at h
              cases h
              rw [if_pos ⟨htaken, hlen⟩]
          · have htaken : ¬ (takenForData tag = true ∧ ofLeBytes [b₀, b₁, b₂] ≠ 0) := by
              simp [takenForData, htag]
            rw [if_neg htag] at h
            rw [if_neg htaken]
            split at h
            · cases h
            · next s'' hdrain =>
                obtain ⟨hbytes, hpending'⟩ := handleMsg_ok hdrain
                rw [← show s''.reader.bytes = rest.drop (ofLeBytes [b₀, b₁, b₂]) from hbytes]
                apply ih s''.reader.bytes.length _ (hpending'.trans hpending) h rfl
                rw [hbytes, List.length_drop]
                dsimp only
                omega
        · rw [hread] at h
          cases h

theorem pendingData_of_refill_ok
    {s s' : MultiplexStream} (h : s.refill = (.ok (), s')) :
  s'.pendingData ≠ 0
  := by
  by_cases hp : s.pendingData = 0
  · apply (Frame.nextData_pos (refill_ok hp h)).1
  · rw [refill_of_pending hp] at h
    cases h
    apply hp

/-- The loop that fills a buffer of `n` bytes with data. -/
def readLoop (s : MultiplexStream) (n : ℕ) : Except Error (List UInt8) × MultiplexStream :=
  if n = 0 then
    (.ok [], s)
  else
    match _h : s.refill with
    | (.error e, s') => (.error e, s')
    | (.ok (), s') =>
        let toRead := min n s'.pendingData
        match s'.reader.readExact toRead with
        | (none, reader) => (.error .unexpectedEof, { s' with reader })
        | (some bs, reader) =>
            match readLoop { s' with reader, pendingData := s'.pendingData - toRead }
                (n - toRead) with
            | (.error e, s'') => (.error e, s'')
            | (.ok rest, s'') => (.ok (bs ++ rest), s'')
termination_by n
decreasing_by
  have := pendingData_of_refill_ok ‹s.refill = _›
  omega

/-- Read exactly `n` bytes of data. -/
def readData (s : MultiplexStream) (n : ℕ) : Except Error (List UInt8) × MultiplexStream :=
  if ¬ s.multiplexIn then
    match s.reader.readExact n with
    | (none, reader) => (.error .unexpectedEof, { s with reader })
    | (some bs, reader) => (.ok bs, { s with reader })
  else
    s.readLoop n

end MultiplexStream
