import RsyncRs.Io.Varint

/-!
# Plain tokens

A file is sent as literal bytes and references to blocks of the basis. A positive integer
announces literal bytes, a negative one refers to a block, and zero ends the file.
-/

variable {X : Type} {Reply : X → Type} {H : Type}
  {answer : H → (x : X) → Option (Reply x × H)}

/-- A piece of a file. -/
inductive Token where
  /-- Literal bytes. -/
  | literal (data : List UInt8)
  /-- The block with the given index. -/
  | blockMatch (idx : ℤ)
deriving DecidableEq, Repr

/-! ### Writer -/

namespace TokenWriter

/-- Send full chunks of the buffered literal bytes. -/
def drainChunks (buf : List UInt8) : Session Reply (List UInt8) :=
  if chunkSize ≤ buf.length then do
    writeInt chunkSize
    writeAll (buf.take chunkSize)
    drainChunks (buf.drop chunkSize)
  else
    pure buf
termination_by buf.length
decreasing_by
  rw [List.length_drop]
  unfold chunkSize at *
  omega

/-- Buffer literal bytes and send the chunks that are full. -/
def sendLiteral (buf data : List UInt8) : Session Reply (List UInt8) :=
  drainChunks (buf ++ data)

/-- Send the buffered literal bytes. -/
def flushLiterals (buf : List UInt8) : Session Reply Unit :=
  if buf = [] then
    pure ()
  else do
    writeInt buf.length
    writeAll buf

/-- Send a reference to a block. -/
def sendBlockMatch (buf : List UInt8) (blockIdx : ℤ) : Session Reply (List UInt8) := do
  flushLiterals buf
  writeInt (wrapI32 (-(blockIdx + 1)))
  pure []

/-- Send the end of the file. -/
def sendEof : Session Reply Unit :=
  writeInt 0

/-- Send the buffered literal bytes and the end of the file. -/
def finish (buf : List UInt8) : Session Reply Unit := do
  flushLiterals buf
  sendEof

/-- Send a piece of the file. -/
def send (buf : List UInt8) : Token → Session Reply (List UInt8)
  | .literal data => sendLiteral buf data
  | .blockMatch idx => sendBlockMatch buf idx

/-- Send the pieces of a file and the end of the file. -/
def sendAll (toks : List Token) : Session Reply Unit := do
  let buf ← Proc.forEach send [] toks
  finish buf

end TokenWriter

/-! ### Reader -/

namespace TokenReader

/-- Read one token when `literalRemaining` bytes of a literal are still to be delivered. -/
def readToken (literalRemaining : ℤ) : Session Reply (Option Token × ℤ) :=
  if 0 < literalRemaining then do
    let n := min literalRemaining chunkSize
    let buf ← readBytes n.toNat
    pure (some (.literal buf), literalRemaining - n)
  else do
    let i ← readInt
    if i = 0 then
      pure (none, literalRemaining)
    else if 0 < i then
      let buf ← readBytes i.toNat
      pure (some (.literal buf), literalRemaining)
    else
      pure (some (.blockMatch (wrapI32 (wrapI32 (-i) - 1))), literalRemaining)

/-- Read a token and keep it. -/
def collect (s : ℤ × List Token) : Session Reply (ℤ × List Token ⊕ List Token) := do
  let (tok, literalRemaining) ← readToken s.1
  match tok with
  | some tok => pure (.inl (literalRemaining, s.2 ++ [tok]))
  | none => pure (.inr s.2)

/-- Read the tokens up to the end of the file. -/
def readTokens : Session Reply (List Token) :=
  Proc.loop collect (0, [])

end TokenReader

/-! ### What tokens say about a file -/

/-- The bytes of a token one by one, or its block. -/
def Token.items : Token → List (UInt8 ⊕ ℤ)
  | .literal data => data.map .inl
  | .blockMatch idx => [.inr idx]

/-- The bytes and the blocks of a file in order. -/
def tokenItems (toks : List Token) : List (UInt8 ⊕ ℤ) :=
  toks.flatMap Token.items

@[simp]
theorem tokenItems_nil :
  tokenItems [] = []
  := rfl

@[simp]
theorem tokenItems_cons
    (tok : Token) (toks : List Token) :
  tokenItems (tok :: toks) = tok.items ++ tokenItems toks
  := rfl

@[simp]
theorem tokenItems_append
    (toks toks' : List Token) :
  tokenItems (toks ++ toks') = tokenItems toks ++ tokenItems toks'
  := by
  simp [tokenItems]

/-! ### Token streams -/

/-- The bytes `wire` are the given tokens. -/
inductive TokenStream : List UInt8 → List Token → Prop where
  | nil : TokenStream [] []
  | literal {data wire : List UInt8} {toks : List Token} (hne : data ≠ [])
      (hlen : data.length < 2147483648) (h : TokenStream wire toks) :
      TokenStream (leBytes 4 data.length ++ (data ++ wire)) (.literal data :: toks)
  | blockMatch {idx : ℤ} {wire : List UInt8} {toks : List Token} (h₁ : 0 ≤ idx)
      (h₂ : idx < 2147483647) (h : TokenStream wire toks) :
      TokenStream (leBytes 4 (-(idx + 1)) ++ wire) (.blockMatch idx :: toks)

theorem TokenStream.append
    {wire wire' : List UInt8} {toks toks' : List Token} (h : TokenStream wire toks)
    (h' : TokenStream wire' toks') :
  TokenStream (wire ++ wire') (toks ++ toks')
  := by
  induction h with
  | nil => apply h'
  | literal hne hlen _ ih =>
      rw [List.append_assoc, List.append_assoc]
      apply TokenStream.literal hne hlen ih
  | blockMatch h₁ h₂ _ ih =>
      rw [List.append_assoc]
      apply TokenStream.blockMatch h₁ h₂ ih

theorem reads_readToken_eof :
  Proc.Reads answer (TokenReader.readToken 0 : Session Reply (Option Token × ℤ)) (leBytes 4 0)
    (none, 0)
  := by
  apply (reads_readInt (by decide)).bind_nil
  apply Proc.reads_pure

theorem reads_readToken_literal
    {data : List UInt8} (hne : data ≠ []) (hlen : data.length < 2147483648) :
  Proc.Reads answer (TokenReader.readToken 0 : Session Reply (Option Token × ℤ))
    (leBytes 4 data.length ++ data) (some (.literal data), 0)
  := by
  have hpos : 0 < data.length := List.length_pos_iff.mpr hne
  apply (reads_readInt ⟨by omega, by omega⟩).bind
  rw [if_neg (by omega), if_pos (by omega), Int.toNat_natCast]
  apply (reads_readBytes data rfl).map

theorem reads_readToken_blockMatch
    {idx : ℤ} (h₁ : 0 ≤ idx) (h₂ : idx < 2147483647) :
  Proc.Reads answer (TokenReader.readToken 0 : Session Reply (Option Token × ℤ))
    (leBytes 4 (-(idx + 1))) (some (.blockMatch idx), 0)
  := by
  have hidx : wrapI32 (wrapI32 (-(-(idx + 1))) - 1) = idx := by
    unfold wrapI32
    omega
  apply (reads_readInt ⟨by omega, by omega⟩).bind_nil
  rw [if_neg (by omega), if_neg (by omega), hidx]
  apply Proc.reads_pure

/-- The reader keeps the tokens of a stream in order, until the end of the file. -/
theorem TokenStream.reads_collect
    {wire : List UInt8} {toks : List Token} (h : TokenStream wire toks) (acc : List Token) :
  Proc.Reads answer (Proc.loop TokenReader.collect (0, acc) : Session Reply (List Token))
    (wire ++ leBytes 4 0) (acc ++ toks)
  := by
  induction h generalizing acc with
  | nil =>
      rw [List.append_nil]
      apply Proc.reads_loop_done
      apply reads_readToken_eof.bind_nil
      apply Proc.reads_pure
  | @literal data wire toks hne hlen _ ih =>
      have hround : Proc.Reads answer (TokenReader.collect (0, acc) : Session Reply _)
          (leBytes 4 data.length ++ data) (.inl (0, acc ++ [.literal data])) := by
        apply (reads_readToken_literal hne hlen).bind_nil
        apply Proc.reads_pure
      rw [← List.append_assoc, List.append_assoc, List.append_cons acc]
      apply Proc.reads_loop_again hround
      apply ih
  | @blockMatch idx wire toks h₁ h₂ _ ih =>
      have hround : Proc.Reads answer (TokenReader.collect (0, acc) : Session Reply _)
          (leBytes 4 (-(idx + 1))) (.inl (0, acc ++ [.blockMatch idx])) := by
        apply (reads_readToken_blockMatch h₁ h₂).bind_nil
        apply Proc.reads_pure
      rw [List.append_assoc, List.append_cons acc]
      apply Proc.reads_loop_again hround
      apply ih

theorem TokenStream.reads
    {wire : List UInt8} {toks : List Token} (h : TokenStream wire toks) :
  Proc.Reads answer (TokenReader.readTokens : Session Reply (List Token))
    (wire ++ leBytes 4 0) toks
  := h.reads_collect []

/-! ### What the writer sends -/

/-- A literal is at most a chunk. -/
def Token.Chunked : Token → Prop
  | .literal data => data.length ≤ chunkSize
  | .blockMatch _ => True

/-- Draining the buffer sends some tokens and leaves less than a chunk; together they are
what was in the buffer. -/
theorem writes_drainChunks
    (answer : H → (x : X) → Option (Reply x × H)) (buf : List UInt8) :
  ∃ wire toks buf', Proc.Writes answer (TokenWriter.drainChunks buf : Session Reply _) wire buf' ∧
    TokenStream wire toks ∧ tokenItems toks ++ buf'.map .inl = buf.map .inl ∧
    (∀ tok ∈ toks, tok.Chunked) ∧ buf'.length < chunkSize
  := by
  induction hn : buf.length using Nat.strong_induction_on generalizing buf with
  | h n ih =>
      rw [TokenWriter.drainChunks]
      by_cases hfull : chunkSize ≤ buf.length
      · have htake : (buf.take chunkSize).length = chunkSize := by
          rw [List.length_take]
          omega
        have hshort : (buf.drop chunkSize).length < n := by
          rw [List.length_drop]
          unfold chunkSize at *
          omega
        obtain ⟨wire, toks, buf', hw, hs, hi, hc, hb⟩ := ih _ hshort _ rfl
        use leBytes 4 chunkSize ++ (buf.take chunkSize ++ wire),
          .literal (buf.take chunkSize) :: toks, buf'
        rw [if_pos hfull]
        refine ⟨?_, ?_, ?_, List.forall_mem_cons.mpr ⟨htake.le, hc⟩, hb⟩
        · apply (writes_writeInt _).bind
          apply (writes_writeAll _).bind hw
        · have hne : buf.take chunkSize ≠ [] := by
            rw [← List.length_pos_iff, htake]
            decide
          have hlen : (buf.take chunkSize).length < 2147483648 := by
            rw [htake]
            decide
          have h := TokenStream.literal hne hlen hs
          rw [htake] at h
          apply h
        · rw [tokenItems_cons, List.append_assoc, hi, Token.items, ← List.map_append,
            List.take_append_drop]
      · use [], [], buf
        rw [if_neg hfull]
        refine ⟨?_, TokenStream.nil, rfl, List.forall_mem_nil _, by omega⟩
        apply Proc.writes_pure

/-- Flushing sends what is in the buffer. -/
theorem writes_flushLiterals
    (answer : H → (x : X) → Option (Reply x × H)) {buf : List UInt8}
    (hbuf : buf.length < chunkSize) :
  ∃ wire toks, Proc.Writes answer (TokenWriter.flushLiterals buf : Session Reply _) wire () ∧
    TokenStream wire toks ∧ tokenItems toks = buf.map .inl ∧ ∀ tok ∈ toks, tok.Chunked
  := by
  by_cases hne : buf = []
  · subst hne
    use [], []
    refine ⟨Proc.writes_pure (), TokenStream.nil, rfl, List.forall_mem_nil _⟩
  · use leBytes 4 buf.length ++ (buf ++ []), [.literal buf]
    rw [TokenWriter.flushLiterals, if_neg hne]
    refine ⟨?_, ?_, ?_, List.forall_mem_singleton.mpr hbuf.le⟩
    · rw [List.append_nil]
      apply (writes_writeInt _).bind (writes_writeAll _)
    · apply TokenStream.literal hne _ TokenStream.nil
      unfold chunkSize at hbuf
      omega
    · rw [tokenItems_cons, tokenItems_nil, List.append_nil]
      rfl

/-- The token may be sent: its block index has a successor in 32 bits. -/
def Token.Sendable : Token → Prop
  | .literal _ => True
  | .blockMatch idx => 0 ≤ idx ∧ idx < 2147483647

/-- Sending a piece sends some tokens and leaves less than a chunk in the buffer; together
they are what was in the buffer and the piece. -/
theorem writes_send
    (answer : H → (x : X) → Option (Reply x × H)) {buf : List UInt8}
    (hbuf : buf.length < chunkSize) {tok : Token} (htok : tok.Sendable) :
  ∃ wire toks buf', Proc.Writes answer (TokenWriter.send buf tok : Session Reply _) wire buf' ∧
    TokenStream wire toks ∧
    tokenItems toks ++ buf'.map .inl = buf.map .inl ++ tok.items ∧
    (∀ tok ∈ toks, tok.Chunked) ∧ buf'.length < chunkSize
  := by
  cases tok with
  | literal data =>
      rw [Token.items, ← List.map_append]
      apply writes_drainChunks
  | blockMatch idx =>
      obtain ⟨h₁, h₂⟩ := htok
      obtain ⟨wire, toks, hw, hs, hi, hc⟩ := writes_flushLiterals answer hbuf
      have hidx : wrapI32 (-(idx + 1)) = -(idx + 1) :=
        wrapI32_of_isI32 ⟨by omega, by omega⟩
      use wire ++ (leBytes 4 (-(idx + 1)) ++ []), toks ++ [.blockMatch idx], []
      refine ⟨?_, hs.append (TokenStream.blockMatch h₁ h₂ TokenStream.nil), ?_, ?_, by decide⟩
      · rw [TokenWriter.send, TokenWriter.sendBlockMatch, hidx]
        apply hw.bind
        apply (writes_writeInt _).bind
        apply Proc.writes_pure
      · simp [hi]
      · rw [List.forall_mem_append, List.forall_mem_singleton]
        apply And.intro hc
        trivial

theorem writes_forEach_send
    (answer : H → (x : X) → Option (Reply x × H)) {buf : List UInt8}
    (hbuf : buf.length < chunkSize) {pieces : List Token} (hp : ∀ tok ∈ pieces, tok.Sendable) :
  ∃ wire toks buf', Proc.Writes answer
      (Proc.forEach TokenWriter.send buf pieces : Session Reply _) wire buf' ∧
    TokenStream wire toks ∧
    tokenItems toks ++ buf'.map .inl = buf.map .inl ++ tokenItems pieces ∧
    (∀ tok ∈ toks, tok.Chunked) ∧ buf'.length < chunkSize
  := by
  induction pieces generalizing buf with
  | nil =>
      use [], [], buf
      refine ⟨Proc.writes_pure _, TokenStream.nil, ?_, List.forall_mem_nil _, hbuf⟩
      simp
  | cons tok pieces ih =>
      obtain ⟨wire₁, toks₁, buf₁, hw₁, hs₁, hi₁, hc₁, hb₁⟩ :=
        writes_send answer hbuf (hp tok List.mem_cons_self)
      obtain ⟨wire₂, toks₂, buf₂, hw₂, hs₂, hi₂, hc₂, hb₂⟩ :=
        ih hb₁ fun t ht => hp t (List.mem_cons_of_mem _ ht)
      use wire₁ ++ wire₂, toks₁ ++ toks₂, buf₂
      refine ⟨hw₁.bind hw₂, hs₁.append hs₂, ?_, List.forall_mem_append.mpr ⟨hc₁, hc₂⟩, hb₂⟩
      rw [tokenItems_append, List.append_assoc, hi₂, ← List.append_assoc, hi₁,
        List.append_assoc, tokenItems_cons]

/-- The pieces of a file that are sent are read as tokens with the same bytes and blocks in
the same order. -/
theorem writes_sendAll
    (answer : H → (x : X) → Option (Reply x × H)) {pieces : List Token}
    (hp : ∀ tok ∈ pieces, tok.Sendable) :
  ∃ wire toks, Proc.Writes answer (TokenWriter.sendAll pieces : Session Reply _) wire () ∧
    Proc.Reads answer (TokenReader.readTokens : Session Reply _) wire toks ∧
    tokenItems toks = tokenItems pieces ∧ ∀ tok ∈ toks, tok.Chunked
  := by
  obtain ⟨wire₁, toks₁, buf, hw₁, hs₁, hi₁, hc₁, hb⟩ :=
    writes_forEach_send answer (by decide : [].length < chunkSize) hp
  obtain ⟨wire₂, toks₂, hw₂, hs₂, hi₂, hc₂⟩ := writes_flushLiterals answer hb
  use wire₁ ++ (wire₂ ++ leBytes 4 0), toks₁ ++ toks₂
  refine ⟨?_, ?_, ?_, List.forall_mem_append.mpr ⟨hc₁, hc₂⟩⟩
  · apply hw₁.bind
    apply hw₂.bind (writes_writeInt 0)
  · rw [← List.append_assoc]
    apply (hs₁.append hs₂).reads
  · rw [tokenItems_append, hi₂, hi₁]
    rfl

/-! ### Blocks and the literal bytes between them -/

/-- The blocks that tokens refer to, in order. -/
def blockIndices : List Token → List ℤ
  | [] => []
  | .literal _ :: toks => blockIndices toks
  | .blockMatch idx :: toks => idx :: blockIndices toks

/-- The literal bytes before the first block, between blocks, and after the last one. -/
def literalsBetween : List Token → List (List UInt8)
  | [] => [[]]
  | .literal data :: toks => (literalsBetween toks).modifyHead (data ++ ·)
  | .blockMatch _ :: toks => [] :: literalsBetween toks

/-- The bytes before the first block, between blocks, and after the last one. -/
def itemsBetween : List (UInt8 ⊕ ℤ) → List (List UInt8)
  | [] => [[]]
  | .inl b :: items => (itemsBetween items).modifyHead (b :: ·)
  | .inr _ :: items => [] :: itemsBetween items

theorem itemsBetween_append
    (data : List UInt8) (items : List (UInt8 ⊕ ℤ)) :
  itemsBetween (data.map .inl ++ items) = (itemsBetween items).modifyHead (data ++ ·)
  := by
  induction data with
  | nil =>
      symm
      apply congrFun List.modifyHead_id
  | cons b data ih =>
      rw [List.map_cons, List.cons_append, itemsBetween, ih, List.modifyHead_modifyHead]
      rfl

theorem blockIndices_eq
    (toks : List Token) :
  blockIndices toks = (tokenItems toks).filterMap Sum.getRight?
  := by
  induction toks with
  | nil => rfl
  | cons tok toks ih =>
      rw [tokenItems_cons, List.filterMap_append, ← ih]
      cases tok with
      | literal data =>
          have hnone : (data.map Sum.inl).filterMap (Sum.getRight? : UInt8 ⊕ ℤ → _) = [] := by
            simp
          rw [Token.items, hnone]
          rfl
      | blockMatch idx => rfl

theorem literalsBetween_eq
    (toks : List Token) :
  literalsBetween toks = itemsBetween (tokenItems toks)
  := by
  induction toks with
  | nil => rfl
  | cons tok toks ih =>
      rw [tokenItems_cons]
      cases tok with
      | literal data => rw [literalsBetween, Token.items, itemsBetween_append, ih]
      | blockMatch idx =>
          rw [literalsBetween, ih]
          rfl

/-- However a file is cut into pieces, the reader finds its blocks in order and between them
the literal bytes that were sent there, in tokens of at most a chunk, and stops behind the end of
the file. -/
theorem readTokens_sendAll
    (answer : H → (x : X) → Option (Reply x × H)) {pieces : List Token}
    (hp : ∀ idx, .blockMatch idx ∈ pieces → 0 ≤ idx ∧ idx ≤ 2147483646) :
  ∃ wire toks, Proc.Writes answer (TokenWriter.sendAll pieces : Session Reply _) wire () ∧
    Proc.Reads answer (TokenReader.readTokens : Session Reply _) wire toks ∧
    blockIndices toks = blockIndices pieces ∧ literalsBetween toks = literalsBetween pieces ∧
    ∀ data, .literal data ∈ toks → data.length ≤ 32768
  := by
  have hsend : ∀ tok ∈ pieces, tok.Sendable := by
    intro tok htok
    cases tok with
    | literal data => trivial
    | blockMatch idx =>
        obtain ⟨h₁, h₂⟩ := hp idx htok
        apply And.intro h₁
        omega
  obtain ⟨wire, toks, hw, hr, hi, hc⟩ := writes_sendAll answer hsend
  use wire, toks
  refine ⟨hw, hr, ?_, ?_, fun data h => hc _ h⟩
  · rw [blockIndices_eq, hi, ← blockIndices_eq]
  · rw [literalsBetween_eq, hi, ← literalsBetween_eq]

theorem readTokens_sendAll_three :
  ∃ wire toks, Proc.Writes (fun h _ => some ((), h) : Unit → Unit → Option (Unit × Unit))
      (TokenWriter.sendAll [.literal [1, 2], .blockMatch 4, .literal [], .literal [3]] :
        Session _ Unit) wire () ∧
    Proc.Reads (fun h _ => some ((), h) : Unit → Unit → Option (Unit × Unit))
      (TokenReader.readTokens : Session _ _) wire toks ∧
    blockIndices toks = [4] ∧ literalsBetween toks = [[1, 2], [3]] ∧
    ∀ data, .literal data ∈ toks → data.length ≤ 32768
  := by
  refine @readTokens_sendAll _ _ _ _ [.literal [1, 2], .blockMatch 4, .literal [], .literal [3]] ?_
  intro idx hidx
  simp only [List.mem_cons, Token.blockMatch.injEq, reduceCtorEq, List.not_mem_nil, or_false,
    false_or] at hidx
  omega
