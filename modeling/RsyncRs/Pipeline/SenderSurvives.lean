import RsyncRs.Delta.DeflateWriter
import RsyncRs.Delta.Overlong
import RsyncRs.Delta.StoredFlate
import RsyncRs.Io.Panics
import RsyncRs.Pipeline.Request

/-!
# Requests that make the sender panic

The sender trusts the numbers in the head of a request. It panics on a negative number of
blocks, on blocks whose strong checksums have a negative length, and on strong checksums
longer than a digest when a window of its file has the rolling checksum of a full block. It
answers every other request, or fails with an error.
-/

variable {X : Type} {Reply : X → Type} {H : Type}

/-! ### Pieces are always sent -/

/-- Pieces that cover the data give tokens that may be sent. -/
theorem Covers.sendable
    {data : List UInt8} {blength n pos : ℕ} {ops : List DeltaOp} (hn : n < 2147483648)
    (h : Covers (fun idx _ => idx < n) blength data.length pos ops) :
  ∃ pieces, ops.mapM (opToken data) = .ok pieces ∧ ∀ tok ∈ pieces, tok.Sendable
  := by
  induction ops generalizing pos with
  | nil =>
      use [], rfl
      intro tok htok
      cases htok
  | cons op ops ih =>
      obtain ⟨tok, htok, hs, next, hrest⟩ : ∃ tok, opToken data op = .ok tok ∧ tok.Sendable ∧
          ∃ next, Covers (fun idx _ => idx < n) blength data.length next ops := by
        cases op with
        | literal offset l =>
            obtain ⟨rfl, m, -, hl, hle, hrest⟩ := h
            have hstop : offset + l ≤ data.length := by omega
            refine ⟨.literal ((data.drop offset).take (offset + l - offset)), ?_, trivial, _, hrest⟩
            rw [opToken, slice_eq (Nat.le_add_right _ _) hstop]
            rfl
        | blockMatch idx offset =>
            obtain ⟨rfl, -, hidx, hrest⟩ := h
            have hw : wrapI32 idx = idx := wrapI32_of_isI32 ⟨by omega, by omega⟩
            refine ⟨_, rfl, ?_, _, hrest⟩
            rw [hw]
            constructor <;> omega
      obtain ⟨pieces, hp, hsend⟩ := ih hrest
      use tok :: pieces
      constructor
      · rw [List.mapM_cons, htok, hp]
        rfl
      · intro t ht
        rcases List.mem_cons.mp ht with rfl | ht
        · apply hs
        · apply hsend t ht

section Deflated

variable {F : Flate}

/-- Pieces that cover the data give calls of the writer of deflated tokens. -/
theorem Covers.deflatable
    {good : ℕ → ℕ → Prop} {data : List UInt8} {blength pos : ℕ} {ops : List DeltaOp}
    (hdata : data.length < 18446744073709551616) (h : Covers good blength data.length pos ops) :
  ∃ calls, ∀ tw : DeflatedTokenWriter F,
    Proc.forEach (Sender.sendOpDeflated data blength) tw ops =
      Proc.forEach DeflatedTokenWriter.send tw calls
  := by
  induction ops generalizing pos with
  | nil =>
      use []
      intro tw
      rfl
  | cons op ops ih =>
      obtain ⟨call, next, hcall, hrest⟩ : ∃ call next,
          (∀ tw : DeflatedTokenWriter F, Sender.sendOpDeflated data blength tw op =
            DeflatedTokenWriter.send tw call) ∧
          Covers good blength data.length next ops := by
        cases op with
        | literal offset l =>
            obtain ⟨rfl, m, -, hl, hle, hrest⟩ := h
            have hstop : offset + l ≤ data.length := by omega
            have hslice := slice_eq (Nat.le_add_right offset l) hstop
            refine ⟨.literal ((data.drop offset).take (offset + l - offset)), _, ?_, hrest⟩
            intro tw
            rw [Sender.sendOpDeflated, lift_bind hslice]
            rfl
        | blockMatch idx offset =>
            obtain ⟨rfl, hle, -, hrest⟩ := h
            have hadd : addUsize offset blength = offset + blength := by
              apply Nat.mod_eq_of_lt
              omega
            have hslice := slice_eq (Nat.le_add_right offset blength) hle
            refine ⟨.blockMatch (wrapI32 idx)
              ((data.drop offset).take (offset + blength - offset)), _, ?_, hrest⟩
            intro tw
            rw [Sender.sendOpDeflated, hadd, min_eq_left hle, lift_bind hslice]
            rfl
      obtain ⟨calls, hcalls⟩ := ih hrest
      use call :: calls
      intro tw
      rw [Proc.forEach, Proc.forEach, hcall]
      congr
      funext tw'
      apply hcalls

end Deflated

namespace Sender

variable {answer : H → (x : FsCall) → Option (FsReply x × H)} {dig : Digests} {F : Flate}
  {args : SenderArgs}

/-- Pieces that cover the data are sent. -/
theorem writes_sendTokens
    (answer : H → (x : FsCall) → Option (FsReply x × H)) (L : F.Laws) (useZlib : Bool)
    {data : List UInt8} {blength n : ℕ} {ops : List DeltaOp} (hn : n < 2147483648)
    (hdata : data.length < 18446744073709551616)
    (h : Covers (fun idx _ => idx < n) blength data.length 0 ops) :
  ∃ wire, Proc.Writes answer (sendTokens F useZlib data blength ops) wire ()
  := by
  unfold sendTokens
  cases useZlib with
  | false =>
      obtain ⟨pieces, hpieces, hsend⟩ := h.sendable hn
      obtain ⟨wire, -, hw, -⟩ := writes_sendAll answer hsend
      use wire
      rw [if_neg Bool.false_ne_true, sendOps_eq hpieces]
      apply hw
  | true =>
      obtain ⟨calls, hcalls⟩ := h.deflatable (F := F) hdata
      obtain ⟨wire, hw, -⟩ := writes_sendCalls answer
        (DeflatedTokenWriter.Holds.new (L := L)) calls
      use wire
      rw [if_pos rfl, sendOpsDeflated, hcalls]
      apply hw

/-! ### Sending a file -/

/-- The host answers when a file is read, and no file is larger than the address space. -/
def ServesFiles (answer : H → (x : FsCall) → Option (FsReply x × H)) : Prop :=
  ∀ h path, ∃ r h', answer h (.readFile path) = some (r, h') ∧
    ∀ data, r = .ok data → data.length < 9223372036854775808

/-- The search can answer a request for the file with the index `ndx`, if the file can be
sent. -/
def FileFits (answer : H → (x : FsCall) → Option (FsReply x × H)) (args : SenderArgs) (ndx : ℤ)
    (head : SumHead) (sums : List SumBuf) (h : H) : Prop :=
  ∀ fi, args.flist.getByNdx ndx = some fi → fi.isRegular = true → ∀ data h',
    answer h (.readFile (args.baseDir.join fi.path)) = some (.ok data, h') →
    SearchFits head sums data

section

variable {head : SumHead} {sums : List SumBuf}
  (hlen : ∀ s ∈ sums, s.sum2.length = asUsize head.s2length)

include hlen

/-- Data that the search can be made on are sent. -/
theorem returns_sendData
    (answer : H → (x : FsCall) → Option (FsReply x × H)) (closed : Bool) (dig : Digests)
    (L : F.Laws) (args : SenderArgs) {data : List UInt8} (w : Endpoint H UInt8)
    (hcount : sums.length < 2147483648) (hdata : data.length < 9223372036854775808)
    (hfits : SearchFits head sums data) :
  ∃ w', Proc.Returns answer closed (sendData dig F args head sums data) w () w' ∧
    w'.input = w.input
  := by
  obtain ⟨ops, hops, hcov⟩ :=
    findMatchesSeeded_of_fits dig hlen (asU32 args.checksumSeed) hfits
  obtain ⟨wire, hw⟩ := writes_sendTokens answer L args.useZlib hcount
    (show data.length < 18446744073709551616 by omega) hcov
  unfold sendData
  rw [lift_bind hops]
  apply Exists.intro
  constructor
  · apply (writes_writeSumHead head closed w).bind
    apply (hw closed _).bind
    apply (writes_writeAll _ closed _).bind
    apply returns_flushOk
  · rfl

/-- Data that the search cannot be made on make the sender panic. -/
theorem fails_sendData
    (answer : H → (x : FsCall) → Option (FsReply x × H)) (closed : Bool) (dig : Digests)
    (F : Flate) (args : SenderArgs) {data : List UInt8} (w : Endpoint H UInt8)
    (hfits : ¬ SearchFits head sums data) :
  Proc.Fails answer closed (sendData dig F args head sums data) w overlongPanic w
  := by
  unfold sendData
  rw [lift_bind_error (findMatchesSeeded_of_not_fits dig hlen _ hfits)]
  apply Prog.Ends.ret

/-- A file is sent, or what stands for it, when the search can answer the request. -/
theorem returns_sendFile
    (hserves : ServesFiles answer) (closed : Bool) (dig : Digests) (L : F.Laws) (s : Sender)
    {ndx : ℤ} (w : Endpoint H UInt8) (hcount : sums.length < 2147483648)
    (hfits : FileFits answer args ndx head sums w.host) :
  ∃ s' w', Proc.Returns answer closed (sendFile dig F args s ndx head sums) w s' w' ∧
    w'.input = w.input
  := by
  by_cases hun : Unsendable answer args w.host ndx
  · obtain ⟨h', hsend⟩ := returns_sendFile_of_unsendable closed dig F s head sums w hun
    exact ⟨s, _, hsend, rfl⟩
  unfold Unsendable at hun
  unfold sendFile
  cases hfi : args.flist.getByNdx ndx with
  | none =>
      rw [hfi] at hun
      cases hun trivial
  | some fi =>
      rw [hfi] at hun
      dsimp only at hun ⊢
      obtain ⟨hreg, hread⟩ := not_or.mp hun
      rw [if_neg (by simpa using hreg)]
      obtain ⟨r, h', hans, hsize⟩ := hserves w.host (args.baseDir.join fi.path)
      cases r with
      | error e => cases hread ⟨e, h', hans⟩
      | ok data =>
          have hsearch := hfits fi hfi (by simpa using hreg) data h' hans
          obtain ⟨w', hdata, hinput⟩ := returns_sendData hlen answer closed dig L args
            { w with host := h' } hcount (hsize data rfl) hsearch
          refine ⟨s.sent data, w', ?_, hinput⟩
          apply Proc.Returns.bind (Proc.returns_host hans)
          apply hdata.bind
          apply Proc.returns_pure

/-- The sender panics when the search cannot answer the request. -/
theorem fails_sendFile
    (closed : Bool) (dig : Digests) (F : Flate) (s : Sender) {ndx : ℤ} (w : Endpoint H UInt8)
    (hfits : ¬ FileFits answer args ndx head sums w.host) :
  ∃ w', Proc.Fails answer closed (sendFile dig F args s ndx head sums) w overlongPanic w'
  := by
  unfold FileFits at hfits
  push Not at hfits
  obtain ⟨fi, hfi, hreg, data, h', hans, hsearch⟩ := hfits
  unfold sendFile
  rw [hfi]
  dsimp only
  rw [if_neg (by simp [hreg])]
  apply Exists.intro
  apply Proc.Returns.bind_fails (Proc.returns_host hans)
  apply Proc.Fails.bind
  apply fails_sendData hlen answer closed dig F args _ hsearch

end

/-! ### Reading a request -/

theorem avoids_readNdxNumber
    (first : UInt8) (w : Endpoint H UInt8) :
  Proc.Avoids answer true Error.IsPanic (readNdxNumber first : Session FsReply (Bool × ℤ)) w
  := by
  unfold readNdxNumber
  split_ifs
  · apply Proc.avoids_andThen avoids_readByte
    intro hi
    apply Proc.avoids_andThen avoids_readByte
    intro lo
    split_ifs
    · apply Proc.avoids_andThen avoids_readByte
      intro b1
      apply Proc.avoids_andThen avoids_readByte
      intro b2
      apply Proc.avoids_pure
    · apply Proc.avoids_pure
  · apply Proc.avoids_pure

theorem avoids_readIndex
    (protocol : ℕ) (rx : NdxState) (w : Endpoint H UInt8) :
  Proc.Avoids answer true Error.IsPanic (readIndex protocol rx : Session FsReply _) w
  := by
  unfold readIndex
  split_ifs
  · apply Proc.avoids_andThen avoids_readByte
    intro b0
    split_ifs
    · apply Proc.avoids_pure
    · apply Proc.avoids_andThen avoids_readByte
      intro first
      apply Proc.avoids_andThen (avoids_readNdxNumber first)
      intro raw
      apply Proc.avoids_pure
    · apply Proc.avoids_andThen (avoids_readNdxNumber b0)
      intro raw
      apply Proc.avoids_pure
  · apply Proc.avoids_map_iff.mpr (avoids_readInt w)

theorem avoids_readIflags
    (protocol : ℕ) (w : Endpoint H UInt8) :
  Proc.Avoids answer true Error.IsPanic (readIflags protocol : Session FsReply ℕ) w
  := by
  unfold readIflags
  split_ifs
  · apply Proc.avoids_map_iff.mpr (avoids_readBytes 2 w)
  · apply Proc.avoids_pure

theorem avoids_readVstring
    (w : Endpoint H UInt8) :
  Proc.Avoids answer true Error.IsPanic (readVstring : Session FsReply (List UInt8)) w
  := by
  have hrest : ∀ n (w : Endpoint H UInt8), Proc.Avoids answer true Error.IsPanic (do
      let bs ← readBytes n
      pure (fromUtf8Lossy bs) : Session FsReply (List UInt8)) w := by
    intro n w
    apply Proc.avoids_map_iff.mpr (avoids_readBytes n w)
  apply Proc.avoids_andThen avoids_readByte
  intro b0
  split_ifs
  · apply Proc.avoids_andThen avoids_readByte
    intro b1
    apply hrest
  · apply hrest

/-- What goes on after an error that is no panic does not panic. -/
theorem avoids_okOrNone
    {α : Type} {p : Session FsReply α} {w : Endpoint H UInt8}
    (hp : Proc.Avoids answer true Error.IsPanic p w) :
  Proc.Avoids answer true Error.IsPanic (okOrNone p) w
  := by
  unfold okOrNone
  apply Proc.avoids_bind_iff.mpr
  constructor
  · intro e w' he
    obtain ⟨r, w₁, -, hend⟩ := Prog.Ends.bind_inv he
    cases (Prog.Ends.of_ret hend).1
  · intro r w' hr
    obtain ⟨r', w₁, hp', hend⟩ := Prog.Ends.bind_inv hr
    obtain ⟨he, rfl⟩ := Prog.Ends.of_ret hend
    cases he
    cases r with
    | ok a => apply Proc.avoids_pure
    | error e =>
        cases e with
        | panic m => cases hp _ _ hp' trivial
        | _ => apply Proc.avoids_pure

theorem avoids_readItemFields
    (iflags : ℕ) (w : Endpoint H UInt8) :
  Proc.Avoids answer true Error.IsPanic (readItemFields iflags : Session FsReply ItemFields) w
  := by
  have htype : ∀ w : Endpoint H UInt8, Proc.Avoids answer true Error.IsPanic
      (readFnamecmpType iflags : Session FsReply UInt8) w := by
    intro w
    unfold readFnamecmpType
    split_ifs
    · apply avoids_readByte
    · apply Proc.avoids_pure
  have hname : ∀ w : Endpoint H UInt8, Proc.Avoids answer true Error.IsPanic
      (readXname iflags : Session FsReply Name) w := by
    intro w
    unfold readXname
    split_ifs
    · apply Proc.avoids_map_iff.mpr (avoids_okOrNone (avoids_readVstring w))
    · apply Proc.avoids_pure
  apply Proc.avoids_andThen htype
  intro fnamecmpType
  apply Proc.avoids_andThen hname
  intro xname
  apply Proc.avoids_pure

theorem avoids_readSumHead
    (w : Endpoint H UInt8) :
  Proc.Avoids answer true Error.IsPanic (readSumHead : Session FsReply SumHead) w
  := by
  apply Proc.avoids_andThen avoids_readInt
  intro count
  apply Proc.avoids_andThen avoids_readInt
  intro blength
  apply Proc.avoids_andThen avoids_readInt
  intro s2length
  apply Proc.avoids_andThen avoids_readInt
  intro remainder
  apply Proc.avoids_pure

/-! ### Checksums of blocks -/

/-- The blocks of a request with the given head can be read: their number is not negative,
and if there are any then the length of their strong checksums is not negative either, or the
input ends within the first of them. -/
def SumsFit (head : SumHead) (input : List UInt8) : Prop :=
  0 ≤ head.count ∧ (head.count = 0 ∨ 0 ≤ head.s2length ∨ input.length < 4)

theorem avoids_readSumBufsFrom_iff
    {head : SumHead} (h : IsI32 head.s2length) (n : ℕ) (offset : ℤ) (w : Endpoint H UInt8) :
  Proc.Avoids answer true Error.IsPanic
      (readSumBufsFrom head n offset : Session FsReply (List SumBuf)) w ↔
    n = 0 ∨ 0 ≤ head.s2length ∨ w.input.length < 4
  := by
  induction n generalizing offset w with
  | zero => simp [readSumBufsFrom, Proc.avoids_pure]
  | succ n ih =>
      obtain ⟨hfits, hpanic⟩ := reserve_cases (by decide : 1 ≤ 1 ∧ 1 ≤ sumBufSize) h
      unfold readSumBufsFrom
      rw [Proc.avoids_bind_iff, and_iff_right (avoids_readInt w), or_iff_right (Nat.succ_ne_zero n)]
      by_cases hs : 0 ≤ head.s2length
      · apply iff_of_true _ (.inl hs)
        intro sum1 w₁ _
        rw [lift_bind (hfits hs)]
        apply Proc.avoids_andThen (avoids_readBytes _)
        intro sum2 w₂
        apply Proc.avoids_map_iff.mpr
        apply (ih _ w₂).mpr (.inr (.inl hs))
      · simp only [hs, false_or, lift_bind_error (hpanic (not_le.mp hs)), Proc.avoids_throw_iff]
        unfold readInt
        rw [Proc.after_bind_iff, after_readBytes_iff]
        simp [Proc.after_pure_iff, Error.IsPanic]

/-- Reading the blocks panics on a head that does not fit. -/
theorem avoids_readSumBufs_iff
    {head : SumHead} (h : head.InRange) (w : Endpoint H UInt8) :
  Proc.Avoids answer true Error.IsPanic (readSumBufs head : Session FsReply (List SumBuf)) w ↔
    SumsFit head w.input
  := by
  obtain ⟨hfits, hpanic⟩ := reserve_cases (by decide : 1 ≤ sumBufSize ∧ _) h.count
  have hcount := h.count
  unfold readSumBufs SumsFit
  by_cases hc : 0 ≤ head.count
  · have hzero : asUsize head.count = 0 ↔ head.count = 0 := by
      unfold asUsize IsI32 at *
      omega
    rw [lift_bind (hfits hc), avoids_readSumBufsFrom_iff h.s2length, hzero, and_iff_right hc]
  · rw [lift_bind_error (hpanic (not_le.mp hc)), Proc.avoids_throw_iff]
    simp [Error.IsPanic, hc]

/-- As many blocks are read as the head announces, with strong checksums of the length that it
announces. -/
theorem of_readSumBufs
    {closed : Bool} {head : SumHead} (h : head.InRange) {w w' : Endpoint H UInt8}
    {sums : List SumBuf}
    (hr : Proc.Returns answer closed (readSumBufs head : Session FsReply _) w sums w') :
  sums.length < 2147483648 ∧ ∀ s ∈ sums, s.sum2.length = asUsize head.s2length
  := by
  have key : ∀ n offset (v v' : Endpoint H UInt8) sums,
      Proc.Returns answer closed (readSumBufsFrom head n offset : Session FsReply _) v sums v' →
      sums.length = n ∧ ∀ s ∈ sums, s.sum2.length = asUsize head.s2length := by
    intro n
    induction n with
    | zero =>
        intro offset v v' sums hv
        cases hv.pure_inv.1
        simp
    | succ n ih =>
        intro offset v v' sums hv
        obtain ⟨sum1, v₁, -, hv⟩ := hv.bind_inv
        obtain ⟨_, v₂, -, hv⟩ := hv.bind_inv
        obtain ⟨sum2, v₃, h2, hv⟩ := hv.bind_inv
        obtain ⟨rest, v₄, hrest, hv⟩ := hv.bind_inv
        cases hv.pure_inv.1
        obtain ⟨hlen, hall⟩ := ih _ _ _ _ hrest
        constructor
        · rw [List.length_cons, hlen]
        · intro s hs
          rcases List.mem_cons.mp hs with rfl | hs
          · apply length_of_readBytes h2
          · apply hall s hs
  obtain ⟨_, w₁, hreserve, hr⟩ := hr.bind_inv
  obtain ⟨hlen, hall⟩ := key _ _ _ _ _ hr
  refine ⟨?_, hall⟩
  have hcount := h.count
  have hc : 0 ≤ head.count := by
    by_contra hneg
    have hpanic := (reserve_cases (by decide : 1 ≤ sumBufSize ∧ _) hcount).2 (not_le.mp hneg)
    rw [hpanic] at hreserve
    cases (Prog.Ends.of_ret hreserve).1
  rw [hlen]
  unfold asUsize IsI32 at *
  omega

/-! ### Rounds -/

/-- Read a request for the data of a file up to its blocks, if the input starts with one. -/
def readRequestHead (protocol : ℕ) (rx : NdxState) : Session FsReply (Option Request) := do
  let (ndx, _) ← readIndex protocol rx
  if ndx = ndxDone then
    pure none
  else
    let iflags ← readIflags protocol
    let fields ← readItemFields iflags
    if iflags &&& itemTransfer = 0 then
      pure none
    else
      let head ← readSumHead
      pure (some { ndx, iflags, fields, head })

/-- The sender does not panic on the next request: if it is a request for the data of a file,
and it can be echoed, then its blocks can be read and the search can answer it. -/
def RequestFits (answer : H → (x : FsCall) → Option (FsReply x × H)) (args : SenderArgs)
    (s : Sender) (w : Endpoint H UInt8) : Prop :=
  Proc.After answer true (readRequestHead args.protocol s.rx) w fun req w =>
    ∀ r, req = some r → r.fields.xname.length ≤ 0x7FFF →
      SumsFit r.head w.input ∧
        Proc.After answer true (readSumBufs r.head : Session FsReply _) w fun sums w =>
          FileFits answer args r.ndx r.head sums w.host

theorem avoids_flushOk
    (w : Endpoint H UInt8) :
  Proc.Avoids answer true Error.IsPanic (flushOk : Session FsReply Unit) w
  := (returns_flushOk true w).avoids

theorem avoids_endPhase
    (args : SenderArgs) (s : Sender) (w : Endpoint H UInt8) :
  Proc.Avoids answer true Error.IsPanic (endPhase args s) w
  := by
  unfold endPhase
  split_ifs
  · apply Proc.avoids_pure
  · apply ((writes_writeIndex _ _ _).avoids_bind_iff w).mpr
    apply Proc.avoids_andThen avoids_flushOk
    intro _
    apply Proc.avoids_pure

/-- Once its blocks are read, a request makes the sender panic when the search cannot answer
it. -/
theorem avoids_sendFile_iff
    (hserves : ServesFiles answer) (dig : Digests) (L : F.Laws) (s : Sender) {ndx : ℤ}
    {head : SumHead} {sums : List SumBuf} (w : Endpoint H UInt8)
    (hlen : ∀ s ∈ sums, s.sum2.length = asUsize head.s2length)
    (hcount : sums.length < 2147483648) :
  Proc.Avoids answer true Error.IsPanic (sendFile dig F args s ndx head sums) w ↔
    FileFits answer args ndx head sums w.host
  := by
  constructor
  · intro h
    by_contra hfits
    obtain ⟨w', hfails⟩ := fails_sendFile hlen true dig F s w hfits
    apply h _ _ hfails trivial
  · intro hfits
    obtain ⟨s', w', hreturns, -⟩ := returns_sendFile hlen hserves true dig L s w hcount hfits
    apply hreturns.avoids

/-- The answer to a request, after the echo. -/
theorem avoids_reply_iff
    (hserves : ServesFiles answer) (dig : Digests) (L : F.Laws) (s : Sender) (ndx : ℤ)
    (iflags : ℕ) {fields : ItemFields} (hx : fields.xname.length ≤ 0x7FFF)
    {v w : Endpoint H UInt8} (hinput : v.input = w.input) (hhost : v.host = w.host) :
  Proc.Avoids answer true Error.IsPanic
      (do
        let head ← readSumHead
        let sums ← readSumBufs head
        sendFile dig F args s ndx head sums) v ↔
    Proc.After answer true (do
        let head ← readSumHead
        pure (some { ndx, iflags, fields, head }) : Session FsReply (Option Request)) w
      fun req w => ∀ r, req = some r → r.fields.xname.length ≤ 0x7FFF →
        SumsFit r.head w.input ∧
          Proc.After answer true (readSumBufs r.head : Session FsReply _) w fun sums w =>
            FileFits answer args r.ndx r.head sums w.host
  := by
  rw [Proc.avoids_bind_iff, and_iff_right (avoids_readSumHead v), Proc.after_bind_iff]
  apply onlyReads_readSumHead.after_congr hinput
  intro head input hhead
  have hrange := inRange_of_readSumHead hhead
  rw [Proc.after_pure_iff, Proc.avoids_bind_iff, avoids_readSumBufs_iff hrange]
  simp only [Option.some.injEq, forall_eq', hx, true_implies]
  apply and_congr_right
  intro _
  have hsame : ({ v with input := input } : Endpoint H UInt8).input =
      ({ w with input := input } : Endpoint H UInt8).input := rfl
  apply (onlyReads_readSumBufs head).after_congr hsame
  intro sums rest hsums
  obtain ⟨hcount, hlen⟩ := of_readSumBufs hrange hsums
  rw [avoids_sendFile_iff hserves dig L s _ hlen hcount]
  dsimp only
  rw [hhost]

/-- A round panics when the next request does not fit. -/
theorem avoids_round_iff
    (hserves : ServesFiles answer) (dig : Digests) (L : F.Laws) (s : Sender)
    (w : Endpoint H UInt8) :
  Proc.Avoids answer true Error.IsPanic (round dig F args s) w ↔ RequestFits answer args s w
  := by
  unfold round RequestFits readRequestHead
  rw [Proc.avoids_bind_iff, and_iff_right (avoids_readIndex _ _ w), Proc.after_bind_iff]
  apply Proc.after_congr
  rintro ⟨ndx, rx⟩ w₁
  dsimp only
  by_cases hd : ndx = ndxDone
  · rw [if_pos hd, if_pos hd, Proc.after_pure_iff]
    apply iff_of_true (avoids_endPhase args _ w₁)
    intro r hr
    cases hr
  rw [if_neg hd, if_neg hd, Proc.avoids_map_iff]
  unfold answerRequest
  rw [Proc.avoids_bind_iff, and_iff_right (avoids_readIflags _ w₁), Proc.after_bind_iff]
  apply Proc.after_congr
  intro iflags w₂
  rw [Proc.avoids_bind_iff, and_iff_right (avoids_readItemFields _ w₂), Proc.after_bind_iff]
  apply (onlyReads_readItemFields iflags).after_congr rfl
  intro fields input hfields
  rw [(writes_writeIndex _ _ _).avoids_bind_iff, (writes_writeIflags _ _).avoids_bind_iff]
  by_cases hx : fields.xname.length ≤ 0x7FFF
  · rw [(writes_writeItemFields iflags hx).avoids_bind_iff]
    by_cases ht : iflags &&& itemTransfer = 0
    · rw [if_pos ht, if_pos ht, Proc.after_pure_iff]
      apply iff_of_true
      · apply Proc.avoids_andThen avoids_flushOk
        intro _
        apply Proc.avoids_pure
      · intro r hr
        cases hr
    · rw [if_neg ht, if_neg ht]
      exact avoids_reply_iff hserves dig L _ ndx iflags hx rfl rfl
  · -- the name is too long to be echoed, so it has been announced
    have hf : iflags &&& itemXnameFollows ≠ 0 := by
      intro hf
      apply hx
      rw [xname_of_readItemFields hf hfields]
      apply Nat.zero_le
    apply iff_of_true
    · obtain ⟨m, w', hfails⟩ : ∃ m w', Proc.Fails answer true
          (writeItemFields iflags fields : Session FsReply Unit) _ (.other m) w' :=
        fails_writeItemFields hf (not_le.mp hx) _
      apply hfails.bind.avoids_iff.mpr
      intro h
      apply h
    · by_cases ht : iflags &&& itemTransfer = 0
      · rw [if_pos ht, Proc.after_pure_iff]
        intro r hr
        cases hr
      · rw [if_neg ht, Proc.after_bind_iff]
        intro head w' _
        rw [Proc.after_pure_iff]
        intro r hr hle
        cases hr
        cases hx hle

/-! ### Every request comes to an end -/

theorem halts_readIndex
    (protocol : ℕ) (rx : NdxState) :
  Proc.Halts answer (readIndex protocol rx : Session FsReply _) 1
  := by
  unfold readIndex
  split_ifs
  · apply halts_readByte.first
    intro b0
    split_ifs
    · apply Proc.halts_pure
    · apply halts_readByte_zero.andThen
      intro first
      apply (onlyReads_readNdxNumber first).halts.map
    · apply (onlyReads_readNdxNumber b0).halts.map
  · have hint : Proc.Halts answer (readInt : Session FsReply ℤ) 1 :=
      (Proc.halts_readExact_succ _ 3).map _
    apply hint.map

theorem halts_flushOk :
  Proc.Halts answer (flushOk : Session FsReply Unit) 0
  := by
  apply Proc.halts_of_returns
  intro w
  refine ⟨(), _, returns_flushOk true w, rfl⟩

theorem halts_endPhase
    (args : SenderArgs) (s : Sender) :
  Proc.Halts answer (endPhase args s) 0
  := by
  unfold endPhase
  split_ifs
  · apply Proc.halts_pure
  · apply (onlyWrites_writeIndex _ _ _).halts.andThen
    intro tx
    apply halts_flushOk.map

/-- The answer to a request, after the echo, comes to an end. -/
theorem halts_reply
    (hserves : ServesFiles answer) (dig : Digests) (L : F.Laws) (s : Sender) (ndx : ℤ) :
  Proc.Halts answer
    (do
      let head ← readSumHead
      let sums ← readSumBufs head
      sendFile dig F args s ndx head sums) 0
  := by
  intro w
  rcases onlyReads_readSumHead.halts w with ⟨e, w₁, he⟩ | ⟨head, w₁, hhead, hle₁⟩
  · exact .inl ⟨e, w₁, he.bind⟩
  rcases (onlyReads_readSumBufs head).halts w₁ with ⟨e, w₂, he⟩ | ⟨sums, w₂, hsums, hle₂⟩
  · exact .inl ⟨e, w₂, hhead.bind_fails he.bind⟩
  obtain ⟨hcount, hlen⟩ := of_readSumBufs (inRange_of_readSumHead hhead) hsums
  by_cases hfits : FileFits answer args ndx head sums w₂.host
  · obtain ⟨s', w', hs', hinput⟩ := returns_sendFile hlen hserves true dig L s w₂ hcount hfits
    refine .inr ⟨s', w', hhead.bind (hsums.bind hs'), ?_⟩
    rw [hinput]
    omega
  · obtain ⟨w', hfails⟩ := fails_sendFile hlen true dig F s w₂ hfits
    exact .inl ⟨_, w', hhead.bind_fails (hsums.bind_fails hfails)⟩

theorem halts_round
    (hserves : ServesFiles answer) (dig : Digests) (L : F.Laws) (s : Sender) :
  Proc.Halts answer (round dig F args s) 1
  := by
  apply (halts_readIndex _ _).first
  rintro ⟨ndx, rx⟩
  dsimp only
  split_ifs
  · apply halts_endPhase
  · apply Proc.Halts.map
    apply (onlyReads_readIflags _).halts.andThen
    intro iflags
    apply (onlyReads_readItemFields _).halts.andThen
    intro fields
    apply (onlyWrites_writeIndex _ _ _).halts.andThen
    intro tx
    apply (onlyWrites_writeIflags _ _).halts.andThen
    intro _
    apply (onlyWrites_writeItemFields _ _).halts.andThen
    intro _
    split_ifs
    · apply halts_flushOk.map
    · apply halts_reply hserves dig L

theorem halts_run
    (hserves : ServesFiles answer) (dig : Digests) (L : F.Laws) (s : Sender) :
  Proc.Halts answer (run dig F args s) 0
  := by
  apply (Proc.halts_loop (halts_round hserves dig L) s).andThen
  intro s'
  apply (onlyWrites_writeIndex _ _ _).halts.andThen
  intro tx
  apply halts_flushOk.map

/-! ### Malformed requests -/

theorem avoids_run_iff
    (hserves : ServesFiles answer) (dig : Digests) (L : F.Laws) (s : Sender)
    (w : Endpoint H UInt8) :
  Proc.Avoids answer true Error.IsPanic (run dig F args s) w ↔
    ∀ s' w', Proc.Rounds answer true (round dig F args) (s, w) (s', w') →
      RequestFits answer args s' w'
  := by
  have hlast : ∀ (s' : Sender) (v : Endpoint H UInt8), Proc.Avoids answer true Error.IsPanic (do
      let tx ← writeIndex args.protocol s'.tx ndxDone
      flushOk
      pure { s' with tx := tx }) v := by
    intro s' v
    apply ((writes_writeIndex _ _ _).avoids_bind_iff v).mpr
    apply Proc.avoids_map_iff.mpr (avoids_flushOk _)
  unfold run
  rw [Proc.avoids_first_iff hlast, Proc.avoids_loop_iff]
  simp only [avoids_round_iff hserves dig L]

/-- The sender returns a result or an error on every input, exactly when every request that it
comes to fits. There is room for all that an allocation within the address space asks for. -/
theorem requests_survived_iff
    (answer : H → (x : FsCall) → Option (FsReply x × H)) (hserves : ServesFiles answer)
    (dig : Digests) (L : F.Laws) (args : SenderArgs) (s : Sender) (w : Endpoint H UInt8) :
  Proc.Survives answer Error.IsPanic (run dig F args s) w ↔
    ∀ s' w', Proc.Rounds answer true (round dig F args) (s, w) (s', w') →
      RequestFits answer args s' w'
  := by
  rw [(halts_run hserves dig L s).survives_iff, avoids_run_iff hserves dig L]

/-- A host without any files. -/
def emptyHost : Unit → (x : FsCall) → Option (FsReply x × Unit)
  | _, .readFile _ => some (.error "No such file or directory", ())
  | _, _ => none

theorem servesFiles_emptyHost :
  ServesFiles emptyHost
  := by
  intro h path
  refine ⟨.error "No such file or directory", (), rfl, ?_⟩
  intro data hdata
  cases hdata

/-- A sender with an empty file list. -/
def emptyArgs : SenderArgs :=
  { flist := {}, baseDir := [], protocol := 31, checksumSeed := 0, useZlib := false }

/-- A sender with an empty file list, asked for the data of a file that it does not have, survives
and meets only requests that fit. -/
theorem requests_survived_unknown :
  Proc.Survives emptyHost Error.IsPanic (run digestsOfZeros StoredFlate.codec emptyArgs {})
      { host := (), input := encodeRequest 31 {} 0 ⟨0, 700, 32, 0⟩ [], buffer := [],
        sent := [] } ∧
    ∀ s' w', Proc.Rounds emptyHost true (round digestsOfZeros StoredFlate.codec emptyArgs)
      ({}, { host := (), input := encodeRequest 31 {} 0 ⟨0, 700, 32, 0⟩ [],
             buffer := [], sent := [] }) (s', w') →
    RequestFits emptyHost emptyArgs s' w'
  := by
  have hiff := requests_survived_iff emptyHost servesFiles_emptyHost digestsOfZeros
    StoredFlate.laws emptyArgs {}
    { host := (), input := encodeRequest 31 {} 0 ⟨0, 700, 32, 0⟩ [], buffer := [], sent := [] }
  rw [← hiff, and_self]
  have hhead : SumHead.InRange ⟨0, 700, 32, 0⟩ := by constructor <;> decide
  have hreq : Proc.Reads emptyHost (readRequest emptyArgs.protocol {})
      (encodeRequest 31 {} 0 ⟨0, 700, 32, 0⟩ [])
      (some { ndx := 0, iflags := itemTransfer, fields := {}, head := ⟨0, 700, 32, 0⟩ }) :=
    reads_readRequest 31 {} (by decide) (by decide) (by decide) hhead (Proc.reads_pure [])
  have hread := hreq true
    { host := (), input := encodeRequest 31 {} 0 ⟨0, 700, 32, 0⟩ [], buffer := [],
      sent := [] } [] (List.append_nil _).symm
  obtain ⟨rx, sums, hround⟩ :=
    returns_round (s := {}) digestsOfZeros StoredFlate.codec hread (Nat.zero_le _)
  have hun : Unsendable emptyHost emptyArgs () 0 := trivial
  obtain ⟨s₁, w₁, hfirst, hend⟩ : ∃ s₁ w₁, Proc.Returns emptyHost true
      (round digestsOfZeros StoredFlate.codec emptyArgs {})
      { host := (), input := encodeRequest 31 {} 0 ⟨0, 700, 32, 0⟩ [], buffer := [], sent := [] }
      (.inl s₁) w₁ ∧ w₁.input = [] := by
    obtain ⟨h', hskip⟩ := returns_sendFile_of_unsendable true digestsOfZeros StoredFlate.codec
      { rx := rx, tx := (encodeIndex 31 {} 0).2 } ⟨0, 700, 32, 0⟩ sums
      { host := (), input := [], buffer := encodeEcho 31 {} 0 itemTransfer {}, sent := [] } hun
    exact ⟨_, _, hround _ _ hskip, rfl⟩
  -- after the reply the input ends
  refine .inr ⟨.unexpectedEof, w₁, ?_, fun h => h⟩
  apply Proc.Fails.bind
  apply Proc.fails_loop_iff.mpr
  refine ⟨s₁, w₁, Relation.ReflTransGen.single (Proc.round_iff.mpr hfirst), ?_⟩
  apply Proc.Fails.bind
  apply Proc.Fails.bind
  apply Proc.fails_read _ hend

theorem reads_readRequestHead
    (protocol : ℕ) (rx : NdxState) {ndx : ℤ} (h₁ : -2147483648 < ndx) (h₂ : ndx < 2147483648)
    (hd : ndx ≠ ndxDone) {head : SumHead} (hhead : head.InRange) :
  Proc.Reads answer (readRequestHead protocol rx) (encodeRequest protocol rx ndx head [])
    (some { ndx, iflags := itemTransfer, fields := {}, head })
  := by
  apply (reads_readIndex protocol rx h₁ h₂).bind
  dsimp only
  rw [if_neg hd]
  have hi : itemTransfer < 65536 := by decide
  apply (reads_readIflags protocol hi fun _ => rfl).bind
  rw [← List.nil_append (encodeSumHead head ++ _)]
  apply reads_readItemFields.bind
  rw [if_neg (by decide)]
  apply (reads_readSumHead hhead).bind
  apply Proc.reads_pure

/-- A negative number of blocks makes the sender panic, even if the file that is asked for is
not listed. -/
theorem requests_not_survived :
  ¬ Proc.Survives emptyHost Error.IsPanic
    (run digestsOfZeros StoredFlate.codec emptyArgs {})
    { host := (), input := encodeRequest 31 {} 0 ⟨-1, 700, 16, 0⟩ [], buffer := [], sent := [] }
  := by
  rw [(halts_run servesFiles_emptyHost digestsOfZeros StoredFlate.laws {}).survives_iff,
    avoids_run_iff servesFiles_emptyHost digestsOfZeros StoredFlate.laws]
  intro h
  have hfits := h {} _ Relation.ReflTransGen.refl
  have hhead : SumHead.InRange ⟨-1, 700, 16, 0⟩ := by constructor <;> decide
  have hread : Proc.Reads emptyHost (readRequestHead 31 {})
      (encodeRequest 31 {} 0 ⟨-1, 700, 16, 0⟩ []) _ :=
    reads_readRequestHead 31 {} (by decide) (by decide) (by decide) hhead
  obtain ⟨hsums, -⟩ := hfits _ _ (hread true _ [] (List.append_nil _).symm) _ rfl (by decide)
  have hcount : (0 : ℤ) ≤ -1 := hsums.1
  omega

end Sender
