import RsyncRs.Fs.Moves
import RsyncRs.Pipeline.Receiver

/-!
# What a receiver exchanges with the sender

While a receiver requests a file, reads the reply, and ends its phases, it reads files at most. So
whatever stays true when files are read stays true meanwhile.
-/

open Disk.Moves (OnlyReadsFile)

variable {F : Flate} {dig : Digests} {φ : FsCall → Prop}

/-! ### Tokens -/

theorem asks_lift
    {α : Type} (e : Except Error α) :
  Proc.Asks φ (liftM e : Session FsReply α)
  := (onlyReads_lift e).asks

theorem asks_flushOk :
  Proc.Asks φ (flushOk : Session FsReply Unit)
  := (Proc.asks_flush _).attempt.bind fun _ => Proc.asks_pure _

theorem asks_readTokens :
  Proc.Asks φ (TokenReader.readTokens : Session FsReply (List Token))
  := by
  have hread : ∀ n, Proc.Asks φ (TokenReader.readToken n : Session FsReply _) := by
    intro n
    unfold TokenReader.readToken
    split
    · exact (onlyReads_readBytes _).asks.bind fun _ => Proc.asks_pure _
    · apply onlyReads_readInt.asks.bind
      intro i
      split
      · exact Proc.asks_pure _
      · split
        · exact (onlyReads_readBytes _).asks.bind fun _ => Proc.asks_pure _
        · exact Proc.asks_pure _
  apply Proc.asks_loop
  intro s
  apply (hread s.1).bind
  rintro ⟨tok, n⟩
  cases tok with
  | none => exact Proc.asks_pure _
  | some tok => exact Proc.asks_pure _

namespace DeflatedTokenReader

theorem asks_decodeFlag
    (tr : DeflatedTokenReader F) (flag : UInt8) :
  Proc.Asks φ (decodeFlag tr flag : Session FsReply _)
  := by
  unfold decodeFlag
  split
  · exact Proc.asks_pure _
  · -- what comes after the number of the block is the same for both kinds of numbers
    extract_lets follow
    have hfollow : ∀ x, Proc.Asks φ (follow x) := by
      rintro ⟨rxToken, f⟩
      dsimp only [follow]
      split
      · exact (onlyReads_readBytes 2).asks.bind fun _ => Proc.asks_pure _
      · exact Proc.asks_pure _
    split
    · exact (Proc.asks_pure _).bind hfollow
    · apply onlyReads_readInt.asks.bind
      intro t
      split
      · exact (Proc.asks_throw _).bind hfollow
      · exact (Proc.asks_pure _).bind hfollow

theorem asks_handleFlag
    (tr : DeflatedTokenReader F) (flag : UInt8) :
  Proc.Asks φ (handleFlag tr flag : Session FsReply _)
  := by
  unfold handleFlag
  split
  · apply onlyReads_readByte.asks.bind
    intro lo
    exact (onlyReads_readBytes _).asks.bind fun _ => Proc.asks_pure _
  split
  · apply (asks_lift _).bind
    intro r
    split
    · exact Proc.asks_pure _
    · apply (asks_lift _).bind
      intro r'
      split
      · exact Proc.asks_throw _
      · exact (asks_decodeFlag _ flag).bind fun _ => Proc.asks_pure _
  · exact (asks_decodeFlag tr flag).bind fun _ => Proc.asks_pure _

theorem asks_readToken
    (tr : DeflatedTokenReader F) :
  Proc.Asks φ (readToken tr : Session FsReply _)
  := by
  have hread : ∀ tr : DeflatedTokenReader F, Proc.Asks φ
      (readByte >>= handleFlag tr : Session FsReply _) :=
    fun tr => onlyReads_readByte.asks.bind (asks_handleFlag tr)
  apply Proc.asks_loop
  intro tr
  unfold step
  split
  · exact Proc.asks_pure _
  · split
    · exact asks_handleFlag _ _
    · exact hread tr
  · split
    · exact asks_handleFlag _ _
    · exact hread tr
  · apply (asks_lift _).bind
    intro r
    dsimp only
    split
    · exact Proc.asks_pure _
    · exact Proc.asks_pure _
  · exact Proc.asks_pure _

end DeflatedTokenReader

namespace Receiver

/-! ### Requests and replies -/

theorem asks_readNewData
    (useZlib : Bool) (basis : List UInt8) (head : SumHead) :
  Proc.Asks φ (readNewData F useZlib basis head)
  := by
  unfold readNewData
  split
  · apply Proc.asks_loop
    intro s
    apply s.1.asks_readToken.bind
    rintro ⟨tok, tr⟩
    cases tok with
    | none => exact Proc.asks_pure _
    | some tok =>
        cases tok with
        | literal data => exact Proc.asks_pure _
        | blockMatch idx =>
            apply (asks_lift _).bind
            intro block
            exact (asks_lift _).bind fun _ => Proc.asks_pure _
  · apply asks_readTokens.bind
    intro toks
    exact asks_lift _

theorem asks_readReply
    (args : ReceiverArgs) (rx : NdxState) (basis : List UInt8) :
  Proc.Asks φ (readReply F args rx basis)
  := by
  apply (onlyReads_readIndex _ rx).asks.bind
  rintro ⟨echoNdx, rx'⟩
  apply (onlyReads_readIflags _).asks.bind
  intro echoIflags
  apply onlyReads_readSumHead.asks.bind
  intro echoHead
  apply (asks_readNewData _ basis echoHead).bind
  intro newData
  exact (onlyReads_readBytes _).asks.bind fun _ => Proc.asks_pure _

theorem asks_readBasis
    (args : ReceiverArgs) (destPath : FsPath) :
  Proc.Asks OnlyReadsFile (readBasis dig args destPath)
  := by
  apply (Proc.asks_host ⟨destPath, rfl⟩).bind
  intro r
  cases r with
  | ok data => exact (asks_lift _).bind fun _ => Proc.asks_pure _
  | error msg => exact Proc.asks_pure _

theorem onlyWrites_writeSumBufs
    (sums : List SumBuf) :
  Proc.OnlyWrites (writeSumBufs sums : Session FsReply Unit)
  := by
  induction sums with
  | nil => exact Proc.onlyWrites_pure _
  | cons s sums ih =>
      apply (onlyWrites_writeAll _).bind
      intro _
      exact (onlyWrites_writeAll _).bind fun _ => ih

theorem onlyWrites_writeSumHead
    (head : SumHead) :
  Proc.OnlyWrites (writeSumHead head : Session FsReply Unit)
  := by
  apply (onlyWrites_writeAll _).bind
  intro _
  apply (onlyWrites_writeAll _).bind
  intro _
  exact (onlyWrites_writeAll _).bind fun _ => onlyWrites_writeAll _

theorem asks_requestFile
    (args : ReceiverArgs) (tx : NdxState) (ndx : ℤ) (destPath : FsPath) :
  Proc.Asks OnlyReadsFile (requestFile dig args tx ndx destPath)
  := by
  apply (onlyWrites_writeIndex _ tx ndx).asks.bind
  intro tx'
  apply (onlyWrites_writeIflags _ _).asks.bind
  intro _
  apply (asks_readBasis args destPath).bind
  intro basis
  apply (onlyWrites_writeSumHead _).asks.bind
  intro _
  apply (onlyWrites_writeSumBufs _).asks.bind
  intro _
  exact asks_flushOk.bind fun _ => Proc.asks_pure _

/-! ### End of the session -/

theorem asks_sendDone
    (args : ReceiverArgs) (s : Receiver) :
  Proc.Asks φ (sendDone args s)
  := by
  apply (onlyWrites_writeIndex _ _ _).asks.bind
  intro tx
  exact asks_flushOk.bind fun _ => Proc.asks_pure _

theorem asks_readDone
    (args : ReceiverArgs) (s : Receiver) :
  Proc.Asks φ (readDone args s)
  := (onlyReads_readIndex _ _).asks.bind fun _ => Proc.asks_pure _

theorem asks_goodbye
    (args : ReceiverArgs) (s : Receiver) :
  Proc.Asks φ (goodbye args s)
  := by
  have hexchange : ∀ s n, Proc.Asks φ (exchangeDone args s n) :=
    fun s _ => (asks_sendDone args s).bind (asks_readDone args)
  apply (Proc.asks_forEach (fun s n _ => hexchange s n) s).bind
  intro s
  apply (asks_sendDone args s).bind
  intro s
  apply (asks_sendDone args s).bind
  intro s
  split
  · exact (asks_readDone args s).bind (asks_sendDone args)
  · have hread : Proc.OnlyReads (readDone args s) :=
      (onlyReads_readIndex _ _).bind fun _ => trivial
    apply (onlyReads_okOrNone hread).asks.bind
    intro r
    cases r with
    | some s => exact Proc.asks_pure _
    | none => exact Proc.asks_pure _

end Receiver
