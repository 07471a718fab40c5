import RsyncRs.Flist.Size
import RsyncRs.Options
import RsyncRs.Program.Memory

/-!
# Batch files

A batch file keeps a file list and the contents of files, to be played back later. The list is
written to a buffer first, and its length goes before it, so a reader takes from the buffer what it
needs and leaves the rest there.
-/

variable {X : Type} {Reply : X → Type} {H : Type}
  {answer : H → (x : X) → Option (Reply x × H)}

/-! ### Constants -/

/-- What a batch file starts with. -/
def batchMagic : List UInt8 :=
  bytesOf "RSYNBAT1"

def bflagRecurse : ℕ := 1 <<< 0

def bflagOwner : ℕ := 1 <<< 1

def bflagGroup : ℕ := 1 <<< 2

def bflagLinks : ℕ := 1 <<< 3

def bflagDevices : ℕ := 1 <<< 4

def bflagHardLinks : ℕ := 1 <<< 5

def bflagChecksum : ℕ := 1 <<< 6

def bflagCompress : ℕ := 1 <<< 8

/-- A record of a file follows. -/
def tagFile : UInt8 := 0x01

/-- There are no more records. -/
def tagEnd : UInt8 := 0xFF

/-- The options that a batch file keeps. -/
def streamFlags (opts : Options) : ℕ :=
  (if opts.recursive || opts.archive then bflagRecurse else 0) |||
    (if opts.owner || opts.archive then bflagOwner else 0) |||
    (if opts.group || opts.archive then bflagGroup else 0) |||
    (if opts.links || opts.archive then bflagLinks else 0) |||
    (if opts.devices || opts.archive then bflagDevices else 0) |||
    (if opts.hardLinks then bflagHardLinks else 0) |||
    (if opts.checksum then bflagChecksum else 0) |||
    (if opts.compress then bflagCompress else 0)

/-! ### Writing -/

namespace BatchWriter

/-- Write the header. -/
def create (opts : Options) : Session Reply Unit := do
  writeAll batchMagic
  writeAll (leBytes 4 (streamFlags opts))
  writeAll (leBytes 4 0)
  writeAll (leBytes 4 protocolVersion)

/-- Write the file list. -/
def writeFlist (flist : FileList) (preserveUid preserveGid : Bool) : Session Reply Unit := do
  let preserve : Preserve :=
    { uid := preserveUid, gid := preserveGid, times := true, devices := false }
  let ((), buf) ← Proc.toVec
    (sendFileListEx flist protocolVersion 4 0 preserve cfVarintFlistFlags)
  writeAll (leBytes 4 (asU32 buf.length))
  writeAll buf

/-- Write the content of a file. -/
def writeFile (ndx : ℤ) (content : List UInt8) : Session Reply Unit := do
  writeAll [tagFile]
  writeAll (leBytes 4 ndx)
  writeAll (leBytes 8 content.length)
  writeAll content

/-- Write the mark of the end. -/
def finish : Session Reply Unit := do
  writeAll [tagEnd]
  Proc.flush .brokenPipe

end BatchWriter

/-! ### Reading -/

/-- What the header of a batch file says. -/
structure BatchReader where
  streamFlags : ℕ
  checksumSeed : ℤ
  protocol : ℕ
deriving DecidableEq, Repr

namespace BatchReader

/-- Hexadecimal digits of a byte. -/
def hexDigits (b : UInt8) : String :=
  let digit (d : ℕ) : Char := "0123456789abcdef".toList.getD d '0'
  String.ofList [digit (b.toNat / 16), digit (b.toNat % 16)]

/-- Read the header. The path is as errors show it. -/
def «open» (path : String) : Session Reply BatchReader := do
  let magic ← readBytes 8
  if magic ≠ batchMagic then
    throw (.other s!"not a valid rsync-rs batch file: {path}")
  else
    let flags ← readBytes 4
    let checksumSeed ← readInt
    let protocol ← readBytes 4
    pure { streamFlags := ofLeBytes flags, checksumSeed, protocol := ofLeBytes protocol }

/-- Read the file list. -/
def readFlist (reader : BatchReader) : Session Reply FileList := do
  let len ← readBytes 4
  let buf ← readBytes (ofLeBytes len)
  Proc.onCursor (recvFileListEx reader.protocol 4 false false cfVarintFlistFlags) buf

/-- Read the next record, which is none at the end. -/
def readRecord : Session Reply (Option (ℤ × List UInt8)) := do
  let tag ← readByte
  if tag = tagEnd then
    pure none
  else if tag ≠ tagFile then
    throw (.other s!"unexpected batch record tag 0x{hexDigits tag}")
  else
    let ndx ← readInt
    let len ← readBytes 8
    reserve 1 (ofLeBytes len)
    let data ← readBytes (ofLeBytes len)
    pure (some (ndx, data))

end BatchReader

/-! ### Whole files -/

/-- A record of a batch file. -/
structure BatchRecord where
  ndx : ℤ
  content : List UInt8
  ndx_isI32 : IsI32 ndx
  /-- The content is in memory. -/
  content_fits : content.length < 9223372036854775808

/-- Write a batch file. -/
def writeBatch (opts : Options) (flist : FileList) (preserveUid preserveGid : Bool)
    (records : List BatchRecord) : Session Reply Unit := do
  BatchWriter.create opts
  BatchWriter.writeFlist flist preserveUid preserveGid
  Proc.forEach (fun () record => BatchWriter.writeFile record.ndx record.content) () records
  BatchWriter.finish

/-- Read a record, and keep it with those before. -/
def readNextRecord (records : List (ℤ × List UInt8)) :
    Session Reply (List (ℤ × List UInt8) ⊕ List (ℤ × List UInt8)) := do
  match ← BatchReader.readRecord with
  | some record => pure (.inl (records ++ [record]))
  | none => pure (.inr records)

/-- Read a batch file. -/
def readBatch (path : String) : Session Reply (FileList × List (ℤ × List UInt8)) := do
  let reader ← BatchReader.open path
  let flist ← reader.readFlist
  let records ← Proc.loop readNextRecord []
  pure (flist, records)

/-! ### What is read is what was written -/

theorem ofLeBytes_leBytes_natCast
    {n x : ℕ} (h : x < 256 ^ n) :
  ofLeBytes (leBytes n x) = x
  := by
  have hval := ofLeBytes_leBytes n x
  rw [Int.emod_eq_of_lt (Int.natCast_nonneg x) (by exact_mod_cast h)] at hval
  exact_mod_cast hval

theorem streamFlags_lt
    (opts : Options) :
  streamFlags opts < 256 ^ 4
  := by
  have hbit : ∀ (b : Bool) (flag : ℕ), flag < 2 ^ 32 → (if b then flag else 0) < 2 ^ 32 := by
    intro b flag h
    split
    · exact h
    · decide
  unfold streamFlags
  have hpow : (256 : ℕ) ^ 4 = 2 ^ 32 := by norm_num
  rw [hpow]
  repeat' apply Nat.or_lt_two_pow
  all_goals exact hbit _ _ (by decide)

/-- The bytes of the header. -/
def batchHeader (opts : Options) : List UInt8 :=
  batchMagic ++ (leBytes 4 (streamFlags opts) ++ (leBytes 4 0 ++ leBytes 4 protocolVersion))

/-- What the header says. -/
def writtenReader (opts : Options) : BatchReader where
  streamFlags := streamFlags opts
  checksumSeed := 0
  protocol := protocolVersion

theorem writes_header
    (opts : Options) :
  Proc.Writes answer (BatchWriter.create opts : Session Reply Unit) (batchHeader opts) ()
  := (writes_writeAll _).bind ((writes_writeAll _).bind ((writes_writeAll _).bind
      (writes_writeAll _)))

/-- The header that is read is the one that was written. -/
theorem reads_header
    (opts : Options) (path : String) :
  Proc.Reads answer (BatchReader.open path : Session Reply BatchReader) (batchHeader opts)
    (writtenReader opts)
  := by
  apply (reads_readBytes batchMagic (by decide)).bind
  rw [if_neg (by simp)]
  apply (reads_readBytes _ (length_leBytes 4 _)).bind
  apply (reads_readInt (by decide)).bind
  apply (reads_readBytes _ (length_leBytes 4 _)).map_eq
  rw [ofLeBytes_leBytes_natCast (streamFlags_lt opts), ofLeBytes_leBytes_natCast (by decide)]
  rfl

/-- The bytes of the file list, after their number. -/
def batchList (blob : List UInt8) : List UInt8 :=
  leBytes 4 blob.length ++ blob

theorem writes_batchList
    {flist : FileList} {preserveUid preserveGid : Bool} {blob : List UInt8}
    (hwrites : Proc.Writes answer (sendFileListEx flist protocolVersion 4 0
      { uid := preserveUid, gid := preserveGid, times := true, devices := false }
      cfVarintFlistFlags : Session Reply Unit) blob ())
    (hlen : blob.length < 4294967296) :
  Proc.Writes answer (BatchWriter.writeFlist flist preserveUid preserveGid : Session Reply Unit)
    (batchList blob) ()
  := by
  have hasU32 : asU32 blob.length = blob.length := by
    unfold asU32
    omega
  unfold BatchWriter.writeFlist
  apply hwrites.toVec.bind
  dsimp only
  rw [hasU32]
  exact (writes_writeAll _).bind (writes_writeAll _)

/-- The buffer is read whole, before the list is read from it. -/
theorem reads_batchList
    {blob : List UInt8} (hlen : blob.length < 4294967296) :
  Proc.Reads answer
    (do
      let len ← readBytes 4
      readBytes (ofLeBytes len) : Session Reply (List UInt8)) (batchList blob) blob
  := by
  apply (reads_readBytes _ (length_leBytes 4 _)).bind
  apply reads_readBytes
  rw [ofLeBytes_leBytes_natCast (by simpa using hlen)]

theorem readFlist_eq
    (reader : BatchReader) :
  (reader.readFlist : Session Reply FileList) =
    (do
      let len ← readBytes 4
      readBytes (ofLeBytes len)) >>=
      Proc.onCursor (recvFileListEx reader.protocol 4 false false cfVarintFlistFlags)
  := (bind_assoc ..).symm

/-- A reader need not take all of the buffer. -/
theorem reads_readFlist
    {bs names : List UInt8} {d : FileList} (reader : BatchReader)
    (hreads : Proc.Reads answer (recvFileListEx reader.protocol 4 false false cfVarintFlistFlags :
      Session Reply FileList) bs d)
    (hlen : (bs ++ names).length < 4294967296) :
  Proc.Reads answer (reader.readFlist : Session Reply FileList) (batchList (bs ++ names)) d
  := by
  rw [readFlist_eq]
  exact (reads_batchList hlen).bind_nil (hreads.onCursor names)

theorem rejects_readFlist
    {bs names : List UInt8} {e : Error} (reader : BatchReader)
    (hrejects : Proc.Rejects answer (recvFileListEx reader.protocol 4 false false
      cfVarintFlistFlags : Session Reply FileList) bs e)
    (hlen : (bs ++ names).length < 4294967296) :
  Proc.Rejects answer (reader.readFlist : Session Reply FileList) (batchList (bs ++ names)) e
  := by
  rw [readFlist_eq, ← List.append_nil (batchList _)]
  exact (reads_batchList hlen).bind_rejects (hrejects.onCursor names)

/-- The record that is read is the one that was written. -/
theorem carries_record
    (record : BatchRecord) :
  Proc.Carries answer (BatchWriter.writeFile record.ndx record.content : Session Reply Unit) ()
    BatchReader.readRecord (some (record.ndx, record.content))
  := by
  have hlen : ofLeBytes (leBytes 8 record.content.length) = record.content.length :=
    ofLeBytes_leBytes_natCast (by
      have := record.content_fits
      norm_num
      omega)
  refine ⟨[tagFile] ++ (leBytes 4 record.ndx ++
    (leBytes 8 record.content.length ++ record.content)), ?_, ?_⟩
  · exact (writes_writeAll _).bind ((writes_writeAll _).bind ((writes_writeAll _).bind
      (writes_writeAll _)))
  · unfold BatchReader.readRecord
    apply (reads_readByte tagFile).bind
    rw [if_neg (by decide), if_neg (by decide)]
    apply (reads_readInt record.ndx_isI32).bind
    apply (reads_readBytes _ (length_leBytes 8 _)).bind
    rw [hlen]
    apply reads_lift_bind (reserve_eq (by have := record.content_fits; omega))
    exact (reads_readBytes record.content rfl).map _

/-- What is kept of a record. -/
def BatchRecord.pair (record : BatchRecord) : ℤ × List UInt8 :=
  (record.ndx, record.content)

theorem carries_records
    (answer : H → (x : X) → Option (Reply x × H)) (records : List BatchRecord)
    (read : List (ℤ × List UInt8)) :
  ∃ bs, Proc.Writes answer (Proc.forEach
      (fun () record => BatchWriter.writeFile record.ndx record.content) () records :
        Session Reply Unit) bs () ∧
    Proc.Reads answer (Proc.loop readNextRecord read : Session Reply (List (ℤ × List UInt8)))
      (bs ++ [tagEnd]) (read ++ records.map BatchRecord.pair)
  := by
  induction records generalizing read with
  | nil =>
      refine ⟨[], Proc.writes_pure (), ?_⟩
      rw [List.nil_append, List.map_nil, List.append_nil]
      apply Proc.reads_loop_done
      unfold readNextRecord BatchReader.readRecord
      rw [bind_assoc]
      apply (reads_readByte tagEnd).bind_nil
      rw [if_pos rfl, pure_bind]
      exact Proc.reads_pure _
  | cons record records ih =>
      obtain ⟨rs, hwrite, hread⟩ : Proc.Carries answer _ () _ _ := carries_record record
      obtain ⟨bs, hwrites, hreads⟩ := ih (read ++ [record.pair])
      refine ⟨rs ++ bs, hwrite.bind hwrites, ?_⟩
      rw [List.append_assoc] at hreads ⊢
      apply Proc.reads_loop_again _ hreads
      exact hread.bind_nil (Proc.reads_pure _)

/-- What is in the buffer follows the header, and the records follow the buffer. -/
theorem returns_writeBatch
    {opts : Options} {flist : FileList} {preserveUid preserveGid : Bool}
    {records : List BatchRecord} {blob rs : List UInt8}
    (hwrites : Proc.Writes answer (sendFileListEx flist protocolVersion 4 0
      { uid := preserveUid, gid := preserveGid, times := true, devices := false }
      cfVarintFlistFlags : Session Reply Unit) blob ())
    (hlen : blob.length < 4294967296)
    (hrecords : Proc.Writes answer (Proc.forEach
      (fun () record => BatchWriter.writeFile record.ndx record.content) () records :
        Session Reply Unit) rs ())
    (closed : Bool) (w : Endpoint H UInt8) :
  Proc.Returns answer closed
    (writeBatch opts flist preserveUid preserveGid records : Session Reply Unit) w ()
    { w with
      buffer := []
      sent := w.sent ++ (w.buffer ++ (batchHeader opts ++ (batchList blob ++ (rs ++ [tagEnd])))) }
  := by
  have hreturns : Proc.Returns answer closed
      (writeBatch opts flist preserveUid preserveGid records : Session Reply Unit) w () _ :=
    (writes_header opts closed w).bind ((writes_batchList hwrites hlen closed _).bind
      ((hrecords closed _).bind ((writes_writeAll [tagEnd] closed _).bind
        (Proc.returns_flush _ _))))
  simpa only [List.append_assoc] using hreturns

/-- A batch file that is written is read as a list whose entries are related to those that were
written, and as the same records. -/
def PlaysBack (answer : H → (x : X) → Option (Reply x × H)) (opts : Options) (path : String)
    (flist : FileList) (preserveUid preserveGid : Bool) (records : List BatchRecord)
    (R : FileInfo → FileInfo → Prop) : Prop :=
  ∃ file d,
    (∀ closed w, Proc.Returns answer closed
      (writeBatch opts flist preserveUid preserveGid records : Session Reply Unit) w ()
      { w with buffer := [], sent := w.sent ++ (w.buffer ++ file) }) ∧
    Proc.Reads answer (readBatch path : Session Reply (FileList × List (ℤ × List UInt8))) file
      (d, records.map BatchRecord.pair) ∧
    List.Forall₂ R flist.files d.files

/-- What a batch file keeps of an entry. A link without a target has an empty one. -/
structure SameListed (fi d : FileInfo) : Prop where
  path : d.path = fi.path
  size : d.size = fi.size
  mode : d.mode = fi.mode
  modtime : d.modtime = fi.modtime
  linkTarget : d.linkTarget = if fi.isSymlink then some (targetOf fi) else none

/-- A sorted list of files, directories and symbolic links that takes less than four gigabytes. -/
structure Batchable (answer : H → (x : X) → Option (Reply x × H)) (preserveUid preserveGid : Bool)
    (flist : FileList) : Prop where
  inOrder : flist.files.Pairwise (fileLe · ·)
  sorted : flist.sorted = List.range flist.files.length
  sendable : ∀ fi ∈ flist.files, Sendable fi
  short (blob : List UInt8) (h : Proc.Writes answer (sendFileListEx flist protocolVersion 4 0
    { uid := preserveUid, gid := preserveGid, times := true, devices := false }
    cfVarintFlistFlags : Session Reply Unit) blob ()) : blob.length < 4294967296

/-- A batch file of a list whose entries are received is played back. -/
theorem playsBack_of_received
    {opts : Options} {path : String} {flist : FileList} {preserveUid preserveGid : Bool}
    {records : List BatchRecord} {received : List FileInfo} {R : FileInfo → FileInfo → Prop}
    (hflist : Batchable answer preserveUid preserveGid flist)
    (hreceived : Received answer protocolVersion 4
      { uid := preserveUid, gid := preserveGid, times := true, devices := false }
      cfVarintFlistFlags flist.files received)
    (hrel : List.Forall₂ R flist.files (sortReceived received).files) :
  PlaysBack answer opts path flist preserveUid preserveGid records R
  := by
  obtain ⟨bs, names, hwrites, hreads⟩ := reads_list_without_names
    (sendOrder_of_sorted hflist.sorted) hreceived (by decide : IsI32 0) (by decide) (by decide)
  have hlen := hflist.short _ hwrites
  obtain ⟨rs, hrecords, hrecord⟩ := carries_records answer records []
  refine ⟨batchHeader opts ++ (batchList (bs ++ names) ++ (rs ++ [tagEnd])), sortReceived received,
    returns_writeBatch hwrites hlen hrecords, ?_, hrel⟩
  unfold readBatch
  apply (reads_header opts path).bind
  apply (reads_readFlist (writtenReader opts) hreads hlen).bind
  exact hrecord.map _

/-- The entries are received in their order. -/
theorem Batchable.received
    {flist : FileList} {preserveUid preserveGid : Bool}
    (hflist : Batchable answer preserveUid preserveGid flist)
    (hrest : ∀ pre fi post, flist.files = pre ++ fi :: post →
      fi.path.length - sameLen fi.path (prevName pre.getLast?) < 2147483648)
    (htarget : ∀ fi ∈ flist.files, (targetOf fi).length < 2147483648) :
  ∃ received, Received answer protocolVersion 4
      { uid := preserveUid, gid := preserveGid, times := true, devices := false }
      cfVarintFlistFlags flist.files received ∧
    List.Forall₂ SameListed flist.files (sortReceived received).files
  := by
  obtain ⟨received, hreceived, hrel, hfiles⟩ := received_sendable answer cfVarintFlistFlags
    (by decide : 30 ≤ protocolVersion) hflist.sendable (by decide : 4 < 9223372036854775808) hrest
    htarget hflist.inOrder
  refine ⟨received, hreceived, ?_⟩
  rw [hfiles]
  apply hrel.imp
  intro fi d h
  exact ⟨h.path, h.size, h.mode, h.modtime rfl, h.target⟩

/-- A batch file of a sorted list of files, directories and symbolic links is played back. -/
theorem batch_plays_back
    (answer : H → (x : X) → Option (Reply x × H)) (opts : Options) (path : String)
    (flist : FileList) (preserveUid preserveGid : Bool) (records : List BatchRecord)
    (hflist : Batchable answer preserveUid preserveGid flist)
    (hrest : ∀ pre fi post, flist.files = pre ++ fi :: post →
      fi.path.length - sameLen fi.path (prevName pre.getLast?) < 2147483648)
    (htarget : ∀ fi ∈ flist.files, (targetOf fi).length < 2147483648) :
  PlaysBack answer opts path flist preserveUid preserveGid records SameListed
  := by
  obtain ⟨received, hreceived, hrel⟩ := hflist.received hrest htarget
  exact playsBack_of_received hflist hreceived hrel

/-- A batch file is read in one way. -/
theorem PlaysBack.both
    {opts : Options} {path : String} {flist : FileList} {preserveUid preserveGid : Bool}
    {records : List BatchRecord} {R S : FileInfo → FileInfo → Prop} (host : H)
    (hr : PlaysBack answer opts path flist preserveUid preserveGid records R)
    (hs : PlaysBack answer opts path flist preserveUid preserveGid records S) :
  ∃ d : FileList, List.Forall₂ R flist.files d.files ∧ List.Forall₂ S flist.files d.files
  := by
  obtain ⟨file, d, hwrites, hreads, hrel⟩ := hr
  obtain ⟨file', d', hwrites', hreads', hrel'⟩ := hs
  let w : Endpoint H UInt8 := { host := host, input := [], buffer := [], sent := [] }
  have hfile : file = file' :=
    congrArg Endpoint.sent ((hwrites' false w).unique (hwrites false w)).2
  subst hfile
  obtain ⟨hd, -⟩ := hreads.unique host hreads' (rfl : file ++ [] = file ++ [])
  cases hd
  exact ⟨d, hrel, hrel'⟩

/-! ### Examples -/

/-- A sorted list of such files is short when its entries take little room. -/
theorem batchable_of_room
    {flist : FileList} (host : H) (preserveUid preserveGid : Bool)
    (hinOrder : flist.files.Pairwise (fileLe · ·))
    (hsorted : flist.sorted = List.range flist.files.length)
    (hsendable : ∀ fi ∈ flist.files, Sendable fi)
    (hroom : (flist.files.map (entryRoom 4)).sum + 20 < 4294967296) :
  Batchable answer preserveUid preserveGid flist
  where
  inOrder := hinOrder
  sorted := hsorted
  sendable := hsendable
  short := by
    intro blob hwrites
    obtain ⟨bs, hbs, hle⟩ := emitsAtMost_list answer (sendOrder_of_sorted hsorted)
      (fun fi hfi => (hsendable fi hfi).ascii) protocolVersion 4 0
      { uid := preserveUid, gid := preserveGid, times := true, devices := false }
      cfVarintFlistFlags
    rw [hwrites.unique host hbs]
    omega

/-- A list of one entry. -/
theorem batchable_singleton
    {fi : FileInfo} (host : H) (preserveUid preserveGid : Bool) (hfi : Sendable fi)
    (hroom : entryRoom 4 fi + 20 < 4294967296) :
  Batchable answer preserveUid preserveGid (flistSort { files := [fi] })
  := by
  have hfiles : (flistSort { files := [fi] }).files = [fi] := List.mergeSort_singleton _
  apply batchable_of_room host
  · apply pairwise_flistSort
  · rw [hfiles]
    rfl
  · rw [hfiles]
    intro d hd
    rwa [List.mem_singleton.mp hd]
  · rwa [hfiles]

/-- A list that the reader rejects is not played back. -/
theorem not_playsBack_of_rejects
    {opts : Options} {path : String} {flist : FileList} {preserveUid preserveGid : Bool}
    {records : List BatchRecord} {R : FileInfo → FileInfo → Prop} {bs names : List UInt8}
    {e : Error} (host : H)
    (hwrites : Proc.Writes answer (sendFileListEx flist protocolVersion 4 0
      { uid := preserveUid, gid := preserveGid, times := true, devices := false }
      cfVarintFlistFlags : Session Reply Unit) (bs ++ names) ())
    (hrejects : Proc.Rejects answer (recvFileListEx protocolVersion 4 false false
      cfVarintFlistFlags : Session Reply FileList) bs e)
    (hlen : (bs ++ names).length < 4294967296) :
  ¬ PlaysBack answer opts path flist preserveUid preserveGid records R
  := by
  rintro ⟨file, d, hreturns, hreads, -⟩
  let w : Endpoint H UInt8 := { host := host, input := [], buffer := [], sent := [] }
  obtain ⟨rs, hrecords, -⟩ := carries_records answer records []
  have hfile : batchHeader opts ++ (batchList (bs ++ names) ++ (rs ++ [tagEnd])) = file :=
    congrArg Endpoint.sent
      ((hreturns false w).unique (returns_writeBatch hwrites hlen hrecords false w)).2
  have hbatch : Proc.Rejects answer
      (readBatch path : Session Reply (FileList × List (ℤ × List UInt8)))
      (batchHeader opts ++ batchList (bs ++ names)) e := by
    unfold readBatch
    apply (reads_header opts path).bind_rejects
    exact (rejects_readFlist (writtenReader opts) hrejects hlen).bind
  rw [← hfile, ← List.append_assoc] at hreads
  exact hbatch.not_reads_append host hreads

theorem entryRoom_entryNamed
    (checksumLen : ℕ) (name : Name) (mode : ℕ) :
  entryRoom checksumLen (entryNamed name mode) = 63 + name.length + 0 + checksumLen
  := rfl

theorem batchable_sharedNames :
  Batchable noHost true false (flistSort { files := sharedNames })
  := by
  have hperm : (flistSort { files := sharedNames }).files.Perm sharedNames :=
    List.mergeSort_perm sharedNames fileLe
  apply batchable_of_room ()
  · apply pairwise_flistSort
  · rw [hperm.length_eq]
    rfl
  · intro fi hfi
    exact sendable_sharedNames fi (hperm.mem_iff.mp hfi)
  · rw [(hperm.map (entryRoom 4)).sum_nat]
    decide +kernel

theorem batch_plays_back_sharedNames :
  PlaysBack noHost { recursive := true } "b" (flistSort { files := sharedNames }) true false
    [⟨2, [0xFF, 0x01], by decide, by decide⟩, ⟨1, [], by decide, by decide⟩] SameListed
  := by
  apply batch_plays_back
  · exact batchable_sharedNames
  · exact rest_lt_of_paths paths_sharedNames
  · intro fi hfi
    exact targets_sharedNames fi (List.mem_mergeSort.mp hfi)

/-- A link whose target is not known is played back with an empty target, and a file whose name
has two gigabytes is not played back. -/
theorem not_batch_plays_back :
  (Batchable noHost false false (flistSort { files := [lostLink] }) ∧
    ¬ PlaysBack noHost {} "b" (flistSort { files := [lostLink] }) false false []
      fun fi d => d.linkTarget = fi.linkTarget) ∧
  Batchable noHost false false (flistSort (oneFile longName)) ∧
    ¬ PlaysBack noHost {} "b" (flistSort (oneFile longName)) false false []
      fun _ _ => True
  := by
  have hlink : Batchable noHost false false (flistSort { files := [lostLink] }) :=
    batchable_singleton () false false sendable_lostLink (by decide)
  have hlong : Batchable noHost false false
      (flistSort (oneFile longName)) := by
    apply batchable_singleton ()
    · exact sendable_fileNamed ascii_longName sep_not_mem_longName
    · rw [entryRoom_entryNamed, longName, List.length_replicate]
      omega
  refine ⟨⟨hlink, ?_⟩, hlong, ?_⟩
  · intro hkept
    have hfiles : (flistSort { files := [lostLink] }).files = [lostLink] :=
      List.mergeSort_singleton _
    obtain ⟨received, hreceived, hrel⟩ := hlink.received
      (by rw [hfiles]; exact forall_split_singleton (by decide)) (by rw [hfiles]; decide)
    obtain ⟨d, hd, hd'⟩ := hkept.both () (playsBack_of_received hlink hreceived hrel)
    rw [hfiles] at hd hd'
    generalize d.files = ds at hd hd'
    -- the one entry of the list has no target and an empty one
    cases hd with
    | cons htarget _ =>
        cases hd' with
        | cons hsame _ =>
            rw [hsame.linkTarget] at htarget
            cases htarget
  · obtain ⟨bs, names, hwrites, hrejects⟩ := rejects_list_longName restLenRead_longName 4
      { times := true } cfVarintFlistFlags
    exact not_playsBack_of_rejects () hwrites hrejects (hlong.short _ hwrites)
