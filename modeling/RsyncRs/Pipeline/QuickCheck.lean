import RsyncRs.Delta.StoredFlate
import RsyncRs.Flist.Listed
import RsyncRs.Flist.Resorted
import RsyncRs.Fs.Times
import RsyncRs.Pipeline.Receiver

/-!
# The quick check

A receiver that compares sizes and times only requests a file again when its size at the destination
is not the listed one, or when the time that an earlier session set is not. Without times in the
lists there is one time for all files, and nothing but the size tells a changed file from the one
at the destination.
-/

namespace Receiver

open Disk

variable {m : Watch UInt8 FsReply Error (Endpoint Disk UInt8)} {F : Flate} {dig : Digests}
  {closed : Bool} {args : ReceiverArgs} {fi d : FileInfo} {dest ldPath : FsPath}
  {s : Receiver} {i : ℕ} {t : ℤ} {w : Endpoint Disk UInt8}

/-! ### The time that a session leaves -/

/-- Nothing is said about what a procedure does. -/
theorem moves_any
    {α : Type} (p : Session FsReply α) {P : Disk → Prop} :
  Moves m closed P p (fun _ _ => True) (fun _ => True)
  := by
  intro w _ _ r w' _
  cases r with
  | ok a => trivial
  | error e => trivial

/-- A link that has been put in the place of a file has the time of the other file. -/
theorem moves_linkTo_timed
    {j : ℕ} :
  Moves m closed (fun d => FileWith j t d ∧ Names ldPath j d) (linkTo ldPath dest)
    (fun b d => b = true → Timed dest t d) (fun _ => True)
  := by
  have hparent : Moves m closed (fun d => FileWith j t d ∧ Names ldPath j d) (createParent dest)
      (fun _ d => FileWith j t d ∧ Names ldPath j d) (fun _ => True) := by
    unfold createParent
    split
    · exact Moves.orIgnore (Moves.createNamed _)
    · exact Moves.pure fun d hd => hd
  apply hparent.bind
  intro _
  apply (Moves.orIgnore (Moves.removeNamed _)).bind
  intro _
  apply Moves.linkNamed.bind
  intro r
  cases r with
  | error msg => exact Moves.pure fun _ _ h => by cases h
  | ok u =>
      apply Moves.bind
      · exact Moves.renameNamed.consequence (fun d hd => hd rfl) (fun _ _ hd => hd) fun _ hd => hd
      intro r
      cases r with
      | ok u => exact Moves.pure fun _ hd _ => hd rfl
      | error msg =>
          apply (moves_any (Fs.orIgnore (Fs.removeFile _))).bind
          intro _
          exact Moves.pure fun _ _ h => by cases h

theorem moves_linkFirst_timed
    (lds : List FsPath) :
  Moves m closed (fun _ => True) (linkFirst args fi dest lds)
    (fun b d => b = true → Timed dest fi.modtime d) (fun _ => True)
  := by
  induction lds with
  | nil => exact Moves.pure fun _ _ h => by cases h
  | cons ld lds ih =>
      have ih' : ∀ P, Moves m closed P (linkFirst args fi dest lds)
          (fun b d => b = true → Timed dest fi.modtime d) (fun _ => True) :=
        fun P => ih.consequence (fun _ _ => trivial) (fun _ _ hd => hd) fun _ hd => hd
      apply Moves.bind (Q := fun r d => ∀ info, r = .ok info → info.isFile = true →
        ∃ j, FileWith j info.mtime d ∧ Names (linkDestPath args fi ld) j d)
      · apply Moves.symlinkMetadata
        exact fun d _ info hinfo hfile => names_of_stat hinfo hfile
      intro r
      cases r with
      | error msg => exact ih' _
      | ok info =>
          dsimp only
          split
          · next hmatch =>
            obtain ⟨hfile, -, htime⟩ := hmatch
            apply Moves.bind (Q := fun b d => b = true → Timed dest fi.modtime d)
            · intro w hw
              obtain ⟨j, hj⟩ := hw info rfl hfile
              rw [htime] at hj
              exact moves_linkTo_timed w hj
            intro b
            split
            · next hb => exact Moves.pure fun _ hd _ => hd hb
            · exact ih' _
          · exact ih' _

theorem moves_install_timed
    (newData : List UInt8) :
  Moves m closed (fun _ => True) (install args fi dest newData)
    (fun _ => Timed dest fi.modtime) (fun _ => True)
  := by
  apply (moves_any (createParent dest)).bind
  intro _
  apply (moves_any (Fs.metadata dest)).bind
  intro _
  apply (moves_any (writeContent args dest newData)).bind
  intro _
  apply (moves_any (Fs.orFail (Fs.setPermissions dest _))).bind
  intro _
  apply Moves.orFail Moves.setTimes_timed
  · exact fun _ _ hd => hd rfl
  · exact fun _ _ _ => trivial

/-- The receiver compares sizes and times, and nothing keeps it from doing so. -/
structure ComparesTimes (args : ReceiverArgs) : Prop where
  useChecksum : args.useChecksum = false
  update : args.update = false
  ignoreExisting : args.ignoreExisting = false

/-- When a file has been dealt with, it has the time that is listed for it. -/
theorem moves_receiveRegular_timed
    (h : ComparesTimes args) :
  Moves m closed (fun _ => True) (receiveRegular dig F args s i fi dest)
    (fun _ => Timed dest fi.modtime) (fun _ => True)
  := by
  have hskip : existsAlready args dest = pure false := by
    rw [existsAlready, h.ignoreExisting]
    rfl
  have hnewer : destNewer args fi dest = pure false := by
    rw [destNewer, h.update]
    rfl
  rw [receiveRegular, hskip, pure_bind, if_neg Bool.false_ne_true, hnewer, pure_bind,
    if_neg Bool.false_ne_true]
  apply (moves_linkFirst_timed args.linkDest).bind
  intro b
  split
  · next hb => exact Moves.pure fun _ hd => hd hb
  apply Moves.bind (Q := fun b d => b = false → Timed dest fi.modtime d)
  · unfold needsTransfer
    rw [h.useChecksum, if_neg Bool.false_ne_true]
    apply Moves.bind (Q := fun r d => r = d.stat (d.place dest))
    · exact Moves.metadata fun _ _ => rfl
    intro r
    cases r with
    | error msg => exact Moves.pure fun _ _ h => by cases h
    | ok info =>
        apply Moves.pure
        intro d hd hsame info' hinfo' _
        cases hd.trans hinfo'
        have hboth := of_decide_eq_false hsame
        rw [not_or, not_not, not_not] at hboth
        exact hboth.2
  intro b
  split
  · apply (moves_any (requestFile dig args s.tx (ndxOf args i) dest)).bind
    intro x
    apply (moves_any (readReply F args s.rx x.2.data)).bind
    intro y
    apply (moves_install_timed y.1.newData).bind
    intro _
    exact Moves.pure fun _ hd => hd
  · next hb => exact Moves.pure fun _ hd => hd (Bool.eq_false_of_not_eq_true hb)

/-! ### What a later session requests -/

/-- The receiver, when it comes to the file, writes a request. -/
def Requests (dig : Digests) (F : Flate) (closed : Bool) (args : ReceiverArgs) (s : Receiver)
    (entry : FileInfo × ℕ) (w : Endpoint Disk UInt8) : Prop :=
  Proc.Speaks Disk.answer closed (receiveFile dig F args s entry) w

/-- No file that may be linked to has the size and the time that are listed. -/
def NoneToLink (args : ReceiverArgs) (fi : FileInfo) (d : Disk) : Prop :=
  ∀ ld ∈ args.linkDest, ∀ info, d.stat (d.lplace (linkDestPath args fi ld)) = .ok info →
    ¬ (info.isFile ∧ info.len = asUsize fi.size ∧ info.mtime = fi.modtime)

/-- The file at the destination, if there is one, differs in its size or its time. -/
def Differs (fi : FileInfo) (dest : FsPath) (d : Disk) : Prop :=
  ∀ info, d.stat (d.place dest) = .ok info → info.len ≠ asUsize fi.size ∨ info.mtime ≠ fi.modtime

/-- When there is no file to link to, only questions are asked. -/
theorem returns_linkFirst
    (closed : Bool) (dest : FsPath) {lds : List FsPath}
    (h : ∀ ld ∈ lds, ∀ info, w.host.stat (w.host.lplace (linkDestPath args fi ld)) = .ok info →
      ¬ (info.isFile ∧ info.len = asUsize fi.size ∧ info.mtime = fi.modtime)) :
  Proc.Returns Disk.answer closed (linkFirst args fi dest lds) w false w ∧
    ¬ Proc.Speaks Disk.answer closed (linkFirst args fi dest lds) w
  := by
  induction lds with
  | nil => exact ⟨Proc.returns_pure _ _, Proc.not_speaks_pure _ _⟩
  | cons ld lds ih =>
      have hask : Proc.Returns Disk.answer closed (Fs.symlinkMetadata (linkDestPath args fi ld)) w
          (w.host.stat (w.host.lplace (linkDestPath args fi ld))) w := Proc.returns_host rfl
      have hsilent : ¬ Proc.Speaks Disk.answer closed
          (Fs.symlinkMetadata (linkDestPath args fi ld)) w := Proc.not_speaks_host _ w
      obtain ⟨hreturns, hquiet⟩ := ih fun ld' hld' => h ld' (List.mem_cons_of_mem _ hld')
      rw [linkFirst]
      cases hstat : w.host.stat (w.host.lplace (linkDestPath args fi ld)) with
      | error msg =>
          rw [hstat] at hask
          exact ⟨hask.bind hreturns, Proc.not_speaks_bind hask hsilent hquiet⟩
      | ok info =>
          rw [hstat] at hask
          have hno := h ld List.mem_cons_self info hstat
          constructor
          · apply hask.bind
            dsimp only
            rw [if_neg hno]
            exact hreturns
          · apply Proc.not_speaks_bind hask hsilent
            dsimp only
            rw [if_neg hno]
            exact hquiet

theorem returns_needsTransfer
    (closed : Bool) (fi : FileInfo) (dest : FsPath) (w : Endpoint Disk UInt8)
    (h : ComparesTimes args) :
  ∃ b, (b = true ↔ Differs fi dest w.host) ∧
    Proc.Returns Disk.answer closed (needsTransfer args fi dest) w b w ∧
    ¬ Proc.Speaks Disk.answer closed (needsTransfer args fi dest) w
  := by
  have hask : Proc.Returns Disk.answer closed (Fs.metadata dest) w
      (w.host.stat (w.host.place dest)) w := Proc.returns_host rfl
  have hsilent : ¬ Proc.Speaks Disk.answer closed (Fs.metadata dest) w :=
    Proc.not_speaks_host _ w
  unfold needsTransfer
  rw [h.useChecksum, if_neg Bool.false_ne_true]
  cases hstat : w.host.stat (w.host.place dest) with
  | error msg =>
      rw [hstat] at hask
      refine ⟨true, ?_, hask.bind (Proc.returns_pure _ _),
        Proc.not_speaks_bind hask hsilent (Proc.not_speaks_pure _ _)⟩
      refine ⟨fun _ info hinfo => ?_, fun _ => rfl⟩
      cases hstat.symm.trans hinfo
  | ok info =>
      rw [hstat] at hask
      refine ⟨_, ?_, hask.bind (Proc.returns_pure _ _),
        Proc.not_speaks_bind hask hsilent (Proc.not_speaks_pure _ _)⟩
      rw [decide_eq_true_iff]
      constructor
      · intro hdiffers info' hinfo'
        cases hstat.symm.trans hinfo'
        exact hdiffers
      · exact fun hdiffers => hdiffers info hstat

/-- A request is written. -/
theorem speaks_transfer
    (dig : Digests) (F : Flate) (args : ReceiverArgs) (s : Receiver) (i : ℕ) (fi : FileInfo)
    (dest : FsPath) (w : Endpoint Disk UInt8) :
  Proc.Speaks Disk.answer closed (transfer dig F args s i fi dest) w
  := by
  have hindex : Proc.Speaks Disk.answer closed
      (writeIndex args.protocol s.tx (ndxOf args i) : Session FsReply NdxState) w := by
    unfold writeIndex
    split
    · exact (Proc.speaks_write _ _ w).bind _
    · exact (Proc.speaks_write _ _ w).bind _
  unfold transfer requestFile
  exact (hindex.bind _).bind _

/-- A file is requested when it differs, and otherwise nothing happens. -/
theorem requests_iff_differs
    (dig : Digests) (F : Flate) (closed : Bool) (s : Receiver) (i : ℕ) (h : ComparesTimes args)
    (hnone : NoneToLink args fi w.host) :
  (Requests dig F closed args s (fi, i) w ↔
    mayRequest args fi = true ∧ Differs fi (args.destDir.join fi.path) w.host) ∧
  (¬ Requests dig F closed args s (fi, i) w →
    Proc.Returns Disk.answer closed (receiveFile dig F args s (fi, i)) w s w)
  := by
  unfold Requests receiveFile
  by_cases hmay : mayRequest args fi = true
  · rw [if_pos hmay]
    generalize args.destDir.join fi.path = dest
    have hskip : existsAlready args dest = pure false := by
      rw [existsAlready, h.ignoreExisting]
      rfl
    have hnewer : destNewer args fi dest = pure false := by
      rw [destNewer, h.update]
      rfl
    obtain ⟨hlink, hquiet⟩ := returns_linkFirst closed dest hnone
    obtain ⟨b, hb, hneeds, hquiet'⟩ := returns_needsTransfer closed fi dest w h
    have hrequests : Proc.Speaks Disk.answer closed (receiveRegular dig F args s i fi dest) w ↔
        Differs fi dest w.host := by
      rw [receiveRegular, hskip, pure_bind, if_neg Bool.false_ne_true, hnewer, pure_bind,
        if_neg Bool.false_ne_true, Proc.speaks_bind_iff hlink hquiet, if_neg Bool.false_ne_true,
        Proc.speaks_bind_iff hneeds hquiet', ← hb]
      cases b with
      | true => exact iff_of_true (speaks_transfer dig F args s i fi dest w) rfl
      | false => exact iff_of_false (Proc.not_speaks_pure s w) Bool.false_ne_true
    constructor
    · rw [hrequests]
      exact (and_iff_right hmay).symm
    · rw [hrequests, ← hb]
      intro hfalse
      rw [Bool.eq_false_of_not_eq_true hfalse] at hneeds
      rw [receiveRegular, hskip, pure_bind, if_neg Bool.false_ne_true, hnewer, pure_bind,
        if_neg Bool.false_ne_true]
      exact hlink.bind (hneeds.bind (Proc.returns_pure s w))
  · rw [if_neg hmay]
    constructor
    · exact iff_of_false (Proc.not_speaks_pure s w) fun hand => hmay hand.1
    · exact fun _ => Proc.returns_pure s w

/-! ### Lists of two sessions -/

section Sessions

variable {X H : Type} {Reply : X → Type} {answer : H → (x : X) → Option (Reply x × H)}
  {protocol checksumLen : ℕ} {preserve : Preserve} {compatFlags : ℕ} {flist : FileList}
  {fi d : FileInfo} {i : ℕ}

/-- A list with the entry `fi` reaches the receiver, and the `i`-th file of the receiver's list is
then `d`, which was made of that entry. -/
structure Announced (answer : H → (x : X) → Option (Reply x × H)) (protocol checksumLen : ℕ)
    (preserve : Preserve) (compatFlags : ℕ) (flist : FileList) (i : ℕ) (fi d : FileInfo) :
    Prop where
  checksum : checksumLen < 9223372036854775808
  compat : protocol < 28 → compatFlags = 0
  arrives : ∃ order received, (∀ fi ∈ order, fi.Typed) ∧
    Received answer protocol checksumLen preserve compatFlags order received ∧
    List.Forall₂ (Agrees preserve) order received ∧ flist = sortReceived received ∧
    ∃ r k, (sortIndexed received)[i]? = some (r, k) ∧ order[k]? = some fi ∧
      d = remapHardLink received ({} : FileList).ndxStart r

/-- The receiver's file has the path and the size of the entry, and the time that is listed for
it. -/
theorem Announced.listed
    (host : H) (h : Announced answer protocol checksumLen preserve compatFlags flist i fi d) :
  flist.files[i]? = some d ∧ d.path = fi.path ∧ d.size = fi.size ∧
    d.modtime = listedTime preserve fi
  := by
  obtain ⟨order, received, htyped, hreceived, hagrees, rfl, r, k, hr, hk, rfl⟩ := h.arrives
  have hlisted := listed_of_received host htyped h.checksum h.compat hreceived hagrees
  have hrk : received[k]? = some r := getElem?_of_mem_sortIndexed (List.mem_of_getElem? hr)
  obtain ⟨hlt, hget⟩ := List.getElem?_eq_some_iff.mp hk
  obtain ⟨hlt', hget'⟩ := List.getElem?_eq_some_iff.mp hrk
  have hfi : Listed protocol preserve fi r := by
    rw [← hget, ← hget']
    exact hlisted.get hlt hlt'
  obtain ⟨ndx, hndx⟩ := remapHardLink_eq received ({} : FileList).ndxStart r
  refine ⟨?_, ?_, ?_, ?_⟩
  · rw [sortReceived, List.getElem?_map, hr]
    rfl
  · rw [hndx]
    exact hfi.agrees.path
  · rw [hndx]
    exact hfi.agrees.size
  · rw [hndx]
    exact hfi.time

/-- The regular file at the destination, if there is one, has the size and the time it had. -/
def LeftAlone (dest : FsPath) (d₁ d₂ : Disk) : Prop :=
  ∀ info₂, d₂.stat (d₂.place dest) = .ok info₂ → ∃ info₁, d₁.stat (d₁.place dest) = .ok info₁ ∧
    info₁.isFile = true ∧ info₁.len = info₂.len ∧ info₁.mtime = info₂.mtime

/-- After a session that dealt with a file, a later one requests the file again exactly when its
size at the destination is not the new one, or when times are preserved and its time has changed. -/
theorem requests_changed_iff
    (answer : H → (x : X) → Option (Reply x × H)) (host : H) (dig : Digests) (F : Flate)
    (closed₁ closed₂ : Bool) (preserve : Preserve)
    {protocol₁ checksumLen₁ compatFlags₁ protocol₂ checksumLen₂ compatFlags₂ i₁ i₂ : ℕ}
    {args₁ args₂ : ReceiverArgs} {fi₁ d₁ fi₂ d₂ : FileInfo} {s₁ s₁' s₂ : Receiver}
    {w₁ w₁' w₂ : Endpoint Disk UInt8} (h₁ : ComparesTimes args₁) (h₂ : ComparesTimes args₂)
    (hdest : args₂.destDir = args₁.destDir) (hpath : fi₂.path = fi₁.path)
    (hlist₁ : Announced answer protocol₁ checksumLen₁ preserve compatFlags₁ args₁.flist i₁ fi₁ d₁)
    (hlist₂ : Announced answer protocol₂ checksumLen₂ preserve compatFlags₂ args₂.flist i₂ fi₂ d₂)
    (hmay : mayRequest args₁ d₁ = true)
    (hfirst : Proc.Returns Disk.answer closed₁ (receiveFile dig F args₁ s₁ (d₁, i₁)) w₁ s₁' w₁')
    (hleft : LeftAlone (args₁.destDir.join fi₁.path) w₁'.host w₂.host)
    (hnone : NoneToLink args₂ d₂ w₂.host) :
  (Requests dig F closed₂ args₂ s₂ (d₂, i₂) w₂ ↔ mayRequest args₂ d₂ = true ∧
    ∀ info, w₂.host.stat (w₂.host.place (args₂.destDir.join fi₂.path)) = .ok info →
      info.len ≠ asUsize fi₂.size ∨ preserve.times = true ∧ fi₁.modtime ≠ fi₂.modtime) ∧
  (¬ Requests dig F closed₂ args₂ s₂ (d₂, i₂) w₂ →
    Proc.Returns Disk.answer closed₂ (receiveFile dig F args₂ s₂ (d₂, i₂)) w₂ s₂ w₂)
  := by
  obtain ⟨hrequests, hstays⟩ := requests_iff_differs dig F closed₂ s₂ i₂ h₂ hnone
  refine ⟨hrequests.trans ?_, hstays⟩
  obtain ⟨-, hpath₁, -, htime₁⟩ := hlist₁.listed host
  obtain ⟨-, hpath₂, hsize₂, htime₂⟩ := hlist₂.listed host
  -- the time at the destination is the one that the first session had in its list
  have htimed : Timed (args₁.destDir.join fi₁.path) (listedTime preserve fi₁) w₁'.host := by
    rw [receiveFile, if_pos hmay, hpath₁] at hfirst
    rw [← htime₁]
    exact (moves_receiveRegular_timed h₁).ends trivial hfirst
  have hsame : ∀ info, w₂.host.stat (w₂.host.place (args₂.destDir.join fi₂.path)) = .ok info →
      info.mtime = listedTime preserve fi₁ := by
    rw [hdest, hpath]
    intro info hinfo
    obtain ⟨info₁, hinfo₁, hfile, -, hmtime⟩ := hleft info hinfo
    exact hmtime.symm.trans (htimed info₁ hinfo₁ hfile)
  apply and_congr_right
  intro _
  unfold Differs
  rw [hpath₂, hsize₂, htime₂]
  apply forall_congr'
  intro info
  apply imp_congr_right
  intro hinfo
  rw [hsame info hinfo, listedTime, listedTime]
  cases preserve.times with
  | true => simp
  | false => simp

end Sessions

/-! ### A file whose size stays the same -/

/-- The entry of a file of three bytes with the time `t`. -/
def fileAt (t : ℤ) : FileInfo where
  name := [102]
  mode := 0o100644
  size := 3
  modtime := t
  hardLinkFirstNdx := -1

/-- What the receiver makes of the entry. -/
def receivedAt (times : Bool) (t : ℤ) : FileInfo :=
  receivedEntry 31 0 (sentFlags 31 { times } (hasFlag 0 cfVarintFlistFlags)
    ([] : List FileInfo).getLast? (fileAt t)) [] (fileAt t)

/-- The entry in the receiver's list. -/
def entryAt (times : Bool) (t : ℤ) : FileInfo :=
  remapHardLink [receivedAt times t] 0 (receivedAt times t)

/-- A session that transfers the file. -/
def sessionAt (times : Bool) (t : ℤ) : ReceiverArgs where
  flist := sortReceived [receivedAt times t]
  destDir := [sep, 100]
  csumType := .md5
  protocol := 31
  checksumSeed := 0

theorem comparesTimes_sessionAt
    (times : Bool) (t : ℤ) :
  ComparesTimes (sessionAt times t)
  := ⟨rfl, rfl, rfl⟩

theorem sendable_fileAt
    {t : ℤ} (ht : IsI64 t) :
  Sendable (fileAt t)
  where
  size := show IsI64 3 by decide
  modtime := ht
  modNsec := show 0 < 4294967296 by decide
  mode := show 0o100644 < 4294967296 by decide
  uid := show 0 < 4294967296 by decide
  gid := show 0 < 4294967296 by decide
  rdevMajor := show 0 < 4294967296 by decide
  rdevMinor := show 0 < 4294967296 by decide
  hardLinkFirstNdx := show IsI32 (-1) by decide
  path := isUtf8_ascii (show ∀ b ∈ ([102] : List UInt8), b < 0x80 by decide +kernel)
  target := isUtf8_ascii (show ∀ b ∈ ([] : List UInt8), b < 0x80 by decide +kernel)
  kind := Or.inl (show (fileAt 0).isRegular = true by decide)
  ascii := show ∀ b ∈ ([102] : List UInt8), b < 0x80 by decide +kernel
  split := show ((fileAt 0).dirname, (fileAt 0).name) = splitName (fileAt 0).path by decide
  alone := show isHlinkMember (fileAt 0) = false by decide

theorem announced_fileAt
    (times : Bool) {t : ℤ} (ht : IsI64 t) :
  Announced noHost 31 0 { times } 0 (sessionAt times t).flist 0 (fileAt t) (entryAt times t)
  := by
  have hsendable := sendable_fileAt ht
  have hok : EntryOk 31 { times } [] (fileAt t) := by
    have hlength : (fileAt t).path.length = 1 ∧ (targetOf (fileAt t)).length = 0 := ⟨rfl, rfl⟩
    apply hsendable.entryOk
    · omega
    · omega
    · intro _ h
      omega
  have hnil : List.Forall₂ (Agrees { times }) ([] : List FileInfo) [] := List.Forall₂.nil
  have hentry : Agrees { times } (fileAt t) (receivedAt times t) := by
    unfold receivedAt
    exact agrees_receivedEntry hnil hok
  have hagrees : List.Forall₂ (Agrees { times }) [fileAt t] [receivedAt times t] :=
    List.Forall₂.cons hentry hnil
  have hreceived : Received noHost 31 0 { times } 0 [fileAt t] [receivedAt times t] := by
    apply Received.nil.snoc
    unfold receivedAt
    exact carries_entry hnil hsendable.toTyped hok (by decide) fun _ h => by omega
  have hsorted : (sortIndexed [receivedAt times t])[0]? = some (receivedAt times t, 0) := by
    rw [sortIndexed, List.zipIdx_singleton, List.mergeSort_singleton]
    rfl
  have htyped : ∀ fi ∈ [fileAt t], fi.Typed := by
    intro fi hfi
    rw [List.mem_singleton.mp hfi]
    exact hsendable.toTyped
  constructor
  · decide
  · intro _
    rfl
  · exact ⟨[fileAt t], [receivedAt times t], htyped, hreceived, hagrees, rfl, receivedAt times t,
      0, hsorted, rfl, rfl⟩

/-- An empty directory, and what the sender of a file of three bytes replies. -/
def emptyDest : Endpoint Disk UInt8 where
  host := Disk.blank.create [[100]] { kind := .dir }
  input := [1, 0x00, 0x80] ++ List.replicate 16 0 ++ leBytes 4 3 ++ [1, 2, 3] ++ List.replicate 20 0
  buffer := []
  sent := []

/-- What is known of the file after the first session. -/
def statAt (times : Bool) : Metadata where
  mode := 0o100644
  len := 3
  mtime := if times then 100 else 0
  ino := 1

/-- The first session transfers the file. -/
theorem returns_firstSession
    (times : Bool) :
  ∃ s' w', Proc.Returns Disk.answer true (receiveFile digestsOfZeros StoredFlate.codec
      (sessionAt times 100) {} (entryAt times 100, 0)) emptyDest s' w' ∧
    w'.host.stat (w'.host.place ((sessionAt times 100).destDir.join (fileAt 100).path)) =
      .ok (statAt times)
  := by
  have hpath : (sessionAt times 100).destDir.join (fileAt 100).path = [sep, 100, sep, 102] := by
    cases times <;> decide
  have hrun : (Prog.eval (Endpoint.answer Disk.answer true) 5 (receiveFile digestsOfZeros
      StoredFlate.codec (sessionAt times 100) {} (entryAt times 100, 0)).run emptyDest).map
        (fun x => (x.1.isOk, (x.2.host.stat (x.2.host.place [sep, 100, sep, 102])).toOption)) =
      some (true, some (statAt times)) := by
    cases times <;> decide +kernel
  obtain ⟨⟨r, w'⟩, heval, hx⟩ := Option.map_eq_some_iff.mp hrun
  obtain ⟨hok, hstat⟩ := Prod.mk.inj hx
  have hends := Prog.ends_of_eval heval
  cases r with
  | error e => cases hok
  | ok s' =>
      refine ⟨s', w', hends, ?_⟩
      rw [hpath]
      cases hinfo : w'.host.stat (w'.host.place [sep, 100, sep, 102]) with
      | error msg =>
          rw [hinfo] at hstat
          cases hstat
      | ok info =>
          rw [hinfo] at hstat
          exact congrArg Except.ok (Option.some.inj hstat)

/-- What a session has left is left alone when the next one starts there. -/
theorem leftAlone_statAt
    {dest : FsPath} {d : Disk} {times : Bool} (h : d.stat (d.place dest) = .ok (statAt times)) :
  LeftAlone dest d d
  := by
  intro info hinfo
  cases h.symm.trans hinfo
  exact ⟨statAt times, h, by cases times <;> decide, rfl, rfl⟩

/-- With times, the file is requested again when its time has changed. -/
theorem requests_changed_time :
  ∃ s' w', Proc.Returns Disk.answer true (receiveFile digestsOfZeros StoredFlate.codec
      (sessionAt true 100) {} (entryAt true 100, 0)) emptyDest s' w' ∧
    Requests digestsOfZeros StoredFlate.codec true (sessionAt true 200) {} (entryAt true 200, 0) w'
  := by
  obtain ⟨s', w', hfirst, hstat⟩ := returns_firstSession true
  have hold := announced_fileAt true (show IsI64 100 by decide)
  have hnew := announced_fileAt true (show IsI64 200 by decide)
  have hpath : (fileAt 200).path = (fileAt 100).path := rfl
  have hnone : NoneToLink (sessionAt true 200) (entryAt true 200) w'.host := by
    rintro ld hld
    cases hld
  have hmay : mayRequest (sessionAt true 200) (entryAt true 200) = true := by decide +kernel
  refine ⟨s', w', hfirst, (requests_changed_iff noHost () digestsOfZeros StoredFlate.codec true true
    { times := true } (comparesTimes_sessionAt true 100) (comparesTimes_sessionAt true 200) rfl
    hpath hold hnew (by decide +kernel) hfirst (leftAlone_statAt hstat) hnone).1.mpr ⟨hmay, ?_⟩⟩
  exact fun info _ => Or.inr ⟨rfl, by decide⟩

/-- Without times, a file whose size stays the same is not requested again. -/
theorem not_requests_changed :
  ¬ ∀ (preserve : Preserve) (args₁ args₂ : ReceiverArgs) (fi₁ d₁ fi₂ d₂ : FileInfo) (i₁ i₂ : ℕ)
    (s₁ s₁' s₂ : Receiver) (w₁ w₂ : Endpoint Disk UInt8), ComparesTimes args₁ →
    ComparesTimes args₂ → args₂.destDir = args₁.destDir → fi₂.path = fi₁.path →
    Announced noHost 31 0 preserve 0 args₁.flist i₁ fi₁ d₁ →
    Announced noHost 31 0 preserve 0 args₂.flist i₂ fi₂ d₂ →
    mayRequest args₁ d₁ = true → mayRequest args₂ d₂ = true →
    Proc.Returns Disk.answer true (receiveFile digestsOfZeros StoredFlate.codec args₁ s₁ (d₁, i₁))
      w₁ s₁' w₂ →
    NoneToLink args₂ d₂ w₂.host → fi₁.modtime ≠ fi₂.modtime →
    Requests digestsOfZeros StoredFlate.codec true args₂ s₂ (d₂, i₂) w₂
  := by
  intro h
  obtain ⟨s', w', hfirst, hstat⟩ := returns_firstSession false
  have hnone : NoneToLink (sessionAt false 200) (entryAt false 200) w'.host := by
    rintro ld hld
    cases hld
  have hrequests := h {} (sessionAt false 100) (sessionAt false 200) (fileAt 100)
    (entryAt false 100) (fileAt 200) (entryAt false 200) 0 0 {} s' {} emptyDest w'
    (comparesTimes_sessionAt false 100) (comparesTimes_sessionAt false 200) rfl rfl
    (announced_fileAt false (by decide)) (announced_fileAt false (by decide)) (by decide +kernel)
    (by decide +kernel) hfirst hnone (by decide)
  have hdiffers := ((requests_iff_differs _ _ _ _ _ (comparesTimes_sessionAt false 200) hnone).1.mp
    hrequests).2
  have hpath : (sessionAt false 200).destDir.join (entryAt false 200).path =
      (sessionAt false 100).destDir.join (fileAt 100).path := by
    decide +kernel
  rw [hpath] at hdiffers
  have hsame : ¬ ((statAt false).len ≠ asUsize (entryAt false 200).size ∨
      (statAt false).mtime ≠ (entryAt false 200).modtime) := by
    decide +kernel
  exact hsame (hdiffers (statAt false) hstat)

end Receiver
