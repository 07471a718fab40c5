import RsyncRs.Pipeline.Confined
import RsyncRs.Pipeline.Untouched
import RsyncRs.Delta.StoredFlate

/-!
# Which content a receiver installs

A receiver asks for a file, reads a reply and puts the content that it makes in the place of the
file. It does so whatever index and whatever checksum the reply has.
-/

namespace Receiver

open Disk

variable {F : Flate} {dig : Digests} {args : ReceiverArgs} {fi : FileInfo} {dest : FsPath}
  {closed : Bool} {x : Location} {c : Option (List UInt8)}

/-! ### Verified replies -/

/-- The checksum of a whole file. -/
def wholeSum (dig : Digests) (args : ReceiverArgs) (data : List UInt8) : List UInt8 :=
  (dig.compute data (csumTypeToChecksumType args.csumType) 0 false).take
    (csumTypeToChecksumType args.csumType).digestLen

/-- The reply is to the request for the file `ndx`, and it has the checksum of the content. -/
def Verified (dig : Digests) (args : ReceiverArgs) (ndx : ℤ) (reply : FileReply) : Prop :=
  reply.echoNdx = ndx ∧ reply.fileSum = wholeSum dig args reply.newData

/-- The transfer that starts in `w` comes to the reply and leaves the endpoint `w'`. -/
def Replied (closed : Bool) (dig : Digests) (F : Flate) (args : ReceiverArgs) (s : Receiver) (i : ℕ)
    (dest : FsPath) (w : Endpoint Disk UInt8) (reply : FileReply) (w' : Endpoint Disk UInt8) :
    Prop :=
  ∃ tx basis w₁ rx,
    Proc.Returns answer closed (requestFile dig args s.tx (ndxOf args i) dest) w (tx, basis) w₁ ∧
    Proc.Returns answer closed (readReply F args s.rx basis.data) w₁ (reply, rx) w'

/-- What is put at the destination is put at the place `x`. -/
def InstallsAt (args : ReceiverArgs) (dest : FsPath) (x : Location) (d : Disk) : Prop :=
  if args.inplace then (withParent d dest).place dest = some x
  else (withParent d dest).lplace dest = some x

/-- The file is not skipped for what is at its destination. -/
def Unskipped (closed : Bool) (args : ReceiverArgs) (fi : FileInfo) (dest : FsPath)
    (w w' : Endpoint Disk UInt8) : Prop :=
  ∃ w₁, Proc.Returns answer closed (existsAlready args dest) w false w₁ ∧
    Proc.Returns answer closed (destNewer args fi dest) w₁ false w'

/-- The file is neither skipped nor linked, and it is requested. -/
def Requested (closed : Bool) (args : ReceiverArgs) (fi : FileInfo) (dest : FsPath)
    (w w' : Endpoint Disk UInt8) : Prop :=
  ∃ w₁ w₂, Unskipped closed args fi dest w w₁ ∧
    Proc.Returns answer closed (linkFirst args fi dest args.linkDest) w₁ false w₂ ∧
    Proc.Returns answer closed (needsTransfer args fi dest) w₂ true w'

/-! ### Steps -/

/-- The steps of a session that deal with the entries of the list. -/
inductive Step where
  | dir (fi : FileInfo)
  | file (s : Receiver) (i : ℕ) (fi : FileInfo)
  | symlink (fi : FileInfo)
  | hardLink (fi : FileInfo)

namespace Step

/-- What a step returns. -/
abbrev Result : Step → Type
  | file .. => Receiver
  | dir .. | symlink .. | hardLink .. => Unit

/-- The procedure of a step. -/
abbrev proc (dig : Digests) (F : Flate) (args : ReceiverArgs) :
    (i : Step) → Session FsReply i.Result
  | dir fi => makeDir args () fi
  | file s i fi => receiveFile dig F args s (fi, i)
  | symlink fi => makeSymlink args () fi
  | hardLink fi => makeHardLink args () fi

/-- The step installs the content of a verified reply at the place `x`. -/
def VerifiedAt (closed : Bool) (dig : Digests) (F : Flate) (args : ReceiverArgs) (x : Location) :
    Step → Endpoint Disk UInt8 → Prop
  | file s i fi, w => mayRequest args fi = true ∧
    ∃ w₁ reply w₂, Requested closed args fi (args.destDir.join fi.path) w w₁ ∧
      Replied closed dig F args s i (args.destDir.join fi.path) w₁ reply w₂ ∧
      Verified dig args (ndxOf args i) reply ∧
      InstallsAt args (args.destDir.join fi.path) x w₂.host
  | _, _ => False

/-- The links that are tried leave what is at the place `x`. -/
def LinksSpare (closed : Bool) (args : ReceiverArgs) (fi : FileInfo) (dest : FsPath)
    (x : Location) : List FsPath → Endpoint Disk UInt8 → Prop
  | [], _ => True
  | ld :: lds, w =>
    (∀ info, w.host.stat (w.host.lplace (linkDestPath args fi ld)) = .ok info →
      info.isFile ∧ info.len = asUsize fi.size ∧ info.mtime = fi.modtime →
        LinkSpares (linkDestPath args fi ld) dest x w.host) ∧
    ∀ w', Proc.Returns answer closed (linkFirst args fi dest [ld]) w false w' →
      LinksSpare closed args fi dest x lds w'

/-- The step leaves what is at the place `x`, unless it installs a verified reply there. -/
def Spares (closed : Bool) (dig : Digests) (F : Flate) (args : ReceiverArgs) (x : Location) :
    Step → Endpoint Disk UInt8 → Prop
  | dir _, _ => True
  | file s i fi, w => mayRequest args fi = true →
    (∀ w₁, Unskipped closed args fi (args.destDir.join fi.path) w w₁ →
      LinksSpare closed args fi (args.destDir.join fi.path) x args.linkDest w₁) ∧
    ∀ w₁ reply w₂, Requested closed args fi (args.destDir.join fi.path) w w₁ →
      Replied closed dig F args s i (args.destDir.join fi.path) w₁ reply w₂ →
        Verified dig args (ndxOf args i) reply ∧
            InstallsAt args (args.destDir.join fi.path) x w₂.host ∨
          InstallSpares args (args.destDir.join fi.path) reply.newData x w₂.host
  | symlink fi, w => fi.isSymlink = true → SymlinkSpares (args.destDir.join fi.path) x w.host
  | hardLink fi, w => ∀ first, leaderOf args fi = some first →
    FollowerSpares (args.destDir.join first.path) (args.destDir.join fi.path) x w.host

/-- The step leaves what is at the place `x`, or it installs a verified reply there. -/
def Keeps (closed : Bool) (dig : Digests) (F : Flate) (args : ReceiverArgs) (x : Location)
    (i : Step) (w : Endpoint Disk UInt8) : Prop :=
  ∀ r w', Prog.Ends (Prog.Answers (Endpoint.answer answer closed)) (i.proc dig F args).run w r w' →
    w'.host.dataAt x = w.host.dataAt x ∨ i.VerifiedAt closed dig F args x w

end Step

/-! ### Files -/

/-- A call that changes nothing leaves what is at every place. -/
theorem dataAt_unchanging
    {d d' : Disk} {call : FsCall} {r : FsReply call} (hcall : call.changes = [])
    (h : d.answer call = some (r, d')) :
  d'.dataAt x = d.dataAt x
  := by
  cases call with
  | pathExists p | metadata p | symlinkMetadata p =>
      cases h
      rfl
  | readFile p | readDir p | readLink p =>
      rw [(attempt_cases h).1]
      rfl
  | setCurrentDir p =>
      rcases modify_cases h with ⟨d₁, hmove, -, rfl⟩ | ⟨-, rfl⟩
      · obtain ⟨l, -, hmove⟩ := Option.bind_eq_some_iff.mp hmove
        split at hmove
        · cases hmove
          rfl
        · cases hmove
      · rfl
  | _ => cases hcall

theorem moves_unchanging
    {m : Watch UInt8 FsReply Error (Endpoint Disk UInt8)} {α : Type} {p : Session FsReply α}
    (hp : Proc.Asks (fun c => c.changes = []) p) :
  Moves m closed (fun d => d.dataAt x = c) p (fun _ d => d.dataAt x = c) fun d => d.dataAt x = c
  := by
  intro w hw _ r w' hr
  refine Prog.Safe.ends (Prog.Asks.safe (J := fun d : Disk => d.dataAt x = c) ?_ hp hw ?_) hr
  · intro call hcall d r d' hd hanswer
    exact (dataAt_unchanging hcall hanswer).trans hd
  · intro r w hw
    cases r with
    | ok a => exact hw
    | error e => exact hw

/-- What is known after a part of a step that changes nothing. -/
theorem triple_unchanging
    {α : Type} {p : Session FsReply α} {w : Endpoint Disk UInt8}
    (hp : Proc.Asks (fun c => c.changes = []) p) (hw : w.host.dataAt x = c) :
  Proc.Triple (Watch.nothing UInt8 FsReply Error (Endpoint Disk UInt8))
    (Prog.Answers (Endpoint.answer answer closed)) (· = w) p
    (fun a w' => Proc.Returns answer closed p w a w' ∧ w'.host.dataAt x = c)
    (fun _ w' => w'.host.dataAt x = c)
  := by
  apply Proc.Triple.returning
  apply Proc.Triple.consequence (moves_unchanging hp)
  · rintro _ rfl
    exact hw
  · exact fun _ _ h => h
  · exact fun _ _ h => h

/-- What a procedure does that starts in a known state. -/
theorem triple_of_moves
    {α : Type} {p : Session FsReply α} {w : Endpoint Disk UInt8} {Q : α → Disk → Prop}
    {E : Disk → Prop} (h : Moves (Watch.nothing UInt8 FsReply Error (Endpoint Disk UInt8)) closed
      (· = w.host) p Q E) :
  Proc.Triple (Watch.nothing UInt8 FsReply Error (Endpoint Disk UInt8))
    (Prog.Answers (Endpoint.answer answer closed)) (· = w) p
    (fun a w' => Proc.Returns answer closed p w a w' ∧ Q a w'.host) (fun _ w' => E w'.host)
  := by
  apply Proc.Triple.returning
  apply Proc.Triple.consequence h
  · rintro _ rfl
    rfl
  · exact fun _ _ h => h
  · exact fun _ _ h => h

theorem linkFirst_cons
    (args : ReceiverArgs) (fi : FileInfo) (dest ld : FsPath) (lds : List FsPath) :
  linkFirst args fi dest (ld :: lds) = (do
    if ← linkFirst args fi dest [ld] then pure true else linkFirst args fi dest lds)
  := by
  rw [linkFirst, linkFirst, bind_assoc]
  congr 1
  funext r
  cases r with
  | error msg => rfl
  | ok info =>
      dsimp only
      split
      · rw [bind_assoc]
        congr 1
        funext b
        cases b with
        | true => rfl
        | false => rfl
      · rfl

/-- A link that is tried leaves what is at the place. -/
theorem moves_linkFirst_leaves
    {m : Watch UInt8 FsReply Error (Endpoint Disk UInt8)} {ld : FsPath} {d : Disk}
    {E : Disk → Prop} (hx : d.dataAt x = c)
    (h : ∀ info, d.stat (d.lplace (linkDestPath args fi ld)) = .ok info →
      info.isFile ∧ info.len = asUsize fi.size ∧ info.mtime = fi.modtime →
        LinkSpares (linkDestPath args fi ld) dest x d) :
  Moves m closed (· = d) (linkFirst args fi dest [ld]) (fun _ d' => d'.dataAt x = c) E
  := by
  apply Moves.bind (Q := fun r d' => r = d.stat (d.lplace (linkDestPath args fi ld)) ∧ d' = d)
  · apply Moves.symlinkMetadata
    rintro _ rfl
    exact ⟨rfl, rfl⟩
  intro r
  apply Moves.assuming
  intro hr
  cases r with
  | error msg => exact Moves.pure fun _ hd => hd ▸ hx
  | ok info =>
      dsimp only
      split
      · next hmatch =>
        have hfile := isFileAt_of_stat hr.symm hmatch.1
        apply (moves_linkTo_leaves hx hfile (h info hr.symm hmatch)).bind
        intro b
        split
        · exact Moves.pure fun _ hd => hd
        · exact Moves.pure fun _ hd => hd
      · exact Moves.pure fun _ hd => hd ▸ hx

/-- The links that are tried leave what is at the place. -/
theorem triple_linkFirst
    {lds : List FsPath} {w : Endpoint Disk UInt8} (hw : w.host.dataAt x = c)
    (h : Step.LinksSpare closed args fi dest x lds w) :
  Proc.Triple (Watch.nothing UInt8 FsReply Error (Endpoint Disk UInt8))
    (Prog.Answers (Endpoint.answer answer closed)) (· = w) (linkFirst args fi dest lds)
    (fun _ w' => w'.host.dataAt x = c) (fun _ w' => w'.host.dataAt x = c)
  := by
  induction lds generalizing w with
  | nil =>
      apply Proc.Triple.pure
      rintro _ rfl
      exact hw
  | cons ld lds ih =>
      obtain ⟨hlink, hrest⟩ := h
      rw [linkFirst_cons]
      apply (triple_of_moves (E := fun d => d.dataAt x = c) (moves_linkFirst_leaves hw hlink)).bind
      intro b
      apply Proc.Triple.fixed
      rintro w' ⟨hreturns, hw'⟩
      cases b with
      | true =>
          apply Proc.Triple.pure
          rintro _ rfl
          exact hw'
      | false => exact ih hw' (hrest w' hreturns)

/-! ### Steps that keep what is at a place -/

/-- A file is requested, and its reply is installed elsewhere or not at all. -/
theorem triple_transfer
    {s : Receiver} {i : ℕ} {w : Endpoint Disk UInt8} (hw : w.host.dataAt x = c)
    (h : ∀ reply w', Replied closed dig F args s i dest w reply w' →
      InstallSpares args dest reply.newData x w'.host) :
  Proc.Triple (Watch.nothing UInt8 FsReply Error (Endpoint Disk UInt8))
    (Prog.Answers (Endpoint.answer answer closed)) (· = w) (transfer dig F args s i fi dest)
    (fun _ w' => w'.host.dataAt x = c) (fun _ w' => w'.host.dataAt x = c)
  := by
  have hreads : ∀ c, Moves.OnlyReadsFile c → c.changes = [] := by
    rintro _ ⟨p, rfl⟩
    rfl
  apply (triple_unchanging ((asks_requestFile args _ _ dest).mono hreads) hw).bind
  rintro ⟨tx, basis⟩
  apply Proc.Triple.fixed
  rintro w₁ ⟨hrequest, hw₁⟩
  apply (triple_unchanging (asks_readReply args _ _) hw₁).bind
  rintro ⟨reply, rx⟩
  apply Proc.Triple.fixed
  rintro w₂ ⟨hreply, hw₂⟩
  have hspares := h reply w₂ ⟨tx, basis, w₁, rx, hrequest, hreply⟩
  apply (triple_of_moves (moves_install_leaves hw₂ hspares)).bind
  intro _
  exact Proc.Triple.pure fun _ hw => hw.2

theorem triple_receiveRegular
    {s : Receiver} {i : ℕ} {w : Endpoint Disk UInt8} (hw : w.host.dataAt x = c)
    (hlinks : ∀ w₁, Unskipped closed args fi dest w w₁ →
      Step.LinksSpare closed args fi dest x args.linkDest w₁)
    (hreplies : ∀ w₁ reply w₂, Requested closed args fi dest w w₁ →
      Replied closed dig F args s i dest w₁ reply w₂ →
        InstallSpares args dest reply.newData x w₂.host) :
  Proc.Triple (Watch.nothing UInt8 FsReply Error (Endpoint Disk UInt8))
    (Prog.Answers (Endpoint.answer answer closed)) (· = w) (receiveRegular dig F args s i fi dest)
    (fun _ w' => w'.host.dataAt x = c) (fun _ w' => w'.host.dataAt x = c)
  := by
  have hdone : ∀ {w : Endpoint Disk UInt8} {s : Receiver}, w.host.dataAt x = c →
      Proc.Triple (Watch.nothing UInt8 FsReply Error (Endpoint Disk UInt8))
        (Prog.Answers (Endpoint.answer answer closed)) (· = w) (pure s : Session FsReply Receiver)
        (fun _ w' => w'.host.dataAt x = c) (fun _ w' => w'.host.dataAt x = c) := by
    intro w s hw
    apply Proc.Triple.pure
    rintro _ rfl
    exact hw
  apply (triple_unchanging (asks_existsAlready (fun _ h => h) args dest) hw).bind
  intro found
  apply Proc.Triple.fixed
  rintro w₁ ⟨hfound, hw₁⟩
  cases found with
  | true => exact hdone hw₁
  | false =>
  apply (triple_unchanging (asks_destNewer (fun _ h => h) args fi dest) hw₁).bind
  intro newer
  apply Proc.Triple.fixed
  rintro w₂ ⟨hnewer, hw₂⟩
  cases newer with
  | true => exact hdone hw₂
  | false =>
  have hunskipped : Unskipped closed args fi dest w w₂ := ⟨w₁, hfound, hnewer⟩
  apply (triple_linkFirst hw₂ (hlinks w₂ hunskipped)).returning.bind
  intro linked
  apply Proc.Triple.fixed
  rintro w₃ ⟨hlinked, hw₃⟩
  cases linked with
  | true => exact hdone hw₃
  | false =>
  apply (triple_unchanging (asks_needsTransfer (fun _ h => h) args fi dest) hw₃).bind
  intro needs
  apply Proc.Triple.fixed
  rintro w₄ ⟨hneeds, hw₄⟩
  cases needs with
  | false => exact hdone hw₄
  | true =>
  apply triple_transfer hw₄
  intro reply w₅ hreplied
  exact hreplies w₄ reply w₅ ⟨w₂, w₃, hunskipped, hlinked, hneeds⟩ hreplied

theorem keeps_of_triple
    {α : Type} {p : Session FsReply α} {w w' : Endpoint Disk UInt8} {r : Except Error α}
    (h : Proc.Triple (Watch.nothing UInt8 FsReply Error (Endpoint Disk UInt8))
      (Prog.Answers (Endpoint.answer answer closed)) (· = w) p
      (fun _ w' => w'.host.dataAt x = c) (fun _ w' => w'.host.dataAt x = c))
    (hr : Prog.Ends (Prog.Answers (Endpoint.answer answer closed)) p.run w r w') :
  w'.host.dataAt x = c
  := by
  have hpost := h.ends rfl hr
  cases r with
  | ok a => exact hpost
  | error e => exact hpost

/-- A step that spares a place keeps what is there. -/
theorem Step.Spares.keeps
    {i : Step} {w : Endpoint Disk UInt8} (h : i.Spares closed dig F args x w) :
  i.Keeps closed dig F args x w
  := by
  intro r w' hr
  by_cases hverified : i.VerifiedAt closed dig F args x w
  · exact Or.inr hverified
  left
  have hmoves : ∀ {p : Session FsReply Unit} {r : Except Error Unit},
      Moves (Watch.nothing UInt8 FsReply Error (Endpoint Disk UInt8)) closed (· = w.host) p
        (fun _ d => d.dataAt x = w.host.dataAt x) (fun d => d.dataAt x = w.host.dataAt x) →
      Prog.Ends (Prog.Answers (Endpoint.answer answer closed)) p.run w r w' →
        w'.host.dataAt x = w.host.dataAt x := by
    intro p r hp hr
    apply keeps_of_triple (Proc.Triple.consequence (triple_of_moves hp) (fun _ h => h) ?_ ?_) hr
    · exact fun _ _ h => h.2
    · exact fun _ _ h => h
  cases i with
  | dir fi =>
      apply hmoves (p := makeDir args () fi) ?_ hr
      unfold makeDir
      split
      · apply (Moves.orIgnore (Moves.createDirAll (stable_dataAt x (w.host.dataAt x)))).consequence
        · rintro _ rfl
          rfl
        · exact fun _ _ hd => hd
        · exact fun _ hd => hd
      · exact Moves.pure fun _ hd => hd ▸ rfl
  | file s i fi =>
      have hrun : Prog.Ends (Prog.Answers (Endpoint.answer answer closed))
          (receiveFile dig F args s (fi, i)).run w r w' := hr
      unfold receiveFile at hrun
      split at hrun
      · next hmay =>
        obtain ⟨hlinks, hreplies⟩ := h hmay
        apply keeps_of_triple (triple_receiveRegular rfl hlinks ?_) hrun
        intro w₁ reply w₂ hrequested hreplied
        apply (hreplies w₁ reply w₂ hrequested hreplied).resolve_left
        rintro ⟨hok, hat⟩
        exact hverified ⟨hmay, w₁, reply, w₂, hrequested, hreplied, hok, hat⟩
      · obtain ⟨-, rfl⟩ := Prog.Ends.of_ret hrun
        rfl
  | symlink fi => exact hmoves (moves_makeSymlink_leaves rfl h) hr
  | hardLink fi => exact hmoves (moves_makeHardLink_leaves rfl h) hr

/-! ### Runs -/

/-- The run has received the files of the list. -/
def FilesReceived (closed : Bool) (dig : Digests) (F : Flate) (args : ReceiverArgs) (s₀ : Receiver)
    (w : Endpoint Disk UInt8) (s : Receiver) (w' : Endpoint Disk UInt8) : Prop :=
  ∃ w₁, Proc.Returns answer closed (Proc.forEach (makeDir args) () args.flist.files) w () w₁ ∧
    Proc.Returns answer closed (Proc.forEach (receiveFile dig F args) s₀ args.flist.files.zipIdx) w₁
      s w'

/-- The run that starts in `w` comes to the step in `w'`. -/
def ComesTo (closed : Bool) (dig : Digests) (F : Flate) (args : ReceiverArgs) (s₀ : Receiver)
    (w : Endpoint Disk UInt8) : Step → Endpoint Disk UInt8 → Prop
  | .dir fi, w' => Proc.ArrivesAt (Prog.Answers (Endpoint.answer answer closed)) (makeDir args) ()
      args.flist.files w () fi w'
  | .file s i fi, w' => ∃ w₁,
    Proc.Returns answer closed (Proc.forEach (makeDir args) () args.flist.files) w () w₁ ∧
    Proc.ArrivesAt (Prog.Answers (Endpoint.answer answer closed)) (receiveFile dig F args) s₀
      args.flist.files.zipIdx w₁ s (fi, i) w'
  | .symlink fi, w' => ∃ s w₁, FilesReceived closed dig F args s₀ w s w₁ ∧
    Proc.ArrivesAt (Prog.Answers (Endpoint.answer answer closed)) (makeSymlink args) ()
      args.flist.files w₁ () fi w'
  | .hardLink fi, w' => ∃ s w₁ w₂, FilesReceived closed dig F args s₀ w s w₁ ∧
    Proc.Returns answer closed (Proc.forEach (makeSymlink args) () args.flist.files) w₁ () w₂ ∧
    Proc.ArrivesAt (Prog.Answers (Endpoint.answer answer closed)) (makeHardLink args) ()
      args.flist.files w₂ () fi w'

/-- What is at the place `x` is replaced only by the content of verified replies: every step of the
run leaves it or installs such a reply there, and so does the whole run. -/
structure InstallsVerified (closed : Bool) (dig : Digests) (F : Flate) (args : ReceiverArgs)
    (s₀ : Receiver) (w : Endpoint Disk UInt8) (x : Location) : Prop where
  step : ∀ i w₁, ComesTo closed dig F args s₀ w i w₁ → i.Keeps closed dig F args x w₁
  run : ∀ r w', Prog.Ends (Prog.Answers (Endpoint.answer answer closed)) (run dig F args s₀).run w r
      w' →
    w'.host.dataAt x = w.host.dataAt x ∨
      ∃ i w₁, ComesTo closed dig F args s₀ w i w₁ ∧ i.VerifiedAt closed dig F args x w₁

/-- Where every step keeps what is at a place, the run does. -/
theorem run_keeps
    {s₀ : Receiver} {w w' : Endpoint Disk UInt8} {r : Except Error Receiver}
    (h : ∀ i w₁, ComesTo closed dig F args s₀ w i w₁ → i.Keeps closed dig F args x w₁)
    (hr : Prog.Ends (Prog.Answers (Endpoint.answer answer closed)) (run dig F args s₀).run w r w') :
  w'.host.dataAt x = w.host.dataAt x ∨
    ∃ i w₁, ComesTo closed dig F args s₀ w i w₁ ∧ i.VerifiedAt closed dig F args x w₁
  := by
  by_cases hverified : ∃ i w₁, ComesTo closed dig F args s₀ w i w₁ ∧
      i.VerifiedAt closed dig F args x w₁
  · exact Or.inr hverified
  left
  let J : Endpoint Disk UInt8 → Prop := fun w' => w'.host.dataAt x = w.host.dataAt x
  have hstep : ∀ (i : Step) w₁, ComesTo closed dig F args s₀ w i w₁ → J w₁ →
      ∀ r w₂, Prog.Ends (Prog.Answers (Endpoint.answer answer closed)) (i.proc dig F args).run w₁ r
        w₂ → Proc.Post (fun _ => J) (fun _ => J) r w₂ := by
    intro i w₁ hi hw₁ r w₂ hends
    have hkept : J w₂ := by
      apply ((h i w₁ hi r w₂ hends).resolve_right ?_).trans hw₁
      exact fun hv => hverified ⟨i, w₁, hi, hv⟩
    cases r with
    | ok a => exact hkept
    | error e => exact hkept
  have hstop : ∀ {α : Type} {e : Error} {r : Except Error α} {w₁ w₂ : Endpoint Disk UInt8}, J w₁ →
      Prog.Ends (Prog.Answers (Endpoint.answer answer closed)) (Prog.ret (.error e)) w₁ r w₂ →
        J w₂ := by
    intro α e r w₁ w₂ hw₁ hends
    obtain ⟨-, rfl⟩ := Prog.Ends.of_ret hends
    exact hw₁
  obtain ⟨r₁, w₁, hdirs, hr⟩ := Prog.Ends.bind_inv hr
  have hw₁ := Proc.forEach_arrives (fun _ fi w₁ hat => hstep (.dir fi) w₁ hat) rfl hdirs
  cases r₁ with
  | error e => exact hstop hw₁ hr
  | ok u =>
  obtain ⟨r₂, w₂, hfiles, hr⟩ := Prog.Ends.bind_inv hr
  have hw₂ := Proc.forEach_arrives
    (fun s entry w₂ hat => hstep (.file s entry.2 entry.1) w₂ ⟨w₁, hdirs, hat⟩) hw₁ hfiles
  cases r₂ with
  | error e => exact hstop hw₂ hr
  | ok s =>
  have hreceived : FilesReceived closed dig F args s₀ w s w₂ := ⟨w₁, hdirs, hfiles⟩
  obtain ⟨r₃, w₃, hsymlinks, hr⟩ := Prog.Ends.bind_inv hr
  have hw₃ := Proc.forEach_arrives
    (fun _ fi w₃ hat => hstep (.symlink fi) w₃ ⟨s, w₂, hreceived, hat⟩) hw₂ hsymlinks
  cases r₃ with
  | error e => exact hstop hw₃ hr
  | ok u =>
  obtain ⟨r₄, w₄, hlinks, hr⟩ := Prog.Ends.bind_inv hr
  have hw₄ := Proc.forEach_arrives
    (fun _ fi w₄ hat => hstep (.hardLink fi) w₄ ⟨s, w₂, w₃, hreceived, hsymlinks, hat⟩) hw₃ hlinks
  cases r₄ with
  | error e => exact hstop hw₄ hr
  | ok u =>
      have hends : Prog.Ends (Prog.Answers (Endpoint.answer answer closed)) (goodbye args s).run w₄
        r w' := hr
      exact keeps_of_triple (Proc.Triple.consequence (triple_unchanging (asks_goodbye args s) hw₄)
        (fun _ h => h) (fun _ _ h => h.2) fun _ _ h => h) hends

/-- In every run whose steps spare a place unless they install a verified reply there, nothing but
verified content comes to be at that place. -/
theorem installs_verified
    (closed : Bool) (dig : Digests) (F : Flate) (args : ReceiverArgs) (s₀ : Receiver)
    (w : Endpoint Disk UInt8) (x : Location)
    (hspares : ∀ i w₁, ComesTo closed dig F args s₀ w i w₁ → i.Spares closed dig F args x w₁) :
  InstallsVerified closed dig F args s₀ w x
  := by
  have hkeeps : ∀ i w₁, ComesTo closed dig F args s₀ w i w₁ → i.Keeps closed dig F args x w₁ :=
    fun i w₁ hi => (hspares i w₁ hi).keeps
  exact ⟨hkeeps, fun r w' hr => run_keeps hkeeps hr⟩

/-! ### Replies that are read -/

/-- The reply that the step of a file comes to, when the file is neither skipped nor linked. -/
def replyTo (dig : Digests) (F : Flate) (args : ReceiverArgs) (s : Receiver) (i : ℕ)
    (fi : FileInfo) (dest : FsPath) : Session FsReply FileReply := do
  let _ ← existsAlready args dest
  let _ ← destNewer args fi dest
  let _ ← linkFirst args fi dest args.linkDest
  let _ ← needsTransfer args fi dest
  let request ← requestFile dig args s.tx (ndxOf args i) dest
  let reply ← readReply F args s.rx request.2.data
  pure reply.1

theorem Replied.returns
    {s : Receiver} {i : ℕ} {w w₁ w₂ : Endpoint Disk UInt8} {reply : FileReply}
    (hrequested : Requested closed args fi dest w w₁)
    (h : Replied closed dig F args s i dest w₁ reply w₂) :
  Proc.Returns answer closed (replyTo dig F args s i fi dest) w reply w₂
  := by
  obtain ⟨v₁, v₂, ⟨v₃, hexists, hnewer⟩, hlinked, hneeds⟩ := hrequested
  obtain ⟨tx, basis, v₄, rx, hrequest, hread⟩ := h
  apply hexists.bind
  apply hnewer.bind
  apply hlinked.bind
  apply hneeds.bind
  apply hrequest.bind
  apply hread.bind
  exact Proc.returns_pure _ _

/-- The digests of the libraries on no data and on a byte. -/
def digestsOfByte : Digests where
  md5 data :=
    if data = [] then
      [0xd4, 0x1d, 0x8c, 0xd9, 0x8f, 0x00, 0xb2, 0x04,
       0xe9, 0x80, 0x09, 0x98, 0xec, 0xf8, 0x42, 0x7e]
    else if data = [1] then
      [0x55, 0xa5, 0x40, 0x08, 0xad, 0x1b, 0xa5, 0x89,
       0xaa, 0x21, 0x0d, 0x26, 0x29, 0xc1, 0xdf, 0x41]
    else
      List.replicate 16 0
  md4 _ := List.replicate 16 0
  length_md5 data := by
    split_ifs <;> rfl
  length_md4 _ := rfl

/-- A regular file of five bytes. -/
def byteFile (name : UInt8) : FileInfo where
  name := [name]
  mode := 0o100644
  size := 5
  hardLinkFirstNdx := -1

/-- A receiver of some files, which compares no sizes and times. -/
def byteArgs (files : List FileInfo) : ReceiverArgs where
  flist := { files }
  destDir := [sep]
  csumType := .md5
  protocol := 31
  checksumSeed := 0
  useChecksum := true

/-- What a sender replies that could not read the file. -/
def unreadReply : List UInt8 :=
  [1, 0x00, 0x80] ++ List.replicate 16 0 ++ leBytes 4 0 ++ List.replicate 16 0

/-- Two files at the destination. The reply for the first one is verified, and the sender could not
read the second one. -/
def twoReplies : Endpoint Disk UInt8 where
  host := (Disk.blank.create [[102]] { kind := .file [7] }).create [[103]] { kind := .file [9] }
  input := [1, 0x00, 0x80] ++ List.replicate 16 0 ++ leBytes 4 1 ++ [1] ++ leBytes 4 0 ++
    digestsOfByte.md5 [1] ++ unreadReply ++ [0, 0, 0]
  buffer := []
  sent := []

/-- What a run that has been evaluated returns and leaves. -/
theorem returns_of_eval
    {α β : Type} {p : Session FsReply α} {w w' : Endpoint Disk UInt8} {a a₀ : α} {n : ℕ}
    {g : Endpoint Disk UInt8 → β} {b : β}
    (hrun : (Prog.eval (Endpoint.answer Disk.answer closed) n p.run w).map
      (fun r => (r.1, g r.2)) = some (.ok a₀, b))
    (h : Proc.Returns answer closed p w a w') :
  a = a₀ ∧ g w' = b
  := by
  obtain ⟨⟨r, w₁⟩, heval, hr⟩ := Option.map_eq_some_iff.mp hrun
  obtain ⟨hr, hb⟩ := Prod.mk.inj hr
  change r = _ at hr
  rw [hr] at heval
  obtain ⟨rfl, rfl⟩ := Proc.Returns.unique (Prog.ends_of_eval heval) h
  exact ⟨rfl, hb⟩

/-- A list of two files. -/
abbrev twoFiles : ReceiverArgs :=
  byteArgs [byteFile 102, byteFile 103]

theorem linksSpare_twoFiles
    {fi : FileInfo} {dest : FsPath} {w : Endpoint Disk UInt8} :
  Step.LinksSpare closed twoFiles fi dest x twoFiles.linkDest w
  := by
  have hnone : twoFiles.linkDest = [] := rfl
  rw [hnone, Step.LinksSpare]
  trivial

theorem spares_verified :
  (Step.file {} 0 (byteFile 102)).Spares true digestsOfByte StoredFlate.codec twoFiles [[102]]
    twoReplies
  := by
  have hrun : (Prog.eval (Endpoint.answer Disk.answer true) 5
      (replyTo digestsOfByte StoredFlate.codec twoFiles {} 0 (byteFile 102) [sep, 102]).run
        twoReplies).map
      (fun r => (r.1, (withParent r.2.host [sep, 102]).lplace [sep, 102])) =
      some (.ok ⟨0, itemTransfer, ⟨0, 0, 0, 0⟩, [1], digestsOfByte.md5 [1]⟩, some [[102]]) := by
    decide +kernel
  have hdest : twoFiles.destDir.join (byteFile 102).path = [sep, 102] := by decide +kernel
  rw [Step.Spares, hdest]
  refine fun _ => ⟨fun _ _ => linksSpare_twoFiles, fun w₁ reply w₂ hrequested hreplied => Or.inl ?_⟩
  obtain ⟨rfl, hplace⟩ := returns_of_eval
    (g := fun w => (withParent w.host [sep, 102]).lplace [sep, 102]) hrun
    (hreplied.returns hrequested)
  have hsum : digestsOfByte.md5 [1] = wholeSum digestsOfByte twoFiles [1] := by decide +kernel
  exact ⟨⟨by decide +kernel, hsum⟩, hplace⟩

theorem spares_unverified
    {s : Receiver} {w : Endpoint Disk UInt8}
    (h : Proc.Returns answer true (receiveFile digestsOfByte StoredFlate.codec twoFiles {}
      (byteFile 102, 0)) twoReplies s w) :
  (Step.file s 1 (byteFile 103)).Spares true digestsOfByte StoredFlate.codec twoFiles [[102]] w
  := by
  let tmp : FsPath := tmpPath twoFiles [sep, 103]
  let aside : Disk → Bool := fun d => d.lplace [sep, 103] ≠ some [[102]] &&
    (d.place tmp ≠ some [[102]] && (d.place tmp).bind d.nodes = none)
  have hrun : (Prog.eval (Endpoint.answer Disk.answer true) 5
      (receiveFile digestsOfByte StoredFlate.codec twoFiles {} (byteFile 102, 0) >>= fun s =>
        replyTo digestsOfByte StoredFlate.codec twoFiles s 1 (byteFile 103) [sep, 103]).run
        twoReplies).map (fun r => (r.1, aside (withParent r.2.host [sep, 103]))) =
      some (.ok ⟨1, itemTransfer, ⟨0, 0, 0, 0⟩, [], List.replicate 16 0⟩, true) := by
    decide +kernel
  have hdest : twoFiles.destDir.join (byteFile 103).path = [sep, 103] := by decide +kernel
  rw [Step.Spares, hdest]
  refine fun _ => ⟨fun _ _ => linksSpare_twoFiles, fun w₁ reply w₂ hrequested hreplied => Or.inr ?_⟩
  obtain ⟨-, haside⟩ := returns_of_eval (g := fun w => aside (withParent w.host [sep, 103])) hrun
    (h.bind (hreplied.returns hrequested))
  simp only [aside, Bool.and_eq_true, decide_eq_true_iff] at haside
  obtain ⟨hplace, hne, hnone⟩ := haside
  have hwrites : WritesAside (withParent w₂.host [sep, 103]) tmp [[102]] := by
    intro y hy
    rw [hy, Option.bind_some] at hnone
    refine ⟨fun heq => hne (heq ▸ hy), fun i hi => ?_⟩
    cases hnone.symm.trans hi
  exact ⟨Or.inl hwrites, Or.inl hplace⟩

theorem mem_twoFiles
    {fi : FileInfo} {done rest : List FileInfo} (h : twoFiles.flist.files = done ++ fi :: rest) :
  fi.isSymlink = false ∧ leaderOf twoFiles fi = none
  := by
  have hmem : fi ∈ [byteFile 102, byteFile 103] := by
    change fi ∈ twoFiles.flist.files
    rw [h]
    exact List.mem_append_right done List.mem_cons_self
  rcases List.mem_cons.mp hmem with rfl | hmem
  · exact ⟨by decide, rfl⟩
  · cases List.mem_singleton.mp hmem
    exact ⟨by decide, rfl⟩

/-- Every step leaves the first file, or it installs a verified reply there. -/
theorem spares_twoReplies
    {i : Step} {w : Endpoint Disk UInt8}
    (h : ComesTo true digestsOfByte StoredFlate.codec twoFiles {} twoReplies i w) :
  i.Spares true digestsOfByte StoredFlate.codec twoFiles [[102]] w
  := by
  cases i with
  | dir fi => trivial
  | file s i fi =>
      obtain ⟨w₁, hdirs, done, rest, hfiles, hdone⟩ := h
      have hstart : Proc.Returns answer true (Proc.forEach (makeDir twoFiles) ()
          twoFiles.flist.files) twoReplies () twoReplies := Prog.Ends.ret (Except.ok ()) twoReplies
      obtain ⟨-, rfl⟩ := hstart.unique hdirs
      have hzip : [(byteFile 102, 0), (byteFile 103, 1)] = done ++ (fi, i) :: rest := hfiles
      cases done with
      | nil =>
          cases hzip
          obtain ⟨hs, rfl⟩ := Prog.Ends.of_ret hdone
          cases hs
          exact spares_verified
      | cons entry done =>
          obtain ⟨rfl, hzip⟩ := List.cons.inj hzip
          cases done with
          | nil =>
              cases hzip
              obtain ⟨s', w', hfirst, hend⟩ := Proc.Returns.bind_inv hdone
              obtain ⟨rfl, rfl⟩ := hend.pure_inv
              exact spares_unverified hfirst
          | cons entry done => cases done <;> cases hzip
  | symlink fi =>
      obtain ⟨_, _, -, done, rest, hfiles, -⟩ := h
      obtain ⟨hlinks, -⟩ := mem_twoFiles hfiles
      intro hlink
      cases hlinks.symm.trans hlink
  | hardLink fi =>
      obtain ⟨_, _, _, -, -, done, rest, hfiles, -⟩ := h
      obtain ⟨-, hleader⟩ := mem_twoFiles hfiles
      intro first hfirst
      cases hleader.symm.trans hfirst

/-- The first file is replaced by a verified reply, and left when the second one is replaced. -/
theorem installs_verified_twoReplies :
  InstallsVerified true digestsOfByte StoredFlate.codec twoFiles {} twoReplies [[102]]
  := installs_verified true digestsOfByte StoredFlate.codec twoFiles {} twoReplies [[102]]
    fun _ _ hi => spares_twoReplies hi

/-- A file of one byte at the destination, and the reply of a sender that could not read it. -/
def unreadable : Endpoint Disk UInt8 where
  host := Disk.blank.create [[102]] { kind := .file [1] }
  input := unreadReply
  buffer := []
  sent := []

/-- The file is replaced by an empty one when the sender could not read it. -/
theorem not_installs_verified :
  ¬ InstallsVerified true digestsOfByte StoredFlate.codec (byteArgs [byteFile 102]) {} unreadable
    [[102]]
  := by
  intro h
  have hcomes : ComesTo true digestsOfByte StoredFlate.codec (byteArgs [byteFile 102]) {} unreadable
      (.file {} 0 (byteFile 102)) unreadable :=
    ⟨unreadable, Prog.Ends.ret (Except.ok ()) unreadable, [], [], rfl, Prog.Ends.ret _ unreadable⟩
  have hrun : (Prog.eval (Endpoint.answer Disk.answer true) 5
      (receiveFile digestsOfByte StoredFlate.codec (byteArgs [byteFile 102]) {}
        (byteFile 102, 0)).run unreadable).map (fun r => r.2.host.dataAt [[102]]) =
      some (some []) := by
    decide +kernel
  have hreply : (Prog.eval (Endpoint.answer Disk.answer true) 5
      (replyTo digestsOfByte StoredFlate.codec (byteArgs [byteFile 102]) {} 0 (byteFile 102)
        [sep, 102]).run unreadable).map (fun r => (r.1, ())) =
      some (.ok ⟨0, itemTransfer, ⟨0, 0, 0, 0⟩, [], List.replicate 16 0⟩, ()) := by
    decide +kernel
  have hdest : (byteArgs [byteFile 102]).destDir.join (byteFile 102).path = [sep, 102] := by
    decide +kernel
  obtain ⟨⟨r, w'⟩, heval, hdata⟩ := Option.map_eq_some_iff.mp hrun
  rcases h.step _ _ hcomes r w' (Prog.ends_of_eval heval) with hsame | hverified
  · have hbefore : unreadable.host.dataAt [[102]] = some [1] := by decide +kernel
    cases hdata.symm.trans (hsame.trans hbefore)
  · rw [Step.VerifiedAt, hdest] at hverified
    obtain ⟨-, w₁, reply, w₂, hrequested, hreplied, ⟨-, hsum⟩, -⟩ := hverified
    obtain ⟨rfl, -⟩ := returns_of_eval (g := fun _ => ()) hreply (hreplied.returns hrequested)
    exact absurd hsum (by decide +kernel)

end Receiver
