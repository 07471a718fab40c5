import RsyncRs.Delta.StoredFlate
import RsyncRs.Flist.Sorted
import RsyncRs.Fs.Inside
import RsyncRs.Pipeline.Deletion
import RsyncRs.Pipeline.Exchange

/-!
# Where a receiver changes files

A receiver changes files below its destination only, when the paths of its list stay below it.
Names of a parent and absolute names are taken as they come.
-/

/-- The paths that a call makes, writes to, links, changes or removes. -/
def FsCall.changes : FsCall → List FsPath
  | .pathExists _ | .metadata _ | .symlinkMetadata _ | .readFile _ | .readDir _ | .readLink _
  | .setCurrentDir _ => []
  | .createDirAll p | .createFile p | .writeFile p _ | .removeFile p | .removeDir p
  | .removeDirAll p | .setPermissions p _ | .setTimes p _ | .setLinkTimes p _ _
  | .chown p _ _ => [p]
  | .rename p q => [p, q]
  | .hardLink _ q | .symlink _ q | .copyFile _ q | .copyXattrs _ q => [q]

/-- All paths that the call changes are inside of the directory. -/
def Confined (cwd : Location) (root : FsPath) (c : FsCall) : Prop :=
  ∀ p ∈ c.changes, FsPath.Inside cwd root p

theorem confined_nil
    {cwd : Location} {root : FsPath} {c : FsCall} (h : c.changes = []) :
  Confined cwd root c
  := by
  unfold Confined
  rw [h]
  intro p hp
  cases hp

theorem confined_one
    {cwd : Location} {root p : FsPath} {c : FsCall} (h : c.changes = [p])
    (hp : FsPath.Inside cwd root p) :
  Confined cwd root c
  := by
  unfold Confined
  rw [h]
  intro q hq
  rw [List.mem_singleton.mp hq]
  exact hp

namespace Receiver

open FsPath

variable {F : Flate} {dig : Digests} {cwd : Location} {args : ReceiverArgs} {fi : FileInfo}
  {dest : FsPath}

/-- The path of an entry stays below the directory to which it is joined. -/
structure StaysBelow (args : ReceiverArgs) (fi : FileInfo) : Prop where
  relative : isAbsolute fi.path = false
  noParent : NoParent fi.path
  /-- What may be written is not the directory itself. -/
  named : mayRequest args fi = true ∨ (leaderOf args fi).isSome → partNames fi.path ≠ []
  /-- Without its extension the name is not the one of the parent. -/
  linked : mayRequest args fi = true → args.linkDest ≠ [] → stemOf (lastPart fi.path) ≠ [dot]

theorem asks_orIgnore
    {φ : FsCall → Prop} {α : Type} {p : Session FsReply (Except String α)} (hp : Proc.Asks φ p) :
  Proc.Asks φ (Fs.orIgnore p)
  := hp.bind fun _ => Proc.asks_pure _

theorem asks_orFail
    {φ : FsCall → Prop} {α : Type} {p : Session FsReply (Except String α)} (hp : Proc.Asks φ p) :
  Proc.Asks φ (Fs.orFail p)
  := by
  apply hp.bind
  intro r
  cases r with
  | ok a => exact Proc.asks_pure a
  | error e => exact Proc.asks_throw _

theorem confined_createParent
    {root : FsPath} (h : Names cwd root dest) :
  Proc.Asks (Confined cwd root) (createParent dest)
  := by
  obtain ⟨q, hq, hinside, -⟩ := h.parent
  rw [createParent, hq]
  exact asks_orIgnore (Proc.asks_host (confined_one rfl hinside))

theorem confined_linkTo
    {root : FsPath} (h : Names cwd root dest) (hdots : stemOf (lastPart dest) ≠ [dot])
    (ldPath : FsPath) :
  Proc.Asks (Confined cwd root) (linkTo ldPath dest)
  := by
  have htmp : Inside cwd root (dest.withExtension (bytesOf "__ldtmp__")) :=
    h.withExtension hdots (by decide +kernel) (by decide +kernel)
  apply (confined_createParent h).bind
  intro _
  apply (asks_orIgnore (Proc.asks_host (confined_one rfl htmp))).bind
  intro _
  apply (Proc.asks_host (confined_one rfl htmp)).bind
  intro r
  cases r with
  | error e => exact Proc.asks_pure false
  | ok u =>
      apply Proc.Asks.bind
      · apply Proc.asks_host
        intro p hp
        rcases List.mem_cons.mp hp with rfl | hp
        · exact htmp
        · rw [List.mem_singleton.mp hp]
          exact h.inside
      intro r
      cases r with
      | ok u => exact Proc.asks_pure true
      | error e =>
          apply (asks_orIgnore (Proc.asks_host (confined_one rfl htmp))).bind
          exact fun _ => Proc.asks_pure false

/-! ### Questions -/

section Questions

variable {φ : FsCall → Prop}

theorem asks_existsAlready
    (hφ : ∀ c, c.changes = [] → φ c) (args : ReceiverArgs) (dest : FsPath) :
  Proc.Asks φ (existsAlready args dest)
  := by
  unfold existsAlready
  split
  · exact Proc.asks_host (hφ _ rfl)
  · exact Proc.asks_pure _

theorem asks_destNewer
    (hφ : ∀ c, c.changes = [] → φ c) (args : ReceiverArgs) (fi : FileInfo) (dest : FsPath) :
  Proc.Asks φ (destNewer args fi dest)
  := by
  unfold destNewer
  split
  · apply (Proc.asks_host (hφ _ rfl)).bind
    intro b
    split
    · apply (Proc.asks_host (hφ _ rfl)).bind
      intro r
      cases r with
      | ok info => exact Proc.asks_pure _
      | error e => exact Proc.asks_pure _
    · exact Proc.asks_pure _
  · exact Proc.asks_pure _

theorem asks_needsTransfer
    (hφ : ∀ c, c.changes = [] → φ c) (args : ReceiverArgs) (fi : FileInfo) (dest : FsPath) :
  Proc.Asks φ (needsTransfer args fi dest)
  := by
  unfold needsTransfer
  split
  · exact Proc.asks_pure _
  · apply (Proc.asks_host (hφ _ rfl)).bind
    intro r
    cases r with
    | ok info => exact Proc.asks_pure _
    | error e => exact Proc.asks_pure _

/-- The search for a file to link to only asks, up to the link. -/
theorem asks_linkFirst
    (hφ : ∀ c, c.changes = [] → φ c) (lds : List FsPath)
    (hlink : lds ≠ [] → ∀ ldPath, Proc.Asks φ (linkTo ldPath dest)) :
  Proc.Asks φ (linkFirst args fi dest lds)
  := by
  induction lds with
  | nil => exact Proc.asks_pure false
  | cons ld lds ih =>
      have hlink := hlink (List.cons_ne_nil ld lds)
      have ih := ih fun _ => hlink
      apply (Proc.asks_host (hφ _ rfl)).bind
      intro r
      cases r with
      | error e => exact ih
      | ok info =>
          dsimp only
          split
          · apply (hlink _).bind
            intro b
            cases b with
            | true => exact Proc.asks_pure true
            | false => exact ih
          · exact ih

end Questions

/-! ### Files -/

/-- A number is written without separators. -/
theorem sep_not_mem_toString
    (n : ℕ) :
  sep ∉ bytesOf (toString n)
  := by
  intro hmem
  obtain ⟨c, hc, heq⟩ := List.mem_map.mp hmem
  rw [Nat.toString_eq_ofList_toDigits, String.toList_ofList] at hc
  have hdigit := Nat.isDigit_of_mem_toDigits (by decide) (by decide) hc
  simp only [Char.isDigit, Bool.and_eq_true, decide_eq_true_eq] at hdigit
  have hlow : 48 ≤ c.toNat := hdigit.1
  have hhigh : c.toNat ≤ 57 := hdigit.2
  have hnat := congrArg UInt8.toNat heq
  rw [UInt8.toNat_ofNat', Nat.mod_eq_of_lt (by omega)] at hnat
  have hsep : sep.toNat = 47 := rfl
  omega

/-- The last component of the temporary path. -/
def tmpName (args : ReceiverArgs) (name : Name) : Name :=
  dot :: (name ++ dot :: bytesOf (toString args.pid) ++ bytesOf ".tmp")

theorem isName_tmpName
    (args : ReceiverArgs) {name : Name} (hsep : sep ∉ name) :
  IsName (tmpName args name)
  := by
  have hletter : ∃ b ∈ bytesOf "tmp", b ≠ dot := by decide +kernel
  have hstem : sep ∉ dot :: (name ++ dot :: bytesOf (toString args.pid)) := by
    simp only [List.mem_cons, List.mem_append, not_or]
    exact ⟨by decide, hsep, by decide, sep_not_mem_toString args.pid⟩
  have htmp := isName_extension hstem (by decide +kernel : sep ∉ bytesOf "tmp") hletter
  have hdot : bytesOf ".tmp" = dot :: bytesOf "tmp" := by decide +kernel
  rw [tmpName, hdot, ← List.cons_append]
  exact htmp

/-- The temporary name of a file is beside it. -/
theorem inside_tmpPath
    {root : FsPath} (h : Names cwd root dest) :
  Inside cwd root (tmpPath args dest)
  := by
  obtain ⟨q, hq, -, hjoin⟩ := h.parent
  obtain ⟨⟨name, hname⟩, -⟩ := h
  have hsep : sep ∉ name := (locate_fileName cwd hname).1.noSep
  rw [tmpPath, hq, hname]
  exact hjoin _ (isName_tmpName args hsep)

theorem confined_install
    {root : FsPath} (h : Names cwd root dest) (newData : List UInt8) :
  Proc.Asks (Confined cwd root) (install args fi dest newData)
  := by
  have hdest {c : FsCall} (hc : c.changes = [dest]) : Confined cwd root c :=
    confined_one hc h.inside
  have htmp {c : FsCall} (hc : c.changes = [tmpPath args dest]) : Confined cwd root c :=
    confined_one hc (inside_tmpPath h)
  apply (confined_createParent h).bind
  intro _
  apply (Proc.asks_host (confined_nil rfl)).bind
  intro _
  apply Proc.Asks.bind
  · unfold writeContent
    split
    · apply (asks_orFail (Proc.asks_host (hdest rfl))).bind
      exact fun _ => asks_orFail (Proc.asks_host (hdest rfl))
    · apply (asks_orFail (Proc.asks_host (htmp rfl))).bind
      intro _
      apply (asks_orFail (Proc.asks_host (htmp rfl))).bind
      intro _
      apply asks_orFail
      apply Proc.asks_host
      intro p hp
      rcases List.mem_cons.mp hp with rfl | hp
      · exact inside_tmpPath h
      · rw [List.mem_singleton.mp hp]
        exact h.inside
  intro _
  apply (asks_orFail (Proc.asks_host (hdest rfl))).bind
  exact fun _ => asks_orFail (Proc.asks_host (hdest rfl))

theorem confined_transfer
    {root : FsPath} (h : Names cwd root dest) (s : Receiver) (i : ℕ) :
  Proc.Asks (Confined cwd root) (transfer dig F args s i fi dest)
  := by
  apply Proc.Asks.bind
  · apply (asks_requestFile args _ _ dest).mono
    rintro c ⟨p, rfl⟩
    exact confined_nil rfl
  rintro ⟨tx, basis⟩
  apply (asks_readReply args _ _).bind
  rintro ⟨reply, rx⟩
  apply (confined_install h reply.newData).bind
  exact fun _ => Proc.asks_pure _

theorem confined_receiveRegular
    {root : FsPath} (h : Names cwd root dest)
    (hdots : args.linkDest ≠ [] → stemOf (lastPart dest) ≠ [dot]) (s : Receiver) (i : ℕ) :
  Proc.Asks (Confined cwd root) (receiveRegular dig F args s i fi dest)
  := by
  have hnothing : ∀ c : FsCall, c.changes = [] → Confined cwd root c := fun c => confined_nil
  apply (asks_existsAlready hnothing args dest).bind
  intro b
  split
  · exact Proc.asks_pure _
  apply (asks_destNewer hnothing args fi dest).bind
  intro b
  split
  · exact Proc.asks_pure _
  apply (asks_linkFirst hnothing args.linkDest fun hld => confined_linkTo h (hdots hld)).bind
  intro b
  split
  · exact Proc.asks_pure _
  apply (asks_needsTransfer hnothing args fi dest).bind
  intro b
  split
  · exact confined_transfer h s i
  · exact Proc.asks_pure _

theorem confined_run
    (hfiles : ∀ fi ∈ args.flist.files, StaysBelow args fi) (s : Receiver) :
  Proc.Asks (Confined cwd args.destDir) (run dig F args s)
  := by
  have hinside : ∀ fi ∈ args.flist.files, Inside cwd args.destDir (args.destDir.join fi.path) :=
    fun fi hfi => inside_join cwd _ (hfiles fi hfi).relative (hfiles fi hfi).noParent
  have hnames : ∀ fi ∈ args.flist.files, mayRequest args fi = true ∨ (leaderOf args fi).isSome →
      Names cwd args.destDir (args.destDir.join fi.path) :=
    fun fi hfi h => names_join cwd _ (hfiles fi hfi).relative (hfiles fi hfi).noParent
      ((hfiles fi hfi).named h)
  apply (Proc.asks_forEach ?_ ()).bind
  · intro _
    apply (Proc.asks_forEach ?_ s).bind
    · intro s
      apply (Proc.asks_forEach ?_ ()).bind
      · intro _
        apply (Proc.asks_forEach ?_ ()).bind
        · exact fun _ => asks_goodbye args s
        · intro _ fi hfi
          unfold makeHardLink
          cases hleader : leaderOf args fi with
          | none => exact Proc.asks_pure _
          | some first =>
              have hname := hnames fi hfi (Or.inr (by rw [hleader]; rfl))
              have hdest {c : FsCall} (hc : c.changes = [args.destDir.join fi.path]) :
                  Confined cwd args.destDir c := confined_one hc (hinside fi hfi)
              apply (confined_createParent hname).bind
              intro _
              apply (asks_orIgnore (Proc.asks_host (hdest rfl))).bind
              intro _
              apply (Proc.asks_host (hdest rfl)).bind
              intro r
              cases r with
              | ok u => exact Proc.asks_pure _
              | error e => exact asks_orIgnore (Proc.asks_host (hdest rfl))
      · intro _ fi hfi
        have hdest {c : FsCall} (hc : c.changes = [args.destDir.join fi.path]) :
            Confined cwd args.destDir c := confined_one hc (hinside fi hfi)
        unfold makeSymlink
        split
        · apply (asks_orIgnore (Proc.asks_host (hdest rfl))).bind
          exact fun _ => asks_orIgnore (Proc.asks_host (hdest rfl))
        · exact Proc.asks_pure _
    · rintro s ⟨fi, i⟩ hentry
      have hfi := List.fst_mem_of_mem_zipIdx hentry
      unfold receiveFile
      split
      · next hmay =>
        apply confined_receiveRegular (hnames fi hfi (Or.inl hmay))
        intro hld
        rw [lastPart_join _ (hfiles fi hfi).relative]
        exact (hfiles fi hfi).linked hmay hld
      · exact Proc.asks_pure _
  · intro _ fi hfi
    unfold makeDir
    split
    · exact asks_orIgnore (Proc.asks_host (confined_one rfl (hinside fi hfi)))
    · exact Proc.asks_pure _

/-! ### Removal -/

/-- The directories of the host have names only. -/
def ListsNames {H : Type} (answer : H → (x : FsCall) → Option (FsReply x × H)) : Prop :=
  ∀ h p names h', answer h (.readDir p) = some (.ok names, h') → ∀ name ∈ names, IsName name

section Removal

variable {H : Type} {answer : H → (x : FsCall) → Option (FsReply x × H)} {closed : Bool}
  {root : FsPath}

theorem confined_removeEntry
    (dryRun : Bool) {path : FsPath} (h : Inside cwd root path) (info : Option Metadata) :
  Proc.Asks (Confined cwd root) (removeEntry dryRun path info)
  := by
  unfold removeEntry
  split
  · exact Proc.asks_pure _
  split
  · exact asks_orIgnore (Proc.asks_host (confined_one rfl h))
  · exact asks_orIgnore (Proc.asks_host (confined_one rfl h))

/-- The removal goes through directories inside of the one it starts in. -/
theorem confined_deleteWalk
    (hlists : ListsNames answer) (start : FsPath) (kept : List FsPath) (dryRun : Bool) (n : ℕ)
    {cur : FsPath} (hcur : Inside cwd root cur) (acc : Deleted) (w : Endpoint H UInt8) :
  Proc.Safe (Prog.Answers (Endpoint.answer answer closed))
    (fun _ c => ∀ x, c = .host x → Confined cwd root x) (deleteWalk start kept dryRun n cur acc)
    (fun _ _ => True) (fun _ _ => True) w
  := by
  induction n generalizing cur acc w with
  | zero => exact (Proc.asks_throw _).only w
  | succ n ih =>
      apply Proc.Safe.bind
      apply Proc.safe_host
      · rintro _ ⟨⟩
        exact confined_nil rfl
      intro r w' hr
      cases r with
      | error e => exact Proc.safe_pure trivial
      | ok names =>
          have hnames : ∀ name ∈ names, IsName name := by
            simp only [Prog.Answers, Endpoint.answer] at hr
            split at hr
            · next hanswer =>
              cases hr
              exact hlists _ _ _ _ hanswer
            · cases hr
          apply Proc.safe_forEach fun _ as _ => ∀ name ∈ as, IsName name
          · exact hnames
          · intro acc name as w has
            have hpath := hcur.join_name (has name List.mem_cons_self)
            have hrest : ∀ x ∈ as, IsName x := fun x hx => has x (List.mem_cons_of_mem name hx)
            unfold deleteEntry
            split
            · exact Proc.safe_pure hrest
            apply Proc.Safe.bind
            apply Proc.safe_host
            · rintro _ ⟨⟩
              exact confined_nil rfl
            intro info w _
            split
            · split
              · apply (ih hpath acc w).mono
                · exact fun _ _ _ => hrest
                · exact fun _ _ h => h
              · exact Proc.safe_pure hrest
            · apply Proc.Safe.bind
              apply ((confined_removeEntry dryRun hpath _).only w).mono
              · exact fun _ w _ => Proc.safe_pure hrest
              · exact fun _ _ h => h
          · exact fun _ _ _ => trivial

end Removal

/-! ### Confinement -/

/-- A receiver changes no files outside of its destination, when its entries stay below it. What it
removes before is inside as well, whatever the list has. -/
theorem changes_confined
    {H : Type} (answer : H → (x : FsCall) → Option (FsReply x × H)) (closed : Bool)
    (dig : Digests) (F : Flate) (cwd : Location) (args : ReceiverArgs) (w : Endpoint H UInt8)
    (hentries : ∀ fi ∈ args.flist.files, StaysBelow args fi) (hlists : ListsNames answer) :
  (∀ s c w', Prog.Issues (Prog.Answers (Endpoint.answer answer closed))
      (run dig F args s).run w (.host c) w' →
    Confined cwd args.destDir c) ∧
  ∀ flist dryRun stack c w', Prog.Issues (Prog.Answers (Endpoint.answer answer closed))
      (deleteExtraneousFromFlist flist args.destDir dryRun stack).run w (.host c) w' →
    Confined cwd args.destDir c
  := by
  constructor
  · intro s c w' hissues
    exact (confined_run hentries s).issues hissues
  · intro flist dryRun stack c w' hissues
    have hstart : Inside cwd args.destDir args.destDir := List.prefix_refl _
    have hsafe : Proc.Safe (Prog.Answers (Endpoint.answer answer closed)) _ _ _ _ w :=
      confined_deleteWalk hlists args.destDir (keptPaths flist) dryRun stack hstart {} w
    exact hsafe.issues hissues c rfl

/-- A host where every directory has one file. -/
def oneFileHost : Unit → (x : FsCall) → Option (FsReply x × Unit)
  | _, .readDir _ => some (.ok [bytesOf "x"], ())
  | _, .symlinkMetadata _ => some (.error "No such file or directory", ())
  | _, .createDirAll _ => some (.ok (), ())
  | _, .removeFile _ => some (.ok (), ())
  | _, _ => none

/-- A directory and a file in it. -/
def nestedArgs : ReceiverArgs :=
  { flist :=
      { files := [entryNamed (bytesOf "d") 0o040755,
                  { named (bytesOf "d/f") with mode := 0o100644 }] },
    destDir := bytesOf "dest", csumType := .md5, protocol := 31, checksumSeed := 0 }

theorem changes_confined_nested :
  (∀ s c w', Prog.Issues (Prog.Answers (Endpoint.answer oneFileHost true))
      (run digestsOfZeros StoredFlate.codec nestedArgs s).run
      { host := (), input := [], buffer := [], sent := [] } (.host c) w' →
    Confined [] nestedArgs.destDir c) ∧
  ∀ flist dryRun stack c w', Prog.Issues (Prog.Answers (Endpoint.answer oneFileHost true))
      (deleteExtraneousFromFlist flist nestedArgs.destDir dryRun stack).run
      { host := (), input := [], buffer := [], sent := [] } (.host c) w' →
    Confined [] nestedArgs.destDir c
  := by
  apply changes_confined
  · intro fi hfi
    rcases List.mem_cons.mp hfi with rfl | hfi
    · constructor
      · decide +kernel
      · decide +kernel
      · intro _
        decide +kernel
      · intro _ hld
        exact absurd rfl hld
    · rw [List.mem_singleton.mp hfi]
      constructor
      · decide +kernel
      · decide +kernel
      · intro _
        decide +kernel
      · intro _ hld
        exact absurd rfl hld
  · intro _ _ names _ hanswer name hname
    cases hanswer
    rw [List.mem_singleton.mp hname]
    constructor <;> decide +kernel

/-- A directory beside the destination. -/
def besideEntry : FileInfo :=
  { named (bytesOf "../x") with mode := 0o040755 }

theorem sendable_besideEntry :
  Sendable besideEntry
  where
  size := show IsI64 0 by decide
  modtime := show IsI64 0 by decide
  modNsec := Nat.zero_lt_succ _
  mode := by decide
  uid := Nat.zero_lt_succ _
  gid := Nat.zero_lt_succ _
  rdevMajor := Nat.zero_lt_succ _
  rdevMinor := Nat.zero_lt_succ _
  hardLinkFirstNdx := show IsI32 0 by decide
  path := by decide +kernel
  target := by decide +kernel
  kind := .inr (.inl (by decide +kernel))
  ascii := by decide +kernel
  split := by decide +kernel
  alone := by decide +kernel

/-- A directory at the start of the list is made first. -/
theorem issues_createDirAll
    {H : Type} {answer : H → (x : FsCall) → Option (FsReply x × H)} {closed : Bool}
    {s : Receiver} {fis : List FileInfo} (hfiles : args.flist.files = fi :: fis)
    (hdir : fi.isDir = true) (w : Endpoint H UInt8) :
  Prog.Issues (Prog.Answers (Endpoint.answer answer closed)) (run dig F args s).run w
    (.host (.createDirAll (args.destDir.join fi.path))) w
  := by
  unfold run
  rw [hfiles, Proc.forEach, makeDir, hdir, if_pos rfl]
  exact ⟨_, Relation.ReflTransGen.refl⟩

/-- A list with a parent component is received, and a directory is made beside the destination. -/
theorem not_changes_confined :
  ¬ ∀ (bytes : List UInt8) (flist : FileList),
    Proc.Reads oneFileHost (recvFileListEx 31 0 false false 0) bytes flist →
      ∀ args : ReceiverArgs, args.flist = flist → ∀ c w',
        Prog.Issues (Prog.Answers (Endpoint.answer oneFileHost true))
          (run digestsOfZeros StoredFlate.codec args {}).run
          { host := (), input := [], buffer := [], sent := [] } (.host c) w' →
        Confined [] args.destDir c
  := by
  intro h
  obtain ⟨received, hreceived, hrel, hfiles⟩ :
      ∃ received, Received oneFileHost 31 0 {} 0 [besideEntry] received ∧
        List.Forall₂ (AgreesFully 31 0 {}) [besideEntry] received ∧
        (sortReceived received).files = received := by
    apply received_sendable oneFileHost 0 (by decide)
    · intro fi hfi
      rw [List.mem_singleton.mp hfi]
      exact sendable_besideEntry
    · decide
    · exact forall_split_singleton (by decide +kernel)
    · decide +kernel
    · exact List.pairwise_singleton _ _
  obtain ⟨bytes, -, hreads⟩ : Proc.Carries oneFileHost
      (sendFileListEx { files := [besideEntry] } 31 0 0 {} 0 : Session FsReply Unit) ()
      (recvFileListEx 31 0 false false 0) (sortReceived received) :=
    carries_list rfl hreceived (by decide) (.inr (.inl (by decide)))
  obtain ⟨d, hd, hpath, hmode⟩ : ∃ d, received = [d] ∧ d.path = besideEntry.path ∧
      d.mode = besideEntry.mode := by
    cases hrel with
    | cons hagrees hnil =>
        cases hnil
        exact ⟨_, rfl, hagrees.path, hagrees.mode⟩
  rw [hd] at hfiles hreads
  have hdir : d.isDir = true := by
    rw [FileInfo.isDir, FileInfo.fileType, hmode]
    decide
  have hconfined := h bytes _ hreads { nestedArgs with flist := sortReceived [d] } rfl _ _
    (issues_createDirAll hfiles hdir _)
  have hinside : Inside [] (bytesOf "dest") (FsPath.join (bytesOf "dest") d.path) :=
    hconfined _ List.mem_cons_self
  rw [hpath] at hinside
  exact absurd hinside (by unfold FsPath.Inside; decide +kernel)

-- an absolute name, the temporary file of the directory itself, and a name without its extension
example :
  ¬ Inside [] (bytesOf "dest") (FsPath.join (bytesOf "dest") (bytesOf "/x")) ∧
  ¬ Inside [] (bytesOf "dest") (tmpPath nestedArgs (FsPath.join (bytesOf "dest") (bytesOf "."))) ∧
  ¬ Inside [] (bytesOf "dest")
    (FsPath.withExtension (FsPath.join (bytesOf "dest") (bytesOf "..x")) (bytesOf "__ldtmp__"))
  := by
  unfold Inside
  decide +kernel

end Receiver
