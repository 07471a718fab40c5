import RsyncRs.Fs.Failure
import RsyncRs.Local.Effects

/-!
# Copies that fail

When the copying of an entry fails, its destination leads to what it led to before if and only if
nothing that was done before had taken that away: the destination has not been removed or renamed,
no part of a copy has been written to it, and the temporary file is not on its way.
-/

namespace Local

open Disk

variable {closed : Bool} {d d' d₁ : Disk} {w : Endpoint Disk UInt8} {K : Disk → Prop}
  {opts : Options} {env : LocalEnv} {src dest rel first tmp : FsPath} {info : Metadata}
  {st : LocalState} {kind : FileKind}

/-! ### When a failure is harmless -/

/-- The path leads to the content. -/
def Holds (path : FsPath) (kind : FileKind) (d : Disk) : Prop :=
  d.contentOf path = some kind

/-- To remove the file `tmp` takes nothing from the way of the destination. -/
def Spares (dest tmp : FsPath) (d : Disk) : Prop :=
  Untaken d tmp ∨ ∀ l l', d.place dest = some l → d.lplace tmp = some l' → l' ∉ d.way dest l

/-- Where the destination is removed, the link is made. -/
def LinkSafe (first dest : FsPath) (d : Disk) : Prop :=
  ∀ d₁, parentMade d dest = some (.ok (), d₁) → Untaken d₁ dest ∨
    ∃ r d₂ d₃, d₁.answer (.removeFile dest) = some (r, d₂) ∧
      d₂.answer (.hardLink first dest) = some (.ok (), d₃)

/-- The target of the link is not read and the destination has its content; or the link is made; or
the destination has its content and is not removed. -/
def SymlinkSafe (src dest : FsPath) (kind : FileKind) (d : Disk) : Prop :=
  (∀ msg d₁, d.answer (.readLink src) = some (.error msg, d₁) → Holds dest kind d₁) ∧
    ∀ target d₁, d.answer (.readLink src) = some (.ok target, d₁) →
      (∃ r d₂ d₃, d₁.answer (.removeFile dest) = some (r, d₂) ∧
        d₂.answer (.symlink target dest) = some (.ok (), d₃)) ∨
      Holds dest kind d₁ ∧ Untaken d₁ dest

/-- The file cannot be copied to its temporary name, or not be renamed, which leaves `d'`. -/
def Stopped (src tmp dest : FsPath) (d d' : Disk) : Prop :=
  ∃ msg, d.answer (.copyFile src tmp) = some (.error msg, d') ∨
    ∃ d₁, d.answer (.copyFile src tmp) = some (.ok (), d₁) ∧
      d₁.answer (.rename tmp dest) = some (.error msg, d')

/-- Where the file is not copied, what has been written to its temporary name is not in the
destination, and the temporary file is not on the way there. -/
def RegularSafe (env : LocalEnv) (src dest : FsPath) (kind : FileKind) (d : Disk) : Prop :=
  (∀ msg d₁, parentMade d dest = some (.error msg, d₁) → Holds dest kind d₁) ∧
    ∀ d₁, parentMade d dest = some (.ok (), d₁) →
      ∀ d', Stopped src (tmpSibling env dest) dest d₁ d' →
        Holds dest kind d' ∧ Spares dest (tmpSibling env dest) d'

/-- Where the copy fails, the destination has its content. -/
def CopySafe (env : LocalEnv) (src dest : FsPath) (info : Metadata) (kind : FileKind) (d : Disk) :
    Prop :=
  if info.isSymlink then SymlinkSafe src dest kind d
  else if info.isFile then RegularSafe env src dest kind d
  else True

/-- The backup in the directory of backups is not written to the destination, unless the copy does
not fail. -/
def BackupCopySafe (env : LocalEnv) (opts : Options) (src dest : FsPath) (info : Metadata)
    (kind : FileKind) (d : Disk) : Prop :=
  (∀ msg d₁, parentMade d (backupPath opts dest) = some (.error msg, d₁) → Holds dest kind d₁) ∧
    ∀ d₁, parentMade d (backupPath opts dest) = some (.ok (), d₁) →
      (∀ msg d₂, d₁.answer (.copyFile dest (backupPath opts dest)) = some (.error msg, d₂) →
        Holds dest kind d₂) ∧
      ∀ d₂, d₁.answer (.copyFile dest (backupPath opts dest)) = some (.ok (), d₂) →
        CopySafe env src dest info kind d₂

/-- Where the destination has been renamed, the copy does not fail. -/
def BackupRenameSafe (env : LocalEnv) (opts : Options) (src dest : FsPath) (info : Metadata)
    (kind : FileKind) (d : Disk) : Prop :=
  (∀ msg d₁, d.answer (.rename dest (backupPath opts dest)) = some (.error msg, d₁) →
    Holds dest kind d₁) ∧
  ∀ d₁, d.answer (.rename dest (backupPath opts dest)) = some (.ok (), d₁) →
    CopySafe env src dest info kind d₁

/-- Where the transfer of an entry fails, the destination has its content. -/
def TransferSafe (env : LocalEnv) (opts : Options) (src dest : FsPath) (info : Metadata)
    (kind : FileKind) (d : Disk) : Prop :=
  if opts.backup = true ∧ ((d.place dest).bind d.inode?).isSome then
    match opts.backupDir with
    | some _ => BackupCopySafe env opts src dest info kind d
    | none =>
      if FsPath.components (backupPath opts dest) = FsPath.components dest then
        CopySafe env src dest info kind d
      else
        BackupRenameSafe env opts src dest info kind d
  else
    CopySafe env src dest info kind d

/-- The entry is skipped for what is at its destination. -/
def Skipped (opts : Options) (dest : FsPath) (info : Metadata) (d : Disk) : Prop :=
  (opts.checksum = false ∧ destMetaInSync (d.stat (d.lplace dest)).toOption info = true) ∨
    (opts.ignoreExisting = true ∧ ((d.place dest).bind d.inode?).isSome) ∨
    destNewer opts (d.stat (d.lplace dest)).toOption info = true

/-- Where the copying of an entry fails, the destination has its content: nothing is changed, or the
entry is linked to an earlier one and the link is made where the destination is removed, or it is
transferred. -/
def FailureSafe (closed : Bool) (env : LocalEnv) (opts : Options) (src dest rel : FsPath)
    (info : Metadata) (st : LocalState) (kind : FileKind) (w : Endpoint Disk UInt8) : Prop :=
  opts.dryRun = true ∨
    match (inodeKey opts info).bind fun key => st.links.lookup key with
    | some first => LinkSafe first dest w.host
    | none => Skipped opts dest info w.host ∨
      ∀ w₁, Proc.Returns answer closed (linkFromDest opts dest rel info) w false w₁ →
        TransferSafe env opts src dest info kind w₁.host

/-! ### Single calls -/

theorem Holds.keeps
    (h : Holds dest kind d) (hgrows : Grows d d') :
  Holds dest kind d'
  := by
  obtain ⟨l, hl, hkind⟩ := Option.bind_eq_some_iff.mp h
  have hlead : Leads d dest l := by
    refine ⟨hl, ?_⟩
    rw [Ne, ← kindAt_eq_none_iff, hkind]
    rintro ⟨⟩
  exact ((Holding.refl dest l d).grows hlead hgrows).keepsContent hlead kind h

theorem createParent_bind_iff
    {β : Type} {path : FsPath} {f : Unit → Session FsReply β} :
  Proc.FailsInto answer closed (createParent path >>= f) w K ↔
    (∀ msg d, parentMade w.host path = some (.error msg, d) → K d) ∧
      ∀ d, parentMade w.host path = some (.ok (), d) →
        Proc.FailsInto answer closed (f ()) { w with host := d } K
  := by
  have hnothing : Proc.FailsInto answer closed (pure () >>= f) w K ↔
      (∀ msg d, some ((.ok () : Except String Unit), w.host) = some (.error msg, d) → K d) ∧
        ∀ d, some ((.ok () : Except String Unit), w.host) = some (.ok (), d) →
          Proc.FailsInto answer closed (f ()) { w with host := d } K := by
    rw [pure_bind]
    constructor
    · intro h
      refine ⟨nofun, ?_⟩
      rintro d ⟨⟩
      exact h
    · intro h
      exact h.2 w.host rfl
  unfold createParent parentMade
  cases path.parent with
  | none => exact hnothing
  | some parent =>
      dsimp only
      split
      · exact hnothing
      · exact orFail_unit_bind_iff (q := Fs.createDirAll parent) (Proc.calls_host _ w)

/-- Where the destination is removed, it has no content any more. -/
theorem not_holds_removed
    {r : Except String Unit} (huntaken : ¬ Untaken d dest)
    (h : d.answer (.removeFile dest) = some (r, d')) :
  r = .ok () ∧ ∀ kind, ¬ Holds dest kind d'
  := by
  obtain ⟨l, inode, hl, hinode, hkind, hanswer⟩ := removed_of_not_untaken huntaken
  cases hanswer.symm.trans h
  refine ⟨rfl, fun kind hholds => ?_⟩
  cases (contentOf_removed hinode hkind hl).symm.trans hholds

/-- A temporary file may be removed when the destination has its content, and keeps it. -/
theorem orIgnore_removeFile_throw_iff
    {α : Type} {e : Error} :
  Proc.FailsInto answer closed
    (Fs.orIgnore (Fs.removeFile tmp) >>= fun _ => (throw e : Session FsReply α)) w
    (Holds dest kind) ↔ Holds dest kind w.host ∧ Spares dest tmp w.host
  := by
  rw [orIgnore_bind_iff (q := Fs.removeFile tmp) (Proc.calls_host _ w)]
  simp only [Proc.failsInto_throw_iff]
  by_cases huntaken : Untaken w.host tmp
  · constructor
    · intro h
      obtain ⟨r, d, hanswer⟩ := modify_total w.host (w.host.removeFile tmp)
      have hd : d = w.host.tick := huntaken.answer hanswer
      have hholds : Holds dest kind d := h r d hanswer
      rw [hd] at hholds
      exact ⟨hholds, Or.inl huntaken⟩
    · rintro ⟨hholds, -⟩ r d hanswer
      rw [huntaken.answer hanswer]
      exact hholds
  · obtain ⟨l, inode, hl, hinode, hkind, hanswer⟩ := removed_of_not_untaken huntaken
    have hcleared : Holds dest kind (w.host.unlink (· = l)).tick ↔
        Holds dest kind w.host ∧ ∀ l', w.host.place dest = some l' → l ∉ w.host.way dest l' :=
      contentOf_cleared_iff hinode hkind
    constructor
    · intro h
      obtain ⟨hholds, hway⟩ := hcleared.mp (h _ _ hanswer)
      refine ⟨hholds, Or.inr fun l₁ l₂ hl₁ hl₂ => ?_⟩
      cases hl.symm.trans hl₂
      exact hway l₁ hl₁
    · rintro ⟨hholds, hspares⟩ r d hanswer'
      cases hanswer.symm.trans hanswer'
      refine hcleared.mpr ⟨hholds, fun l' hl' => ?_⟩
      exact hspares.resolve_left huntaken l' l hl' hl

/-! ### Links -/

/-- What can be removed and cannot be replaced is lost. -/
theorem replace_iff
    {q : Session FsReply (Except String Unit)} {e : Disk → Option Disk}
    (h : ∀ d, Proc.Calls answer closed q { w with host := d } (d.modify (e d))) :
  Proc.FailsInto answer closed (Fs.orIgnore (Fs.removeFile dest) >>= fun _ => Fs.orFail q) w
      (Holds dest kind) ↔
    (∃ r d₁ d₂, w.host.answer (.removeFile dest) = some (r, d₁) ∧
      d₁.modify (e d₁) = some (.ok (), d₂)) ∨
    Holds dest kind w.host ∧ Untaken w.host dest
  := by
  rw [orIgnore_bind_iff (q := Fs.removeFile dest) (Proc.calls_host _ w)]
  obtain ⟨r, d₁, hremove⟩ := modify_total w.host (w.host.removeFile dest)
  have hanswer : w.host.answer (.removeFile dest) = some (r, d₁) := hremove
  have hlost : Holds dest kind d₁.tick ↔ Holds dest kind w.host ∧ Untaken w.host dest := by
    by_cases huntaken : Untaken w.host dest
    · rw [huntaken.answer hanswer, and_iff_left huntaken]
      rfl
    · constructor
      · exact fun hholds => absurd hholds ((not_holds_removed huntaken hanswer).2 kind)
      · exact fun hand => absurd hand.2 huntaken
  have hstep : Proc.FailsInto answer closed (Fs.orFail q) { w with host := d₁ } (Holds dest kind) ↔
      (∃ d₂, d₁.modify (e d₁) = some (.ok (), d₂)) ∨ Holds dest kind d₁.tick :=
    orFail_modify_iff (h d₁)
  rw [hlost] at hstep
  constructor
  · intro hfails
    rcases hstep.mp (hfails r d₁ hanswer) with ⟨d₂, hok⟩ | hand
    · exact Or.inl ⟨r, d₁, d₂, hanswer, hok⟩
    · exact Or.inr hand
  · intro hor r' d₁' hanswer'
    cases hanswer.symm.trans hanswer'
    apply hstep.mpr
    rcases hor with ⟨r', d₁', d₂, hanswer', hok⟩ | hand
    · cases hanswer.symm.trans hanswer'
      exact Or.inl ⟨d₂, hok⟩
    · exact Or.inr hand

theorem linkToFirst_iff
    (hdry : opts.dryRun = false) (hholds : Holds dest kind w.host) :
  Proc.FailsInto answer closed (linkToFirst opts first dest) w (Holds dest kind) ↔
    LinkSafe first dest w.host
  := by
  rw [linkToFirst, hdry, if_neg Bool.false_ne_true, createParent_bind_iff,
    and_iff_right fun msg d hmade => hholds.keeps (parentMade_grows hmade)]
  refine forall₂_congr fun d₁ hmade => ?_
  rw [replace_iff (q := Fs.hardLink first dest) (e := fun d => d.hardLink first dest)
    fun d => Proc.calls_host _ _, and_iff_right (hholds.keeps (parentMade_grows hmade))]
  exact or_comm

theorem copySymlink_iff :
  Proc.FailsInto answer closed (copySymlink src dest) w (Holds dest kind) ↔
    SymlinkSafe src dest kind w.host
  := by
  rw [copySymlink, orFail_bind_iff (q := Fs.readLink src) (Proc.calls_host _ _)]
  refine and_congr_right fun _ => forall₃_congr fun target d₁ _ => ?_
  exact replace_iff (q := Fs.symlink target dest) (e := fun d => d.symlink target dest)
    fun d => Proc.calls_host _ _

/-! ### Regular files -/

theorem copyRegular_iff :
  Proc.FailsInto answer closed (copyRegular env src dest) w (Holds dest kind) ↔
    RegularSafe env src dest kind w.host
  := by
  rw [copyRegular, createParent_bind_iff]
  refine and_congr_right fun _ => forall₂_congr fun d₁ _ => ?_
  rw [copyThrough, bind_assoc,
    Proc.Calls.bind_iff (p := Fs.copyFile src (tmpSibling env dest)) (Proc.calls_host _ _)]
  have hclean : ∀ d msg, Proc.FailsInto answer closed
      (Fs.orIgnore (Fs.removeFile (tmpSibling env dest)) >>= fun _ =>
        (throw (.io msg) : Session FsReply Unit)) { w with host := d } (Holds dest kind) ↔
      Holds dest kind d ∧ Spares dest (tmpSibling env dest) d :=
    fun d msg => orIgnore_removeFile_throw_iff
  constructor
  · rintro hfails d' ⟨msg, hcopy | ⟨d₂, hcopy, hrename⟩⟩
    · have hrest := hfails (.error msg) d' hcopy
      rw [pure_bind] at hrest
      exact (hclean d' msg).mp hrest
    · have hrest := (Proc.Calls.bind_iff (p := Fs.rename (tmpSibling env dest) dest)
        (Proc.calls_host _ _)).mp (hfails (.ok ()) d₂ hcopy)
      exact (hclean d' msg).mp (hrest (.error msg) d' hrename)
  · intro hsafe r d₂ hcopy
    cases r with
    | error msg =>
        rw [pure_bind]
        exact (hclean d₂ msg).mpr (hsafe d₂ ⟨msg, Or.inl hcopy⟩)
    | ok u =>
        dsimp only
        rw [Proc.Calls.bind_iff (p := Fs.rename (tmpSibling env dest) dest) (Proc.calls_host _ _)]
        intro r d₃ hrename
        cases r with
        | ok u => exact Proc.failsInto_pure () _ _
        | error msg => exact (hclean d₃ msg).mpr (hsafe d₃ ⟨msg, Or.inr ⟨d₂, hcopy, hrename⟩⟩)

/-! ### Entries -/

/-- What is done with an entry after the backup. -/
def copyOver (env : LocalEnv) (opts : Options) (src dest : FsPath) (info : Metadata)
    (st : LocalState) : Session FsReply LocalState :=
  if info.isSymlink then do
    copySymlink src dest
    pure (st.transferred dest)
  else if info.isFile then do
    copyRegular env src dest
    whenever opts.xattrs (Fs.orIgnore (Fs.copyXattrs src dest))
    applyFileMeta opts dest info
    pure ((st.countBytes info.len).transferred dest)
  else
    pure st

theorem transferEntry_eq
    (env : LocalEnv) (opts : Options) (src dest : FsPath) (info : Metadata) (st : LocalState) :
  transferEntry env opts src dest info st =
    (backup opts dest >>= fun _ => copyOver env opts src dest info st)
  := rfl

theorem stable_true :
  Stable fun _ => True
  := ⟨fun _ _ => trivial, fun _ _ _ => trivial, fun _ _ _ _ _ => trivial⟩

/-- What is asked of a procedure that is followed by one that does not fail. -/
theorem failsInto_then_iff
    {α β : Type} {p : Session FsReply α} {f : α → Session FsReply β} {Q : β → Disk → Prop}
    (hf : ∀ a, Moves (Watch.nothing UInt8 FsReply Error (Endpoint Disk UInt8)) closed
      (fun _ => True) (f a) Q K) :
  Proc.FailsInto answer closed (p >>= f) w K ↔ Proc.FailsInto answer closed p w K
  := by
  rw [Proc.failsInto_bind_iff]
  exact and_iff_left fun a w₁ _ => (hf a).failsInto trivial

theorem copyOver_iff :
  Proc.FailsInto answer closed (copyOver env opts src dest info st) w (Holds dest kind) ↔
    CopySafe env src dest info kind w.host
  := by
  unfold copyOver CopySafe
  split
  · refine (failsInto_then_iff (Q := fun _ _ => True) ?_).trans copySymlink_iff
    exact fun _ => Moves.pure fun _ _ => trivial
  split
  · refine (failsInto_then_iff (Q := fun _ _ => True) ?_).trans copyRegular_iff
    intro _
    apply (moves_whenever (Moves.orIgnore (Moves.copyXattrs stable_true))).bind
    intro _
    apply (moves_applyFileMeta stable_true opts dest info).bind
    intro _
    exact Moves.pure fun _ _ => trivial
  · exact iff_of_true (Proc.failsInto_pure _ _ _) trivial

/-- A question goes on with its answer. -/
theorem pathExists_bind_iff
    {β : Type} {path : FsPath} {f : Bool → Session FsReply β} :
  Proc.FailsInto answer closed (Fs.pathExists path >>= f) w K ↔
    Proc.FailsInto answer closed (f ((w.host.place path).bind w.host.inode?).isSome) w K
  := by
  rw [Proc.Calls.bind_iff (p := Fs.pathExists path) (Proc.calls_host _ w)]
  constructor
  · exact fun h => h _ w.host rfl
  · rintro h r d ⟨⟩
    exact h

theorem symlinkMetadata_bind_iff
    {β : Type} {path : FsPath} {f : Except String Metadata → Session FsReply β} :
  Proc.FailsInto answer closed (Fs.symlinkMetadata path >>= f) w K ↔
    Proc.FailsInto answer closed (f (w.host.stat (w.host.lplace path))) w K
  := by
  rw [Proc.Calls.bind_iff (p := Fs.symlinkMetadata path) (Proc.calls_host _ w)]
  constructor
  · exact fun h => h _ w.host rfl
  · rintro h r d ⟨⟩
    exact h

theorem transferEntry_iff :
  Proc.FailsInto answer closed (transferEntry env opts src dest info st) w (Holds dest kind) ↔
    TransferSafe env opts src dest info kind w.host
  := by
  rw [transferEntry_eq, backup, TransferSafe]
  by_cases hbackup : opts.backup = true
  · rw [if_pos hbackup, bind_assoc, pathExists_bind_iff]
    by_cases hexists : ((w.host.place dest).bind w.host.inode?).isSome = true
    · rw [if_pos hexists, if_pos ⟨hbackup, hexists⟩, backupFile]
      cases opts.backupDir with
      | some dir =>
          dsimp only
          rw [bind_assoc, createParent_bind_iff]
          refine and_congr_right fun _ => forall₂_congr fun d₁ _ => ?_
          rw [orFail_unit_bind_iff (q := Fs.copyFile dest (backupPath opts dest))
            (Proc.calls_host _ _)]
          exact and_congr_right fun _ => forall₂_congr fun d₂ _ => copyOver_iff
      | none =>
          dsimp only
          split
          · rw [pure_bind, copyOver_iff]
          · rw [orFail_unit_bind_iff (q := Fs.rename dest (backupPath opts dest))
              (Proc.calls_host _ _)]
            exact and_congr_right fun _ => forall₂_congr fun d₁ _ => copyOver_iff
    · rw [if_neg hexists, if_neg fun h => hexists h.2, pure_bind, copyOver_iff]
  · rw [if_neg hbackup, if_neg fun h => hbackup h.1, pure_bind, copyOver_iff]

/-! ### Directories to link to -/

theorem moves_linkFrom_any
    {m : Watch UInt8 FsReply Error (Endpoint Disk UInt8)} {ldPath : FsPath} :
  Moves m closed (fun _ => True) (linkFrom ldPath dest) (fun _ _ => True) K
  := by
  have hcleared : ∀ {α : Type} (a : α), Moves m closed (fun _ => True)
      (Fs.orIgnore (Fs.removeFile (linkTmp dest)) >>= fun _ => pure a) (fun _ _ => True) K := by
    intro α a
    apply (Moves.orIgnore (Moves.call fun _ _ _ _ _ => trivial)).bind
    exact fun _ => Moves.pure fun _ _ => trivial
  apply (moves_tryCreateParent stable_true dest).bind
  intro _
  apply (Moves.orIgnore (Moves.call fun _ _ _ _ _ => trivial)).bind
  intro _
  apply Moves.bind (Q := fun _ _ => True) (Moves.call fun _ _ _ _ _ => trivial)
  intro r
  cases r with
  | error msg => exact hcleared false
  | ok u =>
      apply Moves.bind (Q := fun _ _ => True) (Moves.call fun _ _ _ _ _ => trivial)
      intro r
      cases r with
      | ok u => exact Moves.pure fun _ _ => trivial
      | error msg => exact hcleared false

/-- To link to a file of another directory does not fail. -/
theorem moves_linkFromDest_any
    {m : Watch UInt8 FsReply Error (Endpoint Disk UInt8)} :
  Moves m closed (fun _ => True) (linkFromDest opts dest rel info) (fun _ _ => True) K
  := by
  unfold linkFromDest
  split
  · generalize opts.linkDest.map Str.bytes = lds
    induction lds with
    | nil => exact Moves.pure fun _ _ => trivial
    | cons ld lds ih =>
        apply Moves.bind (Q := fun _ _ => True) (Moves.call fun _ _ _ _ _ => trivial)
        intro r
        cases r with
        | error msg => exact ih
        | ok info' =>
            dsimp only
            split
            · split
              · exact Moves.pure fun _ _ => trivial
              · exact moves_linkFrom_any
            · exact ih
  · exact Moves.pure fun _ _ => trivial

theorem linkFromDest_bind_iff
    {β : Type} {f : Bool → Session FsReply β} :
  Proc.FailsInto answer closed (linkFromDest opts dest rel info >>= f) w K ↔
    ∀ b w₁, Proc.Returns answer closed (linkFromDest opts dest rel info) w b w₁ →
      Proc.FailsInto answer closed (f b) w₁ K
  := by
  rw [Proc.failsInto_bind_iff]
  exact and_iff_right (moves_linkFromDest_any.failsInto trivial)

/-! ### Whole entries -/

theorem existsAlready_bind_iff
    {β : Type} {f : Bool → Session FsReply β} :
  Proc.FailsInto answer closed (existsAlready opts dest >>= f) w K ↔
    Proc.FailsInto answer closed
      (f (opts.ignoreExisting && ((w.host.place dest).bind w.host.inode?).isSome)) w K
  := by
  unfold existsAlready
  cases opts.ignoreExisting with
  | true => exact pathExists_bind_iff
  | false => exact iff_of_eq (congrArg (Proc.FailsInto answer closed · w K) (pure_bind _ _))

theorem copyUnlinked_iff :
  Proc.FailsInto answer closed (copyUnlinked env opts src dest rel info st) w (Holds dest kind) ↔
    opts.dryRun = true ∨ Skipped opts dest info w.host ∨
      ∀ w₁, Proc.Returns answer closed (linkFromDest opts dest rel info) w false w₁ →
        TransferSafe env opts src dest info kind w₁.host
  := by
  have hpure : ∀ (st : LocalState) (w : Endpoint Disk UInt8),
      Proc.FailsInto answer closed (pure st : Session FsReply LocalState) w (Holds dest kind) :=
    fun st w => Proc.failsInto_pure st w _
  rw [copyUnlinked, symlinkMetadata_bind_iff]
  unfold Skipped
  split
  · next hsync =>
    rw [Bool.and_eq_true, Bool.not_eq_true'] at hsync
    exact iff_of_true (hpure _ _) (Or.inr (Or.inl (Or.inl hsync)))
  next hsync =>
  rw [Bool.and_eq_true, Bool.not_eq_true'] at hsync
  rw [existsAlready_bind_iff]
  split
  · next hexists =>
    rw [Bool.and_eq_true] at hexists
    exact iff_of_true (hpure _ _) (Or.inr (Or.inl (Or.inr (Or.inl hexists))))
  next hexists =>
  rw [Bool.and_eq_true] at hexists
  split
  · next hnewer => exact iff_of_true (hpure _ _) (Or.inr (Or.inl (Or.inr (Or.inr hnewer))))
  next hnewer =>
  rw [or_iff_right (not_or.mpr ⟨hsync, not_or.mpr ⟨hexists, hnewer⟩⟩), linkFromDest_bind_iff]
  constructor
  · intro h
    by_cases hdry : opts.dryRun = true
    · exact Or.inl hdry
    · right
      intro w₁ hreturns
      have hrest := h false w₁ hreturns
      rw [if_neg Bool.false_ne_true, if_neg hdry] at hrest
      exact transferEntry_iff.mp hrest
  · intro h b w₁ hreturns
    split
    · exact hpure _ _
    next hb =>
    split
    · exact hpure _ _
    next hdry =>
    cases Bool.eq_false_of_not_eq_true hb
    exact transferEntry_iff.mpr (h.resolve_left hdry w₁ hreturns)

theorem copyEntry_iff
    (hholds : Holds dest kind w.host) :
  Proc.FailsInto answer closed (copyEntry env opts src dest rel info st) w (Holds dest kind) ↔
    FailureSafe closed env opts src dest rel info st kind w
  := by
  unfold FailureSafe copyEntry
  cases hkey : inodeKey opts info with
  | none => exact copyUnlinked_iff
  | some key =>
      dsimp only
      rw [Option.bind_some]
      cases hfirst : st.links.lookup key with
      | none => exact copyUnlinked_iff
      | some first =>
          dsimp only
          rw [failsInto_then_iff (Q := fun _ _ => True) fun _ => Moves.pure fun _ _ => trivial]
          by_cases hdry : opts.dryRun = true
          · refine iff_of_true ?_ (Or.inl hdry)
            rw [linkToFirst, if_pos hdry]
            exact Proc.failsInto_pure _ _ _
          · rw [or_iff_right hdry, linkToFirst_iff (Bool.eq_false_of_not_eq_true hdry) hholds]

/-- There is nothing under the name. -/
def Vacant (d : Disk) (p : FsPath) : Prop :=
  ∀ l, d.lplace p = some l → d.inode? l = none

/-- What is copied to a name under which there was nothing is put in a place that is not on the way
of the destination. -/
theorem Vacant.copied
    {l : Location} {r : Except String Unit} (hvacant : Vacant d₁ tmp) (hlead : Leads d dest l)
    (hhold : Holding dest l d d₁) (hanswer : d₁.answer (.copyFile src tmp) = some (r, d')) :
  Holding dest l d d' ∧ ∀ l', d'.lplace tmp = some l' → l' ∉ d.way dest l
  := by
  have hpart : d₁.modifyPart (fun n => d₁.copyFile n src tmp) = some (r, d') := hanswer
  rcases modifyPart_cases hpart with ⟨n, d₂, hcopy, -, rfl⟩ | ⟨-, rfl⟩
  · obtain ⟨_, _, dst, _, _, -, -, hdst, -, -, hwrite⟩ := copyFile_cases hcopy
    obtain ⟨l₁, hl₁, hlast⟩ := FsPath.resolve_last (Option.isSome_of_eq_some hdst)
    have hnone : d₁.inode? l₁ = none := hvacant l₁ hl₁
    cases (place_of_lplace hnone hl₁).symm.trans hdst
    rcases writeAt_cases hwrite with ⟨-, inode, -, rfl⟩ | ⟨i, _, _, hroot, hi, -⟩ |
      ⟨-, _, _, hsome, -⟩
    · have hchanged := ChangedAt.create d₁ dst inode
      have hway := hhold.not_mem_way hlead hnone
      refine ⟨(hhold.changedAt hchanged hway).tick, fun l' hl' => ?_⟩
      have hsame : d₁.lplace tmp = some l' :=
        (hchanged.lplace_eq (not_mem_trail_of_lplace hnone hl₁)).symm.trans hl'
      cases hl₁.symm.trans hsame
      exact hway
    · cases (inode?_of_nodes hroot hi).symm.trans hnone
    · cases hsome.symm.trans hnone
  · exact ⟨hhold.tick, fun l' hl' => hhold.not_mem_way hlead (hvacant l' hl')⟩

theorem regularSafe_of_vacant
    (hvacant : ∀ d₁, parentMade d dest = some (.ok (), d₁) → Vacant d₁ (tmpSibling env dest))
    (hholds : Holds dest kind d) :
  RegularSafe env src dest kind d
  := by
  obtain ⟨l, hl, hkind⟩ := Option.bind_eq_some_iff.mp hholds
  have hlead : Leads d dest l := by
    refine ⟨hl, ?_⟩
    rw [Ne, ← kindAt_eq_none_iff, hkind]
    rintro ⟨⟩
  refine ⟨fun msg d₁ hmade => hholds.keeps (parentMade_grows hmade), fun d₁ hmade d' hstopped => ?_⟩
  have hhold₁ : Holding dest l d d₁ :=
    (Holding.refl dest l d).grows hlead (parentMade_grows hmade)
  have hstop : Holding dest l d d' ∧
      ∀ l', d'.lplace (tmpSibling env dest) = some l' → l' ∉ d.way dest l := by
    obtain ⟨msg, hcopy | ⟨d₂, hcopy, hrename⟩⟩ := hstopped
    · exact (hvacant d₁ hmade).copied hlead hhold₁ hcopy
    · rw [modify_error hrename]
      exact ((hvacant d₁ hmade).copied hlead hhold₁ hcopy).imp_left Holding.tick
  refine ⟨hstop.1.keepsContent hlead kind hholds, Or.inr fun l₁ l₂ hl₁ hl₂ => ?_⟩
  cases (hstop.1.place_eq hlead).symm.trans hl₁
  rw [hstop.1.way_eq]
  exact hstop.2 l₂ hl₂

/-- A regular file that is copied without a backup to a temporary name that is free: whatever fails,
the destination is left. -/
theorem copyEntry_keepsContent_regular
    (hkey : inodeKey opts info = none) (hbackup : opts.backup = false) (hld : opts.linkDest = [])
    (hlink : info.isSymlink = false) (hfile : info.isFile = true)
    (hvacant : ∀ d₁, parentMade w.host dest = some (.ok (), d₁) →
      Vacant d₁ (tmpSibling env dest))
    {e : Error} {w' : Endpoint Disk UInt8}
    (hfails : Proc.Fails answer closed (copyEntry env opts src dest rel info st) w e w') :
  KeepsContent dest w.host w'.host
  := by
  intro kind hholds
  apply (copyEntry_iff hholds).mpr ?_ e w' hfails
  rw [FailureSafe, hkey, Option.bind_none]
  refine Or.inr (Or.inr fun w₁ hreturns => ?_)
  have hnone : (linkFromDest opts dest rel info : Session FsReply Bool) = pure false := by
    rw [linkFromDest, if_pos hfile, hld]
    rfl
  rw [hnone] at hreturns
  rw [hreturns.pure_inv.2, TransferSafe, if_neg (by simp [hbackup]), CopySafe,
    if_neg (by simp [hlink]), if_pos hfile]
  exact regularSafe_of_vacant hvacant hholds

/-- The copying of the file ends in an error. -/
def fails (x : Except Error LocalState × Endpoint Disk UInt8) : Bool :=
  match x.1 with
  | .ok _ => false
  | .error _ => true

end Local
