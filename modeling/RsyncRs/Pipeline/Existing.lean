import RsyncRs.Fs.Temporary
import RsyncRs.Pipeline.Exchange

/-!
# Files that exist where a receiver works

With the option to ignore them, a receiver leaves the files alone that exist at the destination,
except where it makes symbolic links and hard links, and where one of its temporary names is taken.
-/

namespace Receiver

open Disk

variable {F : Flate} {dig : Digests} {closed : Bool} {S X : Set Location} {d d₀ : Disk}
  {args : ReceiverArgs} {fi : FileInfo} {dest ldPath : FsPath}

/-! ### Parts of a session -/

/-- The parts of a session that may change what is at a path of the destination. -/
inductive Part where
  | receiveRegular (args : ReceiverArgs) (s : Receiver) (i : ℕ) (fi : FileInfo) (dest : FsPath)
  | makeSymlink (args : ReceiverArgs) (fi : FileInfo)
  | makeHardLink (args : ReceiverArgs) (fi : FileInfo)

namespace Part

/-- What a part returns. -/
abbrev Result : Part → Type
  | receiveRegular .. => Receiver
  | makeSymlink .. | makeHardLink .. => Unit

/-- The procedure of a part. -/
abbrev proc (dig : Digests) (F : Flate) : (i : Part) → Session FsReply i.Result
  | receiveRegular args s i fi dest => Receiver.receiveRegular dig F args s i fi dest
  | makeSymlink args fi => Receiver.makeSymlink args () fi
  | makeHardLink args fi => Receiver.makeHardLink args () fi

end Part

/-- What is written to the path goes to a new file, and not to the one under the other name. -/
def WritesNew (d : Disk) (p : FsPath) : Prop :=
  ∀ l, d.MayName true p l → d.inode? l = none

/-- What is written to the path goes to no file that is at one of the places. -/
def WritesElse (d : Disk) (p : FsPath) (S : Set Location) : Prop :=
  ∀ l, d.MayName true p l → ∀ l' ∈ S, d.nodes l' ≠ d.nodes l

/-- A file may be written where none exists. -/
def MayWrite (S : Set Location) (args : ReceiverArgs) (dest : FsPath) (d : Disk) : Prop :=
  if args.inplace then
    WritesNew d dest ∧ (args.linkDest ≠ [] →
      ∀ l, d.MayName true dest l → ¬ d.MayName false (linkTmp dest) l)
  else
    Avoids d dest S ∧ Free d (tmpPath args dest) ∧
      (args.linkDest ≠ [] → Apart d (tmpPath args dest) (linkTmp dest))

/-- The part may be started when the files at the places `S` are to be kept. -/
def Part.Spares (S : Set Location) : Part → Disk → Prop
  | receiveRegular args _ _ _ dest, d =>
    args.ignoreExisting = true → Present d dest ∨
      MayWrite S args dest d ∧ (args.linkDest ≠ [] → Avoids d dest S ∧ Free d (linkTmp dest))
  | makeSymlink args fi, d =>
    fi.isSymlink = true → ∀ l, d.lplace (args.destDir.join fi.path) = some l → l ∉ S
  | makeHardLink args fi, d =>
    (leaderOf args fi).isSome → Avoids d (args.destDir.join fi.path) S ∧
      WritesElse d (args.destDir.join fi.path) S

/-- The parts are to be started where they spare the files at the places `S`. -/
abbrev spares (dig : Digests) (F : Flate) (S : Set Location) :
    Watch UInt8 FsReply Error (Endpoint Disk UInt8) where
  Index := Part
  Result := Part.Result
  step := Part.proc dig F
  cond i w := i.Spares S w.host

section

variable {m : Watch UInt8 FsReply Error (Endpoint Disk UInt8)}

theorem moves_createParent
    {J E : Disk → Prop} (hJ : Stable J) (path : FsPath) :
  Moves m closed J (createParent path) (fun _ => J) E
  := by
  unfold createParent
  split
  · exact Moves.orIgnore (Moves.createDirAll hJ)
  · exact Moves.pure fun _ hd => hd

/-! ### Links to other directories -/

theorem moves_linkTo
    (hfiles : Files S d₀) (hdest : Avoids d₀ dest S) (hfree : Free d₀ (linkTmp dest))
    (hX : ∀ l, d₀.MayName false (linkTmp dest) l → l ∈ X) {E : Disk → Prop} :
  Moves m closed (fun d => Added X d₀ d ∧ IsFileAt d ldPath) (linkTo ldPath dest)
    (fun b d => (b = true → Kept S d₀ d) ∧ (b = false → Added X d₀ d)) E
  := by
  apply (moves_createParent ((stable_added X d₀).and (stable_isFileAt ldPath)) dest).bind
  intro _
  apply (Moves.removeTmp_noLinkAt hfree ldPath).bind
  intro _
  apply (Moves.linkTmp hfree hX).bind
  intro r
  cases r with
  | error msg => exact Moves.pure fun d hd => ⟨nofun, fun _ => hd.1⟩
  | ok u =>
      apply Moves.bind
      · apply (Moves.renameTmp hfree hdest hfiles.ne_none).consequence
        · exact fun d hd => ⟨hd.1, hd.2 rfl⟩
        · exact fun _ _ hd => hd
        · exact fun _ hd => hd
      intro r
      cases r with
      | ok u => exact Moves.pure fun d hd => ⟨fun _ => hd.1 rfl, nofun⟩
      | error msg =>
          apply Moves.bind (Q := fun _ => Added X d₀)
          · apply (Moves.removeTmp hfree).consequence (fun d hd => hd.2 nofun) (fun _ _ hd => hd)
            exact fun _ hd => hd
          · intro _
            exact Moves.pure fun d hd => ⟨nofun, fun _ => hd⟩

theorem moves_linkFirst
    (hfiles : Files S d₀) (hdest : args.linkDest ≠ [] → Avoids d₀ dest S)
    (hfree : args.linkDest ≠ [] → Free d₀ (linkTmp dest))
    (hX : args.linkDest ≠ [] → ∀ l, d₀.MayName false (linkTmp dest) l → l ∈ X)
    {lds : List FsPath} (hlds : lds <:+ args.linkDest) {E : Disk → Prop} :
  Moves m closed (Added X d₀) (linkFirst args fi dest lds)
    (fun b d => (b = true → Kept S d₀ d) ∧ (b = false → Added X d₀ d)) E
  := by
  induction lds with
  | nil => exact Moves.pure fun d hd => ⟨nofun, fun _ => hd⟩
  | cons ld lds ih =>
      have hne : args.linkDest ≠ [] := by
        intro heq
        rw [heq] at hlds
        exact absurd (List.suffix_nil.mp hlds) (List.cons_ne_nil ld lds)
      have ih := ih ((List.suffix_cons ld lds).trans hlds)
      apply Moves.bind (Q := fun r d => Added X d₀ d ∧
        ∀ info, r = .ok info → info.isFile = true → IsFileAt d (linkDestPath args fi ld))
      · apply Moves.symlinkMetadata
        exact fun d hd => ⟨hd, fun info => isFileAt_of_stat⟩
      intro r
      cases r with
      | error msg => exact ih.consequence (fun d hd => hd.1) (fun _ _ hd => hd) fun _ hd => hd
      | ok info =>
          dsimp only
          split
          · next hmatch =>
            apply Moves.bind
            · apply (moves_linkTo hfiles (hdest hne) (hfree hne) (hX hne)).consequence
              · exact fun d hd => ⟨hd.1, hd.2 info rfl hmatch.1⟩
              · exact fun _ _ hd => hd
              · exact fun _ hd => hd
            intro b
            split
            · next hb => exact Moves.pure fun d hd => ⟨fun _ => hd.1 hb, nofun⟩
            · next hb =>
              apply ih.consequence (fun d hd => hd.2 (Bool.eq_false_of_not_eq_true hb))
              · exact fun _ _ hd => hd
              · exact fun _ hd => hd
          · exact ih.consequence (fun d hd => hd.1) (fun _ _ hd => hd) fun _ hd => hd

/-! ### Files that are written -/

/-- A file is written where none is, or put there. -/
theorem moves_writeContent
    (hfiles : Files S d₀) (hwrite : MayWrite S args dest d₀)
    (hX : ∀ l ∈ X, args.linkDest ≠ [] ∧ d₀.MayName false (linkTmp dest) l)
    (newData : List UInt8) :
  Moves m closed (Added X d₀) (writeContent args dest newData) (fun _ => Kept S d₀) (Kept S d₀)
  := by
  unfold writeContent
  unfold MayWrite at hwrite
  split
  · next hinplace =>
    rw [if_pos hinplace] at hwrite
    obtain ⟨hnew, hlink⟩ := hwrite
    -- what the path leads to was not there, and no old file has been linked to it
    have hplaced : ∀ {d d' l perm data}, Added X d₀ d → d.place dest = some l →
        d.writeAt l perm data = some d' → Added X d₀ d' := by
      intro d d' l perm data hd hl h
      have hmay : d₀.MayName true dest l := ⟨d, hd.grows, hl⟩
      exact hd.writeAt (hnew l hmay) (fun hmem => hlink (hX l hmem).1 l hmay (hX l hmem).2) h
    apply Moves.bind (Q := fun _ => Added X d₀)
    · apply Moves.orFail (R := fun _ => Added X d₀)
      · apply Moves.createFile
        · intro d d' hd hcreate
          obtain ⟨l, hl, h⟩ := createFile_cases hcreate
          exact (hplaced hd hl h).tick
        · exact fun d msg hd => hd.tick
      · exact fun _ _ hd => hd
      · exact fun _ _ hd => hd.kept S
    intro _
    apply Moves.orFail (R := fun _ => Added X d₀)
    · apply Moves.writeFile
      · intro d d' n r hd hwritten _
        obtain ⟨l, written, hl, -, -, h⟩ := writeFile_cases hwritten
        exact (hplaced hd hl h).tick
      · exact fun d msg hd => hd.tick
    · exact fun _ _ hd => hd.kept S
    · exact fun _ _ hd => hd.kept S
  · next hinplace =>
    rw [if_neg hinplace] at hwrite
    obtain ⟨hdest, hfree, hlink⟩ := hwrite
    have hapart : ∀ l, d₀.MayName false (tmpPath args dest) l → l ∉ X :=
      fun l hmay hmem => hlink (hX l hmem).1 l hmay (hX l hmem).2
    apply Moves.bind (Q := fun _ => Added X d₀)
    · apply (Moves.createTmp hfree hapart).orFail
      · exact fun _ _ hd => hd.1
      · exact fun _ _ hd => hd.1.kept S
    intro _
    apply Moves.bind (Q := fun _ d => Added X d₀ d ∧ NoDirAt d (tmpPath args dest))
    · apply (Moves.writeTmp hfree hapart newData).orFail
      · exact fun _ _ hd => ⟨hd.1, hd.2 rfl⟩
      · exact fun _ _ hd => hd.1.kept S
    intro _
    apply (Moves.renameTmp hfree hdest hfiles.ne_none).orFail
    · exact fun _ _ hd => hd.1 rfl
    · exact fun _ _ hd => (hd.2 nofun).kept S

theorem moves_install
    (hfiles : Files S d₀) (hwrite : MayWrite S args dest d₀)
    (hX : ∀ l ∈ X, args.linkDest ≠ [] ∧ d₀.MayName false (linkTmp dest) l)
    (newData : List UInt8) :
  Moves m closed (Added X d₀) (install args fi dest newData) (fun _ => Kept S d₀) (Kept S d₀)
  := by
  apply (moves_createParent (stable_added X d₀) dest).bind
  intro _
  apply Moves.bind (Q := fun _ => Added X d₀)
  · exact Moves.metadata fun _ hd => hd
  intro _
  apply (moves_writeContent hfiles hwrite hX newData).bind
  intro _
  apply Moves.bind (Q := fun _ => Kept S d₀)
  · apply (Moves.setPermissions (stable_kept S d₀)).orFail
    · exact fun _ _ hd => hd
    · exact fun _ _ hd => hd
  intro _
  apply (Moves.setTimes (stable_kept S d₀)).orFail
  · exact fun _ _ hd => hd
  · exact fun _ _ hd => hd

theorem moves_transfer
    (hfiles : Files S d₀) (hwrite : MayWrite S args dest d₀)
    (hX : ∀ l ∈ X, args.linkDest ≠ [] ∧ d₀.MayName false (linkTmp dest) l) (s : Receiver) (i : ℕ) :
  Moves m closed (Added X d₀) (transfer dig F args s i fi dest) (fun _ => Kept S d₀) (Kept S d₀)
  := by
  have hadded := stable_added X d₀
  apply (Moves.asks hadded (asks_requestFile args _ _ dest) fun _ hd => hd.kept S).bind
  rintro ⟨tx, basis⟩
  apply (Moves.asks hadded (asks_readReply args _ _) fun _ hd => hd.kept S).bind
  rintro ⟨reply, rx⟩
  apply (moves_install hfiles hwrite hX reply.newData).bind
  intro _
  exact Moves.pure fun _ hd => hd

end

/-! ### Parts that are watched -/

/-- A regular file leaves what exists at the destination alone. -/
theorem moves_receiveRegular
    {D : Disk} (hignore : args.ignoreExisting = true) (hfiles : Files S D) (s : Receiver) (i : ℕ) :
  Moves (spares dig F S) closed (Kept S D) (receiveRegular dig F args s i fi dest)
    (fun _ => Kept S D) (Kept S D)
  := by
  apply Moves.watched (φ := (Part.receiveRegular args s i fi dest).Spares S)
  · exact fun w h => h (Part.receiveRegular args s i fi dest) w (Prog.Visits.refl _ w)
  apply Moves.fixed
  rintro d₀ ⟨hkept, hcond⟩
  have hfiles₀ := hfiles.kept hkept
  let X : Set Location := { l | args.linkDest ≠ [] ∧ d₀.MayName false (linkTmp dest) l }
  apply Moves.bind (Q := fun b d => d = d₀ ∧ (b = false → ¬ Present d₀ dest))
  · rw [existsAlready, if_pos hignore]
    apply Moves.pathExists
    rintro d rfl
    refine ⟨rfl, fun hb hfound => ?_⟩
    cases hfound.symm.trans hb
  intro b
  split
  · exact Moves.pure fun d hd => hd.1 ▸ hkept
  next hb =>
  apply Moves.consequence (P := fun d => ¬ Present d₀ dest ∧ d = d₀) ?_
    (fun d hd => ⟨hd.2 (Bool.eq_false_of_not_eq_true hb), hd.1⟩) (fun _ _ hd => hd) fun _ hd => hd
  apply Moves.assuming
  intro hnew
  obtain ⟨hwrite, hlink⟩ := (hcond hignore).resolve_left hnew
  apply Moves.bind (Q := fun _ => (· = d₀))
  · unfold destNewer
    split
    · apply Moves.bind (Q := fun _ => (· = d₀))
      · exact Moves.pathExists fun _ hd => hd
      intro b
      split
      · apply Moves.bind (Q := fun _ => (· = d₀))
        · exact Moves.metadata fun _ hd => hd
        intro r
        cases r with
        | ok m => exact Moves.pure fun _ hd => hd
        | error msg => exact Moves.pure fun _ hd => hd
      · exact Moves.pure fun _ hd => hd
    · exact Moves.pure fun _ hd => hd
  intro b
  split
  · exact Moves.pure fun d hd => hd ▸ hkept
  apply Moves.bind
  · apply (moves_linkFirst hfiles₀ (fun h => (hlink h).1) (fun h => (hlink h).2) (X := X)
      (fun h _ h' => ⟨h, h'⟩) (List.suffix_refl args.linkDest)).consequence
    · exact fun d hd => hd ▸ Added.refl X d
    · exact fun _ _ hd => hd
    · exact fun _ hd => hkept.trans hd
  intro b
  split
  · next hb => exact Moves.pure fun d hd => hkept.trans (hd.1 hb)
  next hb =>
  apply Moves.bind (Q := fun _ => Added X d₀)
  · unfold needsTransfer
    split
    · exact Moves.pure fun d hd => hd.2 (Bool.eq_false_of_not_eq_true hb)
    · apply Moves.bind (Q := fun _ => Added X d₀)
      · exact Moves.metadata fun d hd => hd.2 (Bool.eq_false_of_not_eq_true hb)
      intro r
      cases r with
      | ok m => exact Moves.pure fun _ hd => hd
      | error msg => exact Moves.pure fun _ hd => hd
  intro b
  split
  · apply (moves_transfer hfiles₀ hwrite (fun _ hl => hl) s i).consequence
    · exact fun _ hd => hd
    · exact fun _ _ hd => hkept.trans hd
    · exact fun _ hd => hkept.trans hd
  · exact Moves.pure fun d hd => hkept.trans (hd.kept S)

/-- A symbolic link takes the place of no file that is to be kept. -/
theorem moves_makeSymlink_kept
    {D : Disk} :
  Moves (spares dig F S) closed (Kept S D) (makeSymlink args () fi) (fun _ => Kept S D) (Kept S D)
  := by
  apply Moves.watched (φ := (Part.makeSymlink args fi).Spares S)
  · exact fun w h => h (Part.makeSymlink args fi) w (Prog.Visits.refl _ w)
  apply Moves.fixed
  rintro d₀ ⟨hkept, hcond⟩
  unfold makeSymlink
  split
  · next hlink =>
    apply Moves.bind (Q := fun _ => Kept S D)
    · apply Moves.orIgnore
      apply Moves.removeFile
      · rintro d d' rfl hremove
        obtain ⟨l, inode, hl, -, -, rfl⟩ := removeFile_cases hremove
        exact hkept.unlink_place (hcond hlink l hl)
      · rintro d msg rfl
        exact hkept
    intro _
    apply Moves.orIgnore
    apply Moves.symlink
    · intro d d' hd hsymlink
      obtain ⟨l, inode, -, hnone, -, rfl⟩ := symlink_cases hsymlink
      exact hd.create hnone
    · exact fun d msg hd => hd
  · exact Moves.pure fun d hd => hd ▸ hkept

/-- What is written to the path goes to none of the files at the places now. -/
def LandsElse (S : Set Location) (p : FsPath) (d : Disk) : Prop :=
  ∀ l i, d.place p = some l → l ≠ [] → d.nodes l = some i → ∀ l' ∈ S, d.nodes l' ≠ some i

theorem landsElse_of_added
    {p : FsPath} (hfiles : Files S d₀) (hwrites : WritesElse d₀ p S) (h : Added ∅ d₀ d) :
  LandsElse S p d
  := by
  intro l i hl hroot hi l' hl' hi'
  have helse := hwrites l ⟨d, h.grows, hl⟩ l' hl'
  obtain ⟨inode, data, hinode, hkind⟩ := hfiles l' hl'
  have hroot' : l' ≠ [] := by
    rintro rfl
    cases hinode
    cases hkind
  obtain ⟨j, hj, -⟩ := nodes_of_inode? hroot' hinode
  cases (h.grows.nodes l' j hj).symm.trans hi'
  cases hold : d₀.nodes l with
  | some k =>
      cases (h.grows.nodes l k hold).symm.trans hi
      exact helse (hj.trans hold.symm)
  | none =>
      -- a new place has a new file, and the file of an old place is an old one
      rcases h.fresh l i (inode?_eq_none_iff.mpr ⟨hroot, hold⟩) hi with hnew | hmem
      · exact absurd (d₀.used l' i hj) (not_lt.mpr hnew)
      · exact hmem

/-- Where a file or a link is taken away, a path that named it leads to nothing. -/
theorem landsElse_unlink
    {p : FsPath} {l : Location} {inode : Inode} (hl : d.lplace p = some l)
    (hinode : d.inode? l = some inode) (hkind : inode.kind ≠ .dir) :
  LandsElse S p (d.unlink (· = l))
  := by
  have hroot : l ≠ [] := by
    rintro rfl
    rw [inode?, if_pos rfl] at hinode
    cases hinode
    exact hkind rfl
  have hgone : (d.unlink (· = l)).nodes l = none := if_pos (decide_eq_true rfl)
  have hleaf : (d.unlink (· = l)).shape l = .leaf :=
    shape_of_none (inode?_eq_none_iff.mpr ⟨hroot, hgone⟩)
  have hother : ∀ l', l' ≠ l → (d.unlink (· = l)).shape l' = d.shape l' := by
    intro l' hne
    have hne' : ¬ decide (l' = l) = true := by simpa using hne
    rw [shape, shape, inode?, inode?, unlink_nodes, if_neg hne']
    rfl
  intro l₁ i hl₁ _ hi
  cases FsPath.resolve_leaf hleaf hother hl hl₁
  cases hgone.symm.trans hi

/-- A hard link takes the place of no file that is to be kept, and nothing is written to one. -/
theorem moves_makeHardLink_kept
    {D : Disk} (hfiles : Files S D) :
  Moves (spares dig F S) closed (Kept S D) (makeHardLink args () fi) (fun _ => Kept S D) (Kept S D)
  := by
  apply Moves.watched (φ := (Part.makeHardLink args fi).Spares S)
  · exact fun w h => h (Part.makeHardLink args fi) w (Prog.Visits.refl _ w)
  apply Moves.fixed
  rintro d₀ ⟨hkept, hcond⟩
  have hfiles₀ := hfiles.kept hkept
  unfold makeHardLink
  cases hleader : leaderOf args fi with
  | none => exact Moves.pure fun d hd => hd ▸ hkept
  | some first =>
      obtain ⟨hdest, hwrites⟩ := hcond (by rw [hleader]; rfl)
      have hadded : ∀ d, d = d₀ → Added ∅ d₀ d := by
        rintro d rfl
        exact Added.refl ∅ d
      apply Moves.consequence (P := Added ∅ d₀) (Q := fun _ => Kept S d₀) (E := Kept S d₀) ?_
        hadded (fun _ _ hd => hkept.trans hd) fun _ hd => hkept.trans hd
      apply (moves_createParent (stable_added ∅ d₀) _).bind
      intro _
      apply Moves.bind (Q := fun _ d => Kept S d₀ d ∧ LandsElse S (args.destDir.join fi.path) d)
      · apply Moves.orIgnore
        apply Moves.removeFile
        · intro d d' hd hremove
          obtain ⟨l, inode, hl, hinode, hkind, rfl⟩ := removeFile_cases hremove
          have hkeeps : Kept S d₀ (d.unlink (· = l)) :=
            (hd.kept S).unlink_place fun hmem => hdest l hmem (hd.mayName hl)
          exact ⟨hkeeps, landsElse_unlink hl hinode hkind⟩
        · exact fun d msg hd => ⟨hd.kept S, landsElse_of_added hfiles₀ hwrites hd.tick⟩
      intro _
      apply Moves.bind (Q := fun r d => Kept S d₀ d ∧
        (r ≠ .ok () → LandsElse S (args.destDir.join fi.path) d))
      · apply Moves.hardLink
        · rintro d d' ⟨hd, -⟩ hlink
          obtain ⟨-, -, dst, i, hi, -, -, -, -, -, hnone, rfl⟩ := hardLink_cases hlink
          exact ⟨hd.link hnone hi, fun h => absurd rfl h⟩
        · exact fun d msg hd => ⟨hd.1, fun _ => hd.2⟩
      intro r
      cases r with
      | ok u => exact Moves.pure fun d hd => hd.1
      | error msg =>
          apply Moves.orIgnore
          apply Moves.copyFile
          · rintro d d' n r ⟨hd, hlands⟩ hcopy _
            obtain ⟨-, inode, dst, -, written, -, -, hdst, -, -, hwrite⟩ := copyFile_cases hcopy
            have hkeeps : Kept S d₀ d' :=
              hd.writeAt (fun i hroot hi => hlands (by rintro ⟨⟩) dst i hdst hroot hi) hwrite
            exact hkeeps
          · exact fun d msg hd => hd.1

/-! ### Runs -/

theorem moves_run
    {D : Disk} (hignore : args.ignoreExisting = true) (hfiles : Files S D) (s : Receiver) :
  Moves (spares dig F S) closed (Kept S D) (run dig F args s) (fun _ => Kept S D) (Kept S D)
  := by
  have hstable := stable_kept S D
  apply Moves.bind (Q := fun _ => Kept S D)
  · apply Moves.forEach (J := fun _ => Kept S D)
    intro _ fi
    unfold makeDir
    split
    · exact Moves.orIgnore (Moves.createDirAll hstable)
    · exact Moves.pure fun _ hd => hd
  intro _
  apply Moves.bind (Q := fun _ => Kept S D)
  · apply Moves.forEach (J := fun _ => Kept S D)
    rintro s ⟨fi, i⟩
    unfold receiveFile
    split
    · exact moves_receiveRegular hignore hfiles s i
    · exact Moves.pure fun _ hd => hd
  intro s
  apply Moves.bind (Q := fun _ => Kept S D)
  · apply Moves.forEach (J := fun _ => Kept S D)
    intro _ fi
    exact moves_makeSymlink_kept
  intro _
  apply Moves.bind (Q := fun _ => Kept S D)
  · apply Moves.forEach (J := fun _ => Kept S D)
    intro _ fi
    exact moves_makeHardLink_kept hfiles
  intro _
  exact Moves.asks hstable (asks_goodbye args s) fun _ hd => hd

end Receiver
