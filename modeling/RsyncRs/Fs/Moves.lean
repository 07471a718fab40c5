import RsyncRs.Fs.Kept
import RsyncRs.Program.Asks
import RsyncRs.Program.Triple

/-!
# Triples about file systems

What a procedure does to the file system of its host is put together from what its calls do.
-/

namespace Disk

variable {m : Watch UInt8 FsReply Error (Endpoint Disk UInt8)} {closed : Bool} {α β S A : Type}
  {P J E : Disk → Prop} {Q : α → Disk → Prop} {p q : FsPath}

/-- When the procedure, started where the file system satisfies `P`, comes to an end in a run that
meets the conditions of `m`, then `Q` holds of its result and the file system, or `E` of the file
system after an error. -/
def Moves (m : Watch UInt8 FsReply Error (Endpoint Disk UInt8)) (closed : Bool) (P : Disk → Prop)
    (p : Session FsReply α) (Q : α → Disk → Prop) (E : Disk → Prop) : Prop :=
  Proc.Triple m (Prog.Answers (Endpoint.answer Disk.answer closed)) (fun w => P w.host) p
    (fun a w => Q a w.host) (fun _ w => E w.host)

namespace Moves

theorem consequence
    {p : Session FsReply α} {P' E' : Disk → Prop} {Q' : α → Disk → Prop}
    (h : Moves m closed P p Q E) (hP : ∀ d, P' d → P d) (hQ : ∀ a d, Q a d → Q' a d)
    (hE : ∀ d, E d → E' d) :
  Moves m closed P' p Q' E'
  := Proc.Triple.consequence h (fun w => hP w.host) (fun a w => hQ a w.host) fun _ w => hE w.host

theorem and
    {p : Session FsReply α} {P' : Disk → Prop} {Q' : α → Disk → Prop}
    (h : Moves m closed P p Q E) (h' : Moves m closed P' p Q' E) :
  Moves m closed (fun d => P d ∧ P' d) p (fun a d => Q a d ∧ Q' a d) E
  := by
  intro w hw hmeets r w' hr
  have hpost := h w hw.1 hmeets r w' hr
  have hpost' := h' w hw.2 hmeets r w' hr
  cases r with
  | ok a => exact ⟨hpost, hpost'⟩
  | error e => exact hpost

theorem pure
    {a : α} (h : ∀ d, P d → Q a d) :
  Moves m closed P (Pure.pure a : Session FsReply α) Q E
  := Proc.Triple.pure fun w => h w.host

theorem throw
    {e : Error} (h : ∀ d, P d → E d) :
  Moves m closed P (MonadExcept.throw e : Session FsReply α) Q E
  := Proc.Triple.throw fun w => h w.host

theorem bind
    {p : Session FsReply α} {f : α → Session FsReply β} {R : β → Disk → Prop}
    (hp : Moves m closed P p Q E) (hf : ∀ a, Moves m closed (Q a) (f a) R E) :
  Moves m closed P (p >>= f) R E
  := Proc.Triple.bind hp hf

theorem forEach
    {f : S → A → Session FsReply S} {J : S → Disk → Prop}
    (h : ∀ s a, Moves m closed (J s) (f s a) J E) (s : S) (as : List A) :
  Moves m closed (J s) (Proc.forEach f s as) J E
  := Proc.Triple.forEach h s as

/-- A fact that does not change may be assumed. -/
theorem assuming
    {p : Session FsReply α} {φ : Prop} (h : φ → Moves m closed P p Q E) :
  Moves m closed (fun d => φ ∧ P d) p Q E
  := by
  intro w hw
  exact h hw.1 w hw.2

/-- What is known of the file system where the procedure starts. -/
theorem fixed
    {p : Session FsReply α}
    (h : ∀ d, P d → Moves m closed (· = d) p Q E) :
  Moves m closed P p Q E
  := by
  intro w hw
  exact h w.host hw w rfl

theorem impossible
    {p : Session FsReply α} (h : ∀ d, ¬ P d) :
  Moves m closed P p Q E
  := fun w hw => (h w.host hw).elim

/-- A procedure may rely on what the runs that meet the conditions have in common. -/
theorem watched
    {p : Session FsReply α} {φ : Disk → Prop}
    (hmeets : ∀ w, Proc.Meets m (Prog.Answers (Endpoint.answer Disk.answer closed)) p w → φ w.host)
    (h : Moves m closed (fun d => P d ∧ φ d) p Q E) :
  Moves m closed P p Q E
  := fun w hw hmeet => h w ⟨hw, hmeets w hmeet⟩ hmeet

theorem call
    {c : FsCall} {Q : FsReply c → Disk → Prop}
    (h : ∀ d r d', P d → d.answer c = some (r, d') → Q r d') :
  Moves m closed P (Proc.host c) Q E
  := by
  apply Proc.Triple.host
  intro w r w' hw hact
  simp only [Prog.Answers, Endpoint.answer] at hact
  split at hact
  · next r' d' hanswer =>
    cases hact
    exact h w.host r d' hw hanswer
  · cases hact

/-- What a call is answered on a known file system. -/
theorem answered
    {d : Disk} {c : FsCall} :
  Moves m closed (· = d) (Proc.host c) (fun r d' => d.answer c = some (r, d')) E
  := by
  apply call
  rintro d r d' rfl hanswer
  exact hanswer

theorem orFail
    {p : Session FsReply (Except String α)} {R : Except String α → Disk → Prop}
    (h : Moves m closed P p R E) (hok : ∀ a d, R (.ok a) d → Q a d)
    (hfail : ∀ msg d, R (.error msg) d → E d) :
  Moves m closed P (Fs.orFail p) Q E
  := by
  apply h.bind
  intro r
  cases r with
  | ok a => exact pure (hok a)
  | error msg => exact throw (hfail msg)

theorem orIgnore
    {p : Session FsReply (Except String α)} {Q : Disk → Prop}
    (h : Moves m closed P p (fun _ => Q) E) :
  Moves m closed P (Fs.orIgnore p) (fun _ => Q) E
  := by
  apply h.bind
  intro r
  exact pure fun _ hd => hd

/-! ### Questions -/

theorem pathExists
    {Q : Bool → Disk → Prop} (h : ∀ d, P d → Q ((d.place p).bind d.inode?).isSome d) :
  Moves m closed P (Fs.pathExists p) Q E
  := by
  apply call
  intro d r d' hd hanswer
  cases hanswer
  exact h d hd

theorem metadata
    {Q : Except String Metadata → Disk → Prop} (h : ∀ d, P d → Q (d.stat (d.place p)) d) :
  Moves m closed P (Fs.metadata p) Q E
  := by
  apply call
  intro d r d' hd hanswer
  cases hanswer
  exact h d hd

theorem symlinkMetadata
    {Q : Except String Metadata → Disk → Prop} (h : ∀ d, P d → Q (d.stat (d.lplace p)) d) :
  Moves m closed P (Fs.symlinkMetadata p) Q E
  := by
  apply call
  intro d r d' hd hanswer
  cases hanswer
  exact h d hd

/-! ### Calls that change something -/

theorem removeFile
    {Q : Except String Unit → Disk → Prop}
    (hok : ∀ d d', P d → d.removeFile p = some d' → Q (.ok ()) d'.tick)
    (hfail : ∀ d msg, P d → Q (.error msg) d.tick) :
  Moves m closed P (Fs.removeFile p) Q E
  := by
  apply call
  intro d r d' hd hanswer
  rcases modify_cases hanswer with ⟨d₁, hd₁, rfl, rfl⟩ | ⟨⟨msg, rfl⟩, rfl⟩
  · exact hok d d₁ hd hd₁
  · exact hfail d msg hd

theorem removeDir
    {Q : Except String Unit → Disk → Prop}
    (hok : ∀ d d', P d → d.removeDir p = some d' → Q (.ok ()) d'.tick)
    (hfail : ∀ d msg, P d → Q (.error msg) d.tick) :
  Moves m closed P (Fs.removeDir p) Q E
  := by
  apply call
  intro d r d' hd hanswer
  rcases modify_cases hanswer with ⟨d₁, hd₁, rfl, rfl⟩ | ⟨⟨msg, rfl⟩, rfl⟩
  · exact hok d d₁ hd hd₁
  · exact hfail d msg hd

theorem rename
    {Q : Except String Unit → Disk → Prop}
    (hok : ∀ d d', P d → d.rename p q = some d' → Q (.ok ()) d'.tick)
    (hfail : ∀ d msg, P d → Q (.error msg) d.tick) :
  Moves m closed P (Fs.rename p q) Q E
  := by
  apply call
  intro d r d' hd hanswer
  rcases modify_cases hanswer with ⟨d₁, hd₁, rfl, rfl⟩ | ⟨⟨msg, rfl⟩, rfl⟩
  · exact hok d d₁ hd hd₁
  · exact hfail d msg hd

theorem hardLink
    {Q : Except String Unit → Disk → Prop}
    (hok : ∀ d d', P d → d.hardLink p q = some d' → Q (.ok ()) d'.tick)
    (hfail : ∀ d msg, P d → Q (.error msg) d.tick) :
  Moves m closed P (Fs.hardLink p q) Q E
  := by
  apply call
  intro d r d' hd hanswer
  rcases modify_cases hanswer with ⟨d₁, hd₁, rfl, rfl⟩ | ⟨⟨msg, rfl⟩, rfl⟩
  · exact hok d d₁ hd hd₁
  · exact hfail d msg hd

theorem symlink
    {target : FsPath} {Q : Except String Unit → Disk → Prop}
    (hok : ∀ d d', P d → d.symlink target p = some d' → Q (.ok ()) d'.tick)
    (hfail : ∀ d msg, P d → Q (.error msg) d.tick) :
  Moves m closed P (Fs.symlink target p) Q E
  := by
  apply call
  intro d r d' hd hanswer
  rcases modify_cases hanswer with ⟨d₁, hd₁, rfl, rfl⟩ | ⟨⟨msg, rfl⟩, rfl⟩
  · exact hok d d₁ hd hd₁
  · exact hfail d msg hd

theorem createFile
    {Q : Except String Unit → Disk → Prop}
    (hok : ∀ d d', P d → d.createFile p = some d' → Q (.ok ()) d'.tick)
    (hfail : ∀ d msg, P d → Q (.error msg) d.tick) :
  Moves m closed P (Fs.createFile p) Q E
  := by
  apply call
  intro d r d' hd hanswer
  rcases modify_cases hanswer with ⟨d₁, hd₁, rfl, rfl⟩ | ⟨⟨msg, rfl⟩, rfl⟩
  · exact hok d d₁ hd hd₁
  · exact hfail d msg hd

/-- A copy that fails may have been made in part. -/
theorem copyFile
    {Q : Except String Unit → Disk → Prop}
    (hok : ∀ d d' n r, P d → d.copyFile n p q = some d' → (r = .ok () → n = none) → Q r d'.tick)
    (hfail : ∀ d msg, P d → Q (.error msg) d.tick) :
  Moves m closed P (Fs.copyFile p q) Q E
  := by
  apply call
  intro d r d' hd hanswer
  have hpart : d.modifyPart (fun n => d.copyFile n p q) = some (r, d') := hanswer
  rcases modifyPart_cases hpart with ⟨n, d₁, hd₁, hn, rfl⟩ | ⟨⟨msg, rfl⟩, rfl⟩
  · exact hok d d₁ n r hd hd₁ hn
  · exact hfail d msg hd

theorem writeFile
    {data : List UInt8} {Q : Except String Unit → Disk → Prop}
    (hok : ∀ d d' n r, P d → d.writeFile n p data = some d' → (r = .ok () → n = none) →
      Q r d'.tick)
    (hfail : ∀ d msg, P d → Q (.error msg) d.tick) :
  Moves m closed P (Fs.writeFile p data) Q E
  := by
  apply call
  intro d r d' hd hanswer
  have hpart : d.modifyPart (fun n => d.writeFile n p data) = some (r, d') := hanswer
  rcases modifyPart_cases hpart with ⟨n, d₁, hd₁, hn, rfl⟩ | ⟨⟨msg, rfl⟩, rfl⟩
  · exact hok d d₁ n r hd hd₁ hn
  · exact hfail d msg hd

end Moves

/-! ### What stays true -/

/-- What stays true when directories are made, when what is said of files is changed, and when
files are read. -/
structure Stable (J : Disk → Prop) : Prop where
  tick : ∀ d, J d → J d.tick
  dirs : ∀ d p, J d → J (d.createDirAll p).1
  edit : ∀ d i f, J d → (∀ inode : Inode, (f inode).kind = inode.kind) → J (d.edit i f)

theorem stable_kept
    (S : Set Location) (d₀ : Disk) :
  Stable (Kept S d₀)
  where
  tick _ h := h
  dirs d p h := h.trans (Kept.of_grows S (grows_createDirAll d p))
  edit _ _ _ h hf := h.edit hf

theorem stable_added
    (X : Set Location) (d₀ : Disk) :
  Stable (Added X d₀)
  where
  tick _ h := h.tick
  dirs _ p h := h.createDirAll p
  edit d i _ h hf := ⟨h.grows.trans (grows_edit d i hf), h.fresh⟩

theorem Stable.and
    {J' : Disk → Prop} (h : Stable J) (h' : Stable J') :
  Stable fun d => J d ∧ J' d
  where
  tick d hd := ⟨h.tick d hd.1, h'.tick d hd.2⟩
  dirs d p hd := ⟨h.dirs d p hd.1, h'.dirs d p hd.2⟩
  edit d i f hd hf := ⟨h.edit d i f hd.1 hf, h'.edit d i f hd.2 hf⟩

namespace Moves

theorem readFile
    (hJ : Stable J) :
  Moves m closed J (Fs.readFile p) (fun _ => J) E
  := by
  apply call
  intro d r d' hd hanswer
  rw [(attempt_cases hanswer).1]
  exact hJ.tick d hd

theorem readDir
    (hJ : Stable J) :
  Moves m closed J (Fs.readDir p) (fun _ => J) E
  := by
  apply call
  intro d r d' hd hanswer
  rw [(attempt_cases hanswer).1]
  exact hJ.tick d hd

theorem readLink
    (hJ : Stable J) :
  Moves m closed J (Fs.readLink p) (fun _ => J) E
  := by
  apply call
  intro d r d' hd hanswer
  rw [(attempt_cases hanswer).1]
  exact hJ.tick d hd

theorem createDirAll_of
    {Q : Disk → Prop} (hdirs : ∀ d, P d → Q (d.createDirAll p).1.tick)
    (hfail : ∀ d, P d → Q d.tick) :
  Moves m closed P (Fs.createDirAll p) (fun _ => Q) E
  := by
  apply call
  intro d r d' hd hanswer
  simp only [answer] at hanswer
  split at hanswer
  · cases hanswer
    exact hdirs d hd
  · cases hanswer
    exact hfail d hd

theorem createDirAll
    (hJ : Stable J) :
  Moves m closed J (Fs.createDirAll p) (fun _ => J) E
  := createDirAll_of (fun d hd => hJ.tick _ (hJ.dirs d p hd)) hJ.tick

/-- What is said of a file is changed. -/
theorem edits
    {c : FsCall} {l : Disk → Option Location} {f : Inode → Inode} (hJ : Stable J)
    (hf : ∀ inode, (f inode).kind = inode.kind)
    (hc : ∀ (d : Disk) r (d' : Disk), d.answer c = some (r, d') →
      d' = d.tick ∨ ∃ d₁, d.editAt (l d) f = some d₁ ∧ d' = d₁.tick) :
  Moves m closed J (Proc.host c) (fun _ => J) E
  := by
  apply call
  intro d r d' hd hanswer
  rcases hc d r d' hanswer with rfl | ⟨d₁, hd₁, rfl⟩
  · exact hJ.tick d hd
  · obtain ⟨i, rfl⟩ := editAt_cases hd₁
    exact hJ.tick _ (hJ.edit d i f hd hf)

theorem setPermissions
    {mode : ℕ} (hJ : Stable J) :
  Moves m closed J (Fs.setPermissions p mode) (fun _ => J) E
  := by
  apply edits hJ (l := fun d => d.place p)
    (f := fun inode => { inode with perm := Fin.ofNat 4096 mode }) fun _ => rfl
  intro d r d' hanswer
  rcases modify_cases hanswer with ⟨d₁, hd₁, -, rfl⟩ | ⟨-, rfl⟩
  · exact Or.inr ⟨d₁, hd₁, rfl⟩
  · exact Or.inl rfl

theorem setTimes
    {mtime : ℤ} (hJ : Stable J) :
  Moves m closed J (Fs.setTimes p mtime) (fun _ => J) E
  := by
  apply edits hJ (l := fun d => d.place p)
    (f := fun inode => { inode with mtime, mtimeNsec := 0 }) fun _ => rfl
  intro d r d' hanswer
  rcases modify_cases hanswer with ⟨d₁, hd₁, -, rfl⟩ | ⟨-, rfl⟩
  · exact Or.inr ⟨d₁, hd₁, rfl⟩
  · exact Or.inl rfl

theorem setLinkTimes
    {mtime : ℤ} {mtimeNsec : ℕ} (hJ : Stable J) :
  Moves m closed J (Fs.setLinkTimes p mtime mtimeNsec) (fun _ => J) E
  := by
  apply edits hJ (l := fun d => d.lplace p)
    (f := fun inode => { inode with mtime, mtimeNsec }) fun _ => rfl
  intro d r d' hanswer
  rcases modify_cases hanswer with ⟨d₁, hd₁, -, rfl⟩ | ⟨-, rfl⟩
  · exact Or.inr ⟨d₁, hd₁, rfl⟩
  · exact Or.inl rfl

theorem chown
    {uid gid : Option ℕ} (hJ : Stable J) :
  Moves m closed J (Fs.chown p uid gid) (fun _ => J) E
  := by
  apply edits hJ (l := fun d => d.lplace p)
    (f := fun inode => { inode with uid := uid.getD inode.uid, gid := gid.getD inode.gid })
    fun _ => rfl
  intro d r d' hanswer
  rcases modify_cases hanswer with ⟨d₁, hd₁, -, rfl⟩ | ⟨-, rfl⟩
  · exact Or.inr ⟨d₁, hd₁, rfl⟩
  · exact Or.inl rfl

theorem copyXattrs
    (hJ : Stable J) :
  Moves m closed J (Fs.copyXattrs p q) (fun _ => J) E
  := by
  apply call
  intro d r d' hd hanswer
  rcases modify_cases hanswer with ⟨d₁, hd₁, -, rfl⟩ | ⟨-, rfl⟩
  · cases hd₁
    exact hJ.tick d hd
  · exact hJ.tick d hd

/-- A call that only reads a file. -/
def OnlyReadsFile (c : FsCall) : Prop :=
  ∃ p, c = .readFile p

/-- A procedure that only reads files leaves them. -/
theorem asks
    {p : Session FsReply α} (hJ : Stable J) (hp : Proc.Asks OnlyReadsFile p) (hE : ∀ d, J d → E d) :
  Moves m closed J p (fun _ => J) E
  := by
  intro w hw _ r w' hr
  refine Prog.Safe.ends (Prog.Asks.safe (J := J) ?_ hp hw ?_) hr
  · rintro _ ⟨p, rfl⟩ d r d' hd hanswer
    rw [(attempt_cases hanswer).1]
    exact hJ.tick d hd
  · intro r w hw
    cases r with
    | ok a => exact hw
    | error e => exact hE w.host hw

end Moves

end Disk
