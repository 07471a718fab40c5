import RsyncRs.Fs.OnePlace

/-!
# Links and copies in the place of a file

What is under the name of a follower is taken away, and a link to its leader is put there, or a
copy of it when no link can be made. When neither can be made, what was taken away is lost.
-/

namespace Disk

variable {m : Watch UInt8 FsReply Error (Endpoint Disk UInt8)} {closed : Bool}
  {d d' d₀ d₁ d₂ : Disk} {l src : Location} {p q leader follower : FsPath} {E : Disk → Prop}

/-- What a path names itself, unless that is a directory. -/
def fileOf (d : Disk) (p : FsPath) : Option FileKind :=
  (d.lplace p).bind fun l => (d.kindAt l).filter (· ≠ .dir)

/-- Both paths name one file. -/
def LinkOf (d : Disk) (leader follower : FsPath) : Prop :=
  ∃ l l' i, d.lplace leader = some l ∧ d.lplace follower = some l' ∧ d.nodes l = some i ∧
    d.nodes l' = some i

/-- The follower names a regular file with the content of the one that the leader leads to. -/
def CopyOf (d : Disk) (leader follower : FsPath) : Prop :=
  ∃ l l' data, d.place leader = some l ∧ d.lplace follower = some l' ∧
    d.kindAt l = some (.file data) ∧ d.kindAt l' = some (.file data)

/-- The follower is a link to the leader or a copy of it. -/
def Follows (d : Disk) (leader follower : FsPath) : Prop :=
  LinkOf d leader follower ∨ CopyOf d leader follower

/-! ### What can be put in a place -/

/-- The leader can be linked to when what is at the place `l` has been taken away. -/
def Linkable (d : Disk) (leader : FsPath) (l : Location) : Prop :=
  l ∉ d.trail false leader ∧ ∃ src kind, d.lplace leader = some src ∧ src ≠ l ∧
    d.kindAt src = some kind ∧ kind ≠ .dir

/-- The leader can be copied when what is at the place `l` has been taken away, even if the call
fails after it has written as much as `cut` says. -/
def Copyable (d : Disk) (leader : FsPath) (l : Location) (cut : Option ℕ) : Prop :=
  l ∉ d.trail true leader ∧ ∃ src data, d.place leader = some src ∧ src ≠ l ∧
    d.kindAt src = some (.file data) ∧ ∀ n, cut = some n → data.length ≤ n

/-- The path names the place `l`, where nothing is or a file that can be removed. -/
structure Clearable (d : Disk) (follower : FsPath) (l : Location) : Prop where
  place : d.lplace follower = some l
  clear : d.inode? l = none ∨
    d.fileOf follower ≠ none ∧ d.fault d.calls = none ∧ l ∉ d.trail false follower

/-- A link or a copy can be put in the place `l` of the follower. -/
structure Replaceable (d : Disk) (leader follower : FsPath) (l : Location) : Prop
    extends Clearable d follower l where
  made : Linkable d leader l ∧ d.fault (d.calls + 1) = none ∨
    Copyable d leader l (d.fault (d.calls + 2))

/-- Nothing can be taken away, linked or copied. -/
structure Idle (d : Disk) (leader follower : FsPath) : Prop where
  remove : d.fileOf follower = none ∨ d.fault d.calls ≠ none
  link : d.hardLink leader follower = none ∨ d.fault (d.calls + 1) ≠ none
  copy : ∀ n, d.copyFile n leader follower = none

/-! ### What calls do where nothing is -/

theorem modify_failed
    {e : Option Disk} {msg : String} (h : d.modify e = some (.error msg, d')) :
  e = none ∨ d.fault d.calls ≠ none
  := by
  cases hfault : d.fault d.calls with
  | some n => exact Or.inr nofun
  | none =>
      left
      cases e with
      | none => rfl
      | some d₁ =>
          simp only [modify, hfault] at h
          cases h

theorem kindAt_ne_dir
    {kind : FileKind} (h : d.kindAt l = some kind) (hkind : kind ≠ .dir) :
  l ≠ [] ∧ ∃ i, d.nodes l = some i ∧ (d.inodes i).kind = kind
  := by
  have hroot : l ≠ [] := by
    rintro rfl
    cases h
    exact hkind rfl
  obtain ⟨inode, hinode, rfl⟩ := Option.map_eq_some_iff.mp h
  obtain ⟨i, hi, rfl⟩ := nodes_of_inode? hroot hinode
  exact ⟨hroot, i, hi, rfl⟩

theorem fileOf_eq_some
    {kind : FileKind} (h : d.fileOf p = some kind) :
  ∃ l, d.lplace p = some l ∧ d.kindAt l = some kind ∧ kind ≠ .dir
  := by
  obtain ⟨l, hl, h⟩ := Option.bind_eq_some_iff.mp h
  rw [Option.filter_eq_some_iff] at h
  exact ⟨l, hl, h.1, of_decide_eq_true h.2⟩

theorem removeFile_eq_none
    (h : d.fileOf p = none) :
  d.removeFile p = none
  := by
  cases hremove : d.removeFile p with
  | none => rfl
  | some d' =>
      obtain ⟨l, inode, hl, hinode, hkind, -⟩ := removeFile_cases hremove
      rw [fileOf, hl, Option.bind_some, kindAt, hinode, Option.map_some, Option.filter_some,
        if_pos (decide_eq_true hkind)] at h
      cases h

theorem removeFile_eq_some
    {kind : FileKind} (hl : d.lplace p = some l) (h : d.fileOf p = some kind) :
  d.removeFile p = some (d.unlink (· = l))
  := by
  obtain ⟨l', hl', hkind, hdir⟩ := fileOf_eq_some h
  cases hl.symm.trans hl'
  obtain ⟨inode, hinode, rfl⟩ := Option.map_eq_some_iff.mp hkind
  simp only [removeFile, hl, hinode, Option.bind_eq_bind, Option.bind_some, if_neg hdir]

theorem hardLink_isSome
    {kind : FileKind} (hsrc : d.lplace p = some src) (hkind : d.kindAt src = some kind)
    (hdir : kind ≠ .dir) (hl : d.lplace q = some l) (hnone : d.inode? l = none) :
  d.hardLink p q ≠ none
  := by
  obtain ⟨inode, hinode, rfl⟩ := Option.map_eq_some_iff.mp hkind
  obtain ⟨hroot, i, hi, -⟩ := kindAt_ne_dir hkind hdir
  simp only [hardLink, hsrc, hinode, hl, Option.bind_eq_bind, Option.bind_some]
  split
  · rw [if_pos ⟨hdir, hnone⟩]
    rintro ⟨⟩
  · next h =>
    cases hi.symm.trans h

theorem copyFile_create
    {data : List UInt8} (n : Option ℕ) (hsrc : d.place p = some src)
    (hkind : d.kindAt src = some (.file data)) (hl : d.place q = some l)
    (hnone : d.inode? l = none) :
  ∃ inode, inode.kind = .file (data.take (n.getD data.length)) ∧
    d.copyFile n p q = some (d.create l inode)
  := by
  obtain ⟨inode, hinode, hfile⟩ := Option.map_eq_some_iff.mp hkind
  obtain ⟨-, i, hi, -⟩ := kindAt_ne_dir hkind nofun
  have hne : d.nodes l ≠ d.nodes src := by
    rw [(inode?_eq_none_iff.mp hnone).2, hi]
    rintro ⟨⟩
  refine ⟨{ kind := .file (data.take (n.getD data.length)), perm := inode.perm, mtime := d.now.1,
            mtimeNsec := d.now.2 }, rfl, ?_⟩
  simp only [copyFile, hsrc, hinode, hl, hfile, Option.bind_eq_bind, Option.bind_some, if_neg hne,
    writeAt, hnone]
  rfl

theorem hardLink_tick
    (h : d.hardLink p q = none) :
  d.tick.hardLink p q = none
  := by
  cases hlink : d.tick.hardLink p q with
  | none => rfl
  | some d' =>
      obtain ⟨src, inode, dst, i, hi, hsrc, hinode, hdst, -, hdir, hnone, -⟩ := hardLink_cases hlink
      have hkind : d.kindAt src = some inode.kind := congrArg (Option.map Inode.kind) hinode
      exact absurd h (hardLink_isSome hsrc hkind hdir hdst hnone)

theorem writeAt_tick
    {perm : Option (Fin 4096)} {data : List UInt8} (h : d.writeAt l perm data = none) :
  d.tick.writeAt l perm data = none
  := by
  unfold writeAt at h ⊢
  have hinode : d.tick.inode? l = d.inode? l := rfl
  have hnodes : d.tick.nodes l = d.nodes l := rfl
  rw [hinode, hnodes]
  split at h
  · cases h
  · split at h
    · cases h
    · cases h
    · rfl

theorem copyFile_tick
    {n : Option ℕ} (h : d.copyFile n p q = none) :
  d.tick.copyFile n p q = none
  := by
  have hplace : ∀ p, d.tick.place p = d.place p := fun _ => rfl
  have hinode : ∀ l, d.tick.inode? l = d.inode? l := fun _ => rfl
  have hnodes : ∀ l, d.tick.nodes l = d.nodes l := fun _ => rfl
  simp only [copyFile, hplace, hinode, hnodes, Option.bind_eq_bind, Option.bind_eq_none_iff] at h ⊢
  intro src hsrc inode hinode dst hdst
  have hnone := h src hsrc inode hinode dst hdst
  split
  · next data hkind =>
    rw [hkind] at hnone
    exact writeAt_tick hnone
  · rfl

/-! ### One follower -/

/-- Put a link to the leader in the place of the follower, or a copy. -/
def substitute (leader follower : FsPath) : Session FsReply Unit := do
  Fs.orIgnore (Fs.removeFile follower)
  match ← Fs.hardLink leader follower with
  | .ok () => pure ()
  | .error _ => Fs.orIgnore (Fs.copyFile leader follower)

/-- The place of the follower has been cleared, with `k` calls. -/
structure Cleared (d₁ : Disk) (follower : FsPath) (l : Location) (k : ℕ) (d : Disk) : Prop where
  changed : ChangedAt l d₁ d
  empty : d.inode? l = none
  place : d.lplace follower = some l
  calls : d.calls = d₁.calls + k
  fault : d.fault = d₁.fault

theorem Cleared.tick
    {k : ℕ} (h : Cleared d₁ follower l k d) :
  Cleared d₁ follower l (k + 1) d.tick
  := ⟨h.changed.tick, h.empty, h.place, congrArg (· + 1) h.calls, h.fault⟩

/-- The follower has been replaced. -/
structure Replaced (d₁ : Disk) (leader follower : FsPath) (l : Location) (d : Disk) : Prop where
  changed : ChangedAt l d₁ d
  place : d.lplace follower = some l
  follows : Follows d leader follower

theorem Replaced.tick
    (h : Replaced d₁ leader follower l d) :
  Replaced d₁ leader follower l d.tick
  := ⟨h.changed.tick, h.place, h.follows⟩

/-- The place of a path is cleared. -/
theorem moves_removeFile
    (h : Clearable d₁ follower l) :
  Moves m closed (· = d₁) (Fs.removeFile follower) (fun _ => Cleared d₁ follower l 1) E
  := by
  apply Moves.call
  rintro d r d' rfl hanswer
  have hmodify : d.modify (d.removeFile follower) = some (r, d') := hanswer
  rcases h.clear with hnone | ⟨hfile, hfault, htrail⟩
  · have hremove : d.removeFile follower = none := by
      apply removeFile_eq_none
      rw [fileOf, h.place, Option.bind_some, kindAt_eq_none_iff.mpr hnone, Option.filter_none]
    rcases modify_cases hmodify with ⟨d₁, hd₁, -, -⟩ | ⟨-, rfl⟩
    · cases hremove.symm.trans hd₁
    · exact ⟨(ChangedAt.refl l d).tick, hnone, h.place, rfl, rfl⟩
  · obtain ⟨kind, hkind⟩ := Option.ne_none_iff_exists'.mp hfile
    have hremove := removeFile_eq_some h.place hkind
    simp only [hremove, modify, hfault] at hmodify
    cases hmodify
    obtain ⟨l', hl', hkind', hdir⟩ := fileOf_eq_some hkind
    cases h.place.symm.trans hl'
    have hroot := (kindAt_ne_dir hkind' hdir).1
    have hchanged := ChangedAt.unlink d l
    refine ⟨hchanged.tick, ?_, ?_, rfl, rfl⟩
    · exact inode?_eq_none_iff.mpr ⟨hroot, if_pos (decide_eq_true rfl)⟩
    · exact (hchanged.lplace_eq htrail).trans h.place

theorem Cleared.hardLink_isSome
    (hd : Cleared d₁ follower l 1 d) (h : Linkable d₁ leader l)
    (hfault : d₁.fault (d₁.calls + 1) = none) :
  d.hardLink leader follower ≠ none ∧ d.fault d.calls = none
  := by
  obtain ⟨htrail, src, kind, hsrc, hne, hkind, hdir⟩ := h
  have hsrc' : d.lplace leader = some src := (hd.changed.lplace_eq htrail).trans hsrc
  have hkind' : d.kindAt src = some kind := (hd.changed.kindAt_eq hne).trans hkind
  refine ⟨Disk.hardLink_isSome hsrc' hkind' hdir hd.place hd.empty, ?_⟩
  rw [hd.fault, hd.calls]
  exact hfault

/-- Where the leader can be linked to, it is. -/
theorem moves_hardLink
    (h : Replaceable d₁ leader follower l) :
  Moves m closed (Cleared d₁ follower l 1) (Fs.hardLink leader follower)
    (fun r d => (r = .ok () → Replaced d₁ leader follower l d) ∧
      (∀ msg, r = .error msg → Cleared d₁ follower l 2 d ∧
        Copyable d₁ leader l (d₁.fault (d₁.calls + 2)))) E
  := by
  apply Moves.call
  rintro d r d' hd hanswer
  have hmodify : d.modify (d.hardLink leader follower) = some (r, d') := hanswer
  rcases modify_cases hmodify with ⟨d₂, hlink, rfl, rfl⟩ | ⟨⟨msg, rfl⟩, rfl⟩
  · refine ⟨fun _ => Replaced.tick ?_, nofun⟩
    obtain ⟨src, inode, dst, i, hi, hsrc, hinode, hdst, hnode, hkind, hnone, rfl⟩ :=
      hardLink_cases hlink
    cases hd.place.symm.trans hdst
    have hchanged := ChangedAt.link d l i hi
    have hleader : (d.link l i hi).lplace leader = some src :=
      (hchanged.lplace_eq (not_mem_trail_of_lplace hnone hsrc)).trans hsrc
    have hfollower : (d.link l i hi).lplace follower = some l :=
      (hchanged.lplace_eq (not_mem_trail_of_lplace hnone hdst)).trans hdst
    have hne : src ≠ l := by
      rintro rfl
      cases hnone.symm.trans hinode
    refine ⟨hd.changed.trans hchanged, hfollower, Or.inl ⟨src, l, i, hleader, hfollower, ?_, ?_⟩⟩
    · exact (hchanged.nodes src hne).trans hnode
    · exact if_pos rfl
  · refine ⟨nofun, fun _ _ => ⟨hd.tick, ?_⟩⟩
    apply h.made.resolve_left
    rintro ⟨hlinkable, hfault⟩
    obtain ⟨hlink, hfault'⟩ := hd.hardLink_isSome hlinkable hfault
    exact (modify_failed hmodify).elim hlink fun hfail => hfail hfault'

/-- Where the leader can be copied to, it is. -/
theorem moves_copyFile
    (h : Copyable d₁ leader l (d₁.fault (d₁.calls + 2))) :
  Moves m closed (Cleared d₁ follower l 2) (Fs.copyFile leader follower)
    (fun _ => Replaced d₁ leader follower l) E
  := by
  apply Moves.call
  rintro d r d' hd hanswer
  have hpart : d.modifyPart (fun n => d.copyFile n leader follower) = some (r, d') := hanswer
  obtain ⟨htrail, src, data, hsrc, hne, hkind, hcut⟩ := h
  have hsrc' : d.place leader = some src := (hd.changed.place_eq htrail).trans hsrc
  have hkind' : d.kindAt src = some (.file data) := (hd.changed.kindAt_eq hne).trans hkind
  have hmade : ∃ inode, inode.kind = .file data ∧ d' = (d.create l inode).tick := by
    unfold modifyPart at hpart
    split at hpart
    · obtain ⟨inode, hinode, hcopy⟩ :=
        copyFile_create none hsrc' hkind' (place_of_lplace hd.empty hd.place) hd.empty
      simp only [hcopy] at hpart
      cases hpart
      rw [Option.getD_none, List.take_length] at hinode
      exact ⟨inode, hinode, rfl⟩
    · next n hn =>
      obtain ⟨inode, hinode, hcopy⟩ :=
        copyFile_create (some n) hsrc' hkind' (place_of_lplace hd.empty hd.place) hd.empty
      simp only [hcopy] at hpart
      cases hpart
      rw [hd.fault, hd.calls] at hn
      rw [Option.getD_some, List.take_of_length_le (hcut n hn)] at hinode
      exact ⟨inode, hinode, rfl⟩
  obtain ⟨inode, hinode, rfl⟩ := hmade
  apply Replaced.tick
  have hchanged := ChangedAt.create d l inode
  have hsome : d.inode? src ≠ none := by
    rw [Ne, ← kindAt_eq_none_iff, hkind']
    rintro ⟨⟩
  have hleader : (d.create l inode).place leader = some src :=
    (hchanged.place_eq (not_mem_trail_of_place hd.empty hsrc' hsome)).trans hsrc'
  have hfollower : (d.create l inode).lplace follower = some l :=
    (hchanged.lplace_eq (not_mem_trail_of_lplace hd.empty hd.place)).trans hd.place
  refine ⟨hd.changed.trans hchanged, hfollower,
    Or.inr ⟨src, l, data, hleader, hfollower, (hchanged.kindAt_eq hne).trans hkind', ?_⟩⟩
  have hnodes : (d.create l inode).nodes l = some d.next := if_pos rfl
  rw [kindAt_of_nodes (inode?_eq_none_iff.mp hd.empty).1 hnodes, create_inodes, if_pos rfl, hinode]

theorem moves_substitute
    (h : Replaceable d₁ leader follower l) :
  Moves m closed (· = d₁) (substitute leader follower)
    (fun _ => Replaced d₁ leader follower l) E
  := by
  apply (Moves.orIgnore (moves_removeFile h.toClearable)).bind
  intro _
  apply (moves_hardLink h).bind
  intro r
  cases r with
  | ok u => exact Moves.pure fun d hd => hd.1 rfl
  | error msg =>
      apply Moves.consequence (P := fun d => Copyable d₁ leader l (d₁.fault (d₁.calls + 2)) ∧
        Cleared d₁ follower l 2 d) ?_ (fun d hd => (hd.2 msg rfl).symm) (fun _ _ hd => hd)
        fun _ hd => hd
      apply Moves.assuming
      intro hcopy
      exact Moves.orIgnore (moves_copyFile hcopy)

/-- Where nothing can be done, nothing is done. -/
theorem moves_substitute_idle
    (h : Idle d₁ leader follower) :
  Moves m closed (· = d₁) (substitute leader follower) (fun _ d => d = d₁.tick.tick.tick) E
  := by
  apply Moves.bind (Q := fun _ d => d = d₁.tick)
  · apply Moves.orIgnore
    apply Moves.call
    rintro d r d' rfl hanswer
    have hmodify : d.modify (d.removeFile follower) = some (r, d') := hanswer
    rcases h.remove with hnone | hfault
    · rw [removeFile_eq_none hnone] at hmodify
      rcases modify_cases hmodify with ⟨_, h, -⟩ | ⟨-, rfl⟩
      · cases h
      · rfl
    · obtain ⟨n, hn⟩ := Option.ne_none_iff_exists'.mp hfault
      simp only [modify, hn] at hmodify
      cases hmodify
      rfl
  intro _
  apply Moves.bind (Q := fun r d => d = d₁.tick.tick ∧ r ≠ .ok ())
  · apply Moves.call
    rintro d r d' rfl hanswer
    have hmodify : d₁.tick.modify (d₁.tick.hardLink leader follower) = some (r, d') := hanswer
    rcases modify_cases hmodify with ⟨d₂, hlink, rfl, rfl⟩ | ⟨⟨msg, rfl⟩, rfl⟩
    · rcases h.link with hnone | hfault
      · cases (hardLink_tick hnone).symm.trans hlink
      · obtain ⟨n, hn⟩ := Option.ne_none_iff_exists'.mp hfault
        have hn' : d₁.tick.fault d₁.tick.calls = some n := hn
        simp only [modify, hn'] at hmodify
        cases hmodify
    · exact ⟨rfl, nofun⟩
  intro r
  cases r with
  | ok u => exact Moves.impossible fun d hd => hd.2 rfl
  | error msg =>
      apply Moves.orIgnore
      apply Moves.call
      rintro d r d' ⟨rfl, -⟩ hanswer
      have hpart : d₁.tick.tick.modifyPart
          (fun n => d₁.tick.tick.copyFile n leader follower) = some (r, d') := hanswer
      rcases modifyPart_cases hpart with ⟨n, d₂, hcopy, -⟩ | ⟨-, rfl⟩
      · cases (copyFile_tick (copyFile_tick (h.copy n))).symm.trans hcopy
      · rfl

end Disk
