import Mathlib.Data.List.Permutation
import RsyncRs.Flist.HardLinks
import RsyncRs.Flist.Listed
import RsyncRs.Flist.Sorted

/-!
# Groups of hard links on the wire

The files of a group that refer to its first one are sent without their metadata. The receiver
takes these from the first file, and the entries after them are read as if all had been sent.
-/

variable {X : Type} {Reply : X → Type} {H : Type}
  {answer : H → (x : X) → Option (Reply x × H)}

/-! ### What the receiver makes of a group -/

/-- The metadata that is copied from the first file of a group. -/
structure SameMetadata (first d : FileInfo) : Prop where
  modtime : d.modtime = first.modtime
  modNsec : d.modNsec = first.modNsec
  size : d.size = first.size
  mode : d.mode = first.mode
  uid : d.uid = first.uid
  gid : d.gid = first.gid
  linkTarget : d.linkTarget = first.linkTarget
  rdevMajor : d.rdevMajor = first.rdevMajor
  rdevMinor : d.rdevMinor = first.rdevMinor

/-- The groups of hard links of the list `sent` are those of the list `received`: each entry
refers to the first one of its group exactly when it is another one, such an entry has its own
path and the metadata of the first one, and every other entry is as it was sent. -/
structure GroupsKept (protocol checksumLen : ℕ) (preserve : Preserve)
    (sent received : List FileInfo) : Prop where
  length : received.length = sent.length
  leader : ∀ (i : ℕ) (d : FileInfo), received[i]? = some d →
    ∀ j : ℕ, d.hardLinkFirstNdx = j ↔ IsLeader sent j i
  alone : ∀ (i : ℕ) (d : FileInfo), received[i]? = some d → (∀ j, ¬ IsLeader sent j i) →
    d.hardLinkFirstNdx = -1
  follower : ∀ (i j : ℕ) (fi first d : FileInfo), IsLeader sent j i → sent[i]? = some fi →
    received[j]? = some first → received[i]? = some d → d.path = fi.path ∧ SameMetadata first d
  other : ∀ (i : ℕ) (fi d : FileInfo), (∀ j, ¬ IsLeader sent j i) → sent[i]? = some fi →
    received[i]? = some d → AgreesFully protocol checksumLen preserve fi d

section Received

variable {protocol checksumLen : ℕ} {preserve : Preserve} {compatFlags : ℕ}
  {sent received order : List FileInfo} {fi : FileInfo}

/-- What the receiver has of an entry of a list with groups of hard links. -/
structure LinkAgrees (protocol checksumLen : ℕ) (preserve : Preserve) (fi d : FileInfo) : Prop
    extends AgreesOwned preserve fi d where
  name : (d.dirname, d.name) = splitName fi.path
  link : d.hardLinkFirstNdx = listedLink protocol fi
  full : refers protocol fi = false → AgreesFully protocol checksumLen preserve fi d

/-- The entry `fi` refers to an entry among `sent` with the same owner and group. -/
def OwnersShared (protocol : ℕ) (sent : List FileInfo) (fi : FileInfo) : Prop :=
  refers protocol fi = true → ∃ first, sent[fi.hardLinkFirstNdx.toNat]? = some first ∧
    first.uid = fi.uid ∧ first.gid = fi.gid

theorem linkAgrees_receivedEntry
    {varintFlags : Bool}
    (hrel : List.Forall₂ (LinkAgrees protocol checksumLen preserve) sent received)
    (hok : EntryOk protocol preserve sent fi) (howners : OwnersShared protocol sent fi) :
  LinkAgrees protocol checksumLen preserve fi (receivedEntry protocol checksumLen
    (sentFlags protocol preserve varintFlags sent.getLast? fi) received fi)
  := by
  have howned : List.Forall₂ (AgreesOwned preserve) sent received :=
    hrel.imp fun _ _ h => h.toAgreesOwned
  have hagrees : Agrees preserve fi (receivedEntry protocol checksumLen
      (sentFlags protocol preserve varintFlags sent.getLast? fi) received fi) :=
    agrees_receivedEntry (howned.imp fun _ _ h => h.toAgrees) hok
  cases hr : refers protocol fi with
  | false =>
      have hfull : AgreesFully protocol checksumLen preserve fi (receivedEntry protocol
          checksumLen (sentFlags protocol preserve varintFlags sent.getLast? fi) received fi) :=
        agreesFully_receivedEntry howned hok hr
      refine ⟨hfull.agreesOwned, hfull.name, ?_, fun _ => hfull⟩
      rw [hfull.link, listedLink, hr]
      rfl
  | true =>
      obtain ⟨first, hfirst, huid, hgid⟩ := howners hr
      obtain ⟨hlt, hget⟩ := List.getElem?_eq_some_iff.mp hfirst
      have hlt' : fi.hardLinkFirstNdx.toNat < received.length := hrel.length_eq ▸ hlt
      have hshared := howned.get hlt hlt'
      have hentry : receivedEntry protocol checksumLen
          (sentFlags protocol preserve varintFlags sent.getLast? fi) received fi =
          { received[fi.hardLinkFirstNdx.toNat] with
            name := (splitName fi.path).2, dirname := (splitName fi.path).1, flags := flagHlinked,
            hardLinkFirstNdx := fi.hardLinkFirstNdx, dev := 0, ino := 0, checksum := none } := by
        rw [receivedEntry, hr, if_pos rfl, List.getD_eq_getElem _ _ hlt']
      constructor
      · refine ⟨hagrees, ?_, ?_⟩
        · intro hu
          rw [hentry]
          apply (hshared.uid hu).trans
          rw [← huid, ← hget]
          rfl
        · intro hg
          rw [hentry]
          apply (hshared.gid hg).trans
          rw [← hgid, ← hget]
          rfl
      · rw [hentry]
      · rw [hentry, listedLink, hr]
        rfl
      · intro hfalse
        rw [hr] at hfalse
        cases hfalse

/-- An entry that refers to another one is made of it. -/
def FollowersCopied (protocol : ℕ) (sent received : List FileInfo) : Prop :=
  ∀ (i : ℕ) (fi : FileInfo), sent[i]? = some fi → refers protocol fi = true →
    ∃ first d, received[fi.hardLinkFirstNdx.toNat]? = some first ∧ received[i]? = some d ∧
      SameMetadata first d

/-- The entries of a list with groups of hard links that is received as it was sent. -/
theorem linkAgrees_of_received
    (host : H) (hprotocol : 28 ≤ protocol) (htyped : ∀ fi ∈ order, fi.Typed)
    (hlen : checksumLen < 9223372036854775808)
    (howners : ∀ pre fi post, order = pre ++ fi :: post → OwnersShared protocol pre fi)
    (hreceived : Received answer protocol checksumLen preserve compatFlags order received)
    (hrel : List.Forall₂ (Agrees preserve) order received) :
  List.Forall₂ (LinkAgrees protocol checksumLen preserve) order received ∧
    FollowersCopied protocol order received
  := by
  apply hreceived.induction host htyped hlen (fun h => absurd hprotocol (not_le.mpr h)) hrel
  · exact ⟨List.Forall₂.nil, by simp [FollowersCopied]⟩
  · intro sent fi post received horder _ hok ⟨hrel, hcopied⟩
    constructor
    · apply List.rel_append hrel
      apply List.Forall₂.cons (linkAgrees_receivedEntry hrel hok (howners _ _ _ horder))
        List.Forall₂.nil
    · intro i fi' hi hr
      have hlength := hrel.length_eq
      by_cases hlt : i < sent.length
      · rw [List.getElem?_append_left hlt] at hi
        obtain ⟨first, d, hfirst, hd, hsame⟩ := hcopied i fi' hi hr
        have h₁ := (List.getElem?_eq_some_iff.mp hfirst).1
        have h₂ := (List.getElem?_eq_some_iff.mp hd).1
        exact ⟨first, d, by rw [List.getElem?_append_left h₁, hfirst],
          by rw [List.getElem?_append_left h₂, hd], hsame⟩
      · have hi' := (List.getElem?_eq_some_iff.mp hi).1
        rw [List.length_append, List.length_singleton] at hi'
        have heq : i = sent.length := by omega
        subst heq
        rw [List.getElem?_append_right (le_refl _), Nat.sub_self] at hi
        cases hi
        obtain ⟨-, first, hfirst, -⟩ := hok.link hr
        have hndx : fi.hardLinkFirstNdx.toNat < received.length := by
          rw [← hlength]
          apply (List.getElem?_eq_some_iff.mp hfirst).1
        refine ⟨received[fi.hardLinkFirstNdx.toNat], receivedEntry protocol checksumLen
          (sentFlags protocol preserve (hasFlag compatFlags cfVarintFlistFlags) sent.getLast? fi)
          received fi, ?_, ?_, ?_⟩
        · rw [List.getElem?_append_left hndx, List.getElem?_eq_getElem hndx]
        · rw [hlength, List.getElem?_append_right (le_refl _), Nat.sub_self]
          rfl
        · rw [receivedEntry, hr, if_pos rfl, List.getD_eq_getElem _ _ hndx]
          exact ⟨rfl, rfl, rfl, rfl, rfl, rfl, rfl, rfl, rfl⟩

end Received

/-! ### Marked lists -/

/-- An entry as it is before the marking. -/
structure Unmarked (fi : FileInfo) : Prop extends fi.Typed where
  /-- The name has been split at the last slash. -/
  split : (fi.dirname, fi.name) = splitName fi.path
  member : isHlinkMember fi = false
  leader : isHlinkLeader fi = false

/-- Entries with the same device and inode have the same metadata. -/
def InodesAgree (files : List FileInfo) : Prop :=
  ∀ a ∈ files, ∀ b ∈ files, a.dev = b.dev → a.ino = b.ino →
    a.size = b.size ∧ a.modtime = b.modtime ∧ a.mode = b.mode ∧ a.uid = b.uid ∧ a.gid = b.gid

theorem InodesAgree.modesAgree
    {files : List FileInfo} (h : InodesAgree files) :
  ModesAgree files
  := fun a ha b hb hdev hino => (h a ha b hb hdev hino).2.2.1

/-- The list may be sent: the names may follow one another, the numbers of a device are sent
when they are expected, and the lengths of targets and the places of leaders fit into a signed
32-bit integer. -/
structure CanBeSent (protocol : ℕ) (preserve : Preserve) (files : List FileInfo) : Prop where
  name : ∀ (i : ℕ) (fi : FileInfo), files[i]? = some fi → NameOk (files.take i).getLast? fi
  rdev : ∀ fi ∈ files, sendsRdev protocol preserve fi = expectsRdev protocol fi.mode
  target : ∀ fi ∈ files, fi.isSymlink = true → (targetOf fi).length < 2147483648
  leader : ∀ j i, IsLeader files j i → j < 2147483648

theorem refers_asFollower
    {protocol : ℕ} (hprotocol : 30 ≤ protocol) {fi : FileInfo} (h : isHlinkLeader fi = false)
    (leader : ℤ) :
  refers protocol (fi.asFollower leader) = true
  := by
  have hmember : isHlinkMember (fi.asFollower leader) = true := by
    unfold isHlinkMember hasFlag FileInfo.asFollower
    dsimp only
    rw [Nat.and_or_distrib_right, Nat.and_self]
    simp [flagHlinked]
  have hleader : isHlinkLeader (fi.asFollower leader) = isHlinkLeader fi := by
    unfold isHlinkLeader hasFlag FileInfo.asFollower
    dsimp only
    rw [Nat.and_or_distrib_right, show flagHlinked &&& flagHlinkFirst = 0 by decide, Nat.or_zero]
  rw [refers, hmember, hleader, h]
  simpa using hprotocol

theorem refers_asLeader
    (protocol : ℕ) (fi : FileInfo) :
  refers protocol fi.asLeader = false
  := by
  have hleader : isHlinkLeader fi.asLeader = true := by
    unfold isHlinkLeader hasFlag FileInfo.asLeader
    dsimp only
    rw [← Nat.or_assoc, Nat.and_or_distrib_right, Nat.and_self]
    simp [flagHlinkFirst]
  rw [refers, hleader, Bool.not_true, Bool.and_false]

theorem refers_unmarked
    (protocol : ℕ) {fi : FileInfo} (h : isHlinkMember fi = false) :
  refers protocol fi = false
  := by
  rw [refers, h, Bool.and_false, Bool.false_and]

/-- The entries differ at most in what the marking changes. -/
def MarkedFrom (fi m : FileInfo) : Prop :=
  ∃ flags link, (link = fi.hardLinkFirstNdx ∨ IsI32 link) ∧
    m = { fi with flags := flags, hardLinkFirstNdx := link }

namespace MarkedFrom

variable {fi m : FileInfo}

theorem path
    (h : MarkedFrom fi m) :
  m.path = fi.path
  := by
  obtain ⟨_, _, -, rfl⟩ := h
  rfl

theorem typed
    (h : MarkedFrom fi m) (hfi : fi.Typed) :
  m.Typed
  := by
  obtain ⟨_, link, hlink, rfl⟩ := h
  have h32 : IsI32 link := by
    rcases hlink with rfl | hlink
    · apply hfi.hardLinkFirstNdx
    · apply hlink
  exact ⟨hfi.size, hfi.modtime, hfi.modNsec, hfi.mode, hfi.uid, hfi.gid, hfi.rdevMajor,
    hfi.rdevMinor, h32, hfi.path, hfi.target⟩

theorem agreesFully
    {protocol checksumLen : ℕ} {preserve : Preserve} {d : FileInfo} (h : MarkedFrom fi m)
    (hd : AgreesFully protocol checksumLen preserve m d) :
  AgreesFully protocol checksumLen preserve fi d
  := by
  obtain ⟨_, _, -, rfl⟩ := h
  exact ⟨⟨hd.path, hd.size, hd.mode, hd.modtime⟩, hd.name, hd.uid, hd.gid, hd.modNsec, hd.target,
    hd.checksum, hd.link⟩

theorem prevName_eq
    {prev prev' : Option FileInfo} (h : Option.Rel MarkedFrom prev prev') :
  prevName prev' = prevName prev
  := by
  cases h with
  | none => rfl
  | some h => apply h.path

theorem nameOk_iff
    {prev prev' : Option FileInfo} (h : MarkedFrom fi m)
    (hprev : Option.Rel MarkedFrom prev prev') :
  NameOk prev' m ↔ NameOk prev fi
  := by
  have hp := prevName_eq hprev
  constructor
  · intro hok
    exact ⟨by rw [← h.path, ← hp]; exact hok.boundary, by rw [← h.path, ← hp]; exact hok.short,
      by rw [← h.path]; exact hok.slash⟩
  · intro hok
    exact ⟨by rw [h.path, hp]; exact hok.boundary, by rw [h.path, hp]; exact hok.short,
      by rw [h.path]; exact hok.slash⟩

end MarkedFrom

/-- A regular file is sent without the numbers of a device, and they are not expected. -/
theorem sendsRdev_eq_of_isRegular
    {fi : FileInfo} (h : fi.isRegular = true) (protocol : ℕ) (preserve : Preserve) :
  sendsRdev protocol preserve fi = expectsRdev protocol fi.mode
  := by
  have hordinary : fi.IsOrdinary := Or.inl h
  rw [hordinary.not_sendsRdev, hordinary.not_expectsRdev]

theorem isSymlink_of_isRegular
    {fi : FileInfo} (h : fi.isRegular = true) :
  fi.isSymlink = false
  := by
  unfold FileInfo.isRegular at h
  unfold FileInfo.isSymlink
  rw [decide_eq_true_eq] at h
  rw [h]
  rfl

/-- Before an entry of a list in the order of a split. -/
theorem forall_split_iff
    {α : Type} {P : List α → α → Prop} {l : List α} :
  (∀ pre a post, l = pre ++ a :: post → P pre a) ↔
    ∀ (i : ℕ) (a : α), l[i]? = some a → P (l.take i) a
  := by
  constructor
  · intro h i a hi
    obtain ⟨hlt, rfl⟩ := List.getElem?_eq_some_iff.mp hi
    apply h (l.take i) l[i] (l.drop (i + 1))
    rw [← List.drop_eq_getElem_cons hlt, List.take_append_drop]
  · rintro h pre a post rfl
    have hpre := h pre.length a (by simp)
    rwa [List.take_left] at hpre

section Marking

variable {files : List FileInfo} {groups : List ((ℕ × ℕ) × List ℕ)}

/-- Each entry is marked, or left, at its place. -/
theorem markedFrom_markedFiles
    (hgroups : IsLinkGroups files groups) (hmodes : ModesAgree (flistSort { files }).files) :
  List.Forall₂ MarkedFrom (flistSort { files }).files (markedFiles files groups)
  := by
  rw [List.forall₂_iff_get]
  refine ⟨(length_markedFiles hgroups).symm, ?_⟩
  intro i hi hi'
  rw [List.get_eq_getElem, List.get_eq_getElem]
  by_cases h : ∃ j, IsLeader (flistSort { files }).files j i
  · obtain ⟨j, hj⟩ := h
    rw [markedFiles_of_isLeader hgroups hmodes hj hi hi']
    exact ⟨_, _, Or.inr (isI32_wrapI32 _), rfl⟩
  · rcases markedFiles_of_not_isLeader hgroups hmodes (not_exists.mp h) hi hi' with h | h
    · rw [h]
      exact ⟨_, _, Or.inl rfl, rfl⟩
    · rw [h]
      exact ⟨_, _, Or.inl rfl, rfl⟩

/-- The marking keeps the order. -/
theorem pairwise_markedFiles
    (hgroups : IsLinkGroups files groups) (hmodes : ModesAgree (flistSort { files }).files) :
  (markedFiles files groups).Pairwise (fileLe · ·)
  := by
  have hsorted := pairwise_flistSort { files }
  have hrel := markedFrom_markedFiles hgroups hmodes
  rw [List.pairwise_iff_getElem] at hsorted ⊢
  intro i j hi hj hij
  have hlen := hrel.length_eq
  have hle := hsorted i j (by omega) (by omega) hij
  obtain ⟨_, _, -, hm₁⟩ := hrel.get (by omega) hi
  obtain ⟨_, _, -, hm₂⟩ := hrel.get (by omega) hj
  rw [List.get_eq_getElem, List.get_eq_getElem] at hm₁ hm₂
  rw [fileLe_iff] at hle ⊢
  rw [hm₁, hm₂]
  apply hle

variable {protocol checksumLen : ℕ} {preserve : Preserve}

theorem wrapI32_leader
    {j : ℕ} (hj : j < 2147483648) :
  wrapI32 (wrapI32 j) = j
  := by
  have h : IsI32 (j : ℤ) := by
    unfold IsI32
    omega
  rw [wrapI32_of_isI32 h, wrapI32_of_isI32 h]

/-- What the entry at a place is after the marking, and what the receiver takes it for. -/
theorem refers_markedFiles
    (hprotocol : 30 ≤ protocol) (hgroups : IsLinkGroups files groups)
    (hfiles : ∀ fi ∈ (flistSort { files }).files, Unmarked fi)
    (hmodes : ModesAgree (flistSort { files }).files) {i : ℕ} {m : FileInfo}
    (hm : (markedFiles files groups)[i]? = some m) :
  (∃ j, IsLeader (flistSort { files }).files j i ∧ refers protocol m = true ∧
      m.hardLinkFirstNdx = wrapI32 (wrapI32 j) ∧ m.isRegular = true) ∨
    (∀ j, ¬ IsLeader (flistSort { files }).files j i) ∧ refers protocol m = false
  := by
  obtain ⟨hi', rfl⟩ := List.getElem?_eq_some_iff.mp hm
  have hi : i < (flistSort { files }).files.length := by
    rw [← length_markedFiles hgroups]
    apply hi'
  have hunmarked := hfiles _ (List.getElem_mem hi)
  by_cases h : ∃ j, IsLeader (flistSort { files }).files j i
  · obtain ⟨j, hj⟩ := h
    left
    obtain ⟨k, hk, -⟩ := (linkedTo_iff hmodes (hj.before.trans hi) hi).mp hj.linked
    rw [markedFiles_of_isLeader hgroups hmodes hj hi hi']
    exact ⟨j, hj, refers_asFollower hprotocol hunmarked.leader _, rfl,
      ((linkKey_eq_some_iff _ _).mp hk).1⟩
  · right
    refine ⟨not_exists.mp h, ?_⟩
    rcases markedFiles_of_not_isLeader hgroups hmodes (not_exists.mp h) hi hi' with h | h
    · rw [h]
      apply refers_unmarked protocol hunmarked.member
    · rw [h]
      apply refers_asLeader

/-- The entry at the place of a leader. -/
theorem leader_markedFiles
    (hgroups : IsLinkGroups files groups) (hinodes : InodesAgree (flistSort { files }).files)
    {i j : ℕ} (hj : IsLeader (flistSort { files }).files j i) {m : FileInfo}
    (hm : (markedFiles files groups)[i]? = some m) :
  ∃ first, ((markedFiles files groups).take i)[j]? = some first ∧ first.size = m.size ∧
    first.mode = m.mode ∧ first.modtime = m.modtime ∧ first.uid = m.uid ∧ first.gid = m.gid
  := by
  have hrel := markedFrom_markedFiles hgroups hinodes.modesAgree
  obtain ⟨hi', rfl⟩ := List.getElem?_eq_some_iff.mp hm
  have hj' : j < (markedFiles files groups).length := hj.before.trans hi'
  obtain ⟨a, b, ha, hb, -, -, hdev, hino⟩ := hj.linked
  obtain ⟨hja, rfl⟩ := List.getElem?_eq_some_iff.mp ha
  obtain ⟨hib, rfl⟩ := List.getElem?_eq_some_iff.mp hb
  obtain ⟨hsize, htime, hmode, huid, hgid⟩ := hinodes _ (List.getElem_mem hja) _
    (List.getElem_mem hib) hdev hino
  obtain ⟨_, _, -, hfirst⟩ := hrel.get hja hj'
  obtain ⟨_, _, -, hm⟩ := hrel.get hib hi'
  rw [List.get_eq_getElem, List.get_eq_getElem] at hfirst hm
  refine ⟨(markedFiles files groups)[j], ?_, ?_⟩
  · rw [List.getElem?_take_of_lt hj.before, List.getElem?_eq_getElem hj']
  · rw [hfirst, hm]
    exact ⟨hsize, hmode, htime, huid, hgid⟩

theorem nameOk_markedFiles_iff
    (hgroups : IsLinkGroups files groups) (hmodes : ModesAgree (flistSort { files }).files) {i : ℕ}
    {fi m : FileInfo} (hfi : (flistSort { files }).files[i]? = some fi)
    (hm : (markedFiles files groups)[i]? = some m) :
  NameOk ((markedFiles files groups).take i).getLast? m ↔
    NameOk ((flistSort { files }).files.take i).getLast? fi
  := by
  have hrel := markedFrom_markedFiles hgroups hmodes
  obtain ⟨hi, rfl⟩ := List.getElem?_eq_some_iff.mp hfi
  obtain ⟨hi', rfl⟩ := List.getElem?_eq_some_iff.mp hm
  apply MarkedFrom.nameOk_iff (hrel.get hi hi')
  apply rel_getLast (List.forall₂_take i hrel)

/-- The entries of a marked list may be sent when the list may. -/
theorem entryOk_markedFiles
    (hprotocol : 30 ≤ protocol) (hgroups : IsLinkGroups files groups)
    (hfiles : ∀ fi ∈ (flistSort { files }).files, Unmarked fi)
    (hinodes : InodesAgree (flistSort { files }).files)
    (hsend : CanBeSent protocol preserve (flistSort { files }).files) {i : ℕ} {m : FileInfo}
    (hm : (markedFiles files groups)[i]? = some m) :
  EntryOk protocol preserve ((markedFiles files groups).take i) m
  := by
  have hlen := length_markedFiles hgroups
  obtain ⟨hi', hm'⟩ := List.getElem?_eq_some_iff.mp hm
  have hi : i < (flistSort { files }).files.length := hlen ▸ hi'
  have hfi := List.getElem?_eq_getElem hi
  have hmem := List.getElem_mem hi
  obtain ⟨_, _, -, hmarked⟩ := (markedFrom_markedFiles hgroups hinodes.modesAgree).get hi hi'
  rw [List.get_eq_getElem, List.get_eq_getElem, hm'] at hmarked
  constructor
  · rw [nameOk_markedFiles_iff hgroups hinodes.modesAgree hfi hm]
    apply hsend.name i _ hfi
  · intro _ _ hp
    omega
  · intro _
    rw [hmarked]
    apply hsend.rdev _ hmem
  · intro _ hsym
    rw [hmarked] at hsym ⊢
    apply hsend.target _ hmem hsym
  · intro hr
    rcases refers_markedFiles hprotocol hgroups hfiles hinodes.modesAgree hm with
      ⟨j, hj, -, hndx, -⟩ | ⟨-, hno⟩
    · obtain ⟨first, hfirst, hsize, hmode, htime, -, -⟩ := leader_markedFiles hgroups hinodes hj hm
      rw [wrapI32_leader (hsend.leader j i hj)] at hndx
      rw [hndx]
      refine ⟨Int.natCast_nonneg j, first, ?_, rfl, hsize, hmode, fun _ => htime⟩
      rw [Int.toNat_natCast, hfirst]
    · rw [hno] at hr
      cases hr

/-- A list may be sent when its entries may after the marking, and the places of the leaders are
numbers that the receiver can have. -/
theorem canBeSent_of_entryOk
    (hprotocol : 30 ≤ protocol) (hgroups : IsLinkGroups files groups)
    (hfiles : ∀ fi ∈ (flistSort { files }).files, Unmarked fi)
    (hmodes : ModesAgree (flistSort { files }).files)
    (hok : ∀ (i : ℕ) (m : FileInfo), (markedFiles files groups)[i]? = some m →
      EntryOk protocol preserve ((markedFiles files groups).take i) m)
    (hleader : ∀ j i, IsLeader (flistSort { files }).files j i → j < 2147483648) :
  CanBeSent protocol preserve (flistSort { files }).files
  := by
  have hlen := length_markedFiles hgroups
  -- an entry that refers to another one is regular
  have hentry : ∀ (i : ℕ) (hi : i < (flistSort { files }).files.length),
      NameOk ((flistSort { files }).files.take i).getLast? (flistSort { files }).files[i] ∧
      sendsRdev protocol preserve (flistSort { files }).files[i] =
        expectsRdev protocol (flistSort { files }).files[i].mode ∧
      ((flistSort { files }).files[i].isSymlink = true →
        (targetOf (flistSort { files }).files[i]).length < 2147483648) := by
    intro i hi
    have hi' : i < (markedFiles files groups).length := hlen ▸ hi
    have hm := List.getElem?_eq_getElem hi'
    have hentryOk := hok i _ hm
    refine ⟨(nameOk_markedFiles_iff hgroups hmodes (List.getElem?_eq_getElem hi) hm).mp
      hentryOk.name, ?_⟩
    obtain ⟨_, _, -, hmarked⟩ := (markedFrom_markedFiles hgroups hmodes).get hi hi'
    rw [List.get_eq_getElem, List.get_eq_getElem] at hmarked
    rcases refers_markedFiles hprotocol hgroups hfiles hmodes hm with
      ⟨j, -, -, -, hreg⟩ | ⟨-, hno⟩
    · rw [hmarked] at hreg
      have hreg' : (flistSort { files }).files[i].isRegular = true := hreg
      refine ⟨sendsRdev_eq_of_isRegular hreg' protocol preserve, ?_⟩
      rw [isSymlink_of_isRegular hreg']
      nofun
    · have hrdev := hentryOk.rdev hno
      have htarget := hentryOk.target hno
      rw [hmarked] at hrdev htarget
      exact ⟨hrdev, htarget⟩
  constructor
  · intro i fi hfi
    obtain ⟨hi, rfl⟩ := List.getElem?_eq_some_iff.mp hfi
    apply (hentry i hi).1
  · intro fi hfi
    obtain ⟨i, hi, rfl⟩ := List.getElem_of_mem hfi
    apply (hentry i hi).2.1
  · intro fi hfi
    obtain ⟨i, hi, rfl⟩ := List.getElem_of_mem hfi
    apply (hentry i hi).2.2
  · apply hleader

/-- The groups of a list are kept when the receiver has of each entry what it should. -/
theorem groupsKept_of_linkAgrees
    (hprotocol : 30 ≤ protocol) (hgroups : IsLinkGroups files groups)
    (hfiles : ∀ fi ∈ (flistSort { files }).files, Unmarked fi)
    (hmodes : ModesAgree (flistSort { files }).files)
    (hleader : ∀ j i, IsLeader (flistSort { files }).files j i → j < 2147483648)
    {received : List FileInfo}
    (hrel : List.Forall₂ (LinkAgrees protocol checksumLen preserve) (markedFiles files groups)
      received)
    (hcopied : FollowersCopied protocol (markedFiles files groups) received) :
  GroupsKept protocol checksumLen preserve (flistSort { files }).files received
  := by
  have hlen := length_markedFiles hgroups
  have hlen' := hrel.length_eq
  have hmarked := markedFrom_markedFiles hgroups hmodes
  -- the entry at a place on both sides
  have hentry : ∀ (i : ℕ) (d : FileInfo), received[i]? = some d →
      ∃ fi m, (flistSort { files }).files[i]? = some fi ∧
        (markedFiles files groups)[i]? = some m ∧ MarkedFrom fi m ∧
        LinkAgrees protocol checksumLen preserve m d := by
    intro i d hd
    obtain ⟨hi, rfl⟩ := List.getElem?_eq_some_iff.mp hd
    have hi' : i < (markedFiles files groups).length := hlen' ▸ hi
    have hi'' : i < (flistSort { files }).files.length := hlen ▸ hi'
    exact ⟨_, _, List.getElem?_eq_getElem hi'', List.getElem?_eq_getElem hi',
      hmarked.get hi'' hi', hrel.get hi' hi⟩
  constructor
  · rw [← hlen', hlen]
  · intro i d hd j
    obtain ⟨fi, m, -, hm, -, hagrees⟩ := hentry i d hd
    rw [hagrees.link, listedLink]
    rcases refers_markedFiles hprotocol hgroups hfiles hmodes hm with
      ⟨l, hl, hr, hndx, -⟩ | ⟨hno, hr⟩
    · rw [hr, if_pos rfl, hndx, wrapI32_leader (hleader l i hl), Int.ofNat_inj]
      constructor
      · rintro rfl
        apply hl
      · intro hj
        apply hl.unique hj
    · rw [hr, if_neg Bool.false_ne_true]
      constructor
      · intro h
        omega
      · intro hj
        exact absurd hj (hno j)
  · intro i d hd hno
    obtain ⟨fi, m, -, hm, -, hagrees⟩ := hentry i d hd
    rw [hagrees.link, listedLink]
    rcases refers_markedFiles hprotocol hgroups hfiles hmodes hm with ⟨l, hl, -⟩ | ⟨-, hr⟩
    · exact absurd hl (hno l)
    · rw [hr, if_neg Bool.false_ne_true]
  · intro i j fi first d hj hfi hfirst hd
    obtain ⟨fi', m, hfi', hm, hfrom, hagrees⟩ := hentry i d hd
    rw [hfi] at hfi'
    cases hfi'
    refine ⟨hagrees.path.trans hfrom.path, ?_⟩
    rcases refers_markedFiles hprotocol hgroups hfiles hmodes hm with
      ⟨l, hl, hr, hndx, -⟩ | ⟨hno, -⟩
    · obtain ⟨first', d', hfirst', hd', hsame⟩ := hcopied i m hm hr
      rw [hndx, wrapI32_leader (hleader l i hl), Int.toNat_natCast, hl.unique hj,
        hfirst] at hfirst'
      rw [hd] at hd'
      cases hfirst'
      cases hd'
      apply hsame
    · exact absurd hj (hno j)
  · intro i fi d hno hfi hd
    obtain ⟨fi', m, hfi', hm, hfrom, hagrees⟩ := hentry i d hd
    rw [hfi] at hfi'
    cases hfi'
    rcases refers_markedFiles hprotocol hgroups hfiles hmodes hm with ⟨l, hl, -⟩ | ⟨-, hr⟩
    · exact absurd hl (hno l)
    · apply hfrom.agreesFully (hagrees.full hr)

end Marking

/-! ### Lists whose groups survive -/

/-- The groups of hard links of the sorted list of `files` survive: the marked list is received,
each entry from its own bytes and with its own path, size, mode and times, and its groups are
kept. -/
def HardLinksSurvive (answer : H → (x : X) → Option (Reply x × H)) (protocol checksumLen : ℕ)
    (ioError : ℤ) (preserve : Preserve) (compatFlags : ℕ) (files : List FileInfo)
    (groups : List ((ℕ × ℕ) × List ℕ)) : Prop :=
  let flist := flistSort { files }
  let marked := markHardLinks groups flist true
  ∃ received, Received answer protocol checksumLen preserve compatFlags marked.files received ∧
    List.Forall₂ (Agrees preserve) marked.files received ∧
    Proc.Carries answer
      (sendFileListEx marked protocol checksumLen ioError preserve compatFlags :
        Session Reply Unit) ()
      (recvFileListEx protocol checksumLen preserve.uid preserve.gid compatFlags)
      (sortReceived received) ∧
    GroupsKept protocol checksumLen preserve flist.files (sortReceived received).files

/-- The receiver refers to entries by numbers of 32 bits. -/
theorem isI32_link_sortReceived
    {received : List FileInfo} (h : ∀ d ∈ received, IsI32 d.hardLinkFirstNdx) :
  ∀ d ∈ (sortReceived received).files, IsI32 d.hardLinkFirstNdx
  := by
  intro d hd
  obtain ⟨entry, hentry, rfl⟩ := List.mem_map.mp hd
  unfold remapHardLink
  split
  · apply isI32_wrapI32
  · apply h
    have hmem := List.mem_mergeSort.mp hentry
    apply List.fst_mem_of_mem_zipIdx hmem

section Survive

variable {protocol checksumLen : ℕ} {ioError : ℤ} {preserve : Preserve} {compatFlags : ℕ}
  {files : List FileInfo} {groups : List ((ℕ × ℕ) × List ℕ)}

theorem typed_markedFiles
    (hgroups : IsLinkGroups files groups) (hfiles : ∀ fi ∈ (flistSort { files }).files, Unmarked fi)
    (hmodes : ModesAgree (flistSort { files }).files) :
  ∀ m ∈ markedFiles files groups, m.Typed
  := by
  have hmarked := markedFrom_markedFiles hgroups hmodes
  intro m hm
  obtain ⟨i, hi', rfl⟩ := List.getElem_of_mem hm
  have hi : i < (flistSort { files }).files.length := hmarked.length_eq ▸ hi'
  apply (hmarked.get hi hi').typed
  apply (hfiles _ (List.getElem_mem hi)).toTyped

/-- A link that the receiver lists for an entry is a number of 32 bits. -/
theorem isI32_of_listedLink
    {order received : List FileInfo} (htyped : ∀ m ∈ order, m.Typed)
    (hrel : List.Forall₂ (fun m d => d.hardLinkFirstNdx = listedLink protocol m) order received) :
  ∀ d ∈ received, IsI32 d.hardLinkFirstNdx
  := by
  intro d hd
  obtain ⟨i, hi, rfl⟩ := List.getElem_of_mem hd
  have hi' : i < order.length := hrel.length_eq ▸ hi
  have hd := hrel.get hi' hi
  rw [List.get_eq_getElem, List.get_eq_getElem] at hd
  rw [hd, listedLink]
  split
  · apply (htyped _ (List.getElem_mem hi')).hardLinkFirstNdx
  · decide

/-- A list whose groups survive may be sent. -/
theorem canBeSent_of_hardLinksSurvive
    (host : H) (hprotocol : 30 ≤ protocol) (hlen : checksumLen < 9223372036854775808)
    (hgroups : IsLinkGroups files groups) (hfiles : ∀ fi ∈ (flistSort { files }).files, Unmarked fi)
    (hinodes : InodesAgree (flistSort { files }).files)
    (h : HardLinksSurvive answer protocol checksumLen ioError preserve compatFlags files groups) :
  CanBeSent protocol preserve (flistSort { files }).files
  := by
  have htyped := typed_markedFiles hgroups hfiles hinodes.modesAgree
  obtain ⟨received, hreceived, hrel, -, hkept⟩ := h
  have hlisted := listed_of_received host htyped hlen (fun h => by omega) hreceived hrel
  have h32 := isI32_of_listedLink htyped (hlisted.imp fun _ _ h => h.link)
  apply canBeSent_of_entryOk hprotocol hgroups hfiles hinodes.modesAgree
  · rw [← forall_split_iff]
    intro pre m post hsplit
    apply entryOk_of_received host htyped _ hreceived hrel hsplit
    intro _ _ _ _ _ h
    omega
  · intro j i hj
    have hi : i < (sortReceived received).files.length := by
      rw [hkept.length]
      obtain ⟨_, b, -, hb, -⟩ := hj.linked
      apply (List.getElem?_eq_some_iff.mp hb).1
    have hndx := (hkept.leader i _ (List.getElem?_eq_getElem hi) j).mpr hj
    have hlt := (isI32_link_sortReceived h32 _ (List.getElem_mem hi)).2
    omega

/-- The groups of a list that may be sent survive. -/
theorem hardLinksSurvive_of_canBeSent
    (host : H) (hprotocol : 30 ≤ protocol) (hio : IsI32 ioError)
    (hlen : checksumLen < 9223372036854775808) (hgroups : IsLinkGroups files groups)
    (hfiles : ∀ fi ∈ (flistSort { files }).files, Unmarked fi)
    (hinodes : InodesAgree (flistSort { files }).files)
    (hsend : CanBeSent protocol preserve (flistSort { files }).files) :
  HardLinksSurvive answer protocol checksumLen ioError preserve compatFlags files groups
  := by
  have hmarked := markedFrom_markedFiles hgroups hinodes.modesAgree
  have htyped := typed_markedFiles hgroups hfiles hinodes.modesAgree
  have hok : ∀ pre m post, markedFiles files groups = pre ++ m :: post →
      EntryOk protocol preserve pre m := by
    rw [forall_split_iff]
    intro i m hm
    apply entryOk_markedFiles hprotocol hgroups hfiles hinodes hsend hm
  have howners : ∀ pre m post, markedFiles files groups = pre ++ m :: post →
      OwnersShared protocol pre m := by
    rw [forall_split_iff]
    intro i m hm hr
    rcases refers_markedFiles hprotocol hgroups hfiles hinodes.modesAgree hm with
      ⟨j, hj, -, hndx, -⟩ | ⟨-, hno⟩
    · obtain ⟨first, hfirst, -, -, -, huid, hgid⟩ := leader_markedFiles hgroups hinodes hj hm
      refine ⟨first, ?_, huid, hgid⟩
      rw [hndx, wrapI32_leader (hsend.leader j i hj), Int.toNat_natCast, hfirst]
    · rw [hno] at hr
      cases hr
  have hreceives : ∃ received, Received answer protocol checksumLen preserve compatFlags
      (markedFiles files groups) received ∧
        List.Forall₂ (Agrees preserve) (markedFiles files groups) received := by
    apply received_of_ok (fun _ _ h => h)
    · intro pre pre' fi post hsplit hrel
      apply agrees_receivedEntry hrel (hok pre fi post hsplit)
    · apply htyped
    · apply hok
    · intro _ _ _ _ _ h
      omega
    · apply hlen
  obtain ⟨received, hreceived, hrel⟩ := hreceives
  obtain ⟨hagrees, hcopied⟩ := linkAgrees_of_received host (by omega) htyped hlen howners
    hreceived hrel
  have horder : sendOrder (markHardLinks groups (flistSort { files }) true) =
      .ok (markedFiles files groups) := by
    apply sendOrder_of_sorted
    rw [markHardLinks_flistSort hgroups]
    apply ((inOrder_flistSort files).withFiles _).sorted
  have hsorted : (sortReceived received).files = received := by
    apply sortReceived_of_pairwise
    · apply pairwise_of_named (hagrees.imp fun _ _ h => ⟨h.name, h.mode⟩)
      · intro m hm
        obtain ⟨i, hi', rfl⟩ := List.getElem_of_mem hm
        have hi : i < (flistSort { files }).files.length := hmarked.length_eq ▸ hi'
        obtain ⟨_, _, -, hfrom⟩ := hmarked.get hi hi'
        rw [List.get_eq_getElem, List.get_eq_getElem] at hfrom
        rw [hfrom]
        apply (hfiles _ (List.getElem_mem hi)).split
      · apply pairwise_markedFiles hgroups hinodes.modesAgree
    · apply isI32_of_listedLink htyped (hagrees.imp fun _ _ h => h.link)
  refine ⟨received, hreceived, hrel, carries_list horder hreceived hio (by omega), ?_⟩
  rw [hsorted]
  apply groupsKept_of_linkAgrees hprotocol hgroups hfiles hinodes.modesAgree hsend.leader hagrees
    hcopied

end Survive

/-- Groups of hard links survive exactly in the lists that may be sent. -/
theorem hard_links_survive_iff
    (answer : H → (x : X) → Option (Reply x × H)) (host : H) (protocol checksumLen : ℕ)
    (ioError : ℤ) (preserve : Preserve) (compatFlags : ℕ) (files : List FileInfo)
    (groups : List ((ℕ × ℕ) × List ℕ)) (hprotocol : protocol = 30 ∨ protocol = 31)
    (hio : IsI32 ioError) (hlen : checksumLen < 9223372036854775808)
    (hgroups : IsLinkGroups files groups) (hfiles : ∀ fi ∈ files, Unmarked fi)
    (hinodes : InodesAgree files) :
  HardLinksSurvive answer protocol checksumLen ioError preserve compatFlags files groups ↔
    CanBeSent protocol preserve (flistSort { files }).files
  := by
  have hp : 30 ≤ protocol := by omega
  have hfiles' : ∀ fi ∈ (flistSort { files }).files, Unmarked fi :=
    fun fi hfi => hfiles fi (List.mem_mergeSort.mp hfi)
  have hinodes' : InodesAgree (flistSort { files }).files := fun a ha b hb =>
    hinodes a (List.mem_mergeSort.mp ha) b (List.mem_mergeSort.mp hb)
  constructor
  · intro h
    apply canBeSent_of_hardLinksSurvive host hp hlen hgroups hfiles' hinodes' h
  · intro h
    apply hardLinksSurvive_of_canBeSent host hp hio hlen hgroups hfiles' hinodes' h

/-- Two names of one file. -/
def linkedPair (a b : Name) : List FileInfo :=
  [{ entryNamed a 0o100644 with dev := 1, ino := 7 },
    { entryNamed b 0o100644 with dev := 1, ino := 7 }]

theorem unmarked_linkedPair
    {a b : Name} (ha : isUtf8 a = true) (hb : isUtf8 b = true) (hsa : sep ∉ a) (hsb : sep ∉ b) :
  ∀ fi ∈ linkedPair a b, Unmarked fi
  := by
  have key : ∀ name : Name, isUtf8 name = true → sep ∉ name →
      Unmarked { entryNamed name 0o100644 with dev := 1, ino := 7 } := by
    intro name hname hsep
    have ht : (entryNamed name 0o100644).Typed := typed_entryNamed hname (by decide)
    exact ⟨⟨ht.size, ht.modtime, ht.modNsec, ht.mode, ht.uid, ht.gid, ht.rdevMajor, ht.rdevMinor,
      ht.hardLinkFirstNdx, ht.path, ht.target⟩, (if_neg hsep).symm,
      by simp [isHlinkMember, entryNamed, hasFlag], by simp [isHlinkLeader, entryNamed, hasFlag]⟩
  intro fi hfi
  rcases List.mem_pair.mp hfi with rfl | rfl
  · apply key a ha hsa
  · apply key b hb hsb

theorem inodesAgree_linkedPair
    (a b : Name) :
  InodesAgree (linkedPair a b)
  := by
  intro f hf g hg _ _
  rcases List.mem_pair.mp hf with rfl | rfl <;> rcases List.mem_pair.mp hg with rfl | rfl <;>
    exact ⟨rfl, rfl, rfl, rfl, rfl⟩

theorem hard_links_survive_pair :
  HardLinksSurvive noHost 31 0 0 {} 0 (linkedPair (bytesOf "a") (bytesOf "b"))
      (linkGroups (flistSort { files := linkedPair (bytesOf "a") (bytesOf "b") })) ↔
    CanBeSent 31 {} (flistSort { files := linkedPair (bytesOf "a") (bytesOf "b") }).files
  := hard_links_survive_iff noHost () 31 0 0 {} 0 _ _ (.inr rfl) (by decide) (by decide)
      (List.Perm.refl _) (unmarked_linkedPair (isUtf8_ascii (by decide +kernel))
        (isUtf8_ascii (by decide +kernel))
        (by decide) (by decide)) (inodesAgree_linkedPair _ _)

/-- Two names of one file that differ inside a character: the second one is not sent. -/
theorem hard_links_not_survive :
  ¬ HardLinksSurvive noHost 31 0 0 {} 0 (linkedPair [0xC3, 0xA8] [0xC3, 0xA9])
    (linkGroups (flistSort { files := linkedPair [0xC3, 0xA8] [0xC3, 0xA9] }))
  := by
  intro h
  have hutf8 : isUtf8 [0xC3, 0xA8] = true ∧ isUtf8 [0xC3, 0xA9] = true := by
    simp [isUtf8, utf8Part, utf8Len, isSecond, isContinuation, continued]
  have hperm : (flistSort { files := linkedPair [0xC3, 0xA8] [0xC3, 0xA9] }).files.Perm
      (linkedPair [0xC3, 0xA8] [0xC3, 0xA9]) := List.mergeSort_perm _ _
  have hunmarked := unmarked_linkedPair hutf8.1 hutf8.2 (by decide) (by decide)
  have hsend := canBeSent_of_hardLinksSurvive () (by decide) (by decide) (List.Perm.refl _)
    (fun fi hfi => hunmarked fi (hperm.mem_iff.mp hfi))
    (fun a ha b hb => inodesAgree_linkedPair _ _ a (hperm.mem_iff.mp ha) b (hperm.mem_iff.mp hb)) h
  rcases List.perm_pair.mp hperm with heq | heq
  · rw [heq] at hsend
    have hb := (hsend.name 1 _ rfl).boundary
    revert hb
    decide
  · rw [heq] at hsend
    have hb := (hsend.name 1 _ rfl).boundary
    revert hb
    decide
