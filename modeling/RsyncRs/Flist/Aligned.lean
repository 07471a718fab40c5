import RsyncRs.Flist.Misread

/-!
# Lists whose entries stay aligned

Each entry of a list is read from its own bytes, and none of them is lost, exactly when every
entry may be sent. In particular the numbers of a device must be sent when they are expected.
-/

variable {X : Type} {Reply : X → Type} {H : Type}
  {answer : H → (x : X) → Option (Reply x × H)}

variable {protocol checksumLen : ℕ} {preserve : Preserve} {compatFlags : ℕ}
  {order received : List FileInfo}

/-- Entries that agree do so before, at and after some entry. -/
theorem forall₂_split
    {R : FileInfo → FileInfo → Prop} {pre pre' post post' : List FileInfo} {fi d : FileInfo}
    (h : List.Forall₂ R (pre ++ fi :: post) (pre' ++ d :: post'))
    (hlen : pre.length = pre'.length) :
  List.Forall₂ R pre pre' ∧ R fi d
  := by
  have h₁ := List.forall₂_take_append _ _ _ h
  have h₂ := List.forall₂_drop_append _ _ _ h
  rw [← hlen, List.take_left] at h₁
  rw [← hlen, List.drop_left] at h₂
  cases h₂ with
  | cons hd _ => exact ⟨h₁, hd⟩

/-- Entries that are received as they were sent may be sent. -/
theorem entryOk_of_received
    (host : H) (htyped : ∀ fi ∈ order, fi.Typed)
    (hold : ∀ pre fi post, order = pre ++ fi :: post →
      hasFlag compatFlags cfVarintFlistFlags = false → protocol < 28 →
      hasFlag (sentFlags protocol preserve false pre.getLast? fi) xmitExtendedFlags = false)
    (hreceived : Received answer protocol checksumLen preserve compatFlags order received)
    (hrel : List.Forall₂ (Agrees preserve) order received)
    {pre post : List FileInfo} {fi : FileInfo} (horder : order = pre ++ fi :: post) :
  EntryOk protocol preserve pre fi
  := by
  -- the modification time of the entry before is known to fit
  have hstep : ∀ pre fi post, order = pre ++ fi :: post →
      (∀ p ∈ pre.getLast?, preserve.times = true → protocol < 30 → IsI32 p.modtime) →
      EntryOk protocol preserve pre fi := by
    intro pre fi post horder htime
    subst horder
    obtain ⟨pre', d, post', rfl, hpre, hcarries⟩ := hreceived.split
    obtain ⟨hrel', hagrees⟩ := forall₂_split hrel hpre.length_eq
    apply entryOk_of_carries host hrel' (htyped fi (by simp)) compatFlags _ htime hcarries hagrees
    apply hold pre fi post rfl
  induction pre using List.reverseRecOn generalizing fi post with
  | nil =>
      apply hstep [] fi post horder
      nofun
  | append_singleton pre p ih =>
      rw [List.append_assoc, List.singleton_append] at horder
      have hp := ih horder
      apply hstep (pre ++ [p]) fi post
      · rw [horder, List.append_assoc, List.singleton_append]
      · intro q hq ht hlt
        rw [List.getLast?_append_of_ne_nil _ (List.cons_ne_nil _ _)] at hq
        cases hq
        apply hp.time _ ht hlt
        simp [refers]
        omega

/-- The entries `order` of a list reach the receiver: each entry is made of exactly the bytes
that are sent for it and has its own path, size, mode and times, and all that is sent for the
list is consumed. -/
def ListReceived (answer : H → (x : X) → Option (Reply x × H)) (protocol checksumLen : ℕ)
    (ioError : ℤ) (preserve : Preserve) (compatFlags : ℕ) (flist : FileList)
    (order : List FileInfo) : Prop :=
  ∃ received, Received answer protocol checksumLen preserve compatFlags order received ∧
    List.Forall₂ (Agrees preserve) order received ∧
    Proc.Carries answer
      (sendFileListEx flist protocol checksumLen ioError preserve compatFlags :
        Session Reply Unit) ()
      (recvFileListEx protocol checksumLen preserve.uid preserve.gid compatFlags)
      (sortReceived received)

theorem listReceived_iff
    (host : H) {ioError : ℤ} {flist : FileList} (hprotocol : 28 ≤ protocol) (hio : IsI32 ioError)
    (hlen : checksumLen < 9223372036854775808) (horder : sendOrder flist = .ok order)
    (htyped : ∀ fi ∈ order, fi.Typed) :
  ListReceived answer protocol checksumLen ioError preserve compatFlags flist order ↔
    ∀ pre fi post, order = pre ++ fi :: post → EntryOk protocol preserve pre fi
  := by
  constructor
  · rintro ⟨received, hreceived, hrel, -⟩ pre fi post hsplit
    apply entryOk_of_received host htyped _ hreceived hrel hsplit
    intro _ _ _ _ _ hp
    omega
  · intro hok
    have hreceives : ∃ received,
        Received answer protocol checksumLen preserve compatFlags order received ∧
          List.Forall₂ (Agrees preserve) order received := by
      apply received_of_ok (fun _ _ h => h)
      · intro pre pre' fi post hsplit hrel
        apply agrees_receivedEntry hrel (hok pre fi post hsplit)
      · apply htyped
      · apply hok
      · intro _ _ _ _ _ hp
        omega
      · apply hlen
    obtain ⟨received, hreceived, hrel⟩ := hreceives
    exact ⟨received, hreceived, hrel, carries_list horder hreceived hio (.inr (.inl hprotocol))⟩

/-- A list reaches the receiver exactly when each of its entries may be sent after those
before it. -/
theorem list_received_iff
    (answer : H → (x : X) → Option (Reply x × H)) (host : H) (protocol checksumLen : ℕ)
    (ioError : ℤ) (preserve : Preserve) (compatFlags : ℕ) (flist : FileList)
    (order : List FileInfo) (hprotocol : 28 ≤ protocol) (hio : IsI32 ioError)
    (hlen : checksumLen < 9223372036854775808) (horder : sendOrder flist = .ok order)
    (htyped : ∀ fi ∈ order, fi.Typed) :
  ListReceived answer protocol checksumLen ioError preserve compatFlags flist order ↔
    ∀ pre fi post, order = pre ++ fi :: post → EntryOk protocol preserve pre fi
  := listReceived_iff host hprotocol hio hlen horder htyped

/-- A pipe and a file. -/
def pipeAndFile : List FileInfo :=
  [entryNamed (bytesOf "a") 0o010644, entryNamed (bytesOf "b") 0o100644]

theorem typed_pipeAndFile :
  ∀ fi ∈ pipeAndFile, fi.Typed
  := by
  intro fi hfi
  rcases List.mem_pair.mp hfi with rfl | rfl
  · apply typed_entryNamed (isUtf8_ascii (by decide +kernel)) (by decide)
  · apply typed_entryNamed (isUtf8_ascii (by decide +kernel)) (by decide)

theorem list_received_pipe :
  ListReceived noHost 30 0 0 { devices := true } 0 { files := pipeAndFile } pipeAndFile ↔
    ∀ pre fi post, pipeAndFile = pre ++ fi :: post → EntryOk 30 { devices := true } pre fi
  := list_received_iff noHost () 30 0 0 _ 0 _ _ (by decide) (by decide) (by decide) rfl
      typed_pipeAndFile

/-- A pipe that is sent without the numbers of a device is not received. -/
theorem list_not_received :
  ¬ ListReceived noHost 30 0 0 { devices := false } 0 { files := pipeAndFile } pipeAndFile
  := by
  rw [listReceived_iff () (by decide) (by decide) (by decide) rfl typed_pipeAndFile]
  intro hok
  have hrdev := (hok [] _ _ rfl).rdev rfl
  cases hrdev
