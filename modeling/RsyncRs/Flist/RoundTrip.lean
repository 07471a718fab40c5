import Mathlib.Data.List.Forall2
import Mathlib.Data.List.Induction
import RsyncRs.Flist.Received

/-!
# File lists are received as they were sent

Each entry is received from the bytes that were sent for it, the end of the list is
recognised, and the list is sorted again.
-/

variable {X : Type} {Reply : X → Type} {H : Type}
  {answer : H → (x : X) → Option (Reply x × H)}

/-! ### Entries one after the other -/

/-- The receiver makes the entries `received` of the entries `sent`, and each of them of
exactly the bytes that are sent for it. -/
inductive Received (answer : H → (x : X) → Option (Reply x × H)) (protocol checksumLen : ℕ)
    (preserve : Preserve) (compatFlags : ℕ) : List FileInfo → List FileInfo → Prop where
  | nil : Received answer protocol checksumLen preserve compatFlags [] []
  | snoc {sent received : List FileInfo} {fi d : FileInfo}
      (h : Received answer protocol checksumLen preserve compatFlags sent received)
      (hd : Proc.Carries answer
        (sendFileEntry protocol checksumLen preserve (hasFlag compatFlags cfVarintFlistFlags)
          sent.getLast? fi : Session Reply Unit) ()
        (recvNext protocol checksumLen preserve.uid preserve.gid compatFlags received)
        (.inl (received ++ [d]))) :
      Received answer protocol checksumLen preserve compatFlags (sent ++ [fi]) (received ++ [d])

section Entries

variable {protocol checksumLen : ℕ} {preserve : Preserve} {compatFlags : ℕ}
  {sent received order : List FileInfo}

/-- After what is sent for the entries the receiver is where it has what it made of them. -/
theorem Received.returns_iff
    (h : Received answer protocol checksumLen preserve compatFlags sent received) :
  ∃ bs, Proc.Writes answer
      (Proc.forEach (sendNext protocol checksumLen preserve
        (hasFlag compatFlags cfVarintFlistFlags)) none sent : Session Reply (Option FileInfo))
      bs sent.getLast? ∧
    ∀ (closed : Bool) (w w' : Endpoint H UInt8) (rest : List UInt8) (files : List FileInfo),
      w.input = bs ++ rest →
      (Proc.Returns answer closed (Proc.loop (recvNext protocol checksumLen preserve.uid
          preserve.gid compatFlags) [] : Session Reply (List FileInfo)) w files w' ↔
        Proc.Returns answer closed (Proc.loop (recvNext protocol checksumLen preserve.uid
          preserve.gid compatFlags) received : Session Reply (List FileInfo))
          { w with input := rest } files w')
  := by
  induction h with
  | nil =>
      refine ⟨[], Proc.writes_pure _, ?_⟩
      intro closed w w' rest files hw
      cases w
      cases hw
      rfl
  | @snoc sent received fi d _ hd ih =>
      obtain ⟨bs, hwrites, hiff⟩ := ih
      obtain ⟨cs, hsend, hrecv⟩ := hd
      use bs ++ cs
      constructor
      · rw [List.getLast?_append_of_ne_nil _ (List.cons_ne_nil _ _)]
        apply Proc.writes_forEach_snoc hwrites (hsend.map fun _ => some fi)
      · intro closed w w' rest files hw
        rw [List.append_assoc] at hw
        rw [hiff closed w w' (cs ++ rest) files hw]
        exact Proc.returns_loop_iff (hrecv closed { w with input := cs ++ rest } rest rfl)

/-- An entry is received in the same way whichever names are to follow the list. -/
theorem Proc.Reads.recvNext_inl
    {preserveUid preserveGid : Bool} {files files' : List FileInfo} {bs : List UInt8}
    (h : Proc.Reads answer
      (recvNext protocol checksumLen preserveUid preserveGid compatFlags files :
        Session Reply (List FileInfo ⊕ List FileInfo)) bs (.inl files'))
    (preserveUid' preserveGid' : Bool) :
  Proc.Reads answer (recvNext protocol checksumLen preserveUid' preserveGid' compatFlags files :
    Session Reply (List FileInfo ⊕ List FileInfo)) bs (.inl files')
  := by
  intro closed w rest hw
  obtain ⟨xflags, w₁, hflags, hnext⟩ := (h closed w rest hw).bind_inv
  apply hflags.bind
  by_cases hend : xflags = 0
  · -- the end of the list is no entry
    rw [if_pos hend] at hnext
    obtain ⟨-, w₂, -, hret⟩ := hnext.bind_inv
    cases hret.pure_inv.1
  · rw [if_neg hend] at hnext ⊢
    exact hnext

/-- What is sent for the entries is consumed by the receiver, whichever names are to follow. -/
theorem Received.consumes
    (h : Received answer protocol checksumLen preserve compatFlags sent received)
    (preserveUid preserveGid : Bool) :
  ∃ bs, Proc.Writes answer
      (Proc.forEach (sendNext protocol checksumLen preserve
        (hasFlag compatFlags cfVarintFlistFlags)) none sent : Session Reply (Option FileInfo))
      bs sent.getLast? ∧
    Proc.Consumes answer
      (Proc.loop (recvNext protocol checksumLen preserveUid preserveGid compatFlags) [] :
        Session Reply (List FileInfo)) bs
      (Proc.loop (recvNext protocol checksumLen preserveUid preserveGid compatFlags) received)
  := by
  induction h with
  | nil => exact ⟨[], Proc.writes_pure _, Proc.Consumes.refl _⟩
  | @snoc sent received fi d _ hd ih =>
      obtain ⟨bs, hwrites, hconsumes⟩ := ih
      obtain ⟨cs, hsend, hrecv⟩ := hd
      refine ⟨bs ++ cs, ?_, ?_⟩
      · rw [List.getLast?_append_of_ne_nil _ (List.cons_ne_nil _ _)]
        apply Proc.writes_forEach_snoc hwrites (hsend.map fun _ => some fi)
      · apply hconsumes.trans
        apply Proc.consumes_loop_again (hrecv.recvNext_inl preserveUid preserveGid)

/-- What is sent for the entries is consumed by the receiver, which then has what it made of
them. -/
theorem Received.transfers
    (h : Received answer protocol checksumLen preserve compatFlags sent received) :
  ∃ bs, Proc.Writes answer
      (Proc.forEach (sendNext protocol checksumLen preserve
        (hasFlag compatFlags cfVarintFlistFlags)) none sent : Session Reply (Option FileInfo))
      bs sent.getLast? ∧
    Proc.Consumes answer
      (Proc.loop (recvNext protocol checksumLen preserve.uid preserve.gid compatFlags) [] :
        Session Reply (List FileInfo)) bs
      (Proc.loop (recvNext protocol checksumLen preserve.uid preserve.gid compatFlags) received)
  := h.consumes preserve.uid preserve.gid

/-- The entries that were received before some entry. -/
theorem Received.split
    {pre post : List FileInfo} {fi : FileInfo}
    (h : Received answer protocol checksumLen preserve compatFlags (pre ++ fi :: post) received) :
  ∃ pre' d post', received = pre' ++ d :: post' ∧
    Received answer protocol checksumLen preserve compatFlags pre pre' ∧
    Proc.Carries answer
      (sendFileEntry protocol checksumLen preserve (hasFlag compatFlags cfVarintFlistFlags)
        pre.getLast? fi : Session Reply Unit) ()
      (recvNext protocol checksumLen preserve.uid preserve.gid compatFlags pre')
      (.inl (pre' ++ [d]))
  := by
  induction post using List.reverseRecOn generalizing received with
  | nil =>
      generalize hs : pre ++ [fi] = sent at h
      cases h with
      | nil => simp at hs
      | snoc h hd =>
          obtain ⟨rfl, hfi⟩ := List.append_inj' hs rfl
          cases hfi
          exact ⟨_, _, [], rfl, h, hd⟩
  | append_singleton post last ih =>
      generalize hs : pre ++ fi :: (post ++ [last]) = sent at h
      cases h with
      | nil => simp at hs
      | @snoc _ _ _ d' h hd =>
          rw [← List.cons_append, ← List.append_assoc] at hs
          obtain ⟨rfl, -⟩ := List.append_inj' hs rfl
          obtain ⟨pre', d, post', rfl, hpre, hcarries⟩ := ih h
          refine ⟨pre', d, post' ++ [d'], ?_, hpre, hcarries⟩
          rw [List.append_assoc, List.cons_append]

theorem Received.length_eq
    (h : Received answer protocol checksumLen preserve compatFlags sent received) :
  sent.length = received.length
  := by
  induction h with
  | nil => rfl
  | snoc _ _ ih => rw [List.length_append, List.length_append, ih]; rfl

/-- What the receiver has made of the entries `sent`, and the last one of these. -/
def receivedAfter (protocol checksumLen : ℕ) (preserve : Preserve) (compatFlags : ℕ)
    (sent : List FileInfo) : Option FileInfo × List FileInfo :=
  sent.foldl (fun x fi => (some fi, x.2 ++ [receivedEntry protocol checksumLen (sentFlags protocol
    preserve (hasFlag compatFlags cfVarintFlistFlags) x.1 fi) x.2 fi])) (none, [])

/-- What the receiver makes of the entries `sent`. -/
def receivedFiles (protocol checksumLen : ℕ) (preserve : Preserve) (compatFlags : ℕ)
    (sent : List FileInfo) : List FileInfo :=
  (receivedAfter protocol checksumLen preserve compatFlags sent).2

theorem receivedAfter_last
    (sent : List FileInfo) :
  (receivedAfter protocol checksumLen preserve compatFlags sent).1 = sent.getLast?
  := by
  cases sent using List.reverseRecOn with
  | nil => rfl
  | append_singleton sent fi => simp [receivedAfter]

theorem receivedFiles_snoc
    (sent : List FileInfo) (fi : FileInfo) :
  receivedFiles protocol checksumLen preserve compatFlags (sent ++ [fi]) =
    receivedFiles protocol checksumLen preserve compatFlags sent ++
      [receivedEntry protocol checksumLen (sentFlags protocol preserve
        (hasFlag compatFlags cfVarintFlistFlags) sent.getLast? fi)
        (receivedFiles protocol checksumLen preserve compatFlags sent) fi]
  := by
  rw [receivedFiles, receivedAfter, List.foldl_append, ← receivedAfter, List.foldl_cons,
    List.foldl_nil, receivedAfter_last, ← receivedFiles]

/-- Entries that may be sent are received. What the two sides agree on is kept from entry to
entry. -/
theorem received_receivedFiles
    {R : FileInfo → FileInfo → Prop} (hR : ∀ p q, R p q → Agrees preserve p q)
    (hstep : ∀ pre pre' fi post, order = pre ++ fi :: post → List.Forall₂ R pre pre' →
      R fi (receivedEntry protocol checksumLen (sentFlags protocol preserve
        (hasFlag compatFlags cfVarintFlistFlags) pre.getLast? fi) pre' fi))
    (htyped : ∀ fi ∈ order, fi.Typed)
    (hok : ∀ pre fi post, order = pre ++ fi :: post → EntryOk protocol preserve pre fi)
    (hold : ∀ pre fi post, order = pre ++ fi :: post →
      hasFlag compatFlags cfVarintFlistFlags = false → protocol < 28 →
      hasFlag (sentFlags protocol preserve false pre.getLast? fi) xmitExtendedFlags = false)
    (hlen : checksumLen < 9223372036854775808) :
  Received answer protocol checksumLen preserve compatFlags order
      (receivedFiles protocol checksumLen preserve compatFlags order) ∧
    List.Forall₂ R order (receivedFiles protocol checksumLen preserve compatFlags order)
  := by
  -- by the number of entries sent
  have key : ∀ sent post, order = sent ++ post →
      Received answer protocol checksumLen preserve compatFlags sent
          (receivedFiles protocol checksumLen preserve compatFlags sent) ∧
        List.Forall₂ R sent (receivedFiles protocol checksumLen preserve compatFlags sent) := by
    intro sent
    induction sent using List.reverseRecOn with
    | nil =>
        intro post _
        exact ⟨Received.nil, List.Forall₂.nil⟩
    | append_singleton sent fi ih =>
        intro post horder
        rw [List.append_assoc, List.singleton_append] at horder
        obtain ⟨hreceived, hrel⟩ := ih (fi :: post) horder
        have hagrees : List.Forall₂ (Agrees preserve) sent
            (receivedFiles protocol checksumLen preserve compatFlags sent) := hrel.imp hR
        have hfi : fi.Typed := htyped fi (by rw [horder]; simp)
        rw [receivedFiles_snoc]
        refine ⟨hreceived.snoc (carries_entry hagrees hfi (hok _ _ _ horder) hlen
          (hold _ _ _ horder)), ?_⟩
        apply List.rel_append hrel
        apply List.Forall₂.cons (hstep _ _ _ _ horder hrel) List.Forall₂.nil
  apply key order [] (List.append_nil _).symm

theorem received_of_ok
    {R : FileInfo → FileInfo → Prop} (hR : ∀ p q, R p q → Agrees preserve p q)
    (hstep : ∀ pre pre' fi post, order = pre ++ fi :: post → List.Forall₂ R pre pre' →
      R fi (receivedEntry protocol checksumLen (sentFlags protocol preserve
        (hasFlag compatFlags cfVarintFlistFlags) pre.getLast? fi) pre' fi))
    (htyped : ∀ fi ∈ order, fi.Typed)
    (hok : ∀ pre fi post, order = pre ++ fi :: post → EntryOk protocol preserve pre fi)
    (hold : ∀ pre fi post, order = pre ++ fi :: post →
      hasFlag compatFlags cfVarintFlistFlags = false → protocol < 28 →
      hasFlag (sentFlags protocol preserve false pre.getLast? fi) xmitExtendedFlags = false)
    (hlen : checksumLen < 9223372036854775808) :
  ∃ received, Received answer protocol checksumLen preserve compatFlags order received ∧
    List.Forall₂ R order received
  := ⟨_, received_receivedFiles hR hstep htyped hok hold hlen⟩

end Entries

/-! ### The end of the list -/

section Trailer

variable {protocol : ℕ} {preserve : Preserve} {compatFlags : ℕ} {ioError : ℤ}

theorem carries_idList
    (preserved : Bool) :
  Proc.Carries answer (sendIdList preserved : Session Reply Unit) () (recvIdList preserved) ()
  := by
  unfold sendIdList recvIdList
  cases preserved with
  | false => apply Proc.carries_pure
  | true =>
      refine ⟨_, writes_writeVarint 0, ?_⟩
      apply Proc.reads_loop_done
      apply (reads_readVarint (by decide)).bind_nil
      apply Proc.reads_pure

/-- What follows the mark that ends the list. -/
theorem carries_afterEnd
    (hio : IsI32 ioError) (incRecurse : Bool) :
  Proc.Carries answer (sendTrailer protocol preserve incRecurse ioError : Session Reply Unit) ()
    (if ¬ incRecurse ∧ 30 ≤ protocol then do
        recvIdList preserve.uid
        recvIdList preserve.gid
      else if protocol < 30 then do
        let _ ← readInt
        pure ()
      else
        pure ()) ()
  := by
  unfold sendTrailer
  split_ifs
  · apply (carries_idList preserve.uid).bind (carries_idList preserve.gid)
  · apply (carries_int hio).map
  · apply Proc.carries_pure

/-- The mark that ends a list with flags of one or two bytes is read as no flags. -/
theorem carries_endMark
    (hio : IsI32 ioError) (hmark : 28 ≤ protocol ∨ ioError = 0) :
  Proc.Carries answer (sendEndOfList protocol false ioError : Session Reply Unit) ()
    (readXflags protocol false) 0
  := by
  unfold sendEndOfList readXflags
  rw [if_neg Bool.false_ne_true, if_neg Bool.false_ne_true]
  by_cases hinline : 31 ≤ protocol ∨ ioError ≠ 0
  · have hp : 28 ≤ protocol := by omega
    rw [if_pos hinline]
    use [0x04, 0x10] ++ encodeVarint ioError
    constructor
    · apply (writes_writeAll _).bind (writes_writeVarint ioError)
    · apply reads_readByte_bind
      rw [if_neg (by decide), readXflags.readHighFlags, if_pos ⟨hp, by decide⟩]
      rw [bind_assoc]
      apply reads_readByte_bind
      rw [pure_bind, if_pos (by decide)]
      apply (reads_readVarint hio).map
  · rw [if_neg hinline]
    refine ⟨_, writes_writeAll [0], ?_⟩
    apply reads_readByte_bind
    rw [if_pos rfl]
    apply Proc.reads_pure

/-- The end of the list is recognised when the protocol knows of its mark. -/
theorem carries_end
    (checksumLen : ℕ) (hio : IsI32 ioError)
    (hmark : hasFlag compatFlags cfVarintFlistFlags = true ∨ 28 ≤ protocol ∨ ioError = 0)
    (files : List FileInfo) :
  Proc.Carries answer
    (do
      sendEndOfList protocol (hasFlag compatFlags cfVarintFlistFlags) ioError
      sendTrailer protocol preserve (hasFlag compatFlags cfIncRecurse) ioError :
      Session Reply Unit) ()
    (recvNext protocol checksumLen preserve.uid preserve.gid compatFlags files) (.inr files)
  := by
  unfold recvNext recvTrailer
  cases hv : hasFlag compatFlags cfVarintFlistFlags with
  | true =>
      unfold sendEndOfList readXflags recvTrailer.recvInlineError
      simp only [if_true, bind_assoc, pure_bind]
      apply (carries_varint (show IsI32 0 by decide)).bind
      rw [if_pos (show asU32 0 = 0 from rfl)]
      apply (carries_varint hio).bind
      apply (carries_afterEnd hio _).map
  | false =>
      rw [hv] at hmark
      apply (carries_endMark hio (hmark.resolve_left Bool.false_ne_true)).bind
      rw [if_pos rfl]
      apply (carries_afterEnd hio _).map

end Trailer

/-! ### Whole lists -/

section Lists

variable {protocol checksumLen : ℕ} {preserve : Preserve} {compatFlags : ℕ} {ioError : ℤ}
  {flist : FileList} {order received : List FileInfo}

/-- A list whose entries are received is received. -/
theorem carries_list
    (horder : sendOrder flist = .ok order)
    (hreceived : Received answer protocol checksumLen preserve compatFlags order received)
    (hio : IsI32 ioError)
    (hmark : hasFlag compatFlags cfVarintFlistFlags = true ∨ 28 ≤ protocol ∨ ioError = 0) :
  Proc.Carries answer
    (sendFileListEx flist protocol checksumLen ioError preserve compatFlags :
      Session Reply Unit) ()
    (recvFileListEx protocol checksumLen preserve.uid preserve.gid compatFlags)
    (sortReceived received)
  := by
  obtain ⟨bs, hwrites, hconsumes⟩ := hreceived.transfers
  obtain ⟨cs, hsend, hrecv⟩ := carries_end checksumLen hio hmark received
  use bs ++ cs
  unfold sendFileListEx recvFileListEx
  constructor
  · dsimp only
    rw [lift_bind horder]
    apply hwrites.bind hsend
  · apply Proc.Reads.map
    apply hconsumes.reads (Proc.reads_loop_done hrecv)

/-- A receiver that expects no names after the list leaves them. -/
theorem reads_list_without_names
    (horder : sendOrder flist = .ok order)
    (hreceived : Received answer protocol checksumLen preserve compatFlags order received)
    (hio : IsI32 ioError) (hprotocol : 30 ≤ protocol)
    (hwhole : hasFlag compatFlags cfIncRecurse = false) :
  ∃ bs names, Proc.Writes answer
      (sendFileListEx flist protocol checksumLen ioError preserve compatFlags :
        Session Reply Unit) (bs ++ names) () ∧
    Proc.Reads answer
      (recvFileListEx protocol checksumLen false false compatFlags : Session Reply FileList) bs
      (sortReceived received)
  := by
  obtain ⟨bs, hwrites, hconsumes⟩ := hreceived.consumes false false
  -- without names the list ends with its mark
  obtain ⟨cs, hend, hrecv⟩ : Proc.Carries answer
      (do
        sendEndOfList protocol (hasFlag compatFlags cfVarintFlistFlags) ioError
        sendTrailer protocol {} (hasFlag compatFlags cfIncRecurse) ioError :
        Session Reply Unit) ()
      (recvNext protocol checksumLen false false compatFlags received) (.inr received) :=
    carries_end checksumLen hio (.inr (.inl (by omega))) received
  have hids : ∀ preserved, ∃ ids, Proc.Writes answer (sendIdList preserved :
      Session Reply Unit) ids () := by
    intro preserved
    obtain ⟨ids, hwrites, -⟩ : Proc.Carries answer (sendIdList preserved) () _ () :=
      carries_idList preserved
    exact ⟨ids, hwrites⟩
  obtain ⟨us, huid⟩ := hids preserve.uid
  obtain ⟨gs, hgid⟩ := hids preserve.gid
  have htrailer : ∀ preserve : Preserve, (sendTrailer protocol preserve
      (hasFlag compatFlags cfIncRecurse) ioError : Session Reply Unit) =
      sendIdList preserve.uid >>= fun _ => sendIdList preserve.gid := by
    intro preserve
    rw [sendTrailer, if_pos ⟨by simp [hwhole], hprotocol⟩]
  have hmark : Proc.Writes answer
      (sendEndOfList protocol (hasFlag compatFlags cfVarintFlistFlags) ioError :
        Session Reply Unit) cs () := by
    rw [htrailer] at hend
    simpa [sendIdList] using hend
  refine ⟨bs ++ cs, us ++ gs, ?_, Proc.Reads.map (hconsumes.reads (Proc.reads_loop_done hrecv)) _⟩
  unfold sendFileListEx
  dsimp only
  rw [lift_bind horder, htrailer, List.append_assoc]
  exact hwrites.bind (hmark.bind (huid.bind hgid))

/-- A traversal of the indices of a list that gives its elements. -/
theorem mapM_range'
    {α : Type} {g : ℕ → Except Error α} (l : List α) (k : ℕ)
    (h : ∀ i (hi : i < l.length), g (k + i) = .ok l[i]) :
  (List.range' k l.length).mapM g = .ok l
  := by
  induction l generalizing k with
  | nil => rfl
  | cons a l ih =>
      have ha : g k = .ok a := h 0 (Nat.zero_lt_succ _)
      have hl : (List.range' (k + 1) l.length).mapM g = .ok l := by
        apply ih
        intro i hi
        have hi' := h (i + 1) (Nat.succ_lt_succ hi)
        rw [← Nat.add_assoc, Nat.add_right_comm] at hi'
        apply hi'
      rw [List.length_cons, List.range'_succ, List.mapM_cons, ha, ok_bind, hl, ok_bind]
      rfl

/-- Files whose indices are in order are sent in their order. -/
theorem sendOrder_of_sorted
    {flist : FileList} (h : flist.sorted = List.range flist.files.length) :
  sendOrder flist = .ok flist.files
  := by
  unfold sendOrder
  split
  · rfl
  · rw [h, List.range_eq_range']
    apply mapM_range'
    intro i hi
    rw [Nat.zero_add, List.getElem?_eq_getElem hi]
    rfl

/-- The files of a sorted list are sent in their order. -/
theorem sendOrder_flistSort
    (flist : FileList) :
  sendOrder (flistSort flist) = .ok (flistSort flist).files
  := by
  apply sendOrder_of_sorted
  unfold flistSort
  rw [List.length_mergeSort]

/-- Entries in order stay where they are, and so do those that they refer to. -/
theorem sortReceived_of_pairwise
    (hsorted : received.Pairwise (fileLe · ·)) (hlink : ∀ d ∈ received, IsI32 d.hardLinkFirstNdx) :
  (sortReceived received).files = received
  := by
  have hindexed : sortIndexed received = received.zipIdx := by
    apply List.mergeSort_of_pairwise
    have hmap : (received.zipIdx.map Prod.fst).Pairwise (fileLe · ·) := by
      rw [List.zipIdx_map_fst]
      apply hsorted
    apply List.pairwise_map.mp hmap
  have hold : ∀ old < received.length, oldToNew received old = old := by
    intro old hlt
    rw [oldToNew, hindexed, List.findIdx_eq (by simpa using hlt)]
    simp only [List.getElem_zipIdx, Nat.zero_add, decide_true, decide_eq_false_iff_not, true_and]
    omega
  have hremap : ∀ d ∈ received, remapHardLink received 0 d = d := by
    intro d hd
    have hd32 := hlink d hd
    rw [remapHardLink, sub_zero, wrapI32_of_isI32 hd32]
    split
    · next h =>
        have hnat : asUsize d.hardLinkFirstNdx = d.hardLinkFirstNdx.toNat := by
          apply asUsize_of_nonneg h.1
          have := hd32.2
          omega
        have hndx : ((oldToNew received (asUsize d.hardLinkFirstNdx) : ℕ) : ℤ) =
            d.hardLinkFirstNdx := by
          rw [hold _ h.2, hnat, Int.toNat_of_nonneg h.1]
        rw [hndx, add_zero, wrapI32_of_isI32 hd32, wrapI32_of_isI32 hd32]
    · rfl
  have hcomp : (fun entry : FileInfo × ℕ => remapHardLink received 0 entry.1) =
      remapHardLink received 0 ∘ Prod.fst := rfl
  unfold sortReceived
  dsimp only
  rw [hindexed, hcomp, ← List.map_map, List.zipIdx_map_fst]
  apply (List.map_congr_left hremap).trans (List.map_id _)

theorem link_of_agreesFully
    (hrel : List.Forall₂ (AgreesFully protocol checksumLen preserve) order received) :
  ∀ d ∈ received, d.hardLinkFirstNdx = -1
  := by
  induction hrel with
  | nil => simp
  | cons h _ ih =>
      intro d hd
      rcases List.mem_cons.mp hd with rfl | hd
      · apply h.link
      · apply ih d hd

/-- A file list in order is received in order. -/
theorem pairwise_of_named
    (hrel : List.Forall₂ (fun fi d => (d.dirname, d.name) = splitName fi.path ∧ d.mode = fi.mode)
      order received)
    (hsplit : ∀ fi ∈ order, (fi.dirname, fi.name) = splitName fi.path)
    (hsorted : order.Pairwise (fileLe · ·)) :
  received.Pairwise (fileLe · ·)
  := by
  have hwalkers : received.map Walker.new = order.map Walker.new := by
    induction hrel with
    | nil => rfl
    | cons h _ ih =>
        have hname := h.1.trans (hsplit _ List.mem_cons_self).symm
        rw [List.map_cons, List.map_cons, ih fun fi hfi => hsplit fi (List.mem_cons_of_mem _ hfi)]
        rw [Walker.new_congr (congrArg Prod.snd hname) (congrArg Prod.fst hname) h.2]
        apply (List.pairwise_cons.mp hsorted).2
  have hle : ∀ files : List FileInfo, files.Pairwise (fileLe · ·) ↔
      (files.map Walker.new).Pairwise (fun a b => a.codes ≤ b.codes) := by
    intro files
    rw [List.pairwise_map]
    apply List.Pairwise.iff_of_mem
    intro a b _ _
    apply fileLe_iff
  rw [hle] at hsorted ⊢
  rw [hwalkers]
  apply hsorted

end Lists
