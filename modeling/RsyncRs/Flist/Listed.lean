import RsyncRs.Flist.OldProtocol

/-!
# Times in a received list

A modification time that is not preserved is not sent: every entry is then listed with the
time zero.
-/

variable {X : Type} {Reply : X → Type} {H : Type}
  {answer : H → (x : X) → Option (Reply x × H)}

/-- The modification time that the receiver lists for an entry. -/
def listedTime (preserve : Preserve) (fi : FileInfo) : ℤ :=
  if preserve.times then fi.modtime else 0

/-- The reference to the first file of a group that the receiver takes for an entry. -/
def listedLink (protocol : ℕ) (fi : FileInfo) : ℤ :=
  if refers protocol fi then fi.hardLinkFirstNdx else -1

/-- The receiver has the size, the mode and the path of the entry, and the time and the link
that it lists for it. -/
structure Listed (protocol : ℕ) (preserve : Preserve) (fi d : FileInfo) : Prop where
  agrees : Agrees preserve fi d
  time : d.modtime = listedTime preserve fi
  link : d.hardLinkFirstNdx = listedLink protocol fi

section Listed

variable {protocol checksumLen : ℕ} {preserve : Preserve} {varintFlags : Bool}
  {compatFlags : ℕ} {sent received order : List FileInfo} {fi : FileInfo}

/-- An entry is listed with time zero when those before are and times are not preserved. -/
theorem time_receivedFields
    {prev d : Option FileInfo} (h : Option.Rel (Listed protocol preserve) prev d)
    (ht : preserve.times = false) :
  receivedModtime protocol (sentFlags protocol preserve varintFlags prev fi) d fi = 0
  := by
  unfold receivedModtime
  rw [hasFlag_sameTime, ht, Bool.not_false, Bool.true_or, if_pos rfl]
  cases h with
  | none => rfl
  | some hpq =>
      have htime := hpq.time
      rw [listedTime, ht] at htime
      apply htime

/-- The entry that is made of an entry is listed. -/
theorem listed_receivedEntry
    (hrel : List.Forall₂ (Listed protocol preserve) sent received)
    (hok : EntryOk protocol preserve sent fi) :
  Listed protocol preserve fi (receivedEntry protocol checksumLen
    (sentFlags protocol preserve varintFlags sent.getLast? fi) received fi)
  := by
  have hagrees : Agrees preserve fi (receivedEntry protocol checksumLen
      (sentFlags protocol preserve varintFlags sent.getLast? fi) received fi) :=
    agrees_receivedEntry (hrel.imp fun _ _ h => h.agrees) hok
  refine ⟨hagrees, ?_, ?_⟩
  · unfold listedTime
    cases ht : preserve.times with
    | true => apply hagrees.modtime ht
    | false =>
        unfold receivedEntry
        cases hr : refers protocol fi with
        | false =>
            rw [if_neg Bool.false_ne_true]
            apply time_receivedFields (rel_getLast hrel) ht
        | true =>
            obtain ⟨-, first, hfirst, -⟩ := hok.link hr
            obtain ⟨hlt, -⟩ := List.getElem?_eq_some_iff.mp hfirst
            have hlt' : fi.hardLinkFirstNdx.toNat < received.length := hrel.length_eq ▸ hlt
            have htime := (hrel.get hlt hlt').time
            rw [listedTime, ht] at htime
            rw [if_pos rfl, List.getD_eq_getElem _ _ hlt']
            apply htime
  · unfold receivedEntry listedLink
    cases refers protocol fi <;> rfl

/-- Before protocol 28 an entry of a list that is received as it was sent has no more flags
than that protocol knows. -/
theorem notExtended_of_received
    (host : H) (hcompat : protocol < 28 → compatFlags = 0)
    (hreceived : Received answer protocol checksumLen preserve compatFlags order received)
    (hrel : List.Forall₂ (Agrees preserve) order received) {pre post : List FileInfo}
    (horder : order = pre ++ fi :: post) (hp : protocol < 28) :
  hasFlag (sentFlags protocol preserve false pre.getLast? fi) xmitExtendedFlags = false
  := by
  have hbytes : hasFlag 0 cfVarintFlistFlags = false := by decide
  subst horder
  obtain ⟨pre', d, post', rfl, hpre, hentry⟩ := hreceived.split
  obtain ⟨-, hfi⟩ := forall₂_split hrel hpre.length_eq
  rw [hcompat hp, hbytes] at hentry
  apply not_extended_old hp
  rintro ⟨hdir, hshares⟩
  apply not_carries_sharesNothing host hp hdir hshares hfi hentry

/-- Induction over the entries of a list that is received as it was sent: each of them may be
sent, and the receiver makes one entry more of it. -/
theorem Received.induction
    (host : H) (htyped : ∀ fi ∈ order, fi.Typed) (hlen : checksumLen < 9223372036854775808)
    (hcompat : protocol < 28 → compatFlags = 0)
    (hreceived : Received answer protocol checksumLen preserve compatFlags order received)
    (hrel : List.Forall₂ (Agrees preserve) order received)
    {φ : List FileInfo → List FileInfo → Prop} (nil : φ [] [])
    (snoc : ∀ sent fi post received, order = sent ++ fi :: post →
      List.Forall₂ (Agrees preserve) sent received → EntryOk protocol preserve sent fi →
      φ sent received → φ (sent ++ [fi]) (received ++ [receivedEntry protocol checksumLen
        (sentFlags protocol preserve (hasFlag compatFlags cfVarintFlistFlags) sent.getLast? fi)
        received fi])) :
  φ order received
  := by
  have hold : ∀ pre fi post, order = pre ++ fi :: post →
      hasFlag compatFlags cfVarintFlistFlags = false → protocol < 28 →
      hasFlag (sentFlags protocol preserve false pre.getLast? fi) xmitExtendedFlags = false :=
    fun _ _ _ h _ => notExtended_of_received host hcompat hreceived hrel h
  have hok : ∀ pre fi post, order = pre ++ fi :: post → EntryOk protocol preserve pre fi :=
    fun _ _ _ h => entryOk_of_received host htyped hold hreceived hrel h
  -- by the number of entries received
  have key : ∀ sent received,
      Received answer protocol checksumLen preserve compatFlags sent received →
      (∃ post, order = sent ++ post) →
      List.Forall₂ (Agrees preserve) sent received ∧ φ sent received := by
    intro sent received hreceived
    induction hreceived with
    | nil =>
        intro _
        exact ⟨List.Forall₂.nil, nil⟩
    | @snoc sent received fi d h hd ih =>
        rintro ⟨post, horder⟩
        rw [List.append_assoc, List.singleton_append] at horder
        obtain ⟨hagrees, hφ⟩ := ih ⟨_, horder⟩
        have hfi : fi.Typed := htyped fi (by rw [horder]; simp)
        obtain ⟨bs, hsend, hrecv⟩ := hd
        obtain ⟨cs, hsend', hrecv'⟩ := carries_entry hagrees hfi (hok _ _ _ horder) hlen
          (hold _ _ _ horder)
        rw [hsend.unique host hsend'] at hrecv
        obtain ⟨heq, -⟩ := hrecv.unique host hrecv' (rfl : cs ++ [] = cs ++ [])
        have hd : d = _ := List.singleton_inj.mp (List.append_cancel_left (Sum.inl.inj heq))
        subst hd
        constructor
        · apply List.rel_append hagrees
          apply List.Forall₂.cons (agrees_receivedEntry hagrees (hok _ _ _ horder))
          apply List.Forall₂.nil
        · apply snoc sent fi post received horder hagrees (hok _ _ _ horder) hφ
  apply (key order received hreceived ⟨[], (List.append_nil _).symm⟩).2

/-- The entries of a list that is received as it was sent are listed. -/
theorem listed_of_received
    (host : H) (htyped : ∀ fi ∈ order, fi.Typed) (hlen : checksumLen < 9223372036854775808)
    (hcompat : protocol < 28 → compatFlags = 0)
    (hreceived : Received answer protocol checksumLen preserve compatFlags order received)
    (hrel : List.Forall₂ (Agrees preserve) order received) :
  List.Forall₂ (Listed protocol preserve) order received
  := by
  apply hreceived.induction host htyped hlen hcompat hrel List.Forall₂.nil
  intro sent fi post received _ _ hok hlisted
  apply List.rel_append hlisted
  apply List.Forall₂.cons (listed_receivedEntry hlisted hok) List.Forall₂.nil

end Listed
