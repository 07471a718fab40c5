import RsyncRs.Io.Multiplex
import RsyncRs.Io.Varint
import RsyncRs.Program.Coded

/-!
# Sessions in frames

After the handshake both sides of a connection write frames. A reader takes frames apart as it needs
their data, whatever has arrived of them. So a session in frames does what it does without.
-/

variable {X : Type} {Reply : X → Type} {H : Type} {answer : H → (x : X) → Option (Reply x × H)}

/-! ### Reading -/

/-- Read headers until some data is pending. -/
def refillFrames (pending : ℕ) : Session Reply ℕ :=
  Proc.loop (fun pending => do
    if pending ≠ 0 then
      pure (.inr pending)
    else
      let hdr ← readBytes 4
      let len := ofLeBytes hdr &&& 0x00FFFFFF
      if (MsgCode.fromU8 (ofLeBytes hdr >>> 24 - mplexBase)).getD .data = .data then
        pure (.inl len)
      else
        let _ ← readBytes len
        pure (.inl 0)) pending

/-- Read one byte of data, and the number of bytes that are pending after it. -/
def readFramed (pending : ℕ) : Session Reply (UInt8 × ℕ) := do
  let pending ← refillFrames pending
  let b ← readByte
  pure (b, pending - 1)

/-- Read one byte of data. A stream that ends in a header has no more data. -/
def recvFramed (Reply : X → Type) (pending : ℕ) :
    Prog (Answer (B := UInt8) Reply) (Option UInt8 × ℕ) := do
  match ← (readFramed pending).run with
  | .ok (b, pending) => pure (some b, pending)
  | .error _ => pure (none, 0)

/-! ### Frames on their way -/

/-- The bytes of frames of data, or of a part of these: with the first number of bytes pending
they carry the data, and leave the other number pending. -/
inductive Framed : ℕ → List UInt8 → List UInt8 → ℕ → Prop where
  | nil (n : ℕ) : Framed n [] [] n
  | byte {n n' : ℕ} {cs bs : List UInt8} (b : UInt8) (h : Framed n cs bs n') :
      Framed (n + 1) (b :: cs) (b :: bs) n'
  | frame {len n' : ℕ} {cs bs : List UInt8} (hlen : len ≤ maxPayload) (h : Framed len cs bs n')
      (hbs : bs ≠ []) : Framed 0 (frameHeader .data len ++ cs) bs n'

namespace Framed

theorem append
    {n n₁ n₂ : ℕ} {cs cs' bs bs' : List UInt8} (h : Framed n cs bs n₁) (h' : Framed n₁ cs' bs' n₂) :
  Framed n (cs ++ cs') (bs ++ bs') n₂
  := by
  induction h with
  | nil n => exact h'
  | byte b h ih => exact (ih h').byte b
  | frame hlen h hbs ih =>
      rw [List.append_assoc]
      exact (ih h').frame hlen (List.append_ne_nil_of_left_ne_nil hbs _)

theorem exists_split
    {n n' : ℕ} {cs : List UInt8} (bs bs' : List UInt8) (h : Framed n cs (bs ++ bs') n') :
  ∃ cs₁ cs₂ n₁, cs = cs₁ ++ cs₂ ∧ Framed n cs₁ bs n₁ ∧ Framed n₁ cs₂ bs' n'
  := by
  generalize hall : bs ++ bs' = all at h
  induction h generalizing bs with
  | nil n =>
      obtain ⟨rfl, rfl⟩ := List.append_eq_nil_iff.mp hall
      exact ⟨[], [], n, rfl, .nil n, .nil n⟩
  | @byte n _ cs _ b h ih =>
      cases bs with
      | nil =>
          subst hall
          exact ⟨[], _, _, rfl, .nil _, h.byte b⟩
      | cons c bs =>
          cases hall
          obtain ⟨cs₁, cs₂, n₁, rfl, h₁, h₂⟩ := ih bs rfl
          exact ⟨b :: cs₁, cs₂, n₁, rfl, h₁.byte b, h₂⟩
  | @frame len _ cs _ hlen h hbs ih =>
      cases bs with
      | nil =>
          subst hall
          exact ⟨[], _, _, rfl, .nil _, h.frame hlen hbs⟩
      | cons c bs =>
          obtain ⟨cs₁, cs₂, n₁, rfl, h₁, h₂⟩ := ih _ hall
          exact ⟨frameHeader .data len ++ cs₁, cs₂, n₁, (List.append_assoc ..).symm,
            h₁.frame hlen (List.cons_ne_nil _ _), h₂⟩

theorem eq_nil
    {n n' : ℕ} {cs : List UInt8} (h : Framed n cs [] n') :
  cs = []
  := by
  cases h with
  | nil n => rfl
  | frame hlen h hbs => exact absurd rfl hbs

/-- The data of one frame. -/
theorem data
    (bs : List UInt8) :
  Framed bs.length bs bs 0
  := by
  induction bs with
  | nil => exact .nil 0
  | cons b bs ih => exact ih.byte b

/-! ### What is written -/

/-- What is written with `write_all` is in frames. -/
theorem writeAll
    {w : MplexWriter} (henabled : w.enabled = true) (bs : List UInt8) :
  ∃ w' cs, w.writeAll bs = .ok w' ∧ w'.inner = w.inner ++ cs ∧ Framed 0 cs bs 0
  := by
  induction hn : bs.length using Nat.strong_induction_on generalizing w bs with
  | h n ih =>
      rw [MplexWriter.writeAll]
      by_cases hbs : bs = []
      · subst hbs
        exact ⟨w, [], if_pos rfl, (List.append_nil _).symm, .nil 0⟩
      · have hpos := List.length_pos_of_ne_nil hbs
        have hlen : (bs.take (min bs.length maxPayload)).length = min bs.length maxPayload :=
          List.length_take_of_le (Nat.min_le_left _ _)
        have hne : min bs.length maxPayload ≠ 0 := by
          unfold maxPayload
          omega
        have hchunk := data (bs.take (min bs.length maxPayload))
        rw [hlen] at hchunk
        have hframe := hchunk.frame (Nat.min_le_right _ _) (List.ne_nil_of_length_pos (by omega))
        obtain ⟨w', cs, hwrite, hinner, hrest⟩ :=
          ih (bs.drop (min bs.length maxPayload)).length (by rw [List.length_drop]; omega)
            (w := (w.write bs).2) (by simp [MplexWriter.write, henabled]) _ rfl
        refine ⟨w', _, ?_, ?_, by simpa only [List.take_append_drop] using hframe.append hrest⟩
        · rw [if_neg hbs]
          simp only [MplexWriter.write, henabled, not_true_eq_false, if_false] at hwrite ⊢
          rw [if_neg hne, hwrite]
        · rw [hinner, MplexWriter.write, if_neg (not_not_intro henabled)]
          simp only [List.append_assoc]

end Framed

/-- The bytes of the frames in which something is written. -/
def MplexWriter.wrapped (bs : List UInt8) : List UInt8 :=
  match MplexWriter.writeAll { enabled := true } bs with
  | .ok w => w.inner
  | .error _ => []

theorem framed_wrapped
    (bs : List UInt8) :
  Framed 0 (MplexWriter.wrapped bs) bs 0
  := by
  obtain ⟨w, cs, hwrite, hinner, hframed⟩ :=
    Framed.writeAll (w := { enabled := true }) rfl bs
  rw [MplexWriter.wrapped, hwrite]
  dsimp only
  rwa [hinner]

/-! ### What is read -/

/-- The header of a frame of data is read as such. -/
theorem reads_frameHeader
    {α : Type} {len : ℕ} (hlen : len ≤ maxPayload) {f : List UInt8 → Session Reply α}
    {bs : List UInt8} {a : α}
    (h : ∀ hdr, ofLeBytes hdr >>> 24 = mplexBase → ofLeBytes hdr &&& 0x00FFFFFF = len →
      Proc.Reads answer (f hdr) bs a) :
  Proc.Reads answer (readBytes 4 >>= f) (frameHeader .data len ++ bs) a
  := by
  have hlength : (frameHeader .data len).length = 4 := length_leBytes _ _
  apply (reads_readBytes _ hlength).bind
  have hor : (mplexBase + MsgCode.data.toNat) <<< 24 ||| len = mplexBase * 2 ^ 24 + len := by
    rw [← Nat.shiftLeft_add_eq_or_of_lt (by unfold maxPayload at hlen; omega), Nat.shiftLeft_eq]
    rfl
  have hbytes : (ofLeBytes (frameHeader .data len) : ℤ) = mplexBase * 2 ^ 24 + len := by
    rw [frameHeader, ofLeBytes_leBytes, hor]
    unfold maxPayload at hlen
    unfold mplexBase
    omega
  unfold maxPayload at hlen
  unfold mplexBase at hbytes
  apply h
  · rw [Nat.shiftRight_eq_div_pow]
    unfold mplexBase
    omega
  · rw [show (0x00FFFFFF : ℕ) = 2 ^ 24 - 1 from rfl, Nat.and_two_pow_sub_one_eq_mod]
    omega

/-- The byte that is read is the first one behind the headers. -/
theorem reads_refillFrames
    {n n' : ℕ} {cs : List UInt8} {b : UInt8} (h : Framed n cs [b] n') :
  ∃ cs₁, cs = cs₁ ++ [b] ∧
    Proc.Reads answer (refillFrames n : Session Reply ℕ) cs₁ (n' + 1)
  := by
  generalize hbs : [b] = bs at h
  induction h with
  | nil n => cases hbs
  | @byte n n' cs bs c h _ =>
      cases hbs
      have hcs : cs = [] := h.eq_nil
      subst hcs
      have hn : n' = n := by
        cases h
        rfl
      refine ⟨[], rfl, Proc.reads_loop_done ?_⟩
      rw [if_pos (Nat.succ_ne_zero n), hn]
      exact Proc.reads_pure _
  | @frame len n' cs bs hlen h _ ih =>
      obtain ⟨cs₁, rfl, hreads⟩ := ih hbs
      refine ⟨frameHeader .data len ++ cs₁, (List.append_assoc ..).symm, ?_⟩
      apply Proc.reads_loop_again ?_ hreads
      rw [if_neg (not_not_intro rfl), ← List.append_nil (frameHeader .data len)]
      apply reads_frameHeader hlen
      intro hdr hcode hhdr
      have hdata : (MsgCode.fromU8 0).getD .data = .data := rfl
      rw [hcode, hhdr, Nat.sub_self]
      dsimp only
      rw [if_pos hdata]
      exact Proc.reads_pure _

theorem reads_readFramed
    {n n' : ℕ} {cs : List UInt8} {b : UInt8} (h : Framed n cs [b] n') :
  Proc.Reads answer (readFramed n : Session Reply _) cs (b, n')
  := by
  obtain ⟨cs₁, rfl, hreads⟩ := reads_refillFrames h
  exact hreads.bind ((reads_readByte b).map_eq _ rfl)

/-- The next data of a reader that is at a byte of data. -/
theorem front_framed
    {n n' : ℕ} {cs : List UInt8} {b : UInt8} (h : Framed n cs [b] n') {r : MplexReader}
    (hpending : r.pending = n) {rest : List UInt8} (hbytes : r.inner.bytes = cs ++ rest) :
  r.front = some (n' + 1, b :: rest)
  := by
  unfold MplexReader.front
  rw [hpending, hbytes]
  clear hpending hbytes
  generalize hbs : [b] = bs at h
  induction h with
  | nil n => cases hbs
  | @byte n n' cs bs c h _ =>
      cases hbs
      have hcs : cs = [] := h.eq_nil
      subst hcs
      cases h
      rw [if_pos (Nat.succ_ne_zero n)]
      rfl
  | @frame len n' cs bs hlen h _ ih =>
      obtain ⟨b₀, b₁, b₂, hthree⟩ := List.length_eq_three.mp (length_leBytes 3 (len : ℤ))
      have hval : ofLeBytes [b₀, b₁, b₂] = len := by
        have h := ofLeBytes_leBytes 3 (len : ℤ)
        rw [hthree] at h
        unfold maxPayload at hlen
        omega
      specialize ih hbs
      rw [if_neg (not_not_intro rfl), frameHeader_eq _ hlen, hthree]
      simp only [List.cons_append, List.nil_append]
      rw [Frame.nextData_cons, if_neg (not_not_intro rfl), takenForData_tag, hval]
      by_cases hzero : len = 0
      · rw [if_neg fun h => h.2 hzero, hzero, List.drop_zero]
        rwa [if_neg (not_not_intro hzero)] at ih
      · rw [if_pos ⟨decide_eq_true rfl, hzero⟩]
        rwa [if_pos hzero] at ih

/-- A reader with a buffer of one byte reads the same byte. -/
theorem MplexReader.read_framed
    {n' : ℕ} {cs rest : List UInt8} {b : UInt8} {r : MplexReader} (henabled : r.enabled = true)
    (h : Framed r.pending cs [b] n') (hbytes : r.inner.bytes = cs ++ rest) :
  ∃ sizes, r.read 1 = (.ok [b], { r with inner := ⟨rest, sizes⟩, pending := n' })
  := by
  have hfront := front_framed h rfl hbytes
  rcases r.read_spec henabled 1 with ⟨hnone, -⟩ | ⟨p, bs, k, sizes, hsome, -, hk, -, hzero, hread⟩
  · rw [hfront] at hnone
    cases hnone
  · rw [hfront] at hsome
    cases hsome
    have hk₁ : k = 1 := by
      rcases Nat.eq_zero_or_pos k with hk₀ | hk₀
      · rcases hzero hk₀ with h | h <;> cases h
      · omega
    subst hk₁
    exact ⟨sizes, hread⟩

/-- Frames as a code. -/
def frames : Code UInt8 UInt8 ℕ where
  encode := MplexWriter.wrapped
  start := 0
  recv := recvFramed
  Carries := Framed
  carries_encode := framed_wrapped
  carries_nil := .nil
  carries_append := .append
  exists_split := Framed.exists_split
  eq_nil := Framed.eq_nil
  ends_recv := by
    intro X Reply H answer n n' cs b h rest w hw
    exact Prog.Ends.bind (reads_readFramed h false w rest hw) (Prog.Ends.ret _ _)

/-- Read one byte as it comes. -/
def recvPlain (Reply : X → Type) (pending : ℕ) :
    Prog (Answer (B := UInt8) Reply) (Option UInt8 × ℕ) :=
  .call .read fun r => .ret (r, pending)

/-- The session over a multiplexed channel. The writer and the reader may be enabled or not. -/
def multiplexed {α : Type} (writerEnabled readerEnabled : Bool) (p : Session Reply α) :
    Session Reply α :=
  p.codedBy (if writerEnabled then MplexWriter.wrapped else id)
    (if readerEnabled then recvFramed Reply else recvPlain Reply) 0

/-- When two sessions come to an end over two queues, they come to the same end over multiplexed
ones, in whatever pieces the frames arrive. -/
theorem exists_multiplexed
    {Y : Type} {Reply' : Y → Type} {H' α β : Type}
    {answer' : H' → (y : Y) → Option (Reply' y × H')} {p : Session Reply α} {q : Session Reply' β}
    {h : H} {h' : H'}
    {f : Duplex.Party UInt8 Reply H (Except Error α) ×
      Duplex.Party UInt8 Reply' H' (Except Error β)} {a : Except Error α} {b : Except Error β}
    (hf : Duplex.Reaches answer answer' (Duplex.talk p h q h') f) (hover : Duplex.Over f a b) :
  ∃ g, Duplex.Reaches answer answer'
      (Duplex.talk (multiplexed true true p) h (multiplexed true true q) h') g ∧
    Duplex.Over g a b ∧ g.1.2.host = f.1.2.host ∧ g.2.2.host = f.2.2.host
  := Duplex.exists_coded (K := frames) hf hover
