import RsyncRs.Delta.Flate
import Mathlib.Data.Option.Basic
import Mathlib.Tactic.Ring

/-!
# A codec with stored blocks

A codec of raw deflate that meets the laws of streams. Data are sent as stored blocks, but
for the single letter `x` at the end of a stretch of data, which is sent in a block with
fixed codes.
-/

namespace StoredFlate

/-! ### Decompressor -/

/-- Where a decompressor is. -/
inductive Phase where
  /-- At the boundary of a block. -/
  | boundary
  /-- Before the second byte of a block with fixed codes. -/
  | fixed
  /-- Before the third byte of a block with fixed codes, where a stored block starts. -/
  | fixedEnd
  /-- Before the low byte of the length of a stored block. -/
  | lenLow
  /-- Before the high byte of the length. -/
  | lenHigh (lo : UInt8)
  /-- Before the low byte of the complement of the length `n`. -/
  | nlenLow (n : ℕ)
  /-- Before the high byte of the complement of the length `n`. -/
  | nlenHigh (n : ℕ)
  /-- Inside a stored block with `n + 1` bytes to come. -/
  | data (n : ℕ)
deriving DecidableEq, Repr

/-- One byte: the next phase and the data it gives, if it is well formed. -/
def step : Phase → UInt8 → Option (Phase × List UInt8)
  | .boundary, b =>
    if b = 0x00 then some (.lenLow, [])
    else if b = 0xaa then some (.fixed, [])
    else none
  | .fixed, b => if b = 0x00 then some (.fixedEnd, [0x78]) else none
  | .fixedEnd, b => if b = 0x00 then some (.lenLow, []) else none
  | .lenLow, b => some (.lenHigh b, [])
  | .lenHigh lo, b => some (.nlenLow (lo.toNat + 256 * b.toNat), [])
  | .nlenLow n, b => if b = ~~~UInt8.ofNat (n % 256) then some (.nlenHigh n, []) else none
  | .nlenHigh n, b =>
    if b = ~~~UInt8.ofNat (n / 256 % 256) then
      match n with
      | 0 => some (.boundary, [])
      | n + 1 => some (.data n, [])
    else
      none
  | .data 0, b => some (.boundary, [b])
  | .data (n + 1), b => some (.data n, [b])

/-- Any number of bytes: the phase after them and the data they give. -/
def run : Phase → List UInt8 → Option (Phase × List UInt8)
  | p, [] => some (p, [])
  | p, b :: bs =>
    match step p b with
    | none => none
    | some (p', out) =>
      match run p' bs with
      | none => none
      | some (p'', out') => some (p'', out ++ out')

/-- Decompress while there is room for output. -/
def inflate : Phase → List UInt8 → ℕ → Except String (FlateStep Phase)
  | p, [], _ => .ok { consumed := 0, out := [], bufError := false, state := p }
  | p, b :: bs, cap =>
    if cap = 0 then
      .ok { consumed := 0, out := [], bufError := true, state := p }
    else
      match step p b with
      | none => .error "corrupt deflate stream"
      | some (p', out) =>
        match inflate p' bs (cap - out.length) with
        | .error e => .error e
        | .ok r => .ok { r with consumed := r.consumed + 1, out := out ++ r.out,
                                bufError := false }

/-! ### Compressor -/

/-- What a compressor holds back. -/
structure Deflater where
  /-- Data that are not yet in a block. -/
  buffer : List UInt8 := []
  /-- Bytes of a block that are not yet put out. -/
  queue : List UInt8 := []
deriving DecidableEq, Repr

/-- A stored block. -/
def storedBlock (bs : List UInt8) : List UInt8 :=
  storedHeader bs.length ++ bs

/-- The block for the data before a flush, and the first byte of the empty stored block that
ends it. -/
def lastBlock (bs : List UInt8) : List UInt8 :=
  if bs = [] then [0x00]
  else if bs = [0x78] then [0xaa, 0x00, 0x00]
  else storedBlock bs ++ [0x00]

/-- Compress: put out what is queued, or take data until there are enough for a block. -/
def deflate (c : Deflater) (x : List UInt8) (cap : ℕ) :
    FlushCompress → Except String (FlateStep Deflater)
  | .none =>
    if c.queue ≠ [] then
      .ok { consumed := 0, out := c.queue.take cap, bufError := false,
            state := { c with queue := c.queue.drop cap } }
    else if c.buffer.length < 65535 then
      let n := min x.length (65535 - c.buffer.length)
      .ok { consumed := n, out := [], bufError := false,
            state := { c with buffer := c.buffer ++ x.take n } }
    else
      .ok { consumed := 0, out := (storedBlock c.buffer).take cap, bufError := false,
            state := { buffer := [], queue := (storedBlock c.buffer).drop cap } }
  | .sync =>
    let out := c.queue ++ (lastBlock c.buffer ++ syncTrailer)
    if out.length ≤ cap then
      .ok { consumed := 0, out := out, bufError := false, state := {} }
    else
      .ok { consumed := 0, out := [], bufError := true, state := c }

/-- The codec. -/
def codec : Flate where
  Compress := Deflater
  Decompress := Phase
  newCompress := {}
  newDecompress := .boundary
  compress := deflate
  decompress p x cap _ := inflate p x cap

/-! ### Streams -/

theorem run_append
    (p : Phase) (x y : List UInt8) :
  run p (x ++ y) = (run p x).bind fun r => (run r.1 y).map fun r' => (r'.1, r.2 ++ r'.2)
  := by
  induction x generalizing p with
  | nil =>
      simp only [List.nil_append, run, Option.bind_some]
      cases run p y <;> rfl
  | cons b x ih =>
      simp only [List.cons_append, run]
      cases step p b with
      | none => rfl
      | some r =>
          simp only [ih]
          cases run r.1 x with
          | none => rfl
          | some r' =>
              simp only [Option.bind_some]
              cases run r'.1 y with
              | none => rfl
              | some r'' => simp

theorem run_append_of_eq
    {p p' p'' : Phase} {x y out out' : List UInt8} (hx : run p x = some (p', out))
    (hy : run p' y = some (p'', out')) :
  run p (x ++ y) = some (p'', out ++ out')
  := by
  rw [run_append, hx, Option.bind_some, hy]
  rfl

/-- A number below 65536 is the value of its two bytes. -/
theorem two_bytes
    {n : ℕ} (hn : n ≤ 65535) :
  (UInt8.ofNat (n % 256)).toNat + 256 * (UInt8.ofNat (n / 256 % 256)).toNat = n
  := by
  rw [UInt8.toNat_ofNat_of_lt' (by simp only [UInt8.size]; omega),
    UInt8.toNat_ofNat_of_lt' (by simp only [UInt8.size]; omega)]
  omega

/-- The phase after the header of a stored block. -/
def afterHeader : ℕ → Phase
  | 0 => .boundary
  | n + 1 => .data n

theorem run_storedHeader
    {n : ℕ} (hn : n ≤ 65535) :
  run .boundary (storedHeader n) = some (afterHeader n, [])
  := by
  simp only [storedHeader, run, step, if_true, two_bytes hn]
  cases n with
  | zero => simp [afterHeader]
  | succ n => simp [afterHeader]

theorem run_data
    (b : UInt8) (bs : List UInt8) :
  run (.data bs.length) (b :: bs) = some (.boundary, b :: bs)
  := by
  induction bs generalizing b with
  | nil => rfl
  | cons c bs ih =>
      rw [run]
      simp only [List.length_cons, step, ih]
      rfl

theorem run_storedBlock
    {bs : List UInt8} (hn : bs.length ≤ 65535) :
  run .boundary (storedBlock bs) = some (.boundary, bs)
  := by
  have hdata : run (afterHeader bs.length) bs = some (.boundary, bs) := by
    cases bs with
    | nil => rfl
    | cons b bs => apply run_data
  rw [storedBlock, run_append_of_eq (run_storedHeader hn) hdata]
  rfl

theorem run_storedBlocks
    {bss : List (List UInt8)} (h : ∀ bs ∈ bss, bs.length = 65535) :
  run .boundary (bss.map storedBlock).flatten = some (.boundary, bss.flatten)
  := by
  induction bss with
  | nil => rfl
  | cons bs bss ih =>
      have hbs : run .boundary (storedBlock bs) = some (.boundary, bs) :=
        run_storedBlock (h bs List.mem_cons_self).le
      have hrest := ih fun b hb => h b (List.mem_cons_of_mem _ hb)
      rw [List.map_cons, List.flatten_cons, run_append_of_eq hbs hrest]
      rfl

theorem run_lastBlock
    {bs : List UInt8} (hn : bs.length ≤ 65535) :
  run .boundary (lastBlock bs) = some (.lenLow, bs)
  := by
  unfold lastBlock
  split
  · next he =>
    rw [he]
    rfl
  · split
    · next he =>
      rw [he]
      rfl
    · have hstart : run .boundary [0x00] = some (.lenLow, []) := by
        rfl
      rw [run_append_of_eq (run_storedBlock hn) hstart]
      rw [List.append_nil]

theorem run_syncTrailer :
  run .lenLow syncTrailer = some (.boundary, [])
  := by
  decide

theorem run_cons
    {p p' : Phase} {b : UInt8} {x out : List UInt8} (h : run p (b :: x) = some (p', out)) :
  ∃ p₁ out₁ out₂, step p b = some (p₁, out₁) ∧ run p₁ x = some (p', out₂) ∧ out = out₁ ++ out₂
  := by
  rw [run] at h
  split at h
  · cases h
  · next p₁ out₁ hstep =>
    split at h
    · cases h
    · next p₂ out₂ hrun =>
      cases h
      exact ⟨p₁, out₁, out₂, hstep, hrun, rfl⟩

/-- A byte gives at most one byte. -/
theorem step_length
    {p p' : Phase} {b : UInt8} {out : List UInt8} (h : step p b = some (p', out)) :
  out.length ≤ 1
  := by
  unfold step at h
  split at h
  all_goals (repeat' split at h) <;> cases h <;> simp

/-- Decompressing takes well-formed input until the room for output is filled. -/
theorem inflate_eq
    {p p' : Phase} {x out : List UInt8} (h : run p x = some (p', out)) (cap : ℕ) :
  ∃ r, inflate p x cap = .ok r ∧ r.consumed ≤ x.length ∧ r.out.length ≤ cap ∧
    run p (x.take r.consumed) = some (r.state, r.out) ∧
    (r.out.length = cap ∨ r.consumed = x.length ∧ r.out = out)
  := by
  induction x generalizing p out cap with
  | nil =>
      cases h
      exact ⟨_, rfl, le_refl 0, Nat.zero_le _, rfl, .inr ⟨rfl, rfl⟩⟩
  | cons b x ih =>
      rw [inflate]
      by_cases hcap : cap = 0
      · rw [if_pos hcap]
        exact ⟨_, rfl, Nat.zero_le _, Nat.zero_le _, rfl, .inl hcap.symm⟩
      · obtain ⟨p₁, out₁, out₂, hstep, hrun, rfl⟩ := run_cons h
        obtain ⟨r, hr, hle, hlen, htake, hend⟩ := ih hrun (cap - out₁.length)
        have hone := step_length hstep
        rw [if_neg hcap, hstep]
        dsimp only
        rw [hr]
        refine ⟨_, rfl, ?_, ?_, ?_, ?_⟩
        · simpa using hle
        · rw [List.length_append]
          omega
        · rw [List.take_succ_cons, run, hstep]
          dsimp only
          rw [htake]
        · rcases hend with hfull | ⟨hall, rfl⟩
          · left
            rw [List.length_append]
            omega
          · right
            rw [hall]
            apply And.intro rfl rfl

/-! ### The laws -/

/-- What a compressor has put out and what it holds back make up stored blocks for what it
took. -/
def Holds (c : Deflater) (cur emitted : List UInt8) : Prop :=
  ∃ bss : List (List UInt8), (∀ bs ∈ bss, bs.length = 65535) ∧ cur = bss.flatten ++ c.buffer ∧
    emitted ++ c.queue = (bss.map storedBlock).flatten ∧ c.buffer.length ≤ 65535 ∧
    c.queue.length ≤ bss.flatten.length + 5

theorem length_storedBlocks
    {bss : List (List UInt8)} (h : ∀ bs ∈ bss, bs.length = 65535) :
  (bss.map storedBlock).flatten.length ≤ 2 * bss.flatten.length
  := by
  induction bss with
  | nil => apply le_refl
  | cons bs bss ih =>
      have hbs := h bs List.mem_cons_self
      have hrest := ih fun b hb => h b (List.mem_cons_of_mem _ hb)
      simp only [List.map_cons, List.flatten_cons, List.length_append, storedBlock,
        storedHeader, List.length_cons, List.length_nil]
      omega

theorem Holds.none
    {c : Deflater} {cur emitted x : List UInt8} {cap : ℕ} (h : Holds c cur emitted)
    (hx : x ≠ []) (hcap : 0 < cap) :
  ∃ r, deflate c x cap .none = .ok r ∧ r.consumed ≤ x.length ∧ r.out.length ≤ cap ∧
    (0 < r.consumed ∨ r.out ≠ []) ∧ Holds r.state (cur ++ x.take r.consumed) (emitted ++ r.out)
  := by
  obtain ⟨bss, hlen, hcur, hemit, hbuf, hqueue⟩ := h
  have hpos : 0 < x.length := List.length_pos_iff.mpr hx
  rw [deflate]
  by_cases hq : c.queue = []
  · rw [if_neg (not_not.mpr hq)]
    by_cases hfull : c.buffer.length < 65535
    · rw [if_pos hfull]
      refine ⟨_, rfl, Nat.min_le_left _ _, Nat.zero_le _, ?_, bss, hlen, ?_, ?_, ?_, hqueue⟩
      · left
        dsimp only
        omega
      · rw [hcur, List.append_assoc]
      · rw [List.append_nil]
        apply hemit
      · rw [List.length_append, List.length_take]
        omega
    · rw [if_neg hfull]
      have hlen' : c.buffer.length = 65535 := by omega
      have hblock : (storedBlock c.buffer).length = 65540 := by
        rw [storedBlock, List.length_append, hlen']
        rfl
      refine ⟨_, rfl, Nat.zero_le _, ?_, ?_, bss ++ [c.buffer], ?_, ?_, ?_, Nat.zero_le _, ?_⟩
      · apply List.length_take_le
      · right
        rw [← List.length_pos_iff, List.length_take, hblock]
        omega
      · intro bs hbs
        rcases List.mem_append.mp hbs with hbs | hbs
        · apply hlen bs hbs
        · rw [List.mem_singleton.mp hbs]
          apply hlen'
      · rw [hcur]
        simp
      · rw [List.append_assoc, List.take_append_drop, List.map_append, List.flatten_append,
          ← hemit, hq]
        simp
      · rw [List.length_drop, hblock, List.flatten_append, List.length_append]
        simp only [List.flatten_cons, List.flatten_nil, List.append_nil, hlen']
        omega
  · rw [if_pos hq]
    refine ⟨_, rfl, Nat.zero_le _, ?_, ?_, bss, hlen, ?_, ?_, hbuf, ?_⟩
    · apply List.length_take_le
    · right
      rw [← List.length_pos_iff, List.length_take]
      have := List.length_pos_iff.mpr hq
      omega
    · rw [List.take_zero, List.append_nil]
      apply hcur
    · rw [List.append_assoc, List.take_append_drop]
      apply hemit
    · rw [List.length_drop]
      omega

theorem Holds.sync
    {c : Deflater} {cur emitted : List UInt8} {cap : ℕ} (h : Holds c cur emitted)
    (hcap : cur.length + 256 ≤ cap) :
  deflate c [] cap .sync = .ok
    { consumed := 0, out := c.queue ++ (lastBlock c.buffer ++ syncTrailer), bufError := false,
      state := {} }
  := by
  obtain ⟨bss, hlen, hcur, hemit, hbuf, hqueue⟩ := h
  have hlast : (lastBlock c.buffer).length ≤ c.buffer.length + 6 := by
    unfold lastBlock
    split
    · simp
    · split
      · simp
      · simp only [storedBlock, storedHeader, List.length_append, List.length_cons,
          List.length_nil]
        omega
  have htrailer : syncTrailer.length = 4 := rfl
  have hcurlen := congrArg List.length hcur
  rw [List.length_append] at hcurlen
  have hroom : (c.queue ++ (lastBlock c.buffer ++ syncTrailer)).length ≤ cap := by
    rw [List.length_append, List.length_append]
    omega
  unfold deflate
  dsimp only
  rw [if_pos hroom]

/-- What is put out up to a flush is a segment. -/
theorem Holds.segment
    {c : Deflater} {hist cur emitted : List UInt8} (h : Holds c cur emitted) :
  ∃ body, emitted ++ (c.queue ++ (lastBlock c.buffer ++ syncTrailer)) = body ++ syncTrailer ∧
    IsSegment (fun z => (run .boundary z).map (·.2)) (fun z => ∃ out, run .boundary z =
      some (.boundary, out)) hist cur body
  := by
  obtain ⟨bss, hlen, hcur, hemit, hbuf, hqueue⟩ := h
  use (bss.map storedBlock).flatten ++ lastBlock c.buffer
  constructor
  · rw [← hemit]
    simp
  · rintro z ⟨out, hz⟩ hplain
    dsimp only at hplain
    rw [hz] at hplain
    cases hplain
    have hbody : run .boundary ((bss.map storedBlock).flatten ++ lastBlock c.buffer) =
        some (.lenLow, cur) := by
      rw [run_append_of_eq (run_storedBlocks hlen) (run_lastBlock hbuf), hcur]
    have hseg := run_append_of_eq hz hbody
    have hend := run_append_of_eq hseg run_syncTrailer
    rw [List.append_nil] at hend
    dsimp only
    rw [hseg, hend]
    exact ⟨rfl, rfl, _, rfl⟩

/-- Decompressing goes on with a stream. -/
theorem inflate_after
    {d : Phase} {z p x q : List UInt8} (h : run .boundary z = some (d, p))
    (hq : (run .boundary (z ++ x)).map (·.2) = some q) (cap : ℕ) :
  ∃ r, inflate d x cap = .ok r ∧ r.consumed ≤ x.length ∧ r.out.length ≤ cap ∧
    run .boundary (z ++ x.take r.consumed) = some (r.state, p ++ r.out) ∧
    (r.out.length = cap ∨ r.consumed = x.length ∧ p ++ r.out = q)
  := by
  rw [run_append, h, Option.bind_some] at hq
  cases hx : run d x with
  | none =>
      rw [hx] at hq
      cases hq
  | some r =>
      rw [hx] at hq
      cases hq
      obtain ⟨r', hr, hle, hlen, htake, hend⟩ := inflate_eq hx cap
      refine ⟨r', hr, hle, hlen, run_append_of_eq h htake, ?_⟩
      rcases hend with hfull | ⟨hall, hout⟩
      · apply Or.inl hfull
      · apply Or.inr ⟨hall, by rw [hout]⟩

/-- The codec meets the laws of streams. -/
def laws : codec.Laws where
  plain z := (run .boundary z).map (·.2)
  Boundary z := ∃ out, run .boundary z = some (.boundary, out)
  Flushed c _ cur emitted := Holds c cur emitted
  Fed d input output := run .boundary input = some (d, output)
  bound n := 2 * n
  plain_nil := rfl
  boundary_nil := ⟨[], rfl⟩
  plain_append := by
    intro z x q h
    rw [run_append] at h
    cases hz : run .boundary z with
    | none =>
        rw [hz] at h
        cases h
    | some r =>
        rw [hz, Option.bind_some] at h
        cases hx : run r.1 x with
        | none =>
            rw [hx] at h
            cases h
        | some r' =>
            rw [hx] at h
            cases h
            exact ⟨r.2, rfl, List.prefix_append _ _⟩
  stored_header := by
    rintro z p n ⟨out, hz⟩ hp hn
    rw [hz] at hp
    cases hp
    rw [run_append_of_eq hz (run_storedHeader hn), List.append_nil]
    rfl
  stored := by
    rintro z p bs ⟨out, hz⟩ hp hn
    rw [hz] at hp
    cases hp
    rw [List.append_assoc, ← storedBlock, run_append_of_eq hz (run_storedBlock hn)]
    exact ⟨rfl, _, rfl⟩
  flushed_new := ⟨[], by simp, rfl, rfl, Nat.zero_le _, Nat.zero_le _⟩
  compress_none := by
    intro c hist cur emitted x cap h hx hcap
    apply h.none hx hcap
  emitted_le := by
    rintro c hist cur emitted ⟨bss, hlen, hcur, hemit, hbuf, hqueue⟩
    have hall := length_storedBlocks hlen
    have hcurlen := congrArg List.length hcur
    rw [← hemit, List.length_append] at hall
    rw [List.length_append] at hcurlen
    omega
  compress_sync := by
    intro c hist cur emitted cap h hcap
    refine ⟨_, h.sync hcap, ?_, ?_⟩
    · exact ⟨[], by simp, rfl, rfl, Nat.zero_le _, Nat.zero_le _⟩
    · intro hne
      apply h.segment
  fed_new := rfl
  fed_plain := by
    intro d z p h
    rw [h]
    exact ⟨p, rfl, List.prefix_refl _⟩
  decompress := by
    intro d z p x q cap flush h hq
    apply inflate_after h hq cap

end StoredFlate
