import RsyncRs.Program.ByteSource

/-!
# Buffered readers

A buffered reader asks its source for as much as its buffer holds and serves lines from the
buffer. `skip` is the reader after a number of bytes were served: what its buffer holds then was
asked for and is not served yet.
-/

/-- A buffer in front of a source. -/
structure BufReader where
  buffer : List UInt8 := []
  source : ByteSource
deriving DecidableEq, Repr

namespace BufReader

/-- How many bytes the buffer holds. -/
def capacity : ℕ := 8192

/-- The line feed. -/
def newline : UInt8 := 10

/-- The bytes that are still to be served. -/
def bytes (r : BufReader) : List UInt8 :=
  r.buffer ++ r.source.bytes

/-- Fill the buffer when it is empty. -/
def fillBuf (r : BufReader) : BufReader :=
  if r.buffer = [] then
    let (buffer, source) := r.source.read capacity
    { buffer, source }
  else
    r

@[simp]
theorem bytes_fillBuf
    (r : BufReader) :
  r.fillBuf.bytes = r.bytes
  := by
  unfold fillBuf bytes
  split
  · next h => rw [h, ByteSource.read, List.nil_append, ByteSource.bytes_advance,
      List.take_append_drop]
  · rfl

/-- A buffer that stays empty is in front of a source at its end. -/
theorem fillBuf_buffer_eq_nil_iff
    (r : BufReader) :
  r.fillBuf.buffer = [] ↔ r.bytes = []
  := by
  unfold fillBuf bytes
  split
  · next h =>
    rw [h, ByteSource.read, List.nil_append, ← List.length_eq_zero_iff,
      ByteSource.length_take_delivery, ByteSource.delivery_eq_zero_iff]
    constructor
    · rintro (h | h)
      · exact absurd h (by decide)
      · exact h
    · exact Or.inr
  · next h => simp [h]

/-- The bytes that are not in the filled buffer. -/
theorem length_fillBuf
    (r : BufReader) :
  r.fillBuf.buffer.length + r.fillBuf.source.bytes.length = r.bytes.length
  := by
  rw [← List.length_append, ← bytes, bytes_fillBuf]

/-- The reader after all that its filled buffer holds was served. -/
def serveBuffer (r : BufReader) : BufReader :=
  { r.fillBuf with buffer := [] }

theorem bytes_serveBuffer
    (r : BufReader) :
  r.serveBuffer.bytes = r.fillBuf.source.bytes
  := List.nil_append _

/-- Read up to and with the next line feed, or to the end. -/
def readLine (r : BufReader) : List UInt8 × BufReader :=
  if r.fillBuf.buffer = [] then
    ([], r.fillBuf)
  else if newline ∈ r.fillBuf.buffer then
    (r.fillBuf.buffer.takeWhile (· ≠ newline) ++ [newline],
      { r.fillBuf with buffer := (r.fillBuf.buffer.dropWhile (· ≠ newline)).tail })
  else
    let (line, s) := r.serveBuffer.readLine
    (r.fillBuf.buffer ++ line, s)
termination_by r.bytes.length
decreasing_by
  next h _ =>
  have hlen := r.length_fillBuf
  have hpos := List.length_pos_of_ne_nil h
  rw [bytes_serveBuffer]
  omega

/-- The reader after `n` bytes were served. -/
def skip (n : ℕ) (r : BufReader) : BufReader :=
  if n = 0 then
    r
  else if r.fillBuf.buffer = [] then
    r.fillBuf
  else if n ≤ r.fillBuf.buffer.length then
    { r.fillBuf with buffer := r.fillBuf.buffer.drop n }
  else
    r.serveBuffer.skip (n - r.fillBuf.buffer.length)
termination_by n
decreasing_by
  next h _ =>
  have hpos := List.length_pos_of_ne_nil h
  omega

@[simp]
theorem skip_zero
    (r : BufReader) :
  r.skip 0 = r
  := by
  rw [skip, if_pos rfl]

/-- Bytes that the filled buffer holds are served from it. -/
theorem skip_of_le
    {r : BufReader} {n : ℕ} (hn : n ≠ 0) (h : n ≤ r.fillBuf.buffer.length) :
  r.skip n = { r.fillBuf with buffer := r.fillBuf.buffer.drop n }
  := by
  have hne : r.fillBuf.buffer ≠ [] := by
    intro hnil
    rw [hnil, List.length_nil] at h
    omega
  rw [skip, if_neg hn, if_neg hne, if_pos h]

/-- More bytes than the filled buffer holds are served after all of the buffer was. -/
theorem skip_of_lt
    {r : BufReader} {n : ℕ} (hne : r.bytes ≠ []) (h : r.fillBuf.buffer.length < n) :
  r.skip n = r.serveBuffer.skip (n - r.fillBuf.buffer.length)
  := by
  rw [ne_eq, ← fillBuf_buffer_eq_nil_iff] at hne
  rw [skip, if_neg (by omega), if_neg hne, if_neg (by omega)]

theorem bytes_skip
    {r : BufReader} {n : ℕ} (h : n ≤ r.bytes.length) :
  (r.skip n).bytes = r.bytes.drop n
  := by
  induction n using Nat.strong_induction_on generalizing r with
  | h n ih =>
      have hbytes := r.bytes_fillBuf
      have hlen := r.length_fillBuf
      by_cases hn : n = 0
      · rw [hn, skip_zero, List.drop_zero]
      by_cases hle : n ≤ r.fillBuf.buffer.length
      · rw [skip_of_le hn hle, ← hbytes]
        unfold bytes
        rw [List.drop_append_of_le_length hle]
      · have hne : r.bytes ≠ [] := by
          intro hnil
          rw [hnil, List.length_nil] at h
          omega
        have hpos := List.length_pos_of_ne_nil ((not_congr r.fillBuf_buffer_eq_nil_iff).mpr hne)
        have hrest : n - r.fillBuf.buffer.length ≤ r.serveBuffer.bytes.length := by
          rw [bytes_serveBuffer]
          omega
        have hnil : r.fillBuf.buffer.drop n = [] := List.drop_eq_nil_of_le (by omega)
        rw [skip_of_lt hne (by omega), ih _ (by omega) hrest, bytes_serveBuffer, ← hbytes, bytes,
          List.drop_append, hnil, List.nil_append]

/-- What is left of a filled buffer is served next. -/
theorem skip_drop
    {r : BufReader} {m n : ℕ} (hn : n ≠ 0) (hm : m ≤ r.fillBuf.buffer.length)
    (h : m + n ≤ r.bytes.length) :
  skip n { r.fillBuf with buffer := r.fillBuf.buffer.drop m } = r.skip (m + n)
  := by
  have hlen := r.length_fillBuf
  have hne : r.bytes ≠ [] := by
    intro hnil
    rw [hnil, List.length_nil] at h
    omega
  by_cases hall : m = r.fillBuf.buffer.length
  · have hserve : { r.fillBuf with buffer := r.fillBuf.buffer.drop m } = r.serveBuffer := by
      rw [hall, List.drop_length]
      rfl
    rw [hserve, skip_of_lt hne (by omega)]
    congr 1
    omega
  · have hrest : r.fillBuf.buffer.drop m ≠ [] := by
      rw [ne_eq, List.drop_eq_nil_iff]
      omega
    have hfill : fillBuf { r.fillBuf with buffer := r.fillBuf.buffer.drop m } =
        { r.fillBuf with buffer := r.fillBuf.buffer.drop m } := if_neg hrest
    by_cases hle : m + n ≤ r.fillBuf.buffer.length
    · have hfits : n ≤ (fillBuf { r.fillBuf with
          buffer := r.fillBuf.buffer.drop m }).buffer.length := by
        rw [hfill, List.length_drop]
        omega
      rw [skip_of_le hn hfits, hfill, skip_of_le (by omega) hle, List.drop_drop]
    · have hmore : (fillBuf { r.fillBuf with
          buffer := r.fillBuf.buffer.drop m }).buffer.length < n := by
        rw [hfill, List.length_drop]
        omega
      have hnonempty : bytes { r.fillBuf with buffer := r.fillBuf.buffer.drop m } ≠ [] := by
        intro hnil
        exact hrest (List.append_eq_nil_iff.mp hnil).1
      have hserve : serveBuffer { r.fillBuf with buffer := r.fillBuf.buffer.drop m } =
          r.serveBuffer := by
        rw [serveBuffer, hfill]
        rfl
      rw [skip_of_lt hnonempty hmore, skip_of_lt hne (by omega), hserve, hfill, List.length_drop]
      congr 1
      omega

/-- Bytes may be served in two parts. -/
theorem skip_skip
    {r : BufReader} {m n : ℕ} (h : m + n ≤ r.bytes.length) :
  (r.skip m).skip n = r.skip (m + n)
  := by
  induction m using Nat.strong_induction_on generalizing r with
  | h m ih =>
      have hlen := r.length_fillBuf
      by_cases hm : m = 0
      · rw [hm, skip_zero, Nat.zero_add]
      by_cases hn : n = 0
      · rw [hn, skip_zero, Nat.add_zero]
      have hne : r.bytes ≠ [] := by
        intro hnil
        rw [hnil, List.length_nil] at h
        omega
      have hpos := List.length_pos_of_ne_nil ((not_congr r.fillBuf_buffer_eq_nil_iff).mpr hne)
      by_cases hle : m ≤ r.fillBuf.buffer.length
      · rw [skip_of_le hm hle, skip_drop hn hle h]
      · rw [skip_of_lt hne (by omega), skip_of_lt hne (by omega), ih _ (by omega)]
        · congr 1
          omega
        · rw [bytes_serveBuffer]
          omega

/-- A line that is there is read, and no more than it is served. -/
theorem readLine_of_line
    {r : BufReader} {line more : List UInt8} (h : r.bytes = line ++ newline :: more)
    (hline : newline ∉ line) :
  r.readLine = (line ++ [newline], r.skip (line.length + 1))
  := by
  induction hn : line.length using Nat.strong_induction_on generalizing r line with
  | h n ih =>
      subst hn
      have hne : r.bytes ≠ [] := by
        rw [h]
        simp
      have hfilled := (not_congr r.fillBuf_buffer_eq_nil_iff).mpr hne
      have hpos := List.length_pos_of_ne_nil hfilled
      have hsplit := r.bytes_fillBuf
      rw [h, bytes] at hsplit
      rw [readLine, if_neg hfilled]
      by_cases hle : r.fillBuf.buffer.length ≤ line.length
      · -- the buffer holds a part of the line
        obtain ⟨rest, rfl⟩ : r.fillBuf.buffer <+: line :=
          List.prefix_of_prefix_length_le ⟨_, hsplit⟩ ⟨_, rfl⟩ hle
        rw [List.append_assoc, List.append_cancel_left_eq] at hsplit
        have hpart : newline ∉ r.fillBuf.buffer := fun hmem =>
          hline (List.mem_append_left _ hmem)
        have hserved : r.serveBuffer.bytes = rest ++ newline :: more := by
          rw [bytes_serveBuffer, hsplit]
        have hrec := ih rest.length (by rw [List.length_append]; omega) hserved
          (fun hmem => hline (List.mem_append_right _ hmem)) rfl
        rw [if_neg hpart, hrec, skip_of_lt hne (by rw [List.length_append]; omega),
          List.length_append, List.append_assoc]
        simp only [Prod.mk.injEq, true_and]
        congr 1
        omega
      · -- the line ends in the buffer
        obtain ⟨rest, hrest⟩ : line ++ [newline] <+: r.fillBuf.buffer := by
          have hfront : line ++ [newline] <+: line ++ newline :: more := ⟨more, by simp⟩
          apply List.prefix_of_prefix_length_le hfront ⟨_, hsplit⟩
          rw [List.length_append, List.length_singleton]
          omega
        rw [List.append_assoc, List.singleton_append] at hrest
        have hmem : newline ∈ r.fillBuf.buffer := by
          rw [← hrest]
          simp
        have hbefore : ∀ b ∈ line, decide (b ≠ newline) = true := by
          intro b hb
          rw [decide_eq_true_eq]
          rintro rfl
          exact hline hb
        have htake : r.fillBuf.buffer.takeWhile (· ≠ newline) = line := by
          rw [← hrest, List.takeWhile_append_of_pos hbefore,
            List.takeWhile_cons_of_neg (by simp), List.append_nil]
        have hdrop : r.fillBuf.buffer.dropWhile (· ≠ newline) = newline :: rest := by
          rw [← hrest, List.dropWhile_append_of_pos hbefore,
            List.dropWhile_cons_of_neg (by simp)]
        have hserved : r.fillBuf.buffer.drop (line.length + 1) = rest := by
          rw [← hrest, ← List.drop_drop, List.drop_left]
          rfl
        rw [if_pos hmem, htake, hdrop, List.tail_cons, skip_of_le (by omega) (by omega), hserved]

/-! ### First lines -/

/-- The bytes up to and with the first line feed. -/
def firstLine : List UInt8 → List UInt8
  | [] => []
  | b :: bs => if b = newline then [b] else b :: firstLine bs

theorem firstLine_append
    {line : List UInt8} (hline : newline ∉ line) (more : List UInt8) :
  firstLine (line ++ newline :: more) = line ++ [newline]
  := by
  induction line with
  | nil => exact if_pos rfl
  | cons b line ih =>
      rw [List.mem_cons, not_or] at hline
      rw [List.cons_append, firstLine, if_neg (Ne.symm hline.1), ih hline.2, List.cons_append]

theorem firstLine_of_not_mem
    {bs : List UInt8} (h : newline ∉ bs) :
  firstLine bs = bs
  := by
  induction bs with
  | nil => rfl
  | cons b bs ih =>
      rw [List.mem_cons, not_or] at h
      rw [firstLine, if_neg (Ne.symm h.1), ih h.2]

/-- Without a line feed all bytes are read. -/
theorem readLine_of_not_mem
    {r : BufReader} (h : newline ∉ r.bytes) :
  r.readLine.1 = r.bytes ∧ r.readLine.2.bytes = []
  := by
  induction hn : r.bytes.length using Nat.strong_induction_on generalizing r with
  | h n ih =>
      have hsplit := r.bytes_fillBuf
      rw [readLine]
      split
      · next hempty =>
        have hnil := r.fillBuf_buffer_eq_nil_iff.mp hempty
        exact ⟨hnil.symm, hsplit.trans hnil⟩
      · next hne =>
        have hbuffer : newline ∉ r.fillBuf.buffer := by
          intro hmem
          apply h
          rw [← hsplit, bytes]
          exact List.mem_append_left _ hmem
        rw [if_neg hbuffer]
        have hlen := r.length_fillBuf
        have hpos := List.length_pos_of_ne_nil hne
        have hrest : newline ∉ r.serveBuffer.bytes := by
          intro hmem
          rw [bytes_serveBuffer] at hmem
          apply h
          rw [← hsplit, bytes]
          exact List.mem_append_right _ hmem
        have hshort : r.serveBuffer.bytes.length < n := by
          rw [bytes_serveBuffer]
          omega
        obtain ⟨hline, hleft⟩ := ih _ hshort hrest rfl
        dsimp only
        refine ⟨?_, hleft⟩
        rw [hline, bytes_serveBuffer, ← hsplit]
        rfl

/-- A reader reads the first line of its bytes. -/
theorem readLine_eq
    (r : BufReader) :
  r.readLine.1 = firstLine r.bytes ∧
    r.readLine.2.bytes = r.bytes.drop (firstLine r.bytes).length
  := by
  by_cases hmem : newline ∈ r.bytes
  · obtain ⟨line, more, hbytes, hline⟩ := List.eq_append_cons_of_mem hmem
    have hlen : line.length + 1 ≤ r.bytes.length := by
      rw [hbytes, List.length_append, List.length_cons]
      omega
    have hfirst : firstLine r.bytes = line ++ [newline] := by
      rw [hbytes, firstLine_append hline]
    rw [readLine_of_line hbytes hline, hfirst, List.length_append]
    exact ⟨rfl, bytes_skip hlen⟩
  · obtain ⟨hline, hrest⟩ := readLine_of_not_mem hmem
    rw [firstLine_of_not_mem hmem, List.drop_length]
    exact ⟨hline, hrest⟩

end BufReader
