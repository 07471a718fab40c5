import RsyncRs.Io.Multiplex

/-!
# Demultiplexing

What a reader returns over any reads is the data of the frames of the stream, in order. Over
the bytes of a writer this is the data that was written. Over other streams the reader goes on
behind a header that `MultiplexStream` rejects, and what it takes for data there is returned.
-/

/-! ### What a reader delivers -/

namespace MplexReader

/-- The data that reads may still return. -/
def undelivered (r : MplexReader) : List UInt8 :=
  r.inner.bytes.take r.pending ++
    Frame.dataOf takenForData (Frame.outline (fun _ => true) (r.inner.bytes.drop r.pending)).1

theorem undelivered_of_front_none
    {r : MplexReader} (h : r.front = none) :
  r.undelivered = []
  := by
  unfold front at h
  split at h
  · cases h
  · next hp =>
      rw [undelivered, not_not.mp hp, List.take_zero, List.drop_zero, List.nil_append]
      apply Frame.dataOf_of_nextData_none h

theorem undelivered_of_front_some
    {r : MplexReader} {p : ℕ} {bs : List UInt8} (h : r.front = some (p, bs)) :
  r.undelivered =
    bs.take p ++ Frame.dataOf takenForData (Frame.outline (fun _ => true) (bs.drop p)).1
  := by
  unfold front at h
  split at h
  · cases h
    rfl
  · next hp =>
      rw [undelivered, not_not.mp hp, List.take_zero, List.drop_zero, List.nil_append]
      apply (Frame.dataOf_of_nextData_some h).1

/-- A read fails when nothing is left to deliver, at the end of the stream; else it returns
some of what is left, and something if its buffer has room. -/
theorem read_undelivered
    {r : MplexReader} (henabled : r.enabled) (n : ℕ) :
  (∃ r', r.read n = (.error .unexpectedEof, r') ∧ r'.enabled ∧ r.undelivered = [] ∧
      r'.undelivered = []) ∨
    ∃ out r', r.read n = (.ok out, r') ∧ r'.enabled ∧ r.undelivered = out ++ r'.undelivered ∧
      (out = [] → n = 0 ∨ r.undelivered = [])
  := by
  rcases r.read_spec henabled n with ⟨hfront, sizes, hread⟩ |
    ⟨p, bs, k, sizes, hfront, -, hkp, hkl, hk, hread⟩
  · left
    refine ⟨_, hread, henabled, undelivered_of_front_none hfront, ?_⟩
    rw [undelivered, List.drop_nil, Frame.outline_nil]
    rfl
  · right
    refine ⟨_, _, hread, henabled, ?_, ?_⟩
    · have hsum : k + (p - k) = p := by omega
      rw [undelivered_of_front_some hfront, undelivered, List.drop_drop, hsum,
        ← List.append_assoc, ← List.take_add, hsum]
    · intro hnil
      have hlen := congrArg List.length hnil
      rw [List.length_take_of_le hkl] at hlen
      apply (hk hlen).imp_right
      rintro rfl
      rw [undelivered_of_front_some hfront, List.take_nil, List.drop_nil, Frame.outline_nil]
      rfl

@[simp]
theorem returned_cons_ok
    (out : List UInt8) (results : List (Except Error (List UInt8))) :
  returned (.ok out :: results) = out ++ returned results
  := rfl

@[simp]
theorem returned_cons_error
    (e : Error) (results : List (Except Error (List UInt8))) :
  returned (.error e :: results) = returned results
  := rfl

/-- Over any reads, what is returned and what is left to deliver is what there was to deliver.
A read fails only when nothing is left, and enough reads leave nothing. -/
theorem reads_undelivered
    {r : MplexReader} (henabled : r.enabled) (ns : List ℕ) :
  (reads ns r).2.enabled ∧
    r.undelivered = returned (reads ns r).1 ++ (reads ns r).2.undelivered ∧
    ((∃ e, .error e ∈ (reads ns r).1) → (reads ns r).2.undelivered = []) ∧
    (r.undelivered.length ≤ (ns.filter (0 < ·)).length → (reads ns r).2.undelivered = [])
  := by
  induction ns generalizing r with
  | nil => simpa [reads, returned] using henabled
  | cons n ns ih =>
      rcases r.read_undelivered henabled n with ⟨r', hread, henabled', hnil, hnil'⟩ |
        ⟨out, r', hread, henabled', hsplit, hout⟩
      · obtain ⟨he, hrest, -, -⟩ := ih henabled'
        have hafter : (reads ns r').2.undelivered = [] := by
          rw [hnil'] at hrest
          exact (List.append_eq_nil_iff.mp hrest.symm).2
        simp only [reads, hread, returned_cons_error]
        refine ⟨he, ?_, fun _ => hafter, fun _ => hafter⟩
        rw [hnil, ← hrest, hnil']
      · obtain ⟨he, hrest, herror, henough⟩ := ih henabled'
        simp only [reads, hread, returned_cons_ok, List.append_assoc]
        refine ⟨he, by rw [hsplit, ← hrest], ?_, ?_⟩
        · rintro ⟨e, hmem⟩
          apply herror
          use e
          simpa using hmem
        · intro hlen
          apply henough
          rw [hsplit, List.length_append] at hlen
          by_cases hn : 0 < n
          · rw [List.filter_cons_of_pos (by simpa using hn), List.length_cons] at hlen
            by_cases hnil : out = []
            · rcases hout hnil with h | h
              · omega
              · rw [hsplit] at h
                simp [(List.append_eq_nil_iff.mp h).2]
            · have := List.length_pos_of_ne_nil hnil
              omega
          · rw [List.filter_cons_of_neg (by simpa using hn)] at hlen
            omega

end MplexReader

/-! ### The bytes of a writer -/

/-- Something that is written to a writer. -/
inductive Emission where
  /-- Data, written with `write_all`. -/
  | data (buf : List UInt8)
  /-- A message with a code other than that of data. -/
  | message (code : MsgCode) (hcode : code ≠ .data) (bytes : List UInt8)

namespace Emission

/-- Write the data or the message. -/
def emit (w : MplexWriter) : Emission → Except Error MplexWriter
  | data buf => w.writeAll buf
  | message code _ bytes => w.writeMsg code bytes

/-- Write one after the other. -/
def emitAll : List Emission → MplexWriter → Except Error MplexWriter
  | [], w => .ok w
  | x :: xs, w => do emitAll xs (← x.emit w)

/-- The bytes of the data among what is written. -/
def payload : Emission → List UInt8
  | data buf => buf
  | message _ _ _ => []

/-- The payload of a message is no longer than `write_msg` asserts. -/
def Fits : Emission → Prop
  | data _ => True
  | message _ _ bytes => bytes.length ≤ maxPayload

end Emission

namespace MplexWriter

/-- The writer has wrapped these frames, all of known codes, which carry the given data. -/
structure Wraps (w : MplexWriter) (fs : List Frame) (data : List UInt8) : Prop where
  enabled : w.enabled
  inner : w.inner = fs.flatMap Frame.bytes
  complete : ∀ f ∈ fs, f.Complete
  data : Frame.dataOf takenForData fs = data

/-- One more frame. -/
theorem Wraps.frame
    {w : MplexWriter} {fs : List Frame} {data : List UInt8} (h : w.Wraps fs data)
    (code : MsgCode) {payload : List UInt8} (hlen : payload.length ≤ maxPayload) :
  Wraps { w with inner := w.inner ++ frameHeader code payload.length ++ payload }
    (fs ++ [⟨code.tag, payload.length, payload⟩]) (data ++ if code = .data then payload else [])
  := by
  constructor
  · exact h.enabled
  · rw [h.inner, frameHeader_eq code hlen]
    simp [Frame.bytes]
  · intro f hf
    rcases List.mem_append.mp hf with hf | hf
    · apply h.complete f hf
    · rw [List.mem_singleton.mp hf]
      unfold maxPayload at hlen
      exact ⟨rfl, by norm_num; omega⟩
  · rw [Frame.dataOf_append, h.data, Frame.dataOf_cons, Frame.dataOf_nil, List.append_nil,
      takenForData_tag]
    simp

/-- All of what `write_all` is given is wrapped. -/
theorem writeAll_spec
    {w : MplexWriter} {fs : List Frame} {data : List UInt8} (h : w.Wraps fs data)
    (buf : List UInt8) :
  ∃ w' fs', w.writeAll buf = .ok w' ∧ w'.Wraps fs' (data ++ buf)
  := by
  induction hn : buf.length using Nat.strong_induction_on generalizing w fs data buf with
  | h n ih =>
      rw [writeAll]
      by_cases hbuf : buf = []
      · exact ⟨w, fs, by rw [if_pos hbuf], by rwa [hbuf, List.append_nil]⟩
      · have hpos := List.length_pos_of_ne_nil hbuf
        have hle : min buf.length maxPayload ≤ buf.length := Nat.min_le_left _ _
        have hchunk := List.length_take_of_le hle
        have hne : min buf.length maxPayload ≠ 0 := by
          unfold maxPayload
          omega
        have hfits : (buf.take (min buf.length maxPayload)).length ≤ maxPayload := by
          rw [hchunk]
          exact Nat.min_le_right _ _
        have hframe := h.frame .data hfits
        rw [hchunk, if_pos rfl] at hframe
        obtain ⟨w', fs', hrest, hw'⟩ := ih _ (by rw [List.length_drop]; omega) hframe
          (buf.drop (min buf.length maxPayload)) rfl
        refine ⟨w', fs', ?_, by rwa [List.append_assoc, List.take_append_drop] at hw'⟩
        rw [if_neg hbuf, write, if_neg (not_not_intro h.enabled)]
        dsimp only
        rw [if_neg hne, hrest]

/-- What is written is wrapped, with the data among it. -/
theorem emitAll_spec
    {w : MplexWriter} {fs : List Frame} {data : List UInt8} (h : w.Wraps fs data)
    {xs : List Emission} (hfits : ∀ x ∈ xs, x.Fits) :
  ∃ w' fs', Emission.emitAll xs w = .ok w' ∧ w'.Wraps fs' (data ++ xs.flatMap Emission.payload)
  := by
  induction xs generalizing w fs data with
  | nil => exact ⟨w, fs, rfl, by simpa using h⟩
  | cons x xs ih =>
      have hrest : ∀ y ∈ xs, y.Fits := fun y hy => hfits y (List.mem_cons_of_mem _ hy)
      rw [List.flatMap_cons, ← List.append_assoc]
      cases x with
      | data buf =>
          obtain ⟨w₁, fs₁, hwrite, hw₁⟩ := writeAll_spec h buf
          obtain ⟨w₂, fs₂, hemit, hw₂⟩ := ih hw₁ hrest
          refine ⟨w₂, fs₂, ?_, hw₂⟩
          rw [Emission.emitAll, Emission.emit, hwrite, ok_bind, hemit]
      | message code hcode bytes =>
          have hlen : bytes.length ≤ maxPayload := hfits _ (List.mem_cons_self ..)
          have hframe := h.frame code hlen
          rw [if_neg hcode] at hframe
          obtain ⟨w₂, fs₂, hemit, hw₂⟩ := ih hframe hrest
          refine ⟨w₂, fs₂, ?_, hw₂⟩
          rw [Emission.emitAll, Emission.emit, writeMsg, if_neg (not_lt.mpr hlen), ok_bind, hemit]

/-- A reader over the bytes of a writer has the written data to deliver. -/
theorem Wraps.undelivered
    {w : MplexWriter} {fs : List Frame} {data : List UInt8} (h : w.Wraps fs data)
    (sizes : List ℕ) (enabled : Bool) :
  MplexReader.undelivered ⟨⟨w.inner, sizes⟩, enabled, 0⟩ = data
  := by
  have houtline : Frame.outline (fun _ => true) (fs.flatMap Frame.bytes ++ []) =
      (fs ++ (Frame.outline (fun _ => true) []).1, (Frame.outline (fun _ => true) []).2) :=
    Frame.outline_append (fun f hf => ⟨h.complete f hf, rfl⟩) []
  rw [List.append_nil, Frame.outline_nil, List.append_nil] at houtline
  rw [MplexReader.undelivered, h.inner]
  simp only [List.take_zero, List.drop_zero, List.nil_append, houtline, h.data]

end MplexWriter

/-- The reads of an enabled reader over the bytes of a writer return the written data, fail only
when all of it was returned, and return all of it when they are enough. -/
theorem MplexWriter.Wraps.reads
    {w : MplexWriter} {fs : List Frame} {data : List UInt8} (h : w.Wraps fs data)
    (sizes ns : List ℕ) :
  let results := (MplexReader.reads ns ⟨⟨w.inner, sizes⟩, true, 0⟩).1
  ∃ rest, MplexReader.returned results ++ rest = data ∧
    ((∃ e, .error e ∈ results) → rest = []) ∧
    (data.length ≤ (ns.filter (0 < ·)).length → rest = [])
  := by
  obtain ⟨-, hsplit, herror, henough⟩ := MplexReader.reads_undelivered
    (r := ⟨⟨w.inner, sizes⟩, true, 0⟩) rfl ns
  rw [h.undelivered sizes true] at hsplit henough
  exact ⟨_, hsplit.symm, herror, henough⟩

theorem MplexWriter.wraps_nil :
  MplexWriter.Wraps { enabled := true } [] []
  := ⟨rfl, rfl, by simp, rfl⟩

/-- Over the bytes of an enabled writer, an enabled reader returns the data that was written:
over any reads a first part of it, a failure only when all of it was returned, and all of it
over enough reads. -/
theorem demux_mux
    {xs : List Emission} (hfits : ∀ x ∈ xs, x.Fits) :
  ∃ w, Emission.emitAll xs { enabled := true } = .ok w ∧ ∀ sizes ns,
    let results := (MplexReader.reads ns ⟨⟨w.inner, sizes⟩, true, 0⟩).1
    let written := xs.flatMap Emission.payload
    ∃ rest, MplexReader.returned results ++ rest = written ∧
      ((∃ e, .error e ∈ results) → rest = []) ∧
      (written.length ≤ (ns.filter (0 < ·)).length → rest = [])
  := by
  obtain ⟨w, fs, hemit, hwraps⟩ := MplexWriter.emitAll_spec MplexWriter.wraps_nil hfits
  refine ⟨w, hemit, ?_⟩
  intro sizes ns
  apply hwraps.reads

theorem demux_mux_message :
  ∃ w, Emission.emitAll [.data [1, 2], .message .info (by decide) [3], .data []]
    { enabled := true } = .ok w ∧ ∀ sizes ns,
    let results := (MplexReader.reads ns ⟨⟨w.inner, sizes⟩, true, 0⟩).1
    ∃ rest, MplexReader.returned results ++ rest = [1, 2] ∧
      ((∃ e, .error e ∈ results) → rest = []) ∧
      (2 ≤ (ns.filter (0 < ·)).length → rest = [])
  := by
  have hfits : ∀ x ∈ [Emission.data [1, 2], .message .info (by decide) [3], .data []], x.Fits := by
    simp [Emission.Fits, maxPayload]
  exact demux_mux hfits

/-! ### Streams without frames -/

/-- A disabled writer passes on what it is given. -/
theorem MplexWriter.emitAll_raw
    {w : MplexWriter} (h : w.enabled = false) (bufs : List (List UInt8)) :
  Emission.emitAll (bufs.map .data) w = .ok { w with inner := w.inner ++ bufs.flatten }
  := by
  have hwrite : ∀ (buf : List UInt8) (w : MplexWriter), w.enabled = false →
      w.writeAll buf = .ok { w with inner := w.inner ++ buf } := by
    intro buf w h
    rw [writeAll]
    by_cases hbuf : buf = []
    · rw [if_pos hbuf, hbuf, List.append_nil]
    · have hlen : buf.length ≠ 0 := by simpa using hbuf
      rw [if_neg hbuf, write, if_pos (by simp [h])]
      dsimp only
      rw [if_neg hlen, List.drop_length, writeAll, if_pos rfl]
  induction bufs generalizing w with
  | nil =>
      rw [List.flatten_nil, List.append_nil]
      rfl
  | cons buf bufs ih =>
      rw [List.map_cons, Emission.emitAll, Emission.emit, hwrite buf w h, ok_bind,
        ih (w := { w with inner := w.inner ++ buf }) h, List.flatten_cons, List.append_assoc]

/-- A disabled reader returns the bytes as they are. -/
theorem MplexReader.reads_raw
    {r : MplexReader} (h : r.enabled = false) (ns : List ℕ) :
  ∃ rest, returned (reads ns r).1 ++ rest = r.inner.bytes ∧
    (r.inner.bytes.length ≤ (ns.filter (0 < ·)).length → rest = [])
  := by
  induction ns generalizing r with
  | nil =>
      refine ⟨r.inner.bytes, rfl, ?_⟩
      intro hlen
      simpa using hlen
  | cons n ns ih =>
      have hread : r.read n = (.ok (r.inner.bytes.take (r.inner.delivery n)),
          { r with inner := r.inner.advance (r.inner.delivery n) }) := by
        rw [read, if_pos (by simp [h])]
        rfl
      obtain ⟨rest, hrest, henough⟩ := ih (r := { r with
        inner := r.inner.advance (r.inner.delivery n) }) h
      refine ⟨rest, ?_, ?_⟩
      · simp only [reads, hread, returned_cons_ok, List.append_assoc, hrest,
          ByteSource.bytes_advance, List.take_append_drop]
      · intro hlen
        apply henough
        simp only [ByteSource.bytes_advance, List.length_drop]
        by_cases hn : 0 < n
        · rw [List.filter_cons_of_pos (by simpa using hn), List.length_cons] at hlen
          by_cases hzero : r.inner.delivery n = 0
          · rcases (ByteSource.delivery_eq_zero_iff _ _).mp hzero with h0 | hnil
            · omega
            · simp [hnil]
          · omega
        · rw [List.filter_cons_of_neg (by simpa using hn)] at hlen
          omega

/-! ### Streams with unknown headers -/

/-- What follows the frames with known headers is not data: the reads return the data of those
frames in order, and a read that goes further fails. -/
def OnlyDataFrames (stream : List UInt8) : Prop :=
  ∀ sizes ns,
    let run := MplexReader.reads ns ⟨⟨stream, sizes⟩, true, 0⟩
    MplexReader.returned run.1 <+: Frame.dataOf dataTag (Frame.outline knownTag stream).1 ∧
      ∀ n out r', run.2.read n = (.ok out, r') →
        (Frame.outline knownTag stream).2 <:+ r'.inner.bytes

/-- From its first unknown header on the stream announces nothing that the reader takes for
data. -/
def NothingTaken (stream : List UInt8) : Prop :=
  ∀ f ∈ (Frame.outline (fun _ => true) (Frame.outline knownTag stream).2).1,
    takenForData f.tag → f.len = 0

namespace MplexReader

/-- What is left for the reader after the frames with known headers. -/
def behind (r : MplexReader) : List UInt8 :=
  (Frame.outline knownTag (r.inner.bytes.drop r.pending)).2

theorem behind_suffix
    (r : MplexReader) :
  r.behind <:+ r.inner.bytes
  := (Frame.outline_suffix _).trans (List.drop_suffix _ _)

/-- A successful read either stays among the frames with known headers, or it was given data
that was announced behind them. -/
theorem read_behind
    {r r' : MplexReader} (henabled : r.enabled) {n : ℕ} {out : List UInt8}
    (hread : r.read n = (.ok out, r')) :
  r'.behind = r.behind ∨
    ∃ len rest, Frame.nextData (fun _ => true) takenForData r.behind = some (len, rest) ∧
      r'.inner.bytes <:+ rest
  := by
  rcases r.read_spec henabled n with ⟨-, sizes, hfail⟩ |
    ⟨p, bs, k, sizes, hfront, -, hkp, -, -, hok⟩
  · rw [hread] at hfail
    cases hfail
  · rw [hread] at hok
    cases hok
    have hsum : k + (p - k) = p := by omega
    have hbehind : behind ⟨⟨bs.drop k, sizes⟩, r.enabled, p - k⟩ =
        (Frame.outline knownTag (bs.drop p)).2 := by
      rw [behind, List.drop_drop, hsum]
    rw [hbehind]
    unfold front at hfront
    split at hfront
    · cases hfront
      exact Or.inl rfl
    · next hp =>
        have hr : r.behind = (Frame.outline knownTag r.inner.bytes).2 := by
          rw [behind, not_not.mp hp, List.drop_zero]
        rw [hr]
        rcases Frame.nextData_outline knownTag takenForData r.inner.bytes with
          ⟨len, rest, hnext, hsame⟩ | hnext
        · left
          rw [hnext] at hfront
          cases hfront
          apply hsame
        · right
          rw [hfront] at hnext
          exact ⟨p, bs, hnext.symm, List.drop_suffix _ _⟩

/-- A reader that failed is at the end of its stream. -/
theorem inner_of_read_error
    {r r' : MplexReader} (henabled : r.enabled) {n : ℕ} {e : Error}
    (hread : r.read n = (.error e, r')) :
  r'.enabled ∧ r'.inner.bytes = [] ∧ r'.pending = 0
  := by
  rcases r.read_spec henabled n with ⟨-, sizes, hfail⟩ | ⟨p, bs, k, sizes, -, -, -, -, -, hok⟩
  · rw [hread] at hfail
    cases hfail
    exact ⟨henabled, rfl, rfl⟩
  · rw [hread] at hok
    cases hok

theorem enabled_of_read
    {r : MplexReader} (henabled : r.enabled) (n : ℕ) :
  (r.read n).2.enabled
  := by
  rcases r.read_spec henabled n with ⟨-, sizes, h⟩ | ⟨p, bs, k, sizes, -, -, -, -, -, h⟩
  · rw [h]
    apply henabled
  · rw [h]
    apply henabled

/-- When nothing is taken behind the frames with known headers, a reader among these frames
stays there until it fails. -/
theorem reads_behind
    {left : List UInt8} (hleft : Frame.nextData (fun _ => true) takenForData left = none)
    {r : MplexReader} (henabled : r.enabled)
    (hr : r.behind = left ∨ r.inner.bytes = [] ∧ r.pending = 0) (ns : List ℕ) :
  (reads ns r).2.enabled ∧ ((reads ns r).2.behind = left ∨
    (reads ns r).2.inner.bytes = [] ∧ (reads ns r).2.pending = 0)
  := by
  induction ns generalizing r with
  | nil => exact ⟨henabled, hr⟩
  | cons n ns ih =>
      apply ih (enabled_of_read henabled n)
      match hread : r.read n with
      | (.error e, r') => exact Or.inr (inner_of_read_error henabled hread).2
      | (.ok out, r') =>
          have hnext : Frame.nextData (fun _ => true) takenForData r.behind = none := by
            rcases hr with hr | ⟨hnil, -⟩
            · rw [hr, hleft]
            · rw [behind, hnil, List.drop_nil, Frame.outline_nil]
              apply Frame.nextData_of_short (by simp)
          rcases read_behind henabled hread with h | ⟨len, rest, hsome, -⟩
          · rcases hr with hr | ⟨hnil, hp⟩
            · exact Or.inl (h.trans hr)
            · rcases r.read_spec henabled n with ⟨-, sizes, hfail⟩ |
                ⟨p, bs, k, sizes, hfront, -, -, -, -, -⟩
              · rw [hread] at hfail
                cases hfail
              · rw [front, hp, if_neg (by simp), hnil,
                  Frame.nextData_of_short (by simp)] at hfront
                cases hfront
          · rw [hnext] at hsome
            cases hsome

theorem length_of_front
    {r : MplexReader} {p : ℕ} {bs : List UInt8} (h : r.front = some (p, bs)) :
  bs.length ≤ r.inner.bytes.length
  := by
  unfold front at h
  split at h
  · cases h
    rfl
  · have := (Frame.nextData_pos h).2
    omega

/-- When something is taken behind the frames with known headers, some reads get there. -/
theorem exists_read_behind
    {left : List UInt8} (hleft : Frame.nextData (fun _ => true) takenForData left ≠ none)
    {r : MplexReader} (henabled : r.enabled) (hr : r.behind = left) :
  ∃ ns n out r', (reads ns r).2.read n = (.ok out, r') ∧ ¬ left <:+ r'.inner.bytes
  := by
  -- the induction is on what is left of the stream: each read of one byte shortens it
  induction hn : r.inner.bytes.length using Nat.strong_induction_on generalizing r with
  | h m ih =>
      rcases r.read_spec henabled 1 with ⟨hfront, -⟩ |
        ⟨p, bs, k, sizes, hfront, -, -, hkl, hk, hread⟩
      · exfalso
        unfold front at hfront
        split at hfront
        · cases hfront
        · next hp =>
            rw [behind, not_not.mp hp, List.drop_zero] at hr
            rcases Frame.nextData_outline knownTag takenForData r.inner.bytes with
              ⟨len, rest, hnext, -⟩ | hnext
            · rw [hnext] at hfront
              cases hfront
            · rw [hr, hfront] at hnext
              exact hleft hnext.symm
      · rcases read_behind henabled hread with hbehind | ⟨len, rest, hnext, hrest⟩
        · have hpos : k ≠ 0 := by
            intro h0
            rcases hk h0 with h | h
            · cases h
            · rw [hr, behind, h, List.drop_nil, List.drop_nil, Frame.outline_nil] at hbehind
              rw [← hbehind, Frame.nextData_of_short (by simp)] at hleft
              exact hleft rfl
          have hlen := length_of_front hfront
          obtain ⟨ns, n, out, r', h⟩ := ih (bs.drop k).length
            (by rw [List.length_drop]; omega) (r := ⟨⟨bs.drop k, sizes⟩, r.enabled, p - k⟩)
            henabled (hbehind.trans hr) rfl
          refine ⟨1 :: ns, n, out, r', ?_⟩
          simpa only [reads, hread] using h
        · refine ⟨[], 1, _, _, hread, ?_⟩
          intro hsuffix
          rw [hr] at hnext
          have h₁ := (hsuffix.trans hrest).length_le
          have h₂ := (Frame.nextData_pos hnext).2
          omega

end MplexReader

/-- Among frames with known headers, those taken for data are those of data. -/
theorem dataOf_outline_knownTag
    (stream : List UInt8) :
  Frame.dataOf takenForData (Frame.outline knownTag stream).1 =
    Frame.dataOf dataTag (Frame.outline knownTag stream).1
  := by
  unfold Frame.dataOf
  rw [List.flatMap_def, List.flatMap_def]
  apply congrArg List.flatten
  apply List.map_congr_left
  intro f hf
  rw [takenForData_of_knownTag (Frame.known_of_mem_outline hf)]

/-- Only data frames deliver data exactly over the streams in which nothing is taken for data
from the first unknown header on. -/
theorem onlyDataFrames_iff
    (stream : List UInt8) :
  OnlyDataFrames stream ↔ NothingTaken stream
  := by
  have hstart : MplexReader.behind ⟨⟨stream, []⟩, true, 0⟩ = (Frame.outline knownTag stream).2 := by
    rw [MplexReader.behind, List.drop_zero]
  unfold NothingTaken
  rw [← Frame.nextData_eq_none_iff]
  constructor
  · intro h
    by_contra hsome
    obtain ⟨ns, n, out, r', hread, hbeyond⟩ := MplexReader.exists_read_behind hsome
      (r := ⟨⟨stream, []⟩, true, 0⟩) rfl hstart
    exact hbeyond ((h [] ns).2 n out r' hread)
  · intro hnone sizes ns run
    obtain ⟨henabled, hbehind⟩ := MplexReader.reads_behind hnone
      (r := ⟨⟨stream, sizes⟩, true, 0⟩) rfl (Or.inl hstart) ns
    constructor
    · have houtline : (Frame.outline (fun _ => true) stream).1 =
          (Frame.outline knownTag stream).1 ++
            (Frame.outline (fun _ => true) (Frame.outline knownTag stream).2).1 :=
        Frame.outline_outline (fun _ _ => rfl) stream
      have hsplit := (MplexReader.reads_undelivered
        (r := ⟨⟨stream, sizes⟩, true, 0⟩) rfl ns).2.1
      rw [MplexReader.undelivered, List.take_zero, List.drop_zero, List.nil_append,
        houtline, Frame.dataOf_append, dataOf_outline_knownTag,
        Frame.dataOf_of_nextData_none hnone, List.append_nil] at hsplit
      rw [hsplit]
      apply List.prefix_append
    · intro n out r' hread
      rcases hbehind with hbehind | ⟨hnil, hp⟩
      · rcases MplexReader.read_behind henabled hread with h | ⟨len, rest, hsome, -⟩
        · rw [← hbehind, ← h]
          apply MplexReader.behind_suffix
        · rw [hbehind, hnone] at hsome
          cases hsome
      · -- a reader at the end of its stream does not succeed again
        rcases MplexReader.read_spec henabled n with ⟨-, sizes', hfail⟩ |
          ⟨p, bs, k, sizes', hfront, -⟩
        · rw [hread] at hfail
          cases hfail
        · rw [MplexReader.front, hp, if_neg (by simp), hnil,
            Frame.nextData_of_short (by simp)] at hfront
          cases hfront

/-- The byte after a header below the base is returned as data. -/
theorem not_onlyDataFrames :
  MplexReader.returned (MplexReader.reads [1] ⟨⟨[1, 0, 0, 0, 65], []⟩, true, 0⟩).1 = [65] ∧
    ¬ OnlyDataFrames [1, 0, 0, 0, 65]
  := by
  have htaken : Frame.dataOf takenForData
      (Frame.outline (fun _ => true) [1, 0, 0, 0, 65]).1 = [65] := by
    rw [Frame.outline_cons, if_pos rfl,
      show List.drop (ofLeBytes [1, 0, 0]) [(65 : UInt8)] = [] from rfl, Frame.outline_nil]
    rfl
  have hknown : (Frame.outline knownTag [1, 0, 0, 0, 65]).1 = [] := by
    rw [Frame.outline_cons, if_neg (by decide)]
  have hreturned : MplexReader.returned
      (MplexReader.reads [1] ⟨⟨[1, 0, 0, 0, 65], []⟩, true, 0⟩).1 = [65] := by
    obtain ⟨-, hsplit, -, henough⟩ := MplexReader.reads_undelivered
      (r := ⟨⟨[1, 0, 0, 0, 65], []⟩, true, 0⟩) rfl [1]
    have hall : MplexReader.undelivered ⟨⟨[1, 0, 0, 0, 65], []⟩, true, 0⟩ = [65] := htaken
    rw [hall] at hsplit henough
    rw [henough (by decide), List.append_nil] at hsplit
    apply hsplit.symm
  refine ⟨hreturned, ?_⟩
  intro h
  have hprefix := (h [] [1]).1
  rw [hreturned, hknown] at hprefix
  exact absurd hprefix.length_le (by simp)

/-! ### Whole buffers of data -/

namespace MultiplexStream

/-- The data that reads may still return: that of the frames before a header that is rejected. -/
def undelivered (s : MultiplexStream) : List UInt8 :=
  s.reader.bytes.take s.pendingData ++
    Frame.dataOf dataTag (Frame.outline knownTag (s.reader.bytes.drop s.pendingData)).1

/-- No data is lost when headers are read. -/
theorem undelivered_refill
    {s s' : MultiplexStream} (h : s.refill = (.ok (), s')) :
  s.undelivered = s'.undelivered
  := by
  by_cases hp : s.pendingData = 0
  · rw [undelivered, hp, List.take_zero, List.drop_zero, List.nil_append]
    apply (Frame.dataOf_of_nextData_some (refill_ok hp h)).1
  · rw [refill_of_pending hp] at h
    cases h
    rfl

/-- Some of the pending data is read. -/
theorem undelivered_take
    {s : MultiplexStream} {k : ℕ} (hk : k ≤ s.pendingData) (sizes : List ℕ) :
  s.undelivered = s.reader.bytes.take k ++
    undelivered { s with
      reader := ⟨s.reader.bytes.drop k, sizes⟩
      pendingData := s.pendingData - k }
  := by
  have htake : s.reader.bytes.take s.pendingData =
      s.reader.bytes.take k ++ (s.reader.bytes.drop k).take (s.pendingData - k) := by
    rw [← List.take_add, Nat.add_sub_cancel' hk]
  rw [undelivered, undelivered, htake, List.drop_drop, Nat.add_sub_cancel' hk, List.append_assoc]

theorem undelivered_readLoop
    {s s' : MultiplexStream} {n : ℕ} {out : List UInt8} (h : s.readLoop n = (.ok out, s')) :
  out.length = n ∧ s.undelivered = out ++ s'.undelivered
  := by
  induction n using Nat.strong_induction_on generalizing s out with
  | h n ih =>
      rw [readLoop] at h
      split at h
      · next hn =>
        cases h
        exact ⟨hn.symm, rfl⟩
      split at h
      · cases h
      next s₁ hrefill =>
      have hpending := pendingData_of_refill_ok hrefill
      rw [undelivered_refill hrefill]
      by_cases hlen : min n s₁.pendingData ≤ s₁.reader.bytes.length
      · obtain ⟨sizes, hread⟩ := ByteSource.readExact_of_le hlen
        dsimp only at h
        rw [hread] at h
        dsimp only at h
        split at h
        · cases h
        · next rest s₂ hrest =>
          cases h
          obtain ⟨hcount, hdata⟩ := ih _ (by omega) hrest
          constructor
          · rw [List.length_append, hcount, List.length_take]
            omega
          · rw [undelivered_take (Nat.min_le_right _ _) sizes, hdata, List.append_assoc]
      · obtain ⟨sizes, hread⟩ := ByteSource.readExact_of_lt (not_le.mp hlen)
        dsimp only at h
        rw [hread] at h
        cases h

/-- A read that succeeds fills its buffer with the next data of frames whose headers are accepted,
whatever the stream is. -/
theorem undelivered_readData
    {s s' : MultiplexStream} {n : ℕ} {out : List UInt8} (hin : s.multiplexIn = true)
    (h : s.readData n = (.ok out, s')) :
  out.length = n ∧ s.undelivered = out ++ s'.undelivered
  := by
  rw [readData, if_neg (not_not_intro hin)] at h
  exact undelivered_readLoop h

end MultiplexStream
