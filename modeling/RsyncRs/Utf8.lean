import Mathlib.Data.List.Basic
import Mathlib.Data.Nat.Notation

/-!
# Strings from bytes

Names come from the peer as bytes and are made strings: malformed parts are replaced by the
replacement character.
-/

/-- Number of bytes of a character that starts with `b`, zero when no character does. -/
def utf8Len (b : UInt8) : ℕ :=
  if b < 0x80 then 1
  else if 0xC2 ≤ b ∧ b ≤ 0xDF then 2
  else if 0xE0 ≤ b ∧ b ≤ 0xEF then 3
  else if 0xF0 ≤ b ∧ b ≤ 0xF4 then 4
  else 0

/-- The byte continues a character. -/
def isContinuation (b : UInt8) : Bool :=
  0x80 ≤ b ∧ b ≤ 0xBF

/-- The byte may come second in a character that starts with `first`. -/
def isSecond (first b : UInt8) : Bool :=
  if first = 0xE0 then 0xA0 ≤ b ∧ b ≤ 0xBF
  else if first = 0xED then 0x80 ≤ b ∧ b ≤ 0x9F
  else if first = 0xF0 then 0x90 ≤ b ∧ b ≤ 0xBF
  else if first = 0xF4 then 0x80 ≤ b ∧ b ≤ 0x8F
  else isContinuation b

/-- How many of the bytes after the first two continue a character, at most `n`. -/
def continued : ℕ → List UInt8 → ℕ
  | 0, _ => 0
  | _, [] => 0
  | n + 1, b :: bs => if isContinuation b then continued n bs + 1 else 0

/-- The bytes from `first` on start with a character, or with a malformed part: the number
of bytes after the first one, and whether they are a character. -/
def utf8Part (first : UInt8) (bs : List UInt8) : ℕ × Bool :=
  match utf8Len first, bs with
  | 0, _ => (0, false)
  | 1, _ => (0, true)
  | _, [] => (0, false)
  | n + 2, b :: bs =>
    if isSecond first b then
      (continued n bs + 1, continued n bs = n)
    else
      (0, false)

/-- The replacement character. -/
def replacement : List UInt8 :=
  [0xEF, 0xBF, 0xBD]

/-- The string of some bytes. -/
def fromUtf8Lossy : List UInt8 → List UInt8
  | [] => []
  | b :: bs =>
    let part := utf8Part b bs
    (if part.2 then b :: bs.take part.1 else replacement) ++ fromUtf8Lossy (bs.drop part.1)
termination_by bs => bs.length
decreasing_by
  rw [List.length_drop, List.length_cons]
  omega

/-! ### Strings -/

/-- The bytes are those of a string. -/
def isUtf8 : List UInt8 → Bool
  | [] => true
  | b :: bs => (utf8Part b bs).2 && isUtf8 (bs.drop (utf8Part b bs).1)
termination_by bs => bs.length
decreasing_by
  rw [List.length_drop, List.length_cons]
  omega

/-- A string is made of its bytes. -/
theorem fromUtf8Lossy_of_isUtf8
    {s : List UInt8} (h : isUtf8 s = true) :
  fromUtf8Lossy s = s
  := by
  induction s using isUtf8.induct with
  | case1 => rw [fromUtf8Lossy]
  | case2 b bs ih =>
      rw [isUtf8, Bool.and_eq_true] at h
      rw [fromUtf8Lossy, h.1, if_pos rfl, ih h.2, List.cons_append, List.take_append_drop]

theorem utf8Part_ascii
    {b : UInt8} (h : b < 0x80) (bs : List UInt8) :
  utf8Part b bs = (0, true)
  := by
  have hlen : utf8Len b = 1 := if_pos h
  simp [utf8Part, hlen]

theorem isUtf8_ascii
    {bs : List UInt8} (h : ∀ b ∈ bs, b < 0x80) :
  isUtf8 bs = true
  := by
  induction bs with
  | nil => rw [isUtf8]
  | cons b bs ih =>
      rw [isUtf8, utf8Part_ascii (h b List.mem_cons_self)]
      simpa using ih fun c hc => h c (List.mem_cons_of_mem _ hc)

/-- Nothing but the replacement character is put into a string. -/
theorem mem_fromUtf8Lossy
    {bs : List UInt8} {b : UInt8} (h : b ∈ fromUtf8Lossy bs) :
  b ∈ bs ∨ b ∈ replacement
  := by
  induction bs using fromUtf8Lossy.induct with
  | case1 =>
      rw [fromUtf8Lossy] at h
      exact Or.inl h
  | case2 c bs part ih =>
      rw [fromUtf8Lossy, List.mem_append] at h
      rcases h with h | h
      · split at h
        · rcases List.mem_cons.mp h with rfl | h
          · exact Or.inl List.mem_cons_self
          · exact Or.inl (List.mem_cons_of_mem _ (List.mem_of_mem_take h))
        · exact Or.inr h
      · rcases ih h with h | h
        · exact Or.inl (List.mem_cons_of_mem _ (List.mem_of_mem_drop h))
        · exact Or.inr h

/-- Bytes that make a string in ASCII are that string. -/
theorem isUtf8_of_lossy_ascii
    {bs : List UInt8} (h : ∀ b ∈ fromUtf8Lossy bs, b < 0x80) :
  isUtf8 bs = true
  := by
  induction bs using isUtf8.induct with
  | case1 => rw [isUtf8]
  | case2 b bs ih =>
      rw [fromUtf8Lossy] at h
      cases hpart : (utf8Part b bs).2 with
      | false =>
          rw [hpart, if_neg Bool.false_ne_true] at h
          have hbyte := h 0xEF (List.mem_append_left _ List.mem_cons_self)
          exact absurd hbyte (by decide)
      | true =>
          rw [isUtf8, hpart, Bool.true_and]
          apply ih
          intro c hc
          exact h c (List.mem_append_right _ hc)

/-! ### Strings that are cut -/

theorem continued_take
    {n : ℕ} {bs : List UInt8} (h : continued n bs = n) (k : ℕ) :
  continued n (bs.take k) = min n k
  := by
  induction n generalizing bs k with
  | zero => rw [continued, Nat.zero_min]
  | succ n ih =>
      cases bs with
      | nil => cases h
      | cons b bs =>
          rw [continued] at h
          split at h
          · next hb =>
            cases k with
            | zero => rfl
            | succ k =>
                rw [List.take_succ_cons, continued, if_pos hb, ih (by omega)]
                omega
          · cases h

/-- A character that is cut is one malformed part. -/
theorem utf8Part_take
    {b : UInt8} {bs : List UInt8} (h : (utf8Part b bs).2 = true) (k : ℕ) :
  utf8Part b (bs.take k) =
    if (utf8Part b bs).1 ≤ k then utf8Part b bs else (k, false)
  := by
  unfold utf8Part at h ⊢
  generalize utf8Len b = len at h ⊢
  match len, bs with
  | 0, _ => cases h
  | 1, _ => simp
  | n + 2, [] => cases h
  | n + 2, c :: cs =>
    dsimp only at h ⊢
    split at h
    · next hc =>
      have hcs : continued n cs = n := by simpa using h
      cases k with
      | zero => simp [hc]
      | succ k =>
          simp only [List.take_succ_cons, hc, if_true, continued_take hcs, hcs]
          by_cases hk : n ≤ k
          · simp [hk]
          · have hmin : min n k = k := by omega
            simp [hmin, hk]
            omega
    · cases h

/-- A string of at most `k` bytes and a part of a character are at most two bytes longer when
the part is replaced. -/
theorem length_fromUtf8Lossy_take_le
    {s : List UInt8} (h : isUtf8 s = true) (k : ℕ) :
  (fromUtf8Lossy (s.take k)).length ≤ k + 2
  := by
  induction s using isUtf8.induct generalizing k with
  | case1 =>
      rw [List.take_nil, fromUtf8Lossy]
      apply Nat.zero_le
  | case2 b bs ih =>
      rw [isUtf8, Bool.and_eq_true] at h
      obtain ⟨hpart, hrest⟩ := h
      cases k with
      | zero =>
          rw [List.take_zero, fromUtf8Lossy]
          apply Nat.zero_le
      | succ k =>
          rw [List.take_succ_cons, fromUtf8Lossy, utf8Part_take hpart]
          by_cases hk : (utf8Part b bs).1 ≤ k
          · rw [if_pos hk]
            have ih' := ih hrest (k - (utf8Part b bs).1)
            rw [hpart, if_pos rfl, List.drop_take, List.length_append, List.length_cons,
              List.take_take, List.length_take]
            omega
          · rw [if_neg hk]
            have hnil : (bs.take k).drop k = [] := by
              rw [List.drop_eq_nil_iff, List.length_take]
              omega
            rw [if_neg Bool.false_ne_true, hnil, fromUtf8Lossy, List.append_nil, replacement]
            simp

/-! ### Strings that start in a character -/

theorem isContinuation_of_isSecond
    {first b : UInt8} (h : isSecond first b = true) :
  isContinuation b = true
  := by
  unfold isSecond at h
  unfold isContinuation at h ⊢
  simp only [UInt8.le_iff_toNat_le, decide_eq_true_eq] at h ⊢
  simp only [UInt8.reduceToNat] at h ⊢
  split_ifs at h <;> simp only [decide_eq_true_eq] at h <;> omega

theorem isContinuation_of_continued
    {n : ℕ} {bs : List UInt8} (h : continued n bs = n) :
  ∀ b ∈ bs.take n, isContinuation b = true
  := by
  induction n generalizing bs with
  | zero => simp
  | succ n ih =>
      cases bs with
      | nil => cases h
      | cons b bs =>
          rw [continued] at h
          split at h
          · next hb =>
            intro c hc
            rw [List.take_succ_cons, List.mem_cons] at hc
            rcases hc with rfl | hc
            · exact hb
            · exact ih (by omega) c hc
          · cases h

/-- A character has at most three bytes after the first one, and these continue it. -/
theorem utf8Part_of_character
    {b : UInt8} {bs : List UInt8} (h : (utf8Part b bs).2 = true) :
  (utf8Part b bs).1 ≤ 3 ∧ ∀ c ∈ bs.take (utf8Part b bs).1, isContinuation c = true
  := by
  have hlen : utf8Len b ≤ 4 := by
    unfold utf8Len
    split_ifs <;> decide
  unfold utf8Part at h ⊢
  generalize utf8Len b = len at h hlen ⊢
  match len, bs with
  | 0, _ => cases h
  | 1, _ => simp
  | n + 2, [] => cases h
  | n + 2, c :: cs =>
    dsimp only at h ⊢
    split at h
    · next hc =>
      have hcs : continued n cs = n := by simpa using h
      rw [if_pos hc, hcs]
      refine ⟨by omega, ?_⟩
      intro d hd
      rw [List.take_succ_cons, List.mem_cons] at hd
      rcases hd with rfl | hd
      · exact isContinuation_of_isSecond hc
      · exact isContinuation_of_continued hcs d hd
    · cases h

/-- What is left of a string after its first bytes is the end of a character and a string. -/
theorem exists_drop_of_isUtf8
    {s : List UInt8} (h : isUtf8 s = true) (k : ℕ) :
  ∃ c t, s.drop k = c ++ t ∧ c.length ≤ 3 ∧ (∀ b ∈ c, isContinuation b = true) ∧ isUtf8 t = true
  := by
  induction s using isUtf8.induct generalizing k with
  | case1 => exact ⟨[], [], List.drop_nil, by simp, by simp, h⟩
  | case2 b bs ih =>
      cases k with
      | zero => exact ⟨[], b :: bs, rfl, by simp, by simp, h⟩
      | succ k =>
          rw [isUtf8, Bool.and_eq_true] at h
          obtain ⟨hpart, hrest⟩ := h
          obtain ⟨hlen, hcont⟩ := utf8Part_of_character hpart
          rw [List.drop_succ_cons]
          by_cases hk : (utf8Part b bs).1 ≤ k
          · obtain ⟨c, t, hdrop, hc⟩ := ih hrest (k - (utf8Part b bs).1)
            rw [List.drop_drop, Nat.add_sub_cancel' hk] at hdrop
            exact ⟨c, t, hdrop, hc⟩
          · refine ⟨(bs.take (utf8Part b bs).1).drop k, bs.drop (utf8Part b bs).1, ?_, ?_, ?_,
              hrest⟩
            · obtain ⟨n, hn⟩ := Nat.exists_eq_add_of_le (Nat.le_of_not_le hk)
              rw [hn, List.drop_take, Nat.add_sub_cancel_left, ← List.drop_drop,
                List.take_append_drop]
            · rw [List.length_drop, List.length_take]
              omega
            · intro c hc
              exact hcont c (List.mem_of_mem_drop hc)

/-- Each byte that continues a character which is not there is malformed by itself. -/
theorem fromUtf8Lossy_continuation
    {b : UInt8} (h : isContinuation b = true) (bs : List UInt8) :
  fromUtf8Lossy (b :: bs) = replacement ++ fromUtf8Lossy bs
  := by
  have hlen : utf8Len b = 0 := by
    unfold isContinuation at h
    unfold utf8Len
    simp only [UInt8.le_iff_toNat_le, UInt8.lt_iff_toNat_lt, decide_eq_true_eq,
      UInt8.reduceToNat] at h ⊢
    split_ifs <;> omega
  have hpart : utf8Part b bs = (0, false) := by simp [utf8Part, hlen]
  rw [fromUtf8Lossy, hpart]
  rfl

theorem fromUtf8Lossy_continuations
    {c : List UInt8} (h : ∀ b ∈ c, isContinuation b = true) {t : List UInt8}
    (ht : isUtf8 t = true) :
  fromUtf8Lossy (c ++ t) = (List.replicate c.length replacement).flatten ++ t
  := by
  induction c with
  | nil => exact fromUtf8Lossy_of_isUtf8 ht
  | cons b c ih =>
      rw [List.cons_append, fromUtf8Lossy_continuation (h b List.mem_cons_self),
        ih fun d hd => h d (List.mem_cons_of_mem _ hd), List.length_cons, List.replicate_succ,
        List.flatten_cons, List.append_assoc]

theorem isUtf8_replacement
    (t : List UInt8) :
  isUtf8 (replacement ++ t) = isUtf8 t
  := by
  have hpart : utf8Part 0xEF (0xBF :: 0xBD :: t) = (2, true) := rfl
  rw [replacement, List.cons_append, isUtf8]
  simp only [List.cons_append, List.nil_append, hpart, Bool.true_and, List.drop_succ_cons,
    List.drop_zero]

/-- Bytes that start with the string they make are that string. -/
theorem isUtf8_of_lossy_prefix
    {bs : List UInt8} (h : fromUtf8Lossy bs <+: bs) :
  isUtf8 bs = true
  := by
  induction bs using isUtf8.induct with
  | case1 => rw [isUtf8]
  | case2 b bs ih =>
      rw [fromUtf8Lossy] at h
      cases hpart : (utf8Part b bs).2 with
      | true =>
          have hsplit : b :: bs =
              (b :: bs.take (utf8Part b bs).1) ++ bs.drop (utf8Part b bs).1 := by
            rw [List.cons_append, List.take_append_drop]
          rw [hpart, if_pos rfl, hsplit, List.prefix_append_right_inj] at h
          rw [isUtf8, hpart, Bool.true_and, ih h]
      | false =>
          -- then the bytes would be those of the replacement character
          rw [hpart, if_neg Bool.false_ne_true, replacement] at h
          obtain ⟨t, ht⟩ := h
          simp only [List.cons_append, List.nil_append, List.cons.injEq] at ht
          obtain ⟨hb, hbs⟩ := ht
          rw [← hb, ← hbs] at hpart
          cases hpart

/-- Bytes that make a string of themselves are one. -/
theorem fromUtf8Lossy_eq_self_iff
    {bs : List UInt8} :
  fromUtf8Lossy bs = bs ↔ isUtf8 bs = true
  := by
  constructor
  · intro h
    apply isUtf8_of_lossy_prefix
    exact ⟨[], (List.append_nil _).trans h⟩
  · apply fromUtf8Lossy_of_isUtf8

/-- A string without its first bytes makes the same string only when no bytes are missing, or
when the missing bytes are two of each of one or two replacement characters. -/
theorem fromUtf8Lossy_drop_eq_iff
    {s : List UInt8} (h : isUtf8 s = true) {k : ℕ} (hk : k < s.length) :
  fromUtf8Lossy (s.drop k) = s ↔
    k = 0 ∨ k = 2 ∧ replacement <+: s ∨ k = 4 ∧ replacement ++ replacement <+: s
  := by
  constructor
  · intro heq
    obtain ⟨c, t, hdrop, hlen, hcont, ht⟩ := exists_drop_of_isUtf8 h k
    rw [hdrop, fromUtf8Lossy_continuations hcont ht] at heq
    have hcount : k = 2 * c.length := by
      have hs := congrArg List.length heq
      have hd := congrArg List.length hdrop
      rw [List.length_append, List.length_flatten] at hs
      rw [List.length_drop, List.length_append] at hd
      simp [replacement] at hs
      omega
    match c, hlen with
    | [], _ => exact Or.inl hcount
    | [_], _ => exact Or.inr (Or.inl ⟨hcount, t, by simpa using heq⟩)
    | [_, _], _ => exact Or.inr (Or.inr ⟨hcount, t, by simpa using heq⟩)
    | [b, _, _], _ =>
        -- the first of three such bytes would start the third replacement character
        subst heq
        subst hcount
        have hb := hcont b List.mem_cons_self
        simp [replacement] at hdrop
        rw [← hdrop.1] at hb
        exact absurd hb (by decide)
  · rintro (rfl | ⟨rfl, t, rfl⟩ | ⟨rfl, t, rfl⟩)
    · rw [List.drop_zero, fromUtf8Lossy_of_isUtf8 h]
    · rw [isUtf8_replacement] at h
      exact fromUtf8Lossy_continuations (c := [0xBD]) (by decide +kernel) h
    · rw [List.append_assoc, isUtf8_replacement, isUtf8_replacement] at h
      exact fromUtf8Lossy_continuations (c := [0xBF, 0xBD]) (by decide +kernel) h

/-! ### Strings that are split -/

theorem continued_append
    (n : ℕ) (bs : List UInt8) {b : UInt8} (hb : isContinuation b = false) (rest : List UInt8) :
  continued n (bs ++ b :: rest) = continued n bs
  := by
  induction n generalizing bs with
  | zero => rw [continued, continued]
  | succ n ih =>
      cases bs with
      | nil => simp [continued, hb]
      | cons c cs => rw [List.cons_append, continued, continued, ih cs]

theorem continued_le
    (n : ℕ) (bs : List UInt8) :
  continued n bs ≤ bs.length
  := by
  induction n generalizing bs with
  | zero =>
      rw [continued]
      apply Nat.zero_le
  | succ n ih =>
      cases bs with
      | nil => exact Nat.le_refl 0
      | cons c cs =>
          rw [continued]
          split
          · exact Nat.succ_le_succ (ih cs)
          · apply Nat.zero_le

/-- A byte that continues no character ends the one before it. -/
theorem utf8Part_append
    (c : UInt8) (bs : List UInt8) {b : UInt8} (hb : isContinuation b = false) (rest : List UInt8) :
  utf8Part c (bs ++ b :: rest) = utf8Part c bs
  := by
  unfold utf8Part
  generalize hlen : utf8Len c = len
  match len, bs with
  | 0, _ => rfl
  | 1, _ => rfl
  | n + 2, [] =>
    have hsecond : isSecond c b = false := by
      cases h : isSecond c b with
      | false => rfl
      | true => exact (isContinuation_of_isSecond h).symm.trans hb
    simp [hsecond]
  | n + 2, d :: ds => simp only [List.cons_append, continued_append n ds hb rest]

theorem utf8Part_le
    (c : UInt8) (bs : List UInt8) :
  (utf8Part c bs).1 ≤ bs.length
  := by
  unfold utf8Part
  generalize utf8Len c = len
  match len, bs with
  | 0, _ => apply Nat.zero_le
  | 1, _ => apply Nat.zero_le
  | n + 2, [] => apply Nat.zero_le
  | n + 2, d :: ds =>
    dsimp only
    split
    · exact Nat.succ_le_succ (continued_le n ds)
    · apply Nat.zero_le

theorem isContinuation_ascii
    {b : UInt8} (hb : b < 0x80) :
  isContinuation b = false
  := by
  have hlt : ¬ 0x80 ≤ b := UInt8.not_le.mpr hb
  simp [isContinuation, hlt]

theorem isUtf8_append
    (bs : List UInt8) {b : UInt8} (hb : b < 0x80) (rest : List UInt8) :
  isUtf8 (bs ++ b :: rest) = (isUtf8 bs && isUtf8 rest)
  := by
  have hcont := isContinuation_ascii hb
  induction bs using isUtf8.induct with
  | case1 =>
      have hnil : isUtf8 [] = true := by rw [isUtf8]
      rw [hnil, List.nil_append, isUtf8, utf8Part_ascii hb]
      rfl
  | case2 c cs ih =>
      have hle := utf8Part_le c cs
      have hcons := isUtf8.eq_2 c cs
      rw [List.cons_append, isUtf8, utf8Part_append c cs hcont rest,
        List.drop_append_of_le_length hle, ih, hcons, Bool.and_assoc]

theorem continued_append_full
    {n : ℕ} {bs : List UInt8} (h : continued n bs = n) (t : List UInt8) :
  continued n (bs ++ t) = n
  := by
  induction n generalizing bs with
  | zero => rw [continued]
  | succ n ih =>
      cases bs with
      | nil => cases h
      | cons b bs =>
          rw [continued] at h
          split at h
          · next hb => rw [List.cons_append, continued, if_pos hb, ih (Nat.succ.inj h)]
          · cases h

/-- A character does not depend on what comes after it. -/
theorem utf8Part_append_character
    {b : UInt8} {bs : List UInt8} (h : (utf8Part b bs).2 = true) (t : List UInt8) :
  utf8Part b (bs ++ t) = utf8Part b bs
  := by
  unfold utf8Part at h ⊢
  generalize utf8Len b = len at h ⊢
  match len, bs with
  | 0, _ => cases h
  | 1, _ => rfl
  | n + 2, [] => cases h
  | n + 2, c :: cs =>
    dsimp only [List.cons_append] at h ⊢
    split at h
    · next hc =>
      have hcs : continued n cs = n := of_decide_eq_true h
      rw [continued_append_full hcs, hcs]
    · cases h

/-- The string of some bytes is one. -/
theorem isUtf8_fromUtf8Lossy
    (bs : List UInt8) :
  isUtf8 (fromUtf8Lossy bs) = true
  := by
  induction bs using fromUtf8Lossy.induct with
  | case1 => rw [fromUtf8Lossy, isUtf8]
  | case2 b bs part ih =>
      rw [fromUtf8Lossy]
      cases hpart : (utf8Part b bs).2 with
      | false => rw [if_neg Bool.false_ne_true, isUtf8_replacement, ih]
      | true =>
          have htake : utf8Part b (bs.take (utf8Part b bs).1) = utf8Part b bs := by
            rw [utf8Part_take hpart, if_pos (Nat.le_refl _)]
          have hchar : (utf8Part b (bs.take (utf8Part b bs).1)).2 = true := by rw [htake, hpart]
          have hlen : (bs.take (utf8Part b bs).1).length = (utf8Part b bs).1 :=
            List.length_take_of_le (utf8Part_le b bs)
          rw [if_pos rfl, List.cons_append, isUtf8, utf8Part_append_character hchar, htake, hpart,
            Bool.true_and, List.drop_append_of_le_length (Nat.le_of_eq hlen.symm),
            List.drop_eq_nil_of_le (Nat.le_of_eq hlen), List.nil_append]
          exact ih

/-! ### The bytes of characters -/

theorem utf8Len_ofNat
    {n : ℕ} (h : n < 256) :
  utf8Len (UInt8.ofNat n) =
    if n < 0x80 then 1
    else if 0xC2 ≤ n ∧ n ≤ 0xDF then 2
    else if 0xE0 ≤ n ∧ n ≤ 0xEF then 3
    else if 0xF0 ≤ n ∧ n ≤ 0xF4 then 4
    else 0
  := by
  simp only [utf8Len, UInt8.lt_iff_toNat_lt, UInt8.le_iff_toNat_le, UInt8.toNat_ofNat',
    UInt8.reduceToNat, Nat.mod_eq_of_lt h]

theorem isContinuation_ofNat
    {n : ℕ} (h : 0x80 ≤ n) (h' : n < 0xC0) :
  isContinuation (UInt8.ofNat n) = true
  := by
  simp only [isContinuation, UInt8.le_iff_toNat_le, UInt8.toNat_ofNat', UInt8.reduceToNat,
    decide_eq_true_eq]
  omega

/-- A second byte is one after all of these first bytes. -/
theorem isSecond_ofNat
    {m n : ℕ} (hm : m < 256) (h : 0x80 ≤ n) (h' : n < 0xC0) (hE0 : m = 0xE0 → 0xA0 ≤ n)
    (hED : m = 0xED → n ≤ 0x9F) (hF0 : m = 0xF0 → 0x90 ≤ n) (hF4 : m = 0xF4 → n ≤ 0x8F) :
  isSecond (UInt8.ofNat m) (UInt8.ofNat n) = true
  := by
  simp only [isSecond, isContinuation, UInt8.le_iff_toNat_le, UInt8.toNat_ofNat',
    UInt8.reduceToNat, ← UInt8.toNat_inj]
  split_ifs <;> simp only [decide_eq_true_eq] <;> omega

/-- The bytes of a character start with a character. -/
theorem utf8Part_encodeChar
    (c : Char) (bs : List UInt8) :
  ∃ b cs, String.utf8EncodeChar c = b :: cs ∧ utf8Part b (cs ++ bs) = (cs.length, true)
  := by
  have hvalid : c.val.toNat < 0xD800 ∨ 0xDFFF < c.val.toNat ∧ c.val.toNat < 0x110000 := c.valid
  unfold String.utf8EncodeChar
  generalize c.val.toNat = v at hvalid ⊢
  dsimp only
  split_ifs with h₁ h₂ h₃
  · refine ⟨_, _, rfl, ?_⟩
    have hlen : utf8Len (UInt8.ofNat v) = 1 := by
      rw [utf8Len_ofNat (by omega), if_pos (by omega)]
    simp only [utf8Part, hlen, List.length_nil]
  · refine ⟨_, _, rfl, ?_⟩
    have hlen : utf8Len (UInt8.ofNat (v / 64 % 32 + 192)) = 2 := by
      rw [utf8Len_ofNat (by omega), if_neg (by omega), if_pos (by omega)]
    simp only [utf8Part, hlen, List.cons_append, List.nil_append]
    rw [if_pos (isSecond_ofNat (by omega) (by omega) (by omega) (by omega) (by omega) (by omega)
      (by omega))]
    rfl
  · refine ⟨_, _, rfl, ?_⟩
    have hlen : utf8Len (UInt8.ofNat (v / 4096 % 16 + 224)) = 3 := by
      rw [utf8Len_ofNat (by omega), if_neg (by omega), if_neg (by omega), if_pos (by omega)]
    simp only [utf8Part, hlen, List.cons_append, List.nil_append]
    rw [if_pos (isSecond_ofNat (by omega) (by omega) (by omega) (by omega) (by omega) (by omega)
      (by omega)), continued, if_pos (isContinuation_ofNat (by omega) (by omega)), continued]
    rfl
  · refine ⟨_, _, rfl, ?_⟩
    have hlen : utf8Len (UInt8.ofNat (v / 262144 % 8 + 240)) = 4 := by
      rw [utf8Len_ofNat (by omega), if_neg (by omega), if_neg (by omega), if_neg (by omega),
        if_pos (by omega)]
    simp only [utf8Part, hlen, List.cons_append, List.nil_append]
    rw [if_pos (isSecond_ofNat (by omega) (by omega) (by omega) (by omega) (by omega) (by omega)
      (by omega)), continued, if_pos (isContinuation_ofNat (by omega) (by omega)), continued,
      if_pos (isContinuation_ofNat (by omega) (by omega)), continued]
    rfl

/-- The bytes of characters are those of a string. -/
theorem isUtf8_encode
    (s : List Char) :
  isUtf8 (s.flatMap String.utf8EncodeChar) = true
  := by
  induction s with
  | nil => rw [List.flatMap_nil, isUtf8]
  | cons c s ih =>
      obtain ⟨b, cs, hc, hpart⟩ := utf8Part_encodeChar c (s.flatMap String.utf8EncodeChar)
      rw [List.flatMap_cons, hc, List.cons_append, isUtf8, hpart, List.drop_left]
      exact ih
