import Mathlib.Data.List.Forall2
import RsyncRs.Filter.Rules

/-!
# What wildcards match

A pattern is a sequence of elements. It matches a text that can be cut into consecutive pieces such
that each element matches its piece. The matcher goes through the pattern with a search at each
star; it finds such pieces whenever there are any.
-/

/-! ### Texts in pieces -/

section Pieces

variable {E A : Type} {R : E → List A → Prop}

/-- The text consists of pieces that the elements match one by one. -/
def MatchesPieces (R : E → List A → Prop) (es : List E) (pieces : List (List A)) (text : List A) :
    Prop :=
  List.Forall₂ R es pieces ∧ pieces.flatten = text

/-- The text can be cut into pieces that the elements match one by one. -/
def MatchesSeq (R : E → List A → Prop) (es : List E) (text : List A) : Prop :=
  ∃ pieces, MatchesPieces R es pieces text

theorem matchesSeq_nil_iff
    {text : List A} :
  MatchesSeq R [] text ↔ text = []
  := by
  constructor
  · rintro ⟨pieces, hall, rfl⟩
    cases hall
    rfl
  · rintro rfl
    exact ⟨[], .nil, rfl⟩

/-- The first element matches a piece at the start of the text, and the others match the rest. -/
theorem matchesSeq_cons_iff
    {e : E} {es : List E} {text : List A} :
  MatchesSeq R (e :: es) text ↔
    ∃ piece rest, text = piece ++ rest ∧ R e piece ∧ MatchesSeq R es rest
  := by
  constructor
  · rintro ⟨pieces, hall, rfl⟩
    cases hall with
    | @cons _ piece _ pieces h hall =>
        exact ⟨piece, pieces.flatten, rfl, h, pieces, hall, rfl⟩
  · rintro ⟨piece, rest, rfl, h, pieces, hall, rfl⟩
    exact ⟨piece :: pieces, .cons h hall, rfl⟩

/-- An element that matches single letters takes the first one. -/
theorem matchesSeq_cons_single_iff
    {e : E} {P : A → Prop} (h : ∀ piece, R e piece ↔ ∃ c, piece = [c] ∧ P c) {es : List E}
    {text : List A} :
  MatchesSeq R (e :: es) text ↔ ∃ c rest, text = c :: rest ∧ P c ∧ MatchesSeq R es rest
  := by
  rw [matchesSeq_cons_iff]
  constructor
  · rintro ⟨piece, rest, rfl, he, hrest⟩
    obtain ⟨c, rfl, hc⟩ := (h piece).mp he
    exact ⟨c, rest, rfl, hc, hrest⟩
  · rintro ⟨c, rest, rfl, hc, hrest⟩
    exact ⟨[c], rest, rfl, (h [c]).mpr ⟨c, rfl, hc⟩, hrest⟩

end Pieces

/-! ### Elements of a pattern -/

/-- An element of a pattern. -/
inductive GlobElement where
  /-- A byte. -/
  | byte (b : UInt8)
  /-- Any byte but a slash. -/
  | anyByte
  /-- A single star. -/
  | star
  /-- A run of two or more stars. -/
  | doubleStar
  /-- A class of bytes, given by ranges. -/
  | charClass (negated : Bool) (ranges : List (UInt8 × UInt8))
deriving DecidableEq, Repr

/-- The byte is in one of the ranges. -/
def InRanges (ranges : List (UInt8 × UInt8)) (c : UInt8) : Prop :=
  ∃ r ∈ ranges, r.1 ≤ c ∧ c ≤ r.2

instance (ranges : List (UInt8 × UInt8)) (c : UInt8) : Decidable (InRanges ranges c) :=
  inferInstanceAs (Decidable (∃ r ∈ ranges, r.1 ≤ c ∧ c ≤ r.2))

/-- A byte is in one more range. -/
theorem or_inRanges
    (matched : Bool) (r : UInt8 × UInt8) (ranges : List (UInt8 × UInt8)) (c : UInt8) :
  (matched || decide (r.1 ≤ c ∧ c ≤ r.2) || decide (InRanges ranges c)) =
    (matched || decide (InRanges (r :: ranges) c))
  := by
  have h : InRanges (r :: ranges) c ↔ (r.1 ≤ c ∧ c ≤ r.2) ∨ InRanges ranges c :=
    List.exists_mem_cons_iff ..
  rw [Bool.or_assoc, ← Bool.decide_or, decide_eq_decide.mpr h]

/-- The element matches a piece of a text. -/
def GlobElement.Matches : GlobElement → List UInt8 → Prop
  | .byte b, piece => piece = [b]
  | .anyByte, piece => ∃ c, piece = [c] ∧ c ≠ 0x2F
  | .star, piece => 0x2F ∉ piece
  | .doubleStar, _ => True
  | .charClass negated ranges, piece => ∃ c, piece = [c] ∧ (InRanges ranges c ↔ negated = false)

/-- The ranges of a class, and the pattern behind the class. A closing bracket ends the class but
where it comes first, and so does the end of the pattern. -/
def classRanges (first : Bool) : List UInt8 → List (UInt8 × UInt8) × List UInt8
  | [] => ([], [])
  | b :: rest =>
    if b = 0x5D ∧ first = false then
      ([], rest)
    else
      match rangeEnd rest with
      | some hi =>
        ((b, hi) :: (classRanges false (rest.drop 2)).1, (classRanges false (rest.drop 2)).2)
      | none => ((b, b) :: (classRanges false rest).1, (classRanges false rest).2)
termination_by pat => pat.length
decreasing_by
  all_goals
    simp only [List.length_drop, List.length_cons]
    omega

/-- The class behind an opening bracket, and the pattern behind the class. -/
def charClassOf (pat : List UInt8) : GlobElement × List UInt8 :=
  match pat with
  | 0x21 :: pat => (.charClass true (classRanges true pat).1, (classRanges true pat).2)
  | pat => (.charClass false (classRanges true pat).1, (classRanges true pat).2)

/-- A range is followed by two more bytes of the pattern. -/
theorem length_of_rangeEnd
    {rest : List UInt8} {hi : UInt8} (h : rangeEnd rest = some hi) :
  2 ≤ rest.length
  := by
  match rest with
  | [] => cases h
  | [_] => cases h
  | _ :: _ :: _ =>
      simp only [List.length_cons]
      omega

/-- The matcher goes through a class as it is parsed, and takes the bytes that the class takes. -/
theorem classRest_eq
    (ch : UInt8) (first matched : Bool) (i : ℕ) (pat : List UInt8) :
  ∃ k ≤ pat.length, (classRanges first pat).2 = pat.drop k ∧
    classRest ch first matched i pat =
      (matched || decide (InRanges (classRanges first pat).1 ch), i + k)
  := by
  induction first, pat using classRanges.induct generalizing matched i with
  | case1 first =>
      refine ⟨0, le_refl 0, ?_, ?_⟩
      · rw [classRanges]
        rfl
      · rw [classRest, classRanges]
        simp [InRanges]
  | case2 first b rest h =>
      refine ⟨1, ?_, ?_, ?_⟩
      · rw [List.length_cons]
        omega
      · rw [classRanges, if_pos h]
        rfl
      · rw [classRest, if_pos h, classRanges, if_pos h]
        simp [InRanges]
  | case3 first b rest h hi hhi ih =>
      obtain ⟨k, hk, hdrop, heq⟩ := ih (matched || (b ≤ ch ∧ ch ≤ hi)) (i + 3)
      have hlen := length_of_rangeEnd hhi
      refine ⟨k + 3, ?_, ?_, ?_⟩
      · rw [List.length_drop] at hk
        rw [List.length_cons]
        omega
      · rw [classRanges, if_neg h, hhi]
        dsimp only
        rw [hdrop, List.drop_drop, add_comm 2 k]
        rfl
      · rw [classRest, if_neg h, hhi, classRanges, if_neg h, hhi]
        dsimp only
        rw [heq, ← or_inRanges, add_assoc, add_comm 3 k]
  | case4 first b rest h hnone ih =>
      obtain ⟨k, hk, hdrop, heq⟩ := ih (matched || ch = b) (i + 1)
      refine ⟨k + 1, ?_, ?_, ?_⟩
      · rw [List.length_cons]
        omega
      · rw [classRanges, if_neg h, hnone]
        dsimp only
        rw [hdrop]
        rfl
      · have hsame : ch = b ↔ b ≤ ch ∧ ch ≤ b := by
          constructor
          · rintro rfl
            exact ⟨UInt8.le_refl _, UInt8.le_refl _⟩
          · rintro ⟨hlo, hhi⟩
            exact UInt8.le_antisymm hhi hlo
        rw [classRest, if_neg h, hnone, classRanges, if_neg h, hnone]
        dsimp only
        rw [heq, ← or_inRanges, decide_eq_decide.mpr hsame, add_assoc, add_comm 1 k]

/-- A class matches the pieces of one byte that is in it, or not in it when it is negated. -/
theorem matches_charClass_iff
    {negated : Bool} {ranges : List (UInt8 × UInt8)} {c : UInt8} :
  (GlobElement.charClass negated ranges).Matches [c] ↔ (InRanges ranges c ↔ negated = false)
  := by
  constructor
  · rintro ⟨c', heq, h⟩
    obtain rfl := List.singleton_inj.mp heq
    exact h
  · intro h
    exact ⟨c, rfl, h⟩

/-- A class is a class. -/
theorem charClassOf_eq
    (pat : List UInt8) :
  ∃ negated ranges, (charClassOf pat).1 = .charClass negated ranges
  := by
  unfold charClassOf
  split
  · exact ⟨true, _, rfl⟩
  · exact ⟨false, _, rfl⟩

/-- The matcher finds whether a byte is in a class, and goes on behind the class. -/
theorem matchCharClass_eq
    (pat : List UInt8) (ch : UInt8) :
  (charClassOf pat).2 = pat.drop (matchCharClass pat ch).2 ∧
    ((matchCharClass pat ch).1 = true ↔ (charClassOf pat).1.Matches [ch])
  := by
  by_cases hneg : ∃ pat', pat = 0x21 :: pat'
  · obtain ⟨pat, rfl⟩ := hneg
    obtain ⟨k, -, hdrop, heq⟩ := classRest_eq ch true false 1 pat
    have hclass : matchCharClass (0x21 :: pat) ch =
        (!(classRest ch true false 1 pat).1, (classRest ch true false 1 pat).2) := rfl
    have hparse : charClassOf (0x21 :: pat) =
        (.charClass true (classRanges true pat).1, (classRanges true pat).2) := rfl
    rw [hclass, hparse, heq, hdrop, matches_charClass_iff, add_comm 1 k]
    exact ⟨rfl, by simp⟩
  · obtain ⟨k, -, hdrop, heq⟩ := classRest_eq ch true false 0 pat
    have hclass : matchCharClass pat ch = classRest ch true false 0 pat := by
      unfold matchCharClass
      split
      · next pat => exact absurd ⟨pat, rfl⟩ hneg
      · rfl
    have hparse : charClassOf pat =
        (.charClass false (classRanges true pat).1, (classRanges true pat).2) := by
      unfold charClassOf
      split
      · next pat => exact absurd ⟨pat, rfl⟩ hneg
      · rfl
    rw [hclass, hparse, heq, hdrop, matches_charClass_iff, zero_add]
    exact ⟨rfl, by simp⟩

/-- The elements of a pattern. -/
def globElements : List UInt8 → List GlobElement
  | [] => []
  | p :: pat =>
    if p = 0x2A then
      (if pat.head? = some 0x2A then .doubleStar else .star) ::
        globElements (pat.dropWhile (· = 0x2A))
    else if p = 0x5B then
      (charClassOf pat).1 :: globElements (charClassOf pat).2
    else if p = 0x3F then
      .anyByte :: globElements pat
    else
      .byte p :: globElements pat
termination_by pat => pat.length
decreasing_by
  · have h := List.length_dropWhile_le (· = 0x2A) pat
    rw [List.length_cons]
    omega
  · rw [(matchCharClass_eq pat 0).1, List.length_drop, List.length_cons]
    omega
  · apply Nat.lt_succ_self
  · apply Nat.lt_succ_self

/-- The pattern matches the text: the text can be cut into pieces that the elements of the pattern
match. -/
def GlobMatches (pat text : List UInt8) : Prop :=
  MatchesSeq GlobElement.Matches (globElements pat) text

/-! ### What the matcher finds -/

/-- The texts left behind a star are those behind a piece that the star matches. -/
theorem mem_afterStar_iff
    {double : Bool} {text rest : List UInt8} :
  rest ∈ afterStar double text ↔ ∃ piece, text = piece ++ rest ∧ (double = true ∨ 0x2F ∉ piece)
  := by
  induction text with
  | nil =>
      rw [afterStar, List.mem_singleton]
      constructor
      · rintro rfl
        exact ⟨[], rfl, .inr (List.not_mem_nil)⟩
      · rintro ⟨piece, hpiece, -⟩
        exact (List.append_eq_nil_iff.mp hpiece.symm).2
  | cons b text ih =>
      rw [afterStar, List.mem_cons]
      constructor
      · rintro (rfl | h)
        · exact ⟨[], rfl, .inr (List.not_mem_nil)⟩
        · split at h
          · next hb =>
              obtain ⟨piece, rfl, hpiece⟩ := ih.mp h
              refine ⟨b :: piece, rfl, ?_⟩
              cases double with
              | true => exact .inl rfl
              | false =>
                  have hne : b ≠ 0x2F := by simpa using hb
                  right
                  rw [List.mem_cons, not_or]
                  exact ⟨hne.symm, hpiece.resolve_left (by decide)⟩
          · cases h
      · rintro ⟨piece, hpiece, hstar⟩
        cases piece with
        | nil => exact .inl hpiece.symm
        | cons c piece =>
            obtain ⟨rfl, rfl⟩ := List.cons.inj hpiece
            right
            rw [List.mem_cons, not_or] at hstar
            have hb : (double || decide (b ≠ 0x2F)) = true := by
              rcases hstar with rfl | ⟨hne, -⟩
              · rfl
              · rw [decide_eq_true (Ne.symm hne), Bool.or_true]
            rw [if_pos hb, ih]
            exact ⟨piece, rfl, hstar.imp_right And.right⟩

/-- The matcher at a run of stars. -/
theorem wildmatchBytes_star
    (pat text : List UInt8) :
  wildmatchBytes (0x2A :: pat) text =
    if pat.dropWhile (· = 0x2A) = [] then
      decide (pat.head? = some 0x2A) || !text.contains 0x2F
    else
      (afterStar (pat.head? = some 0x2A) text).any fun text =>
        wildmatchBytes (pat.dropWhile (· = 0x2A)) text
  := by
  rw [wildmatchBytes.eq_def]
  dsimp only
  rw [dif_pos rfl, starRun_eq]

/-- The matcher at any other byte of the pattern. -/
theorem wildmatchBytes_single
    {p : UInt8} (hp : p ≠ 0x2A) (pat : List UInt8) :
  wildmatchBytes (p :: pat) [] = false ∧
  ∀ b text, wildmatchBytes (p :: pat) (b :: text) =
    if p = 0x5B then
      (matchCharClass pat b).1 && wildmatchBytes (pat.drop (matchCharClass pat b).2) text
    else if p = 0x3F then
      b ≠ 0x2F && wildmatchBytes pat text
    else
      p = b && wildmatchBytes pat text
  := by
  constructor
  · rw [wildmatchBytes.eq_def]
    dsimp only
    rw [dif_neg hp]
  · intro b text
    rw [wildmatchBytes.eq_def]
    dsimp only
    rw [dif_neg hp]

/-- The element of a run of stars. -/
def starElement (pat : List UInt8) : GlobElement :=
  if pat.head? = some 0x2A then .doubleStar else .star

theorem matches_starElement_iff
    {pat piece : List UInt8} :
  (starElement pat).Matches piece ↔ decide (pat.head? = some 0x2A) = true ∨ 0x2F ∉ piece
  := by
  unfold starElement
  split
  · next h => simp [GlobElement.Matches, h]
  · next h => simp [GlobElement.Matches, h]

/-- The matcher finds the pieces of the text whenever there are any. -/
theorem wildmatchBytes_iff
    (pat text : List UInt8) :
  wildmatchBytes pat text = true ↔ GlobMatches pat text
  := by
  unfold GlobMatches
  induction pat using globElements.induct generalizing text with
  | case1 =>
      rw [wildmatchBytes, globElements, matchesSeq_nil_iff, decide_eq_true_iff]
  | case2 pat ih =>
      have helems : globElements (0x2A :: pat) =
          starElement pat :: globElements (pat.dropWhile (· = 0x2A)) := by
        rw [globElements, if_pos rfl]
        rfl
      rw [wildmatchBytes_star, helems, matchesSeq_cons_iff]
      simp only [matches_starElement_iff]
      by_cases hrest : pat.dropWhile (· = 0x2A) = []
      · -- the star takes the rest of the text
        rw [if_pos hrest, hrest, globElements]
        simp only [matchesSeq_nil_iff]
        constructor
        · intro h
          refine ⟨text, [], (List.append_nil text).symm, ?_, rfl⟩
          simpa using h
        · rintro ⟨piece, rest, rfl, h, rfl⟩
          simpa using h
      · rw [if_neg hrest, List.any_eq_true]
        constructor
        · rintro ⟨rest, hmem, hmatch⟩
          obtain ⟨piece, htext, hstar⟩ := mem_afterStar_iff.mp hmem
          exact ⟨piece, rest, htext, hstar, (ih rest).mp hmatch⟩
        · rintro ⟨piece, rest, htext, hstar, hmatch⟩
          exact ⟨rest, mem_afterStar_iff.mpr ⟨piece, htext, hstar⟩, (ih rest).mpr hmatch⟩
  | case3 pat h ih =>
      have hclass : ∀ piece, (charClassOf pat).1.Matches piece ↔
          ∃ c, piece = [c] ∧ (charClassOf pat).1.Matches [c] := by
        obtain ⟨negated, ranges, hclass⟩ := charClassOf_eq pat
        rw [hclass]
        simp only [matches_charClass_iff]
        intro piece
        exact Iff.rfl
      rw [globElements, if_neg h, if_pos rfl, matchesSeq_cons_single_iff hclass]
      obtain ⟨hnil, hcons⟩ := wildmatchBytes_single h pat
      cases text with
      | nil => simp [hnil]
      | cons b text =>
          obtain ⟨hdrop, hmatch⟩ := matchCharClass_eq pat b
          rw [hcons, if_pos rfl, Bool.and_eq_true, hmatch, ← hdrop, ih]
          simp
  | case4 pat h h' ih =>
      rw [globElements, if_neg h, if_neg h', if_pos rfl,
        matchesSeq_cons_single_iff (fun piece => Iff.rfl)]
      obtain ⟨hnil, hcons⟩ := wildmatchBytes_single h pat
      cases text with
      | nil => simp [hnil]
      | cons b text =>
          rw [hcons, if_neg h', if_pos rfl, Bool.and_eq_true, ih]
          simp
  | case5 p pat h h' h'' ih =>
      have hbyte : ∀ piece, (GlobElement.byte p).Matches piece ↔ ∃ c, piece = [c] ∧ c = p := by
        intro piece
        simp [GlobElement.Matches]
      rw [globElements, if_neg h, if_neg h', if_neg h'', matchesSeq_cons_single_iff hbyte]
      obtain ⟨hnil, hcons⟩ := wildmatchBytes_single h pat
      cases text with
      | nil => simp [hnil]
      | cons b text =>
          rw [hcons, if_neg h', if_neg h'', Bool.and_eq_true, ih, decide_eq_true_iff, eq_comm]
          simp

/-- A pattern matches a text exactly when the text can be cut into pieces that the elements of the
pattern match one by one. -/
theorem wildmatch_iff
    (pattern text : Str) :
  wildmatch pattern text = true ↔
    ∃ pieces, List.Forall₂ GlobElement.Matches (globElements pattern.bytes) pieces ∧
      pieces.flatten = text.bytes
  := wildmatchBytes_iff pattern.bytes text.bytes

/-! ### Slashes -/

/-- The element is a class. -/
def GlobElement.isClass : GlobElement → Bool
  | .charClass .. => true
  | _ => false

/-- The element is a class, and its piece is a slash. -/
def takesSlash (e : GlobElement × List UInt8) : Bool :=
  e.1.isClass && e.2 = [0x2F]

/-- The slashes of a piece are those of its element, unless a class takes one. -/
theorem GlobElement.Matches.count_slash
    {e : GlobElement} {piece : List UInt8} (h : e.Matches piece) (he : e ≠ .doubleStar) :
  piece.count 0x2F = [e].count (.byte 0x2F) + [(e, piece)].countP takesSlash
  := by
  cases e with
  | byte b =>
      cases h
      by_cases hb : b = 0x2F
      · subst hb
        rfl
      · simp [hb, takesSlash, isClass]
  | anyByte =>
      obtain ⟨c, rfl, hc⟩ := h
      simp [hc, takesSlash, isClass]
  | star =>
      rw [List.count_eq_zero.mpr h]
      simp [takesSlash, isClass]
  | doubleStar => exact absurd rfl he
  | charClass negated ranges =>
      obtain ⟨c, rfl, -⟩ := h
      by_cases hc : c = 0x2F
      · subst hc
        rfl
      · simp [hc, takesSlash, isClass]

/-- Without a double star the slashes of the text are those of the pattern and those that classes
take. -/
theorem MatchesPieces.count_slash
    {es : List GlobElement} {pieces : List (List UInt8)} {text : List UInt8}
    (h : MatchesPieces GlobElement.Matches es pieces text) (hstar : .doubleStar ∉ es) :
  text.count 0x2F = es.count (.byte 0x2F) + (es.zip pieces).countP takesSlash
  := by
  obtain ⟨hall, rfl⟩ := h
  induction hall with
  | nil => rfl
  | @cons e piece es pieces he hall ih =>
      rw [List.mem_cons, not_or] at hstar
      have hhead := he.count_slash (Ne.symm hstar.1)
      have hrest := ih hstar.2
      rw [List.flatten_cons, List.count_append, hhead, hrest, ← List.singleton_append (l := es),
        List.count_append, List.singleton_append, List.zip_cons_cons,
        ← List.singleton_append (l := es.zip pieces), List.countP_append]
      omega

/-- A pattern without a double star matches only texts with as many slashes as it has itself outside
of classes, exactly when no class can take a slash of the text. -/
theorem slashes_kept_iff
    {pattern text : Str} (hstar : .doubleStar ∉ globElements pattern.bytes) :
  (wildmatch pattern text = true →
    text.bytes.count 0x2F = (globElements pattern.bytes).count (.byte 0x2F)) ↔
  ∀ pieces, MatchesPieces GlobElement.Matches (globElements pattern.bytes) pieces text.bytes →
    ∀ e ∈ (globElements pattern.bytes).zip pieces, takesSlash e = false
  := by
  rw [wildmatch, wildmatchBytes_iff]
  constructor
  · intro h pieces hpieces e he
    have hcount := hpieces.count_slash hstar
    rw [h ⟨pieces, hpieces⟩] at hcount
    have hzero : ((globElements pattern.bytes).zip pieces).countP takesSlash = 0 := by omega
    exact Bool.eq_false_iff.mpr (List.countP_eq_zero.mp hzero e he)
  · rintro h ⟨pieces, hpieces⟩
    have hzero : ((globElements pattern.bytes).zip pieces).countP takesSlash = 0 :=
      List.countP_eq_zero.mpr fun e he => Bool.eq_false_iff.mp (h pieces hpieces e he)
    rw [hpieces.count_slash hstar, hzero, add_zero]

/-- In particular the slashes are kept when no class of the pattern has the slash in it. -/
theorem slashes_kept_of_classes
    {pat text : List UInt8} (hstar : .doubleStar ∉ globElements pat)
    (hclass : ∀ e ∈ globElements pat, e.isClass = true → ¬e.Matches [0x2F])
    (h : GlobMatches pat text) :
  text.count 0x2F = (globElements pat).count (.byte 0x2F)
  := by
  obtain ⟨pieces, hpieces⟩ := h
  have hzero : ((globElements pat).zip pieces).countP takesSlash = 0 := by
    rw [List.countP_eq_zero]
    rintro ⟨e, piece⟩ he htakes
    simp only [takesSlash, Bool.and_eq_true, decide_eq_true_eq] at htakes
    obtain ⟨hc, rfl⟩ := htakes
    exact hclass e (List.of_mem_zip he).1 hc ((List.forall₂_iff_zip.mp hpieces.1).2 he)
  rw [hpieces.count_slash hstar, hzero, add_zero]

/-- The elements of a pattern that is a negated class. -/
theorem globElements_negated :
  globElements (Str.bytes "[!a]".toList) = [.charClass true [(0x61, 0x61)]]
  := by
  have hbytes : Str.bytes "[!a]".toList = [0x5B, 0x21, 0x61, 0x5D] := by decide
  rw [hbytes]
  simp [globElements, charClassOf, classRanges, rangeEnd]

theorem slashes_kept_negated :
  (wildmatch "[!a]".toList "b".toList = true →
    (Str.bytes "b".toList).count 0x2F =
      (globElements (Str.bytes "[!a]".toList)).count (.byte 0x2F)) ↔
  ∀ pieces, MatchesPieces GlobElement.Matches (globElements (Str.bytes "[!a]".toList)) pieces
      (Str.bytes "b".toList) →
    ∀ e ∈ (globElements (Str.bytes "[!a]".toList)).zip pieces, takesSlash e = false
  := by
  apply slashes_kept_iff
  rw [globElements_negated]
  decide

/-- A negated class matches a slash. -/
theorem not_slashes_kept :
  ¬ ∀ pattern text : Str, .doubleStar ∉ globElements pattern.bytes →
    wildmatch pattern text = true →
      text.bytes.count 0x2F = (globElements pattern.bytes).count (.byte 0x2F)
  := by
  intro h
  have hmatch : wildmatch "[!a]".toList "/".toList = true := by
    rw [wildmatch, wildmatchBytes_iff, GlobMatches, globElements_negated]
    refine ⟨[[0x2F]], .cons ⟨0x2F, rfl, by decide⟩ .nil, by decide⟩
  have hcount := h "[!a]".toList "/".toList (by rw [globElements_negated]; decide) hmatch
  rw [globElements_negated] at hcount
  revert hcount
  decide
