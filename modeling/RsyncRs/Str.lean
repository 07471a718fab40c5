import Mathlib.Data.List.DropRight
import Mathlib.Data.Nat.Notation

/-!
# Strings

Strings of the program as lists of characters, their bytes, and the operations on them that
the program uses.
-/

/-- A string, as its characters. -/
abbrev Str : Type := List Char

namespace Str

/-- The bytes of a string. -/
def bytes (s : Str) : List UInt8 :=
  s.flatMap String.utf8EncodeChar

/-- The string with the given bytes, if there is one. -/
def fromUtf8 (bs : List UInt8) : Option Str :=
  bs.toByteArray.utf8Decode?.map Array.toList

/-! ### Blanks -/

/-- The character is white space. -/
def isWhitespace (c : Char) : Bool :=
  (9 ≤ c.val ∧ c.val ≤ 13) ∨ c.val = 0x20 ∨ c.val = 0x85 ∨ c.val = 0xA0 ∨ c.val = 0x1680 ∨
    (0x2000 ≤ c.val ∧ c.val ≤ 0x200A) ∨ c.val = 0x2028 ∨ c.val = 0x2029 ∨ c.val = 0x202F ∨
    c.val = 0x205F ∨ c.val = 0x3000

/-- The string without the white space at its start. -/
def trimStart (s : Str) : Str :=
  s.dropWhile isWhitespace

/-- The string without the white space at its end. -/
def trimEnd (s : Str) : Str :=
  s.rdropWhile isWhitespace

/-- The string without the white space around it. -/
def trim (s : Str) : Str :=
  trimEnd (trimStart s)

/-! ### Parts -/

/-- The string without the copies of `c` at its start. -/
def trimStartMatches (c : Char) (s : Str) : Str :=
  s.dropWhile (· = c)

/-- The part of the string after the last `c`, or all of it. -/
def afterLast (c : Char) (s : Str) : Str :=
  s.rtakeWhile (· ≠ c)

/-- The parts of the string before and after the first `c`. -/
def splitOnce (c : Char) : Str → Option (Str × Str)
  | [] => none
  | d :: s =>
    if d = c then
      some ([], s)
    else
      (splitOnce c s).map fun (before, after) => (d :: before, after)

/-- The parts of the string before and after the last `c`. -/
def rsplitOnce (c : Char) (s : Str) : Option (Str × Str) :=
  (splitOnce c s.reverse).map fun (after, before) => (before.reverse, after.reverse)

/-- The lines of a text: each ends with a line feed, which may follow a carriage return, or at
the end of the text. -/
def lines (s : Str) : List Str :=
  go [] s
where
  /-- The lines when the line at the start goes on from `line`. -/
  go (line : Str) : Str → List Str
    | [] => if line = [] then [] else [line]
    | c :: s =>
      if c = '\n' then
        (if line.getLast? = some '\r' then line.dropLast else line) :: go [] s
      else
        go (line ++ [c]) s

/-! ### Strings in two parts -/

theorem splitOnce_eq_some
    {c : Char} {s before after : Str} :
  splitOnce c s = some (before, after) ↔ s = before ++ c :: after ∧ c ∉ before
  := by
  induction s generalizing before with
  | nil => simp [splitOnce]
  | cons d s ih =>
      rw [splitOnce]
      split
      · next h =>
        subst h
        cases before with
        | nil => simp
        | cons b before => grind
      · next h =>
        cases before with
        | nil => simp [h]
        | cons b before =>
            simp only [Option.map_eq_some_iff, Prod.exists, Prod.mk.injEq]
            grind

/-- A string is cut at its first `c` in one way. -/
theorem append_cons_inj
    {c : Char} {s t x y : Str} (hs : c ∉ s) (ht : c ∉ t) (h : s ++ c :: x = t ++ c :: y) :
  s = t ∧ x = y
  := by
  have h₁ : splitOnce c (s ++ c :: x) = some (s, x) := splitOnce_eq_some.mpr ⟨rfl, hs⟩
  have h₂ : splitOnce c (s ++ c :: x) = some (t, y) := splitOnce_eq_some.mpr ⟨h, ht⟩
  rw [h₁] at h₂
  cases h₂
  exact ⟨rfl, rfl⟩

theorem splitOnce_eq_none
    {c : Char} {s : Str} :
  splitOnce c s = none ↔ c ∉ s
  := by
  induction s with
  | nil => simp [splitOnce]
  | cons d s ih =>
      rw [splitOnce]
      split
      · next h => simp [h]
      · next h =>
        rw [Option.map_eq_none_iff, ih, List.mem_cons]
        grind

theorem rsplitOnce_eq_some
    {c : Char} {s before after : Str} :
  rsplitOnce c s = some (before, after) ↔ s = before ++ c :: after ∧ c ∉ after
  := by
  have hrev : s.reverse = after.reverse ++ c :: before.reverse ↔ s = before ++ c :: after := by
    rw [← List.reverse_inj]
    simp
  rw [rsplitOnce, Option.map_eq_some_iff]
  constructor
  · rintro ⟨⟨x, y⟩, hsplit, heq⟩
    cases heq
    obtain ⟨h, hnot⟩ := splitOnce_eq_some.mp hsplit
    rw [← List.reverse_inj] at h
    refine ⟨by simpa using h, by simpa using hnot⟩
  · rintro ⟨h, hnot⟩
    refine ⟨(after.reverse, before.reverse), ?_, by simp⟩
    apply splitOnce_eq_some.mpr
    exact ⟨hrev.mpr h, by simpa using hnot⟩

theorem rsplitOnce_eq_none
    {c : Char} {s : Str} :
  rsplitOnce c s = none ↔ c ∉ s
  := by
  rw [rsplitOnce, Option.map_eq_none_iff, splitOnce_eq_none, List.mem_reverse]

/-! ### Bytes and strings -/

theorem fromUtf8_bytes
    (s : Str) :
  fromUtf8 s.bytes = some s
  := by
  have h : s.bytes.toByteArray = s.utf8Encode := rfl
  rw [fromUtf8, h, List.utf8Decode?_utf8Encode]
  rfl

/-! ### Strings that are trimmed -/

theorem trimEnd_cons
    {c : Char} (hc : isWhitespace c = false) (s : Str) :
  trimEnd (c :: s) = c :: trimEnd s
  := by
  unfold trimEnd List.rdropWhile
  rw [List.reverse_cons, List.dropWhile_append]
  by_cases h : s.reverse.dropWhile isWhitespace = []
  · simp [h, hc]
  · simp [h]

theorem trimEnd_cons_blank
    {c : Char} (hc : isWhitespace c = true) (s : Str) :
  trimEnd (c :: s) = if trimEnd s = [] then [] else c :: trimEnd s
  := by
  unfold trimEnd List.rdropWhile
  rw [List.reverse_cons, List.dropWhile_append]
  by_cases h : s.reverse.dropWhile isWhitespace = []
  · simp [h, hc]
  · simp [h]

theorem trimEnd_trimEnd
    (s : Str) :
  trimEnd (trimEnd s) = trimEnd s
  := List.rdropWhile_idempotent _ _

/-- Blanks at the end make no difference to what is left of a string. -/
theorem trim_trimEnd
    (s : Str) :
  trim (trimEnd s) = trim s
  := by
  induction s with
  | nil => rfl
  | cons c s ih =>
      cases hc : isWhitespace c with
      | false =>
          have hstart : ∀ t, trimStart (c :: t) = c :: t := by
            intro t
            apply List.dropWhile_cons_of_neg
            rw [hc]
            apply Bool.false_ne_true
          rw [trimEnd_cons hc, trim, trim, hstart, hstart, trimEnd_cons hc, trimEnd_trimEnd,
            trimEnd_cons hc]
      | true =>
          have hstart : ∀ t, trim (c :: t) = trim t := by
            intro t
            rw [trim, trim, trimStart, List.dropWhile_cons_of_pos hc, trimStart]
          rw [trimEnd_cons_blank hc, hstart]
          split
          · next h =>
            rw [← ih, h]
          · rw [hstart, ih]

end Str

/-- The string with the given bytes, which are those of one. -/
def strOf (bs : List UInt8) : Str :=
  (Str.fromUtf8 bs).getD []

/-- The number in a text of decimal digits, which a plus sign may precede. -/
def parseU16 (s : Str) : Option ℕ :=
  let digits := if s.head? = some '+' then s.tail else s
  if digits = [] ∨ ¬ digits.all Char.isDigit then
    none
  else
    let n := digits.foldl (fun n c => n * 10 + (c.toNat - '0'.toNat)) 0
    if n < 65536 then some n else none
