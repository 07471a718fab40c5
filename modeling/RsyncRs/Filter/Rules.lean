import Mathlib.Data.List.Infix
import RsyncRs.Bytes
import RsyncRs.Options
import RsyncRs.Protocol.Types

/-!
# Filter rules

A filter rule is a pattern with flags. The first rule that matches a name decides whether it is
excluded from the transfer.
-/

/-! ### Flags of rules -/

/-- The pattern has wildcards. -/
def filtruleWild : ℕ := 1 <<< 0

/-- The pattern has a double star. -/
def filtruleWild2 : ℕ := 1 <<< 1

/-- The pattern starts with a double star. -/
def filtruleWild2Prefix : ℕ := 1 <<< 2

/-- The pattern is anchored at the root. -/
def filtruleAbsPath : ℕ := 1 <<< 4

/-- The rule includes what it matches. -/
def filtruleInclude : ℕ := 1 <<< 5

/-- The rule matches directories only. -/
def filtruleDirectory : ℕ := 1 <<< 6

/-- The rule clears the list. -/
def filtruleClearList : ℕ := 1 <<< 18

/-! ### Wildcards -/

/-- The last byte of a range, when the bytes after its first one say that it is a range. -/
def rangeEnd : List UInt8 → Option UInt8
  | dash :: hi :: _ => if dash = 0x2D ∧ hi ≠ 0x5D then some hi else none
  | _ => none

/-- Parse the rest of a class of characters, after `i` bytes of it: whether the byte `ch` is in
the class, when `matched` says whether it was among those before, and how many bytes the class
takes. A closing bracket that comes first is a member of the class. -/
def classRest (ch : UInt8) (first matched : Bool) (i : ℕ) : List UInt8 → Bool × ℕ
  | [] => (matched, i)
  | b :: rest =>
    if b = 0x5D ∧ first = false then
      (matched, i + 1)
    else
      match rangeEnd rest with
      | some hi => classRest ch false (matched || (b ≤ ch ∧ ch ≤ hi)) (i + 3) (rest.drop 2)
      | none => classRest ch false (matched || ch = b) (i + 1) rest
termination_by pat => pat.length
decreasing_by
  · rw [List.length_drop, List.length_cons]
    omega
  · apply Nat.lt_succ_self

/-- Parse a class of characters after its opening bracket: whether the byte `ch` is in it, and
how many bytes it takes. -/
def matchCharClass (pat : List UInt8) (ch : UInt8) : Bool × ℕ :=
  match pat with
  | 0x21 :: pat =>
    let (matched, consumed) := classRest ch true false 1 pat
    (!matched, consumed)
  | pat => classRest ch true false 0 pat

/-- The texts that are left when a star has taken some of the text. A single star takes no
slash. -/
def afterStar (double : Bool) : List UInt8 → List (List UInt8)
  | [] => [[]]
  | b :: text => (b :: text) :: if double || b ≠ 0x2F then afterStar double text else []

/-- How many stars of a run are taken at first, when `double` says whether a double star has been
seen. -/
def scanStars (double : Bool) : List UInt8 → ℕ
  | [] => 0
  | p :: pat =>
    if p = 0x2A then
      let double := double || pat.head? = some 0x2A
      if double && pat.head? ≠ some 0x2A then 1 else scanStars double pat + 1
    else
      0

/-- Whether the run of stars at the start of the pattern has a double star, and the pattern behind
the run. -/
def starRun (pat : List UInt8) : Bool × List UInt8 :=
  let n := scanStars false pat
  let double : Bool := [0x2A, 0x2A] <:+: pat.take n
  -- the stars that are still left
  (double || (pat.drop n).head? = some 0x2A, (pat.drop n).dropWhile (· = 0x2A))

theorem scanStars_eq
    (double : Bool) (pat : List UInt8) :
  scanStars double pat = (pat.takeWhile (· = 0x2A)).length
  := by
  induction pat generalizing double with
  | nil => rfl
  | cons p pat ih =>
      rw [scanStars]
      by_cases hp : p = 0x2A
      · rw [if_pos hp, List.takeWhile_cons_of_pos (by simpa using hp), List.length_cons]
        dsimp only
        rw [ih]
        split
        · next hlast =>
            have hne : pat.head? ≠ some 0x2A := by
              simp only [Bool.and_eq_true, decide_eq_true_eq] at hlast
              exact hlast.2
            cases pat with
            | nil => rfl
            | cons q pat =>
                have hq : ¬q = 0x2A := fun h => hne (by rw [h]; rfl)
                rw [List.takeWhile_cons_of_neg (by simpa using hq)]
                rfl
        · rfl
      · rw [if_neg hp, List.takeWhile_cons_of_neg (by simpa using hp)]
        rfl

/-- A run of stars is a single star or a double one. -/
theorem starRun_eq
    (pat : List UInt8) :
  starRun (0x2A :: pat) = (decide (pat.head? = some 0x2A), pat.dropWhile (· = 0x2A))
  := by
  have hsplit := List.takeWhile_append_dropWhile (p := fun b : UInt8 => decide (b = 0x2A))
    (l := 0x2A :: pat)
  have htake : (0x2A :: pat).take (scanStars false (0x2A :: pat)) =
      (0x2A :: pat).takeWhile (· = 0x2A) := by
    rw [scanStars_eq]
    nth_rewrite 2 [← hsplit]
    rw [List.take_left]
  have hdrop : (0x2A :: pat).drop (scanStars false (0x2A :: pat)) =
      pat.dropWhile (· = 0x2A) := by
    rw [scanStars_eq]
    nth_rewrite 2 [← hsplit]
    rw [List.drop_left]
    rfl
  have hhead : (pat.dropWhile (· = 0x2A)).head? ≠ some (0x2A : UInt8) := by
    intro h
    have hnot := List.head?_dropWhile_not (fun b : UInt8 => decide (b = 0x2A)) pat
    rw [h] at hnot
    cases hnot
  unfold starRun
  simp only [htake, hdrop]
  rw [List.dropWhile_idempotent, decide_eq_false hhead, Bool.or_false]
  congr 1
  cases pat with
  | nil => decide
  | cons q pat =>
      by_cases hq : q = 0x2A
      · subst hq
        have hinfix : [0x2A, 0x2A] <:+: (0x2A :: 0x2A :: pat).takeWhile (· = 0x2A) := by
          rw [List.takeWhile_cons_of_pos (by decide), List.takeWhile_cons_of_pos (by decide)]
          exact ⟨[], _, rfl⟩
        rw [decide_eq_true hinfix]
        rfl
      · have hone : (0x2A :: q :: pat).takeWhile (fun b : UInt8 => decide (b = 0x2A)) = [0x2A] := by
          rw [List.takeWhile_cons_of_pos (by decide),
            List.takeWhile_cons_of_neg (by simpa using hq)]
        have hhead : (q :: pat).head? ≠ some 0x2A := fun h => hq (Option.some.inj h)
        rw [hone, decide_eq_false hhead]
        decide

/-- The pattern matches the text. -/
def wildmatchBytes (pat text : List UInt8) : Bool :=
  match pat with
  | [] => text = []
  | p :: pat =>
    if _hp : p = 0x2A then
      let run := starRun (p :: pat)
      if run.2 = [] then
        run.1 || !text.contains 0x2F
      else
        (afterStar run.1 text).any fun text => wildmatchBytes run.2 text
    else
      match text with
      | [] => false
      | b :: text =>
        if p = 0x5B then
          let (matched, consumed) := matchCharClass pat b
          matched && wildmatchBytes (pat.drop consumed) text
        else if p = 0x3F then
          b ≠ 0x2F && wildmatchBytes pat text
        else
          p = b && wildmatchBytes pat text
termination_by pat.length
decreasing_by
  · have h := List.length_dropWhile_le (· = 0x2A) pat
    rw [_hp, starRun_eq, List.length_cons]
    dsimp only
    omega
  · rw [List.length_drop, List.length_cons]
    omega
  · apply Nat.lt_succ_self
  · apply Nat.lt_succ_self

/-- The pattern matches the text. -/
def wildmatch (pattern text : Str) : Bool :=
  wildmatchBytes pattern.bytes text.bytes

/-! ### Rules -/

/-- A filter rule. -/
structure FilterRule where
  /-- The pattern, without a slash at its start or at its end. -/
  pattern : Str
  /-- Flags. -/
  rflags : ℕ
  /-- Number of slashes inside the pattern. -/
  slashCnt : ℕ
deriving DecidableEq, Repr

/-- The flags of a rule. -/
def ruleFlags (isInclude dirOnly absPath hasWild hasWild2 wild2First : Bool) : ℕ :=
  (if isInclude then filtruleInclude else 0) ||| (if dirOnly then filtruleDirectory else 0) |||
    (if absPath then filtruleAbsPath else 0) ||| (if hasWild then filtruleWild else 0) |||
    (if hasWild2 then filtruleWild2 ||| (if wild2First then filtruleWild2Prefix else 0) else 0)

/-- The rule with the given text. -/
def buildRule (pattern : Str) (isInclude : Bool) : FilterRule :=
  let dirOnly := pattern.getLast? = some '/'
  let pat := if dirOnly then pattern.dropLast else pattern
  let stored := Str.trimStartMatches '/' pat
  { pattern := stored
    rflags := ruleFlags isInclude dirOnly (pat.head? = some '/')
      (pat.contains '*' || pat.contains '?' || pat.contains '[') (['*', '*'] <:+: pat)
      (['*', '*'] <+: pat)
    slashCnt := stored.count '/' }

namespace FilterRule

/-- The flag is among those of the rule. -/
def has (rule : FilterRule) (flag : ℕ) : Bool :=
  rule.rflags &&& flag ≠ 0

/-- The rule matches a name. -/
def «matches» (rule : FilterRule) (name : Str) (isDir : Bool) : Bool :=
  if rule.has filtruleDirectory && !isDir then
    false
  else
    let matchTarget :=
      if 0 < rule.slashCnt ∨ rule.has filtruleAbsPath then name else name.afterLast '/'
    if rule.has filtruleWild then
      wildmatch rule.pattern matchTarget
    else if rule.has filtruleAbsPath then
      matchTarget = rule.pattern.trimStartMatches '/'
    else
      matchTarget = rule.pattern

end FilterRule

/-! ### Lists of rules -/

/-- A list of filter rules. -/
structure FilterList where
  /-- The rules in order. -/
  rules : List FilterRule := []
deriving DecidableEq, Repr

namespace FilterList

/-- Add a rule at the end. -/
def push (list : FilterList) (rule : FilterRule) : FilterList :=
  { rules := list.rules ++ [rule] }

/-- Add a pattern to exclude. -/
def addExclude (list : FilterList) (pattern : Str) : FilterList :=
  list.push (buildRule pattern false)

/-- Add a pattern to include. -/
def addInclude (list : FilterList) (pattern : Str) : FilterList :=
  list.push (buildRule pattern true)

/-- The prefix of a rule, which is one character or a word, and the rest of the rule. -/
def splitPrefix : Str → Str × Str
  | c :: d :: s =>
    if c.utf8Size = 1 ∧ (d = ' ' ∨ d = ',') then
      ([c], Str.trim s)
    else
      ((c :: d :: s).takeWhile (· ≠ ' '), Str.trim (((c :: d :: s).dropWhile (· ≠ ' ')).drop 1))
  | s => (s.takeWhile (· ≠ ' '), Str.trim ((s.dropWhile (· ≠ ' ')).drop 1))

/-- The rule that clears the list. -/
def clearRule : FilterRule :=
  { pattern := [], rflags := filtruleClearList, slashCnt := 0 }

/-- Add the rule that a line says, if it says one. -/
def parseRule (list : FilterList) (ruleStr : Str) : FilterList :=
  let s := ruleStr.trim
  if s = [] ∨ s.head? = some '#' then
    list
  else
    let (word, rest) := splitPrefix s
    if word = ['-'] ∨ word = "exclude".toList then
      list.addExclude rest
    else if word = ['+'] ∨ word = "include".toList then
      list.addInclude rest
    else if word = ['!'] then
      list.push clearRule
    else
      list

/-- Add the rules in a file. -/
def loadFromFile (readToString : Str → Except String Str) (list : FilterList) (path : Str) :
    Except Error FilterList :=
  match readToString path with
  | .error e => throw (.other s!"cannot read filter file '{String.ofList path}': {e}")
  | .ok content => pure (content.lines.foldl parseRule list)

/-- The name is excluded: the first rule that matches it is one that excludes. -/
def isExcludedBy (name : Str) (isDir : Bool) : List FilterRule → Bool
  | [] => false
  | rule :: rules =>
    if rule.has filtruleClearList then
      isExcludedBy name isDir rules
    else if rule.matches name isDir then
      !rule.has filtruleInclude
    else
      isExcludedBy name isDir rules

/-- The name is excluded from the transfer. -/
def isExcluded (list : FilterList) (name : Str) (isDir : Bool) : Bool :=
  isExcludedBy name isDir list.rules

/-- What CVS ignores. -/
def cvsExcludes : List String :=
  ["RCS", "SCCS", "CVS", "CVS.adm", "RCSLOG", "cvslog.*", "tags", "TAGS", ".make.state",
   ".nse_depinfo", "*~", "#*", ".#*", ",*", "_$*", "*$", "*.old", "*.bak", "*.BAK", "*.orig",
   "*.rej", ".del-*", "*.a", "*.olb", "*.o", "*.obj", "*.so", "*.exe", "*.Z", "*.elc", "*.ln",
   "core", ".svn/", ".git/", ".hg/", ".bzr/"]

/-- The rules that the options ask for. -/
def fromOptions (readToString : Str → Except String Str) (opts : Options) :
    Except Error FilterList := do
  let list := opts.filter.foldl parseRule {}
  let list ← opts.includeFrom.foldlM (loadFromFile readToString) list
  let list ← opts.excludeFrom.foldlM (loadFromFile readToString) list
  let list := opts.includePatterns.foldl addInclude list
  let list := opts.exclude.foldl addExclude list
  if opts.cvsExclude then
    pure (cvsExcludes.foldl (fun list pat => list.addExclude pat.toList) list)
  else
    pure list

end FilterList
