import RsyncRs.Filter.Resent
import RsyncRs.Filter.Wildcards

/-!
# Lines of filter rules

A line of filter rules includes or excludes what a pattern matches, or clears the rules before it.
The first rule after the last line that clears them is the one that should decide. The list keeps
the rules before such a line, and they decide first.

The lines of a file of patterns are parsed as rules, too, where a pattern without a prefix says
nothing.
-/

/-! ### Bytes of a string -/

/-- A byte of seven bits is a character. -/
theorem Str.mem_of_mem_bytes
    {s : Str} {c : Char} (hc : c.toNat < 0x80) (h : UInt8.ofNat c.toNat ∈ Str.bytes s) :
  c ∈ s
  := by
  obtain ⟨d, hd, hmem⟩ := List.mem_flatMap.mp h
  have hne : ∀ n, 0x80 ≤ n → n < 0x100 → UInt8.ofNat c.toNat ≠ UInt8.ofNat n := by
    intro n hn hn' heq
    have hnat := congrArg UInt8.toNat heq
    simp only [UInt8.toNat_ofNat'] at hnat
    omega
  have hsame : d.toNat = c.toNat := by
    unfold String.utf8EncodeChar at hmem
    dsimp only at hmem
    split_ifs at hmem
    · have hnat := congrArg UInt8.toNat (List.mem_singleton.mp hmem)
      simp only [UInt8.toNat_ofNat'] at hnat
      have hd : d.val.toNat = d.toNat := rfl
      omega
    -- the bytes of a character of several bytes have their highest bit set
    · simp only [List.mem_cons, List.not_mem_nil, or_false] at hmem
      rcases hmem with hmem | hmem <;>
        exact absurd hmem (hne _ (by omega) (by omega))
    · simp only [List.mem_cons, List.not_mem_nil, or_false] at hmem
      rcases hmem with hmem | hmem | hmem <;>
        exact absurd hmem (hne _ (by omega) (by omega))
    · simp only [List.mem_cons, List.not_mem_nil, or_false] at hmem
      rcases hmem with hmem | hmem | hmem | hmem <;>
        exact absurd hmem (hne _ (by omega) (by omega))
  rw [← Char.toNat_inj.mp hsame]
  exact hd

theorem Str.bytes_injective
    {s t : Str} (h : Str.bytes s = Str.bytes t) :
  s = t
  := by
  have hs := Str.fromUtf8_bytes s
  rw [h, Str.fromUtf8_bytes] at hs
  exact (Option.some.inj hs).symm

/-! ### What a pattern matches -/

/-- The pattern without the slash that restricts it to directories. -/
def patternBody (pattern : Str) : Str :=
  if pattern.getLast? = some '/' then pattern.dropLast else pattern

/-- The pattern matches a name: a slash at its end restricts it to directories, and with a slash
elsewhere it is about the whole name, otherwise about the last part of it. -/
def PatternMatches (pattern name : Str) (isDir : Bool) : Prop :=
  (pattern.getLast? = some '/' → isDir = true) ∧
  GlobMatches (Str.bytes (Str.trimStartMatches '/' (patternBody pattern)))
    (Str.bytes (if '/' ∈ patternBody pattern then name else name.afterLast '/'))

instance (pat text : List UInt8) : Decidable (GlobMatches pat text) :=
  decidable_of_iff _ (wildmatchBytes_iff pat text)

instance (pattern name : Str) (isDir : Bool) : Decidable (PatternMatches pattern name isDir) :=
  inferInstanceAs (Decidable (_ ∧ _))

/-- Bytes that are no wildcards stand for themselves. -/
theorem globElements_plain
    {pat : List UInt8} (h : ∀ b ∈ pat, b ≠ 0x2A ∧ b ≠ 0x5B ∧ b ≠ 0x3F) :
  globElements pat = pat.map .byte
  := by
  induction pat with
  | nil => rw [globElements, List.map_nil]
  | cons p pat ih =>
      obtain ⟨h₁, h₂, h₃⟩ := h p List.mem_cons_self
      rw [globElements, if_neg h₁, if_neg h₂, if_neg h₃, List.map_cons,
        ih fun b hb => h b (List.mem_cons_of_mem _ hb)]

theorem matchesSeq_bytes_iff
    {bs text : List UInt8} :
  MatchesSeq GlobElement.Matches (bs.map .byte) text ↔ text = bs
  := by
  induction bs generalizing text with
  | nil => apply matchesSeq_nil_iff
  | cons b bs ih =>
      rw [List.map_cons, matchesSeq_cons_iff]
      simp only [ih]
      constructor
      · rintro ⟨piece, rest, rfl, rfl, rfl⟩
        rfl
      · rintro rfl
        exact ⟨[b], bs, rfl, rfl, rfl⟩

/-- A pattern without wildcards matches itself. -/
theorem globMatches_plain_iff
    {pattern name : Str}
    (h : (pattern.contains '*' || pattern.contains '?' || pattern.contains '[') = false) :
  GlobMatches (Str.bytes pattern) (Str.bytes name) ↔ name = pattern
  := by
  simp only [Bool.or_eq_false_iff] at h
  have hplain : ∀ c : Char, c.toNat < 0x80 → pattern.contains c = false →
      UInt8.ofNat c.toNat ∉ Str.bytes pattern := by
    intro c hc hnot hmem
    rw [List.contains_iff_mem.mpr (Str.mem_of_mem_bytes hc hmem)] at hnot
    cases hnot
  have hstar := hplain '*' (by decide) h.1.1
  have hquestion := hplain '?' (by decide) h.1.2
  have hbracket := hplain '[' (by decide) h.2
  rw [GlobMatches, globElements_plain, matchesSeq_bytes_iff]
  · exact ⟨Str.bytes_injective, fun heq => by rw [heq]⟩
  · intro b hb
    refine ⟨?_, ?_, ?_⟩
    · rintro rfl
      exact hstar hb
    · rintro rfl
      exact hbracket hb
    · rintro rfl
      exact hquestion hb

namespace FilterRule

/-- The flags and the pattern of a rule. -/
theorem has_buildRule
    (pattern : Str) (isInclude : Bool) :
  (buildRule pattern isInclude).has filtruleAbsPath =
      decide ((patternBody pattern).head? = some '/') ∧
    (buildRule pattern isInclude).has filtruleWild = ((patternBody pattern).contains '*' ||
      (patternBody pattern).contains '?' || (patternBody pattern).contains '[') ∧
    (buildRule pattern isInclude).pattern = Str.trimStartMatches '/' (patternBody pattern)
  := ⟨(ruleFlags_and ..).2.2.1, (ruleFlags_and ..).2.2.2.1, rfl⟩

/-- A rule is about the whole name when its pattern has a slash other than one at its end. -/
theorem target_buildRule_iff
    (pattern : Str) (isInclude : Bool) :
  (0 < (buildRule pattern isInclude).slashCnt ∨
      (buildRule pattern isInclude).has filtruleAbsPath = true) ↔ '/' ∈ patternBody pattern
  := by
  obtain ⟨habs, -, hpattern⟩ := has_buildRule pattern isInclude
  rw [slashCnt_buildRule, hpattern, habs, List.count_pos_iff, decide_eq_true_iff]
  cases patternBody pattern with
  | nil => simp [Str.trimStartMatches]
  | cons c s =>
      by_cases hc : c = '/'
      · subst hc
        simp
      · have hkeep : Str.trimStartMatches '/' (c :: s) = c :: s :=
          List.dropWhile_cons_of_neg (by simpa using hc)
        rw [hkeep]
        simp [hc]

/-- A rule matches what its pattern matches. -/
theorem matches_buildRule_iff
    (pattern : Str) (isInclude : Bool) (name : Str) (isDir : Bool) :
  (buildRule pattern isInclude).matches name isDir = true ↔ PatternMatches pattern name isDir
  := by
  obtain ⟨habs, hwild, hpattern⟩ := has_buildRule pattern isInclude
  have htarget := target_buildRule_iff pattern isInclude
  unfold «matches» PatternMatches
  simp only [htarget, has_directory_buildRule, hpattern, trimStartMatches_idempotent, ite_self]
  generalize (if '/' ∈ patternBody pattern then name else Str.afterLast '/' name) = target
  have hglob : (if (buildRule pattern isInclude).has filtruleWild = true then
      wildmatch (Str.trimStartMatches '/' (patternBody pattern)) target
    else
      decide (target = Str.trimStartMatches '/' (patternBody pattern))) = true ↔
      GlobMatches (Str.trimStartMatches '/' (patternBody pattern)).bytes target.bytes := by
    by_cases hw : (buildRule pattern isInclude).has filtruleWild = true
    · rw [if_pos hw, wildmatch, wildmatchBytes_iff]
    · rw [if_neg hw, decide_eq_true_iff, globMatches_plain_iff]
      rw [contains_trimStartMatches (by decide), contains_trimStartMatches (by decide),
        contains_trimStartMatches (by decide), ← hwild]
      exact Bool.eq_false_iff.mpr hw
  by_cases hdir : pattern.getLast? = some '/' ∧ isDir = false
  · have hcond : (decide (pattern.getLast? = some '/') && !isDir) = true := by
      simp [hdir]
    rw [if_pos hcond]
    simp [hdir]
  · have hcond : ¬(decide (pattern.getLast? = some '/') && !isDir) = true := by
      simpa using hdir
    have hallowed : pattern.getLast? = some '/' → isDir = true := by
      simpa using hdir
    rw [if_neg hcond, hglob]
    exact ⟨fun h => ⟨hallowed, h⟩, And.right⟩

end FilterRule

/-! ### What lines say -/

/-- What a line of filter rules says. -/
inductive RuleLine where
  /-- Include or exclude what the pattern matches. -/
  | rule (isInclude : Bool) (pattern : Str)
  /-- Clear the rules before. -/
  | clear
deriving DecidableEq, Repr

/-- The line is blank, or a comment. -/
def isBlankOrComment (line : Str) : Bool :=
  line.trim = [] ∨ line.trim.head? = some '#'

/-- What a line says, if it says anything: a prefix that is not known says nothing. -/
def RuleLine.ofLine (line : Str) : Option RuleLine :=
  if isBlankOrComment line then
    none
  else
    let (word, rest) := FilterList.splitPrefix line.trim
    if word = ['-'] ∨ word = "exclude".toList then some (.rule false rest)
    else if word = ['+'] ∨ word = "include".toList then some (.rule true rest)
    else if word = ['!'] then some .clear
    else none

/-- The rule for what a line says. -/
def RuleLine.toRule : RuleLine → FilterRule
  | .rule isInclude pattern => buildRule pattern isInclude
  | .clear => FilterList.clearRule

/-- The line decides about a name. -/
def RuleLine.decides : RuleLine → Str × Bool → Bool
  | .rule _ pattern, name => PatternMatches pattern name.1 name.2
  | .clear, _ => false

/-- What the line decides. -/
def RuleLine.excludes : RuleLine → Bool
  | .rule isInclude _ => !isInclude
  | .clear => false

/-- What lines of filter rules should mean: the first rule that decides about the name, among those
that follow the last line that clears the rules, and without one the name is not excluded. -/
def excludedByLines (lines : List Str) (name : Str) (isDir : Bool) : Bool :=
  DecisionList.answer RuleLine.decides RuleLine.excludes false
    ((lines.filterMap RuleLine.ofLine).rtakeWhile (· ≠ .clear)) (name, isDir)

namespace FilterList

open FilterRule

/-- A line adds the rule for what it says. -/
theorem rules_parseRule
    (list : FilterList) (line : Str) :
  (list.parseRule line).rules = list.rules ++ (RuleLine.ofLine line).toList.map RuleLine.toRule
  := by
  unfold parseRule RuleLine.ofLine isBlankOrComment
  dsimp only
  split_ifs <;> simp_all [addExclude, addInclude, push, RuleLine.toRule]

/-- Lines add the rules for what they say. -/
theorem rules_parseRules
    (list : FilterList) (lines : List Str) :
  (lines.foldl parseRule list).rules =
    list.rules ++ (lines.filterMap RuleLine.ofLine).map RuleLine.toRule
  := by
  induction lines generalizing list with
  | nil => simp
  | cons line lines ih =>
      rw [List.foldl_cons, ih, rules_parseRule, List.append_assoc]
      cases h : RuleLine.ofLine line <;> simp [h]

/-- A list decides by all its lines, also by those before a line that clears the rules. -/
theorem isExcludedBy_lines
    (name : Str) (isDir : Bool) (rules : List RuleLine) :
  isExcludedBy name isDir (rules.map RuleLine.toRule) =
    DecisionList.answer RuleLine.decides RuleLine.excludes false rules (name, isDir)
  := by
  induction rules with
  | nil => rfl
  | cons rule rules ih =>
      rw [List.map_cons, isExcludedBy, ih, DecisionList.answer]
      cases rule with
      | rule isInclude pattern =>
          have hmatch : (buildRule pattern isInclude).matches name isDir =
              decide (PatternMatches pattern name isDir) := by
            rw [Bool.eq_iff_iff, matches_buildRule_iff, decide_eq_true_iff]
          simp only [RuleLine.toRule, RuleLine.decides, RuleLine.excludes,
            has_clearList_buildRule, has_include_buildRule, hmatch]
          rfl
      | clear => rfl

/-- The answers to lines of filter rules are what they should be exactly when the first rule before
the last line that clears the rules that decides about the name, if there is any, decides as the
rules after it do. -/
theorem lines_decide_iff
    (lines : List Str) (name : Str) (isDir : Bool) :
  (lines.foldl parseRule {}).isExcluded name isDir = excludedByLines lines name isDir ↔
  ∀ before rule after, (lines.filterMap RuleLine.ofLine).rdropWhile (· ≠ .clear) =
      before ++ rule :: after →
    (∀ r ∈ before, r.decides (name, isDir) = false) → rule.decides (name, isDir) = true →
    rule.excludes = excludedByLines lines name isDir
  := by
  have hrules := rules_parseRules {} lines
  rw [isExcluded, hrules, List.nil_append, isExcludedBy_lines]
  have hsplit := List.rdropWhile_append_rtakeWhile (p := fun r : RuleLine => decide (r ≠ .clear))
    (l := lines.filterMap RuleLine.ofLine)
  nth_rewrite 1 [← hsplit]
  exact DecisionList.answer_append_eq_iff ..

/-- The rules before a line that clears them still decide. -/
theorem not_lines_decide :
  ¬ ∀ (lines : List Str) (name : Str) (isDir : Bool),
    (lines.foldl parseRule {}).isExcluded name isDir = excludedByLines lines name isDir
  := by
  intro h
  have hcleared := h ["- a".toList, "!".toList] "a".toList false
  revert hcleared
  decide

/-! ### Files of patterns -/

/-- The options ask for no rules. -/
structure NoRules (opts : Options) : Prop where
  filter : opts.filter = []
  includeFrom : opts.includeFrom = []
  excludeFrom : opts.excludeFrom = []
  includePatterns : opts.includePatterns = []
  exclude : opts.exclude = []
  cvsExclude : opts.cvsExclude = false

/-- The lines of a file that are neither blank nor comments. -/
def patternLines (content : Str) : List Str :=
  content.lines.filter fun line => !isBlankOrComment line

/-- The line does not start with the prefix of a rule. -/
def IsPlain (line : Str) : Prop :=
  (splitPrefix line.trim).1 ∉
    [['-'], "exclude".toList, ['+'], "include".toList, ['!']]

/-- A file of plain patterns says nothing. -/
theorem ofLine_plain
    {content : Str} (hplain : ∀ line ∈ patternLines content, IsPlain line) :
  content.lines.filterMap RuleLine.ofLine = []
  := by
  rw [List.filterMap_eq_nil_iff]
  intro line hline
  unfold RuleLine.ofLine
  by_cases hblank : isBlankOrComment line = true
  · rw [if_pos hblank]
  · have hmem : line ∈ patternLines content :=
      List.mem_filter.mpr ⟨hline, by simpa using hblank⟩
    have hword := hplain line hmem
    simp only [IsPlain, List.mem_cons, List.not_mem_nil, or_false, not_or] at hword
    obtain ⟨h₁, h₂, h₃, h₄, h₅⟩ := hword
    rw [if_neg hblank]
    dsimp only
    rw [if_neg (not_or.mpr ⟨h₁, h₂⟩), if_neg (not_or.mpr ⟨h₃, h₄⟩), if_neg h₅]

/-- A file of plain patterns adds no rule. -/
theorem loadFromFile_plain
    {readToString : Str → Except String Str} {path content : Str}
    (hread : readToString path = .ok content)
    (hplain : ∀ line ∈ patternLines content, IsPlain line) :
  loadFromFile readToString {} path = .ok {}
  := by
  have hrules : (content.lines.foldl parseRule {}).rules = [] := by
    rw [rules_parseRules, ofLine_plain hplain]
    rfl
  have hlist : content.lines.foldl parseRule {} = {} := by
    cases h : content.lines.foldl parseRule {} with
    | mk rules =>
        rw [h] at hrules
        exact congrArg mk hrules
  rw [loadFromFile, hread]
  dsimp only
  rw [hlist]
  rfl

/-- Patterns that are given themselves are rules. -/
theorem rules_addPatterns
    (isInclude : Bool) (patterns : List Str) (list : FilterList) :
  (patterns.foldl (fun (list : FilterList) pattern => list.push (buildRule pattern isInclude))
    list).rules = list.rules ++ (patterns.map (.rule isInclude ·)).map RuleLine.toRule
  := by
  induction patterns generalizing list with
  | nil => simp
  | cons pattern patterns ih =>
      rw [List.foldl_cons, ih, push]
      simp [RuleLine.toRule]

/-- Patterns of one kind exclude a name when they are patterns to exclude and one matches. -/
theorem answer_patterns
    (isInclude : Bool) (patterns : List Str) (name : Str) (isDir : Bool) :
  DecisionList.answer RuleLine.decides RuleLine.excludes false (patterns.map (.rule isInclude ·))
      (name, isDir) =
    (!isInclude && patterns.any fun pattern => PatternMatches pattern name isDir)
  := by
  induction patterns with
  | nil => simp [DecisionList.answer]
  | cons pattern patterns ih =>
      rw [List.map_cons, DecisionList.answer, ih, List.any_cons]
      by_cases h : PatternMatches pattern name isDir
      · simp [RuleLine.decides, RuleLine.excludes, h]
      · simp [RuleLine.decides, h]

/-- A list of patterns to exclude excludes the names that one of them matches. -/
theorem isExcluded_addExclude
    (patterns : List Str) (name : Str) (isDir : Bool) :
  (patterns.foldl addExclude {}).isExcluded name isDir =
    patterns.any fun pattern => PatternMatches pattern name isDir
  := by
  have hrules : (patterns.foldl addExclude {}).rules =
      (patterns.map (.rule false ·)).map RuleLine.toRule :=
    rules_addPatterns false patterns {}
  rw [isExcluded, hrules, isExcludedBy_lines, answer_patterns]
  rfl

/-- A list of patterns to include excludes nothing. -/
theorem isExcluded_addInclude
    (patterns : List Str) (name : Str) (isDir : Bool) :
  (patterns.foldl addInclude {}).isExcluded name isDir = false
  := by
  have hrules : (patterns.foldl addInclude {}).rules =
      (patterns.map (.rule true ·)).map RuleLine.toRule :=
    rules_addPatterns true patterns {}
  rw [isExcluded, hrules, isExcludedBy_lines, answer_patterns]
  rfl

/-- A file of plain patterns, given with `--exclude-from`, excludes the names that its lines would
exclude as patterns exactly when none of them matches. Given with `--include-from` it makes no
difference, and neither do its lines as patterns. -/
theorem pattern_file_iff
    {readToString : Str → Except String Str} {path content : Str} {opts : Options}
    (hopts : NoRules opts) (hread : readToString path = .ok content)
    (hplain : ∀ line ∈ patternLines content, IsPlain line) :
  ∃ excludedFrom excluded includedFrom included,
    fromOptions readToString { opts with excludeFrom := [path] } = .ok excludedFrom ∧
    fromOptions readToString { opts with exclude := patternLines content } = .ok excluded ∧
    fromOptions readToString { opts with includeFrom := [path] } = .ok includedFrom ∧
    fromOptions readToString { opts with includePatterns := patternLines content } =
      .ok included ∧
    ∀ name isDir,
      (excludedFrom.isExcluded name isDir = excluded.isExcluded name isDir ↔
        ∀ line ∈ patternLines content, ¬PatternMatches line name isDir) ∧
      includedFrom.isExcluded name isDir = included.isExcluded name isDir
  := by
  obtain ⟨h₁, h₂, h₃, h₄, h₅, h₆⟩ := hopts
  have hload : [path].foldlM (loadFromFile readToString) {} = .ok {} := by
    rw [List.foldlM_cons, loadFromFile_plain hread hplain]
    rfl
  have hnone : (List.nil : List Str).foldlM (loadFromFile readToString) {} = .ok {} := rfl
  refine ⟨{}, (patternLines content).foldl addExclude {}, {},
    (patternLines content).foldl addInclude {}, ?_, ?_, ?_, ?_, ?_⟩
  · simp only [fromOptions, h₁, h₂, h₄, h₅, h₆, List.foldl_nil, hnone, bind, Except.bind, hload]
    rfl
  · simp only [fromOptions, h₁, h₂, h₃, h₄, h₆, List.foldl_nil, hnone]
    rfl
  · simp only [fromOptions, h₁, h₃, h₄, h₅, h₆, List.foldl_nil, hload]
    rfl
  · simp only [fromOptions, h₁, h₂, h₃, h₅, h₆, List.foldl_nil, hnone]
    rfl
  · intro name isDir
    have hempty : isExcluded {} name isDir = false := rfl
    rw [isExcluded_addExclude, isExcluded_addInclude, hempty]
    refine ⟨?_, rfl⟩
    rw [eq_comm, List.any_eq_false]
    simp

/-- A file that holds one plain pattern. -/
theorem pattern_file_one :
  NoRules {} ∧ (∀ line ∈ patternLines "*.o".toList, IsPlain line) ∧
  ∃ excludedFrom excluded includedFrom included,
    fromOptions (fun _ => .ok "*.o".toList) { excludeFrom := ["f".toList] } = .ok excludedFrom ∧
    fromOptions (fun _ => .ok "*.o".toList) { exclude := patternLines "*.o".toList } =
      .ok excluded ∧
    fromOptions (fun _ => .ok "*.o".toList) { includeFrom := ["f".toList] } = .ok includedFrom ∧
    fromOptions (fun _ => .ok "*.o".toList) { includePatterns := patternLines "*.o".toList } =
      .ok included ∧
    ∀ name isDir,
      (excludedFrom.isExcluded name isDir = excluded.isExcluded name isDir ↔
        ∀ line ∈ patternLines "*.o".toList, ¬PatternMatches line name isDir) ∧
      includedFrom.isExcluded name isDir = included.isExcluded name isDir
  := by
  have hplain : ∀ line ∈ patternLines "*.o".toList, IsPlain line := by
    unfold IsPlain
    decide
  exact ⟨⟨rfl, rfl, rfl, rfl, rfl, rfl⟩, hplain,
    pattern_file_iff (⟨rfl, rfl, rfl, rfl, rfl, rfl⟩ : NoRules {}) rfl hplain⟩

/-- A name that a line of the file excludes as a pattern is not excluded by the file. -/
theorem not_pattern_file :
  ∃ excludedFrom excluded,
    fromOptions (fun _ => .ok "a".toList) { excludeFrom := ["f".toList] } = .ok excludedFrom ∧
    fromOptions (fun _ => .ok "a".toList) { exclude := patternLines "a".toList } = .ok excluded ∧
    (∀ line ∈ patternLines "a".toList, IsPlain line) ∧
    excluded.isExcluded "a".toList false = true ∧
    excludedFrom.isExcluded "a".toList false = false
  := by
  refine ⟨{}, [['a']].foldl addExclude {}, rfl, rfl, ?_, ?_, rfl⟩
  · unfold IsPlain
    decide
  · decide

end FilterList
