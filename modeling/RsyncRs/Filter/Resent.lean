import RsyncRs.Delta.Sums
import RsyncRs.Filter.DecisionList
import RsyncRs.Filter.Rules

/-!
# Filter rules on the server

A client that pulls sends its filter rules to the server as texts: the prefix says whether the
rule includes, and the rest is the stored pattern. Whether the rule is anchored, whether it is
for directories only and whether it clears the list is not sent.
-/

variable {X : Type} {Reply : X → Type} {H : Type}
  {answer : H → (x : X) → Option (Reply x × H)}

/-! ### Sending and receiving rules -/

namespace FilterRule

/-- The text of a rule as it is sent. -/
def text (rule : FilterRule) : Str :=
  (if rule.has filtruleInclude then ['+', ' '] else ['-', ' ']) ++ rule.pattern

/-- Send a rule. -/
def send (rule : FilterRule) : Session Reply Unit := do
  writeInt (wrapI32 rule.text.bytes.length)
  writeAll rule.text.bytes

end FilterRule

namespace FilterList

/-- Send some rules. -/
def sendRules : List FilterRule → Session Reply Unit
  | [] => pure ()
  | rule :: rules => do
    rule.send
    sendRules rules

/-- Send the rules and the end of the list. -/
def send (list : FilterList) : Session Reply Unit := do
  sendRules list.rules
  writeInt 0
  flushOk

/-- Receive a rule or the end of the list. -/
def recvRule (list : FilterList) : Session Reply (FilterList ⊕ FilterList) := do
  let len ← readInt
  if len = 0 then
    pure (.inr list)
  else
    reserve 1 (asUsize len)
    let buf ← readBytes (asUsize len)
    match Str.fromUtf8 buf with
    | some s => pure (.inl (list.parseRule s))
    | none => pure (.inl list)

/-- Receive a list of rules. -/
def recvAndParse : Session Reply FilterList :=
  Proc.loop recvRule {}

end FilterList

/-! ### Rules that are received -/

namespace FilterRule

/-- The rule as the server has it. -/
def resent (rule : FilterRule) : FilterRule :=
  buildRule (Str.trim rule.pattern) (rule.has filtruleInclude)

end FilterRule

theorem Str.trim_cons
    {c : Char} (hc : Str.isWhitespace c = false) (s : Str) :
  Str.trim (c :: s) = c :: Str.trimEnd s
  := by
  rw [Str.trim, Str.trimStart, List.dropWhile_cons_of_neg (by simp [hc]), Str.trimEnd_cons hc]

/-- The text of a rule is parsed as its stored pattern without blanks around it. -/
theorem FilterList.parseRule_prefix
    (list : FilterList) (isInclude : Bool) (pattern : Str) :
  list.parseRule ((if isInclude then ['+', ' '] else ['-', ' ']) ++ pattern) =
    list.push (buildRule (Str.trim pattern) isInclude)
  := by
  have hblank : Str.trimEnd (' ' :: pattern) =
      if Str.trimEnd pattern = [] then [] else ' ' :: Str.trimEnd pattern :=
    Str.trimEnd_cons_blank (by decide) pattern
  have key : ∀ c : Char, Str.isWhitespace c = false → c ≠ '#' → c.utf8Size = 1 → c ≠ ' ' →
      Str.trim (c :: ' ' :: pattern) ≠ [] ∧
        (Str.trim (c :: ' ' :: pattern)).head? ≠ some '#' ∧
        splitPrefix (Str.trim (c :: ' ' :: pattern)) = ([c], Str.trim pattern) := by
    intro c hc hhash hsize hspace
    rw [Str.trim_cons hc, hblank]
    refine ⟨List.cons_ne_nil _ _, by simpa using hhash, ?_⟩
    split
    · next hnil =>
      rw [← Str.trim_trimEnd, hnil]
      simp [splitPrefix, hspace]
    · rw [splitPrefix, if_pos ⟨hsize, .inl rfl⟩, Str.trim_trimEnd]
  cases isInclude with
  | false =>
      obtain ⟨hne, hhash, hsplit⟩ := key '-' (by decide) (by decide) (by decide) (by decide)
      simp only [parseRule, if_neg Bool.false_ne_true, List.cons_append, List.nil_append]
      rw [if_neg (not_or.mpr ⟨hne, hhash⟩), hsplit]
      rfl
  | true =>
      obtain ⟨hne, hhash, hsplit⟩ := key '+' (by decide) (by decide) (by decide) (by decide)
      simp only [parseRule, if_true, List.cons_append, List.nil_append]
      rw [if_neg (not_or.mpr ⟨hne, hhash⟩), hsplit]
      rfl

/-! ### The wire -/

namespace FilterRule

/-- The bytes of a rule. -/
def encode (rule : FilterRule) : List UInt8 :=
  leBytes 4 (wrapI32 rule.text.bytes.length) ++ rule.text.bytes

/-- The length of the text fits into 32 bits. -/
def Fits (rule : FilterRule) : Prop :=
  rule.text.bytes.length < 2147483648

theorem writes_send
    (rule : FilterRule) :
  Proc.Writes answer (rule.send : Session Reply Unit) rule.encode ()
  := (writes_writeInt _).bind (writes_writeAll _)

/-- No text is empty. -/
theorem length_text_pos
    (rule : FilterRule) :
  0 < rule.text.bytes.length
  := by
  unfold text Str.bytes
  cases rule.has filtruleInclude with
  | false => simp [Char.utf8Size_pos]
  | true => simp [Char.utf8Size_pos]

end FilterRule

namespace FilterList

/-- The bytes of a list of rules. -/
def encode (list : FilterList) : List UInt8 :=
  list.rules.flatMap FilterRule.encode ++ leBytes 4 0

theorem writes_sendRules
    (rules : List FilterRule) :
  Proc.Writes answer (sendRules rules : Session Reply Unit) (rules.flatMap FilterRule.encode) ()
  := by
  induction rules with
  | nil => apply Proc.writes_pure
  | cons rule rules ih => apply rule.writes_send.bind ih

/-- A list is sent as its bytes. -/
theorem returns_send
    (list : FilterList) (closed : Bool) (w : Endpoint H UInt8) :
  Proc.Returns answer closed (list.send : Session Reply Unit) w ()
    { w with buffer := [], sent := w.sent ++ (w.buffer ++ list.encode) }
  := by
  have hbuffer : w.buffer ++ list.encode =
      w.buffer ++ list.rules.flatMap FilterRule.encode ++ leBytes 4 0 :=
    (List.append_assoc _ _ _).symm
  rw [hbuffer]
  apply (writes_sendRules list.rules closed w).bind
  apply (writes_writeInt 0 closed _).bind
  apply returns_flushOk

/-- A rule is received as the server has it. -/
theorem reads_recvRule
    {rule : FilterRule} (h : rule.Fits) (list : FilterList) :
  Proc.Reads answer (list.recvRule : Session Reply _) rule.encode (.inl (list.push rule.resent))
  := by
  have hpos := rule.length_text_pos
  have hfits : rule.text.bytes.length < 2147483648 := h
  have hint : IsI32 (rule.text.bytes.length : ℤ) := ⟨by omega, by omega⟩
  have hlen : asUsize (rule.text.bytes.length : ℤ) = rule.text.bytes.length := by
    rw [asUsize_of_nonneg (by omega) (by omega), Int.toNat_natCast]
  rw [FilterRule.encode, wrapI32_of_isI32 hint]
  apply (reads_readInt hint).bind
  rw [if_neg (by omega), hlen]
  apply reads_lift_bind (reserve_eq (by omega))
  rw [← List.append_nil rule.text.bytes]
  apply (reads_readBytes rule.text.bytes (by simp)).bind
  rw [Str.fromUtf8_bytes]
  dsimp only
  have hparse : list.parseRule rule.text = list.push rule.resent :=
    parseRule_prefix list (rule.has filtruleInclude) rule.pattern
  rw [hparse]
  apply Proc.reads_pure

/-- The server receives the rules as it has them. -/
theorem reads_recvAndParse
    {list : FilterList} (h : ∀ rule ∈ list.rules, rule.Fits) :
  Proc.Reads answer (recvAndParse : Session Reply FilterList) list.encode
    { rules := list.rules.map FilterRule.resent }
  := by
  have key : ∀ (rules : List FilterRule) (received : FilterList), (∀ rule ∈ rules, rule.Fits) →
      Proc.Reads answer (Proc.loop recvRule received : Session Reply FilterList)
        (rules.flatMap FilterRule.encode ++ leBytes 4 0)
        { rules := received.rules ++ rules.map FilterRule.resent } := by
    intro rules
    induction rules with
    | nil =>
        intro received _
        rw [List.map_nil, List.append_nil]
        apply Proc.reads_loop_done
        apply (reads_readInt (by decide)).bind_nil
        apply Proc.reads_pure
    | cons rule rules ih =>
        intro received hfits
        have hnext := ih (received.push rule.resent)
          fun r hr => hfits r (List.mem_cons_of_mem _ hr)
        rw [FilterList.push, List.append_assoc] at hnext
        rw [List.flatMap_cons, List.append_assoc]
        apply Proc.reads_loop_again (reads_recvRule (hfits rule List.mem_cons_self) received)
        apply hnext
  apply key list.rules {} h

end FilterList

/-! ### Rules that stay the same -/

theorem getLast?_of_suffix
    {α : Type} {s t : List α} (h : s <:+ t) (hs : s ≠ []) :
  s.getLast? = t.getLast?
  := by
  obtain ⟨pre, rfl⟩ := h
  rw [List.getLast?_append_of_ne_nil _ hs]

/-- What is left after the slashes at the start of a pattern has the same other characters. -/
theorem contains_trimStartMatches
    {c : Char} (hc : c ≠ '/') (s : Str) :
  (Str.trimStartMatches '/' s).contains c = s.contains c
  := by
  induction s with
  | nil => rfl
  | cons d s ih =>
      by_cases hd : d = '/'
      · have hdrop : Str.trimStartMatches '/' (d :: s) = Str.trimStartMatches '/' s :=
          List.dropWhile_cons_of_pos (by simpa using hd)
        rw [hdrop, ih, List.contains_cons, hd]
        simp [hc]
      · have hdrop : Str.trimStartMatches '/' (d :: s) = d :: s :=
          List.dropWhile_cons_of_neg (by simpa using hd)
        rw [hdrop]

theorem trimStartMatches_idempotent
    (c : Char) (s : Str) :
  Str.trimStartMatches c (Str.trimStartMatches c s) = Str.trimStartMatches c s
  := List.dropWhile_idempotent _ _

theorem head?_trimStartMatches
    (c : Char) (s : Str) :
  (Str.trimStartMatches c s).head? ≠ some c
  := by
  intro h
  have hnot := List.head?_dropWhile_not (fun d => decide (d = c)) s
  unfold Str.trimStartMatches at h
  rw [h] at hnot
  simp at hnot

namespace FilterRule

/-- Each flag of a rule is read back. -/
theorem ruleFlags_and
    (isInclude dirOnly absPath hasWild hasWild2 wild2First : Bool) :
  let flags := ruleFlags isInclude dirOnly absPath hasWild hasWild2 wild2First
  decide (flags &&& filtruleInclude ≠ 0) = isInclude ∧
    decide (flags &&& filtruleDirectory ≠ 0) = dirOnly ∧
    decide (flags &&& filtruleAbsPath ≠ 0) = absPath ∧
    decide (flags &&& filtruleWild ≠ 0) = hasWild ∧
    decide (flags &&& filtruleClearList ≠ 0) = false
  := by
  decide +revert

section

variable (pattern : Str) (isInclude : Bool)

theorem has_include_buildRule :
  (buildRule pattern isInclude).has filtruleInclude = isInclude
  := (ruleFlags_and ..).1

theorem has_directory_buildRule :
  (buildRule pattern isInclude).has filtruleDirectory = decide (pattern.getLast? = some '/')
  := (ruleFlags_and ..).2.1

theorem has_clearList_buildRule :
  (buildRule pattern isInclude).has filtruleClearList = false
  := (ruleFlags_and ..).2.2.2.2

end

/-- A pattern that does not end with a slash gives a rule with the flags of its own
characters. -/
theorem has_buildRule_of_not_directory
    {pattern : Str} (h : pattern.getLast? ≠ some '/') (isInclude : Bool) :
  (buildRule pattern isInclude).has filtruleAbsPath = decide (pattern.head? = some '/') ∧
    (buildRule pattern isInclude).has filtruleWild =
      (pattern.contains '*' || pattern.contains '?' || pattern.contains '[') ∧
    (buildRule pattern isInclude).pattern = Str.trimStartMatches '/' pattern
  := by
  unfold has buildRule
  simp only [h, if_false]
  refine ⟨(ruleFlags_and ..).2.2.1, (ruleFlags_and ..).2.2.2.1, trivial⟩

/-- Rules that agree in what is looked at match the same names. -/
theorem matches_congr
    {rule rule' : FilterRule} (hpattern : rule'.pattern = rule.pattern)
    (hdirectory : rule'.has filtruleDirectory = rule.has filtruleDirectory)
    (hwild : rule'.has filtruleWild = rule.has filtruleWild)
    (hslash : Str.trimStartMatches '/' rule.pattern = rule.pattern)
    (htarget : (0 < rule'.slashCnt ∨ rule'.has filtruleAbsPath) ↔
      (0 < rule.slashCnt ∨ rule.has filtruleAbsPath)) (name : Str) (isDir : Bool) :
  rule'.matches name isDir = rule.matches name isDir
  := by
  unfold «matches»
  simp only [hpattern, hdirectory, hwild, hslash, htarget, ite_self]

/-- The server has the rule as it is: it does not clear the list, it is not for directories
only, it is anchored only when it has a slash inside, and there are no blanks around it. -/
structure Kept (rule : FilterRule) : Prop where
  clearList : rule.has filtruleClearList = false
  directory : rule.has filtruleDirectory = false
  absPath : rule.has filtruleAbsPath = true → 0 < rule.slashCnt
  trim : Str.trim rule.pattern = rule.pattern

theorem slashCnt_buildRule
    (pattern : Str) (isInclude : Bool) :
  (buildRule pattern isInclude).slashCnt = (buildRule pattern isInclude).pattern.count '/'
  := rfl

/-- A rule that is kept matches the same names on the server. -/
theorem Kept.matches_resent
    {pattern : Str} {isInclude : Bool} (h : (buildRule pattern isInclude).Kept) (name : Str)
    (isDir : Bool) :
  (buildRule pattern isInclude).resent.matches name isDir =
    (buildRule pattern isInclude).matches name isDir
  := by
  have hlast : pattern.getLast? ≠ some '/' := by
    have hdir := h.directory
    rw [has_directory_buildRule] at hdir
    apply of_decide_eq_false hdir
  obtain ⟨habs, hwild, hpattern⟩ := has_buildRule_of_not_directory hlast isInclude
  have hresent : (buildRule pattern isInclude).resent =
      buildRule (Str.trimStartMatches '/' pattern) isInclude := by
    rw [resent, has_include_buildRule, h.trim, hpattern]
  have hlast' : (Str.trimStartMatches '/' pattern).getLast? ≠ some '/' := by
    intro hslash
    apply hlast
    have hsuffix : Str.trimStartMatches '/' pattern <:+ pattern := List.dropWhile_suffix _
    rw [← getLast?_of_suffix hsuffix, hslash]
    intro hnil
    rw [hnil] at hslash
    cases hslash
  obtain ⟨habs', hwild', hpattern'⟩ := has_buildRule_of_not_directory hlast' isInclude
  rw [trimStartMatches_idempotent] at hpattern'
  rw [hresent]
  apply matches_congr
  · rw [hpattern', hpattern]
  · rw [has_directory_buildRule, has_directory_buildRule]
    simp [hlast, hlast']
  · rw [hwild', hwild, contains_trimStartMatches (by decide),
      contains_trimStartMatches (by decide), contains_trimStartMatches (by decide)]
  · rw [hpattern, trimStartMatches_idempotent]
  · have hnot := head?_trimStartMatches '/' pattern
    rw [habs', slashCnt_buildRule, hpattern', decide_eq_false hnot]
    constructor
    · rintro (hcnt | hfalse)
      · left
        rw [slashCnt_buildRule, hpattern]
        apply hcnt
      · cases hfalse
    · rintro (hcnt | hroot)
      · left
        rw [slashCnt_buildRule, hpattern] at hcnt
        apply hcnt
      · have hcnt := h.absPath hroot
        left
        rw [slashCnt_buildRule, hpattern] at hcnt
        apply hcnt

end FilterRule

/-! ### Lists as decision lists -/

namespace FilterRule

/-- The rule decides about a name. -/
def applies (rule : FilterRule) (name : Str × Bool) : Bool :=
  !rule.has filtruleClearList && rule.matches name.1 name.2

/-- The rule decides about a name on the server. -/
def appliesResent (rule : FilterRule) (name : Str × Bool) : Bool :=
  rule.resent.applies name

/-- What the rule decides. -/
def excludes (rule : FilterRule) : Bool :=
  !rule.has filtruleInclude

theorem excludes_resent
    (rule : FilterRule) :
  rule.resent.excludes = rule.excludes
  := by
  rw [excludes, resent, has_include_buildRule, excludes]

end FilterRule

namespace FilterList

open FilterRule

/-- The first rule that decides about a name excludes it or not. -/
theorem isExcludedBy_eq
    (name : Str) (isDir : Bool) (rules : List FilterRule) :
  isExcludedBy name isDir rules = DecisionList.answer applies excludes false rules (name, isDir)
  := by
  induction rules with
  | nil => rfl
  | cons rule rules ih =>
      rw [isExcludedBy, ih, DecisionList.answer, applies, excludes]
      cases rule.has filtruleClearList with
      | false => rfl
      | true => rfl

theorem isExcludedBy_resent
    (name : Str) (isDir : Bool) (rules : List FilterRule) :
  isExcludedBy name isDir (rules.map resent) =
    DecisionList.answer appliesResent excludes false rules (name, isDir)
  := by
  induction rules with
  | nil => rfl
  | cons rule rules ih =>
      rw [isExcludedBy_eq] at ih ⊢
      rw [List.map_cons, DecisionList.answer, DecisionList.answer, ih, excludes_resent]
      rfl

/-- The rule, which stands between `pre` and `post`, does no harm: at every name that no rule
before it decides about on either side, and that only one side applies it to, the rules after
it decide as it does on the other side. -/
structure Harmless (pre : List FilterRule) (rule : FilterRule) (post : List FilterRule) :
    Prop where
  /-- Where only the client applies the rule. -/
  client : ∀ name isDir, DecisionList.Silent applies appliesResent pre (name, isDir) →
    rule.applies (name, isDir) = true → rule.resent.applies (name, isDir) = false →
    isExcludedBy name isDir (post.map resent) = rule.excludes
  /-- Where only the server applies the rule. -/
  server : ∀ name isDir, DecisionList.Silent applies appliesResent pre (name, isDir) →
    rule.applies (name, isDir) = false → rule.resent.applies (name, isDir) = true →
    isExcludedBy name isDir post = rule.excludes

/-- The rules were made from texts, or they clear the list. -/
def Built (list : FilterList) : Prop :=
  ∀ rule ∈ list.rules, rule = clearRule ∨ ∃ pattern isInclude, rule = buildRule pattern isInclude

/-- On both sides the same names are excluded exactly when every rule that is not kept does no
harm. -/
theorem isExcluded_resent_iff
    {list : FilterList} (h : list.Built) :
  (∀ name isDir, isExcluded { rules := list.rules.map resent } name isDir =
      list.isExcluded name isDir) ↔
    ∀ pre rule post, list.rules = pre ++ rule :: post → ¬ rule.Kept → Harmless pre rule post
  := by
  have hiff : ∀ name isDir, isExcluded { rules := list.rules.map resent } name isDir =
      list.isExcluded name isDir ↔ ∀ pre rule post, list.rules = pre ++ rule :: post →
        DecisionList.Silent applies appliesResent pre (name, isDir) →
        DecisionList.MadeUpFor applies appliesResent excludes false rule post (name, isDir) := by
    intro name isDir
    rw [isExcluded, isExcluded, isExcludedBy_resent, isExcludedBy_eq, DecisionList.answer_eq_iff]
  constructor
  · intro hall pre rule post hrules _
    constructor
    · intro name isDir hpre h₁ h₂
      rw [isExcludedBy_resent]
      apply ((hiff name isDir).mp (hall name isDir) pre rule post hrules hpre).1 h₁ h₂
    · intro name isDir hpre h₁ h₂
      rw [isExcludedBy_eq]
      apply ((hiff name isDir).mp (hall name isDir) pre rule post hrules hpre).2 h₁ h₂
  · intro hall name isDir
    rw [hiff]
    intro pre rule post hrules hpre
    by_cases hkept : rule.Kept
    · apply DecisionList.madeUpFor_of_eq
      have hmem : rule ∈ list.rules := by
        rw [hrules]
        apply List.mem_append_right
        apply List.mem_cons_self
      rcases h rule hmem with rfl | ⟨pattern, isInclude, rfl⟩
      · cases hkept.clearList
      · have hclear : (buildRule pattern isInclude).resent.has filtruleClearList = false :=
          has_clearList_buildRule _ _
        rw [appliesResent, applies, applies, hkept.matches_resent, hclear,
          has_clearList_buildRule]
    · have hharm := hall pre rule post hrules hkept
      constructor
      · intro h₁ h₂
        rw [← isExcludedBy_resent]
        apply hharm.client name isDir hpre h₁ h₂
      · intro h₁ h₂
        rw [← isExcludedBy_eq]
        apply hharm.server name isDir hpre h₁ h₂

/-! ### Lists that are made from options -/

theorem Built.push
    {list : FilterList} (h : list.Built) (pattern : Str) (isInclude : Bool) :
  (list.push (buildRule pattern isInclude)).Built
  := by
  intro rule hrule
  rcases List.mem_append.mp hrule with hrule | hrule
  · apply h rule hrule
  · right
    use pattern, isInclude
    apply List.mem_singleton.mp hrule

theorem Built.parseRule
    {list : FilterList} (h : list.Built) (line : Str) :
  (list.parseRule line).Built
  := by
  unfold FilterList.parseRule
  dsimp only
  split_ifs
  · apply h
  · apply h.push
  · apply h.push
  · intro rule hrule
    rcases List.mem_append.mp hrule with hrule | hrule
    · apply h rule hrule
    · left
      apply List.mem_singleton.mp hrule
  · apply h

theorem Built.foldl
    {α : Type} {f : FilterList → α → FilterList} (hf : ∀ list a, list.Built → (f list a).Built)
    {list : FilterList} (h : list.Built) (as : List α) :
  (as.foldl f list).Built
  := by
  induction as generalizing list with
  | nil => apply h
  | cons a as ih => apply ih (hf list a h)

theorem built_loadFromFile
    {readToString : Str → Except String Str} {list list' : FilterList} (h : list.Built)
    {path : Str} (hload : list.loadFromFile readToString path = .ok list') :
  list'.Built
  := by
  unfold FilterList.loadFromFile at hload
  split at hload
  · cases hload
  · cases hload
    apply h.foldl fun list line hlist => hlist.parseRule line

theorem built_loadFromFiles
    {readToString : Str → Except String Str} {list list' : FilterList} (h : list.Built)
    {paths : List Str} (hload : paths.foldlM (loadFromFile readToString) list = .ok list') :
  list'.Built
  := by
  induction paths generalizing list with
  | nil =>
      cases hload
      apply h
  | cons path paths ih =>
      rw [List.foldlM_cons] at hload
      cases hfirst : list.loadFromFile readToString path with
      | error e =>
          rw [hfirst] at hload
          cases hload
      | ok list₁ =>
          rw [hfirst, ok_bind] at hload
          apply ih (built_loadFromFile h hfirst) hload

/-- The rules that options ask for are made from texts, or they clear the list. -/
theorem built_fromOptions
    {readToString : Str → Except String Str} {opts : Options} {list : FilterList}
    (h : fromOptions readToString opts = .ok list) :
  list.Built
  := by
  have hempty : ({} : FilterList).Built := by
    intro rule hrule
    cases hrule
  obtain ⟨list₁, hload₁, h⟩ := ok_of_bind h
  obtain ⟨list₂, hload₂, h⟩ := ok_of_bind h
  have h₁ : list₁.Built :=
    built_loadFromFiles (hempty.foldl (fun _ line hl => hl.parseRule line) opts.filter) hload₁
  have h₂ := built_loadFromFiles h₁ hload₂
  have h₃ := (h₂.foldl (fun _ pattern hl => hl.push pattern true) opts.includePatterns).foldl
    (fun _ pattern hl => hl.push pattern false) opts.exclude
  dsimp only at h
  split_ifs at h
  · rw [← Except.ok.inj h]
    apply h₃.foldl fun _ pattern hl => hl.push pattern.toList false
  · rw [← Except.ok.inj h]
    apply h₃

/-! ### What the server excludes -/

/-- The server receives the rules that the client sends, and it excludes the same names exactly
when every rule that it does not have as it is does no harm. -/
theorem filter_resent_iff
    (answer : H → (x : X) → Option (Reply x × H)) {readToString : Str → Except String Str}
    {opts : Options} {list : FilterList} (hlist : fromOptions readToString opts = .ok list)
    (hfits : ∀ rule ∈ list.rules, rule.Fits) (closed : Bool) (w : Endpoint H UInt8) :
  ∃ wire received,
    Proc.Returns answer closed (list.send : Session Reply Unit) w ()
      { w with buffer := [], sent := w.sent ++ (w.buffer ++ wire) } ∧
    Proc.Reads answer (recvAndParse : Session Reply FilterList) wire received ∧
    ((∀ name isDir, received.isExcluded name isDir = list.isExcluded name isDir) ↔
      ∀ pre rule post, list.rules = pre ++ rule :: post → ¬ rule.Kept →
        Harmless pre rule post)
  := by
  use list.encode, { rules := list.rules.map resent }
  refine ⟨returns_send list closed w, reads_recvAndParse hfits, ?_⟩
  apply isExcluded_resent_iff (built_fromOptions hlist)

/-- Rules from several options. The server has the third one without its slash at the end, and the
fourth one decides as it does. -/
def slashThenPlain : Options where
  filter := ["- *.o".toList]
  includePatterns := ["keep/b".toList]
  exclude := ["a/".toList, "a".toList]

/-- The rules of these options. -/
def slashThenPlainRules : FilterList where
  rules := [buildRule "*.o".toList false, buildRule "keep/b".toList true,
    buildRule "a/".toList false, buildRule "a".toList false]

theorem fromOptions_slashThenPlain :
  fromOptions (fun _ => .ok []) slashThenPlain = .ok slashThenPlainRules
  := by
  decide +kernel

/-- Where the server applies the rule without its slash, the rule after it decides the same. -/
theorem harmless_slash
    (pre : List FilterRule) :
  Harmless pre (buildRule "a/".toList false) [buildRule "a".toList false]
  := by
  have hsame : (buildRule "a/".toList false).resent = buildRule "a".toList false := by
    decide +kernel
  constructor
  · intro name isDir _ hclient hserver
    rw [hsame] at hserver
    -- a directory to which the rule applies is one to which it applies without its slash
    cases isDir with
    | false => cases hclient
    | true => cases hclient.symm.trans hserver
  · intro name isDir _ _ hserver
    rw [hsame] at hserver
    have hmatches : (buildRule "a".toList false).matches name isDir = true := hserver
    rw [isExcludedBy, if_neg (by decide), if_pos hmatches]
    rfl

theorem filter_resent_plain :
  ∃ wire received,
    Proc.Returns noHost false
      (FilterList.send slashThenPlainRules : Session (fun _ => Unit) Unit)
      { host := (), input := [], buffer := [], sent := [] } ()
      { host := (), input := [], buffer := [], sent := wire } ∧
    Proc.Reads noHost (recvAndParse : Session (fun _ => Unit) FilterList) wire received ∧
    ∀ name isDir, received.isExcluded name isDir = isExcluded slashThenPlainRules name isDir
  := by
  have hfits : ∀ rule ∈ slashThenPlainRules.rules, rule.Fits := by
    unfold Fits
    decide +kernel
  obtain ⟨wire, received, hsend, hrecv, hiff⟩ := filter_resent_iff noHost
    fromOptions_slashThenPlain hfits false { host := (), input := [], buffer := [], sent := [] }
  refine ⟨wire, received, hsend, hrecv, hiff.mpr ?_⟩
  intro pre rule post hrules hkept
  rcases pre with _ | ⟨_, _ | ⟨_, _ | ⟨_, _ | ⟨_, _⟩⟩⟩⟩
  · cases hrules
    exact absurd (by constructor <;> decide +kernel) hkept
  · cases hrules
    exact absurd (by constructor <;> decide +kernel) hkept
  · cases hrules
    exact harmless_slash _
  · cases hrules
    exact absurd (by constructor <;> decide +kernel) hkept
  · have hlen : 4 = _ := congrArg List.length hrules
    simp only [List.cons_append, List.length_cons, List.length_append] at hlen
    omega

/-- With `a/` excluded, which is for directories only, the server excludes the file `a` too. -/
theorem filter_not_resent :
  ¬ ∀ list, fromOptions (fun _ => .ok []) { exclude := [['a', '/']] } = .ok list →
    ∃ wire received,
      Proc.Returns noHost false (list.send : Session (fun _ => Unit) Unit)
        { host := (), input := [], buffer := [], sent := [] } ()
        { host := (), input := [], buffer := [], sent := wire } ∧
      Proc.Reads noHost (recvAndParse : Session (fun _ => Unit) FilterList) wire received ∧
      ∀ name isDir, received.isExcluded name isDir = list.isExcluded name isDir
  := by
  intro h
  obtain ⟨wire, received, hsend, hrecv, hall⟩ := h { rules := [buildRule ['a', '/'] false] } rfl
  have hfits : ∀ rule ∈ [buildRule ['a', '/'] false], rule.Fits := by
    intro rule hrule
    cases List.mem_singleton.mp hrule
    unfold Fits
    decide
  have hwire := (hsend.unique (returns_send { rules := [buildRule ['a', '/'] false] } false _)).2
  have hwire' : wire = encode { rules := [buildRule ['a', '/'] false] } :=
    (congrArg Endpoint.sent hwire).symm
  subst hwire'
  have hrecv' : Proc.Reads noHost (recvAndParse : Session (fun _ => Unit) FilterList)
      (encode { rules := [buildRule ['a', '/'] false] }) _ := reads_recvAndParse hfits
  have hw : ({ host := (), input := encode { rules := [buildRule ['a', '/'] false] },
               buffer := [], sent := [] } : Endpoint Unit UInt8).input = _ ++ [] :=
    (List.append_nil _).symm
  have hsame := ((hrecv false _ [] hw).unique (hrecv' false _ [] hw)).1
  have hfile := hall ['a'] false
  rw [← hsame] at hfile
  revert hfile
  decide

end FilterList
