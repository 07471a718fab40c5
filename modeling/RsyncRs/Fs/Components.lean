import Mathlib.Data.List.Induction
import RsyncRs.Fs.Locate

/-!
# Components of paths

The components of a joined path and of the parent of a path.
-/

namespace FsPath

/-- The component of one part of a path, if it has one. -/
def ofPart (part : FsPath) : Option Component :=
  if part = [] ∨ part = [dot] then none
  else if part = [dot, dot] then some .parent
  else some (.normal part)

/-- The components of the parts of a path. -/
def bodyComponents (p : FsPath) : List Component :=
  (p.splitOn sep).filterMap ofPart

/-- The component at the start of a path that is not one of its parts. -/
def leadComponents (p : FsPath) : List Component :=
  if isAbsolute p then [.root] else if includesCurDir p then [.cur] else []

theorem components_eq
    (p : FsPath) :
  components p = leadComponents p ++ bodyComponents p
  := rfl

/-! ### Parts -/

theorem bodyComponents_of_not_mem
    {part : FsPath} (h : sep ∉ part) :
  bodyComponents part = (ofPart part).toList
  := by
  rw [bodyComponents, List.splitOn_eq_singleton h, List.filterMap_cons]
  cases ofPart part with
  | none => rfl
  | some c => rfl

@[simp]
theorem bodyComponents_nil :
  bodyComponents [] = []
  := bodyComponents_of_not_mem (List.not_mem_nil)

theorem bodyComponents_sep
    (a b : FsPath) :
  bodyComponents (a ++ sep :: b) = bodyComponents a ++ bodyComponents b
  := by
  unfold bodyComponents
  rw [List.splitOn_append_cons_self, List.filterMap_append]

theorem ofPart_name
    {name : Name} (h : IsName name) :
  ofPart name = some (.normal name)
  := by
  unfold ofPart
  rw [if_neg (not_or_intro h.nonempty h.notDot), if_neg h.notDots]

/-- The component of the last part of a path comes last. -/
theorem bodyComponents_lastPart
    (p : FsPath) :
  bodyComponents p = bodyComponents (beforeLastPart p) ++ (ofPart (lastPart p)).toList
  := by
  by_cases h : sep ∈ p
  · nth_rewrite 1 [← beforeLastPart_append h]
    rw [bodyComponents_sep, bodyComponents_of_not_mem (sep_not_mem_lastPart p)]
  · rw [beforeLastPart_of_not_mem h, lastPart_of_not_mem h, bodyComponents_nil, List.nil_append,
      bodyComponents_of_not_mem h]

/-- The parts at the end of a path that name nothing have no components. -/
theorem bodyComponents_trimBody
    (body : FsPath) :
  bodyComponents (trimBody body) = bodyComponents body
  := by
  induction body using trimBody.induct with
  | case1 => rw [trimBody, if_pos rfl]
  | case2 body hne hlast ih =>
      have hnone : ofPart (lastPart body) = none := if_pos hlast
      rw [trimBody, if_neg hne, if_pos hlast, ih, bodyComponents_lastPart body, hnone]
      simp
  | case3 body hne hlast => rw [trimBody, if_neg hne, if_neg hlast]

/-- A path without components is trimmed to nothing. -/
theorem trimBody_of_no_components
    {body : FsPath} (h : bodyComponents body = []) :
  trimBody body = []
  := by
  by_contra hne
  obtain ⟨h₁, h₂⟩ := lastPart_trimBody body hne
  rw [← bodyComponents_trimBody, bodyComponents_lastPart] at h
  have hnone := (List.append_eq_nil_iff.mp h).2
  unfold ofPart at hnone
  rw [if_neg (not_or_intro h₁ h₂)] at hnone
  split at hnone
  · cases hnone
  · cases hnone

/-! ### Joined paths -/

/-- The bytes behind a path do not change how it starts. -/
theorem leadComponents_append
    {base : FsPath} (hne : base ≠ []) {q : FsPath} (hq : base = [dot] → q.head? = some sep)
    (hq' : ∀ c, base = [c] → c = sep ∨ q.head? = some sep) :
  leadComponents (base ++ q) = leadComponents base
  := by
  unfold leadComponents includesCurDir
  rw [isAbsolute_append hne]
  match base, hne with
  | [c], _ =>
    by_cases hdot : c = dot
    · subst hdot
      cases q with
      | nil => cases hq rfl
      | cons d q =>
          have hd : d = sep := by simpa using hq rfl
          subst hd
          simp
    · have hcur : ¬ (c :: q = [dot]) := by simp [hdot]
      cases q with
      | nil => simp
      | cons d q => simp [hdot]
  | c :: d :: base, _ =>
    simp

/-- A name is the last component of a path to which it is joined. -/
theorem components_join
    (base : FsPath) {name : Name} (h : IsName name) :
  components (join base name) = components base ++ [.normal name]
  := by
  have hrel : isAbsolute name = false := by
    unfold isAbsolute
    rw [decide_eq_false_iff_not]
    intro hhead
    apply h.noSep
    apply List.mem_of_mem_head? hhead
  have hname : bodyComponents name = [.normal name] := by
    rw [bodyComponents_of_not_mem h.noSep, ofPart_name h]
    rfl
  rw [join, if_neg (by simp [hrel])]
  by_cases hnil : base = []
  · subst hnil
    have hlead : leadComponents name = [] := by
      unfold leadComponents includesCurDir
      rw [hrel]
      have htake : name.take 2 ≠ [dot, sep] := by
        intro heq
        apply h.noSep
        apply List.mem_of_mem_take (i := 2)
        rw [heq]
        simp
      simp [h.notDot, htake]
    rw [if_pos (Or.inl rfl), List.nil_append, components_eq, hlead, hname]
    rfl
  · by_cases hend : base.getLast? = some sep
    · rw [if_pos (Or.inr hend)]
      obtain ⟨init, rfl⟩ := List.getLast?_eq_some_iff.mp hend
      have hlead : leadComponents (init ++ [sep] ++ name) = leadComponents (init ++ [sep]) := by
        apply leadComponents_append hnil
        · intro hdot
          rw [hdot] at hend
          cases hend
        · intro c hc
          rw [hc] at hend
          apply Or.inl (Option.some.inj hend)
      have hbody : bodyComponents (init ++ [sep]) = bodyComponents init := by
        rw [bodyComponents_sep, bodyComponents_nil, List.append_nil]
      rw [components_eq, components_eq, hlead, hbody, List.append_assoc init, List.singleton_append,
        bodyComponents_sep, hname, List.append_assoc]
    · rw [if_neg (not_or.mpr ⟨hnil, hend⟩)]
      have hlead : leadComponents (base ++ sep :: name) = leadComponents base := by
        apply leadComponents_append hnil
        · intro _
          rfl
        · intro _ _
          apply Or.inr rfl
      rw [components_eq, components_eq, hlead, bodyComponents_sep, hname, List.append_assoc]

/-- Names do not end in a separator. -/
theorem getLast?_ofNames_ne_sep
    {names : List Name} (hnames : ∀ n ∈ names, IsName n) :
  (ofNames names).getLast? ≠ some sep
  := by
  by_cases hnil : names = []
  · rw [hnil]
    nofun
  obtain ⟨init, last, rfl⟩ := (List.eq_nil_or_concat' names).resolve_left hnil
  have hlast : IsName last := hnames last (by simp)
  have hget : (ofNames (init ++ [last])).getLast? = last.getLast? := by
    by_cases hinit : init = []
    · subst hinit
      rw [List.nil_append, ofNames, List.intercalate_singleton]
    · obtain ⟨c, hc⟩ := Option.ne_none_iff_exists'.mp
        (mt List.getLast?_eq_none_iff.mp hlast.nonempty)
      rw [ofNames_concat hinit, List.getLast?_append, List.getLast?_cons, hc]
      rfl
  rw [hget]
  exact fun h => hlast.noSep (List.mem_of_getLast? h)

/-- Names are joined to names. -/
theorem join_ofNames
    {names : List Name} {name : Name} (hnames : ∀ n ∈ names, IsName n) (hname : IsName name) :
  (ofNames names).join name = ofNames (names ++ [name])
  := by
  have hrel : isAbsolute name = false := by
    have h := @isAbsolute_ofNames [name] (by simpa using hname)
    rwa [ofNames, List.intercalate_singleton] at h
  rw [join, if_neg (by simp [hrel])]
  by_cases hnil : names = []
  · subst hnil
    have hempty : ofNames [] = [] := rfl
    rw [hempty, if_pos (Or.inl rfl), List.nil_append, List.nil_append, ofNames,
      List.intercalate_singleton]
  · have hne : ofNames names ≠ [] := mt (ofNames_eq_nil_iff hnames).mp hnil
    have hend := getLast?_ofNames_ne_sep hnames
    rw [if_neg (not_or.mpr ⟨hne, hend⟩), ofNames_concat hnil]

theorem components_ofNames
    {names : List Name} (hnames : ∀ n ∈ names, IsName n) :
  components (ofNames names) = names.map .normal
  := by
  induction names using List.reverseRecOn with
  | nil => rfl
  | append_singleton names name ih =>
      have hnames' : ∀ n ∈ names, IsName n := fun n hn =>
        hnames n (List.mem_append_left _ hn)
      have hname : IsName name := hnames name (by simp)
      rw [← join_ofNames hnames' hname, components_join _ hname, ih hnames',
        List.map_append, List.map_singleton]

/-! ### Parents -/

theorem length_trimBody_le
    (body : FsPath) :
  (trimBody body).length ≤ body.length
  := (prefix_trimBody body).length_le

/-- The parent of a path is shorter, unless it is empty. -/
theorem length_parent_lt
    {p q : FsPath} (h : parent p = some q) (hq : q ≠ []) :
  q.length < p.length
  := by
  unfold parent at h
  dsimp only at h
  split at h
  · next hbody =>
    cases h
    have h₁ := length_trimBody_le (beforeLastPart (trimBody (p.drop (lenBeforeBody p))))
    have h₂ := length_beforeLastPart_lt hbody
    have h₃ := length_trimBody_le (p.drop (lenBeforeBody p))
    rw [List.length_drop] at h₃
    rw [List.length_append, List.length_take]
    omega
  · split at h
    · cases h
      exact absurd rfl hq
    · cases h

/-- The path and the paths of the directories above it that it names. -/
def ancestors (p : FsPath) : List FsPath :=
  p :: match _h : parent p with
    | some q => if _hq : q = [] then [] else ancestors q
    | none => []
termination_by p.length
decreasing_by
  apply length_parent_lt _h _hq

theorem ancestors_eq
    {p q : FsPath} (h : parent p = some q) :
  ancestors p = p :: if q = [] then [] else ancestors q
  := by
  rw [ancestors]
  split
  · next q' hq' =>
    cases h.symm.trans hq'
    split <;> rfl
  · next hnone =>
    rw [h] at hnone
    cases hnone

/-- A path that starts with none of the components that have no names. -/
def Plain (p : FsPath) : Prop :=
  leadComponents p = []

theorem plain_iff
    {p : FsPath} :
  Plain p ↔ isAbsolute p = false ∧ includesCurDir p = false
  := by
  unfold Plain leadComponents
  cases isAbsolute p <;> cases includesCurDir p <;> simp

/-- A prefix of such a path is one too, unless it is the current directory. -/
theorem Plain.of_prefix
    {p q : FsPath} (hp : Plain p) (h : q <+: p) (hq : q ≠ [dot]) :
  Plain q
  := by
  obtain ⟨habs, hcur⟩ := plain_iff.mp hp
  obtain ⟨rest, rfl⟩ := h
  by_cases hnil : q = []
  · subst hnil
    rfl
  · rw [isAbsolute_append hnil] at habs
    rw [plain_iff]
    apply And.intro habs
    unfold includesCurDir at hcur ⊢
    simp only [decide_eq_false_iff_not, not_or] at hcur ⊢
    apply And.intro hq
    intro htake
    apply hcur.2
    match q, htake with
    | c :: d :: q, htake => simpa using htake

/-- The components of the parent of a path are the components but the last. -/
theorem components_parent
    {p : FsPath} (hp : Plain p) (hne : components p ≠ []) :
  ∃ q, parent p = some q ∧ Plain q ∧ components q = (components p).dropLast ∧
    (q = [] ↔ components q = [])
  := by
  obtain ⟨habs, hcur⟩ := plain_iff.mp hp
  have hlen : lenBeforeBody p = 0 := by simp [lenBeforeBody, habs, hcur]
  have hcomp : components p = bodyComponents p := by
    rw [components_eq, hp, List.nil_append]
  have hbody : trimBody p ≠ [] := by
    intro hnil
    apply hne
    rw [hcomp, ← bodyComponents_trimBody, hnil, bodyComponents_nil]
  obtain ⟨hlast, hlast'⟩ := lastPart_trimBody p hbody
  have hsome : ∃ c, ofPart (lastPart (trimBody p)) = some c := by
    unfold ofPart
    rw [if_neg (not_or_intro hlast hlast')]
    split
    · use .parent
    · use .normal (lastPart (trimBody p))
  obtain ⟨c, hc⟩ := hsome
  use trimBody (beforeLastPart (trimBody p))
  have hplain : Plain (trimBody (beforeLastPart (trimBody p))) := by
    apply hp.of_prefix
    · apply ((prefix_trimBody _).trans (prefix_beforeLastPart _)).trans (prefix_trimBody p)
    · intro hdot
      have hne' : trimBody (beforeLastPart (trimBody p)) ≠ [] := by
        rw [hdot]
        apply List.cons_ne_nil
      apply (lastPart_trimBody _ hne').2
      rw [hdot]
      decide
  have hq : components (trimBody (beforeLastPart (trimBody p))) =
      bodyComponents (beforeLastPart (trimBody p)) := by
    rw [components_eq, hplain, List.nil_append, bodyComponents_trimBody]
  refine ⟨?_, hplain, ?_, ?_⟩
  · unfold parent
    simp only [hlen, List.take_zero, List.drop_zero, List.nil_append, if_pos hbody]
  · rw [hq, hcomp, ← bodyComponents_trimBody p, bodyComponents_lastPart (trimBody p), hc,
      Option.toList_some, List.dropLast_concat]
  · constructor
    · intro hnil
      rw [hnil]
      rfl
    · intro hnil
      apply trimBody_of_no_components
      rw [← hq, hnil]

/-- A path without components has no parent. -/
theorem ancestors_of_no_components
    {p : FsPath} (hp : Plain p) (h : components p = []) :
  ancestors p = [p]
  := by
  obtain ⟨habs, hcur⟩ := plain_iff.mp hp
  have hlen : lenBeforeBody p = 0 := by simp [lenBeforeBody, habs, hcur]
  rw [components_eq, hp, List.nil_append] at h
  have hnone : parent p = none := by
    unfold parent
    simp only [hlen, List.take_zero, List.drop_zero, List.nil_append,
      trimBody_of_no_components h, hcur]
    rfl
  rw [ancestors]
  split
  · next q hq =>
    rw [hnone] at hq
    cases hq
  · rfl

/-- The paths that a path names have as components the beginnings of its components. -/
theorem mem_ancestors_iff
    {p : FsPath} (hp : Plain p) {comps : List Component} (hcomps : comps ≠ []) :
  (∃ q ∈ ancestors p, components q = comps) ↔ comps <+: components p
  := by
  induction hn : (components p).length generalizing p with
  | zero =>
      have hnil := List.length_eq_zero_iff.mp hn
      rw [ancestors_of_no_components hp hnil, hnil, List.prefix_nil]
      constructor
      · rintro ⟨a, ha, rfl⟩
        rw [List.mem_singleton.mp ha, hnil]
      · intro h
        exact absurd h hcomps
  | succ n ih =>
      have hne : components p ≠ [] := by
        intro hnil
        rw [hnil] at hn
        cases hn
      obtain ⟨q, hq, hplain, hcomp, hnil⟩ := components_parent hp hne
      have hlast := List.dropLast_concat_getLast hne
      have hprefix : comps <+: components p ↔ comps = components p ∨ comps <+: components q := by
        rw [hcomp]
        nth_rewrite 1 [← hlast]
        rw [List.prefix_concat_iff, hlast]
      rw [ancestors_eq hq, hprefix]
      by_cases hend : q = []
      · rw [if_pos hend, hnil.mp hend, List.prefix_nil]
        constructor
        · rintro ⟨a, ha, rfl⟩
          rw [List.mem_singleton.mp ha]
          apply Or.inl rfl
        · rintro (rfl | rfl)
          · use p, List.mem_singleton_self p
          · exact absurd rfl hcomps
      · have hlen : (components q).length = n := by
          rw [hcomp, List.length_dropLast, hn]
          rfl
        have ih' := ih hplain hlen
        rw [if_neg hend]
        constructor
        · rintro ⟨a, ha, heq⟩
          rcases List.mem_cons.mp ha with rfl | ha
          · apply Or.inl heq.symm
          · apply Or.inr (ih'.mp ⟨a, ha, heq⟩)
        · rintro (rfl | hpre)
          · use p, List.mem_cons_self
          · obtain ⟨a, ha, heq⟩ := ih'.mpr hpre
            use a, List.mem_cons_of_mem p ha

/-- A path that includes the current directory is a dot, or a dot and a separator come first. -/
theorem includesCurDir_cases
    {p : FsPath} (h : includesCurDir p = true) :
  p = [dot] ∨ ∃ r, p = dot :: sep :: r
  := by
  simp only [includesCurDir, Bool.decide_or, Bool.or_eq_true, decide_eq_true_eq] at h
  rcases h with rfl | h
  · exact Or.inl rfl
  · right
    exact ⟨p.drop 2, (List.take_append_drop 2 p).symm.trans (congrArg (· ++ p.drop 2) h)⟩

theorem leadComponents_take_append
    {p body : FsPath} (hp : leadComponents p ≠ []) (h : body <+: p.drop (lenBeforeBody p)) :
  leadComponents (p.take (lenBeforeBody p) ++ body) ≠ []
  := by
  by_cases habs : isAbsolute p = true
  · have hlead : lenBeforeBody p = 1 := if_pos (.inl habs)
    obtain ⟨r, rfl⟩ := List.head?_eq_some_iff.mp (of_decide_eq_true habs)
    rw [hlead]
    exact List.cons_ne_nil _ _
  have hcur : includesCurDir p = true := by
    by_contra hcur
    apply hp
    rw [leadComponents, if_neg habs, if_neg hcur]
  have hlead : lenBeforeBody p = 1 := if_pos (.inr hcur)
  rw [hlead] at h ⊢
  rcases includesCurDir_cases hcur with rfl | ⟨r, rfl⟩
  · rw [List.prefix_nil.mp h]
    exact List.cons_ne_nil _ _
  · cases body with
    | nil => exact List.cons_ne_nil _ _
    | cons b t =>
        obtain ⟨rfl, -⟩ := List.cons_prefix_cons.mp h
        exact List.cons_ne_nil _ _

/-- The directories above a path that starts with a component without a name start so, too. -/
theorem leadComponents_parent
    {p q : FsPath} (hp : leadComponents p ≠ []) (h : parent p = some q) (hq : q ≠ []) :
  leadComponents q ≠ []
  := by
  have hlead : leadComponents (p.take (lenBeforeBody p) ++
      trimBody (beforeLastPart (trimBody (p.drop (lenBeforeBody p))))) ≠ [] := by
    have hprefix := ((prefix_trimBody _).trans
      (prefix_beforeLastPart _)).trans (prefix_trimBody (p.drop (lenBeforeBody p)))
    generalize trimBody (beforeLastPart (trimBody (p.drop (lenBeforeBody p)))) = body at hprefix ⊢
    exact leadComponents_take_append hp hprefix
  unfold parent at h
  dsimp only at h
  split at h
  · cases h
    exact hlead
  · split at h
    · cases h
      exact absurd rfl hq
    · cases h

theorem leadComponents_ancestors
    {p q : FsPath} (hp : leadComponents p ≠ []) (hq : q ∈ ancestors p) :
  leadComponents q ≠ []
  := by
  induction hn : p.length using Nat.strong_induction_on generalizing p with
  | _ n ih =>
      cases hparent : parent p with
      | none =>
          rw [ancestors] at hq
          split at hq
          · next hsome =>
            rw [hparent] at hsome
            cases hsome
          · rwa [List.mem_singleton.mp hq]
      | some q' =>
          rw [ancestors_eq hparent] at hq
          rcases List.mem_cons.mp hq with rfl | hq
          · exact hp
          split at hq
          · cases hq
          · next hne =>
            have hlt := length_parent_lt hparent hne
            exact ih _ (hn ▸ hlt) (leadComponents_parent hp hparent hne) hq rfl

/-- The directories above a path have the first components of the path, as far as these are
names. -/
theorem names_ancestors_iff
    {p : FsPath} {names : List Name} (hne : names ≠ []) :
  (∃ q ∈ ancestors p, components q = names.map .normal) ↔ names.map .normal <+: components p
  := by
  by_cases hlead : leadComponents p = []
  · exact mem_ancestors_iff hlead (mt List.map_eq_nil_iff.mp hne)
  · obtain ⟨name, names, rfl⟩ := List.exists_cons_of_ne_nil hne
    -- neither the path nor one above it starts with a name
    have hnever : ∀ q, leadComponents q ≠ [] → ¬(name :: names).map .normal <+: components q := by
      intro q hq hprefix
      rw [components_eq] at hprefix
      unfold leadComponents at hq hprefix
      split at hprefix
      · cases (List.cons_prefix_cons.mp hprefix).1
      next habs =>
      rw [if_neg habs] at hq
      split at hprefix
      · cases (List.cons_prefix_cons.mp hprefix).1
      · next hcur => exact hq (if_neg hcur)
    have habove : ∀ q ∈ ancestors p, leadComponents q ≠ [] := by
      intro q hq
      exact leadComponents_ancestors hlead hq
    constructor
    · rintro ⟨q, hq, hcomps⟩
      exact absurd (hcomps ▸ List.prefix_rfl) (hnever q (habove q hq))
    · intro hprefix
      exact absurd hprefix (hnever p hlead)

end FsPath
