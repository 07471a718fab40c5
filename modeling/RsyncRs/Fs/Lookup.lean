import RsyncRs.Fs.Inside
import RsyncRs.Fs.Resolve

/-!
# Names that are looked up in a directory

Paths that differ in parts that name nothing lead to the same place. A path to which names are
joined leads where the names lead from the directory of the path, and where no link is among what
they name, this is the place below the directory that has these names.
-/

namespace FsPath

variable {shape : Location → Shape} {cwd cur l : Location} {parts parts' : List FsPath}
  {names : List Name} {p q : FsPath} {name : Name}
  {onLink onLink' : Location → List FsPath → Option Location}

/-! ### Parts that name nothing -/

/-- The parts name the same one after the other, and those of the second list do not end in one
that names nothing unless those of the first do. -/
inductive SameSteps : List FsPath → List FsPath → Prop
  | nil : SameSteps [] []
  | keep {parts parts' : List FsPath} (part : FsPath) :
    SameSteps parts parts' → SameSteps (part :: parts) (part :: parts')
  | skip {part : FsPath} {parts parts' : List FsPath} :
    part = [] ∨ part = [dot] → SameSteps parts parts' → SameSteps (part :: parts) parts'
  | insert {part : FsPath} {parts parts' : List FsPath} :
    part = [] ∨ part = [dot] → parts' ≠ [] → SameSteps parts parts' →
      SameSteps parts (part :: parts')

theorem SameSteps.refl
    (parts : List FsPath) :
  SameSteps parts parts
  := by
  induction parts with
  | nil => exact .nil
  | cons part parts ih => exact .keep part ih

theorem SameSteps.append
    (before : List FsPath) (h : SameSteps parts parts') :
  SameSteps (before ++ parts) (before ++ parts')
  := by
  induction before with
  | nil => exact h
  | cons part before ih => exact .keep part ih

theorem SameSteps.of_nil
    (h : SameSteps [] parts') :
  parts' = []
  := by
  generalize hnil : ([] : List FsPath) = parts at h
  induction h with
  | nil => rfl
  | keep part _ _ => cases hnil
  | skip _ _ _ => cases hnil
  | insert _ hne _ ih =>
      subst hnil
      exact absurd (ih rfl) hne

theorem follow_sameSteps
    (hlink : ∀ cur parts parts', SameSteps parts parts' → onLink cur parts = some l →
      onLink cur parts' = some l)
    (hsteps : SameSteps parts parts') (h : follow onLink shape true cur parts = some l) :
  follow onLink shape true cur parts' = some l
  := by
  have hlast : ∀ rest : List FsPath, ¬(rest = [] ∧ true = false) := fun _ h => Bool.noConfusion h.2
  induction hsteps generalizing cur with
  | nil => exact h
  | @keep rest rest' part hsteps ih =>
      rw [follow] at h ⊢
      split at h
      · cases h
      next hdir =>
      rw [if_neg hdir]
      split at h
      · next htrivial =>
        rw [if_pos htrivial]
        exact ih h
      next htrivial =>
      rw [if_neg htrivial]
      split at h
      · next hdots =>
        rw [if_pos hdots]
        exact ih h
      next hdots =>
      rw [if_neg (hlast _)] at h
      rw [if_neg hdots, if_neg (hlast _)]
      cases hshape : shape (cur ++ [part]) with
      | dir =>
          rw [hshape] at h
          exact ih h
      | link target =>
          rw [hshape] at h
          exact hlink _ _ _ (hsteps.append _) h
      | leaf =>
          rw [hshape] at h
          dsimp only at h ⊢
          split at h
          · next hrest =>
            rw [hrest] at hsteps
            rw [if_pos hsteps.of_nil]
            exact h
          · cases h
  | skip htrivial _ ih =>
      rw [follow] at h
      split at h
      · cases h
      exact ih h
  | insert htrivial hne _ ih =>
      have h' := ih h
      obtain ⟨next, rest, rfl⟩ := List.exists_cons_of_ne_nil hne
      rw [follow]
      split
      · next hdir =>
        rw [follow, if_pos hdir] at h'
        cases h'
      exact h'

/-- Parts that name the same lead to the same place. -/
theorem resolveFrom_sameSteps
    (links : ℕ) (hsteps : SameSteps parts parts')
    (h : resolveFrom shape true links cur parts = some l) :
  resolveFrom shape true links cur parts' = some l
  := by
  induction links generalizing cur parts parts' with
  | zero => exact follow_sameSteps (fun _ _ _ _ h => h) hsteps h
  | succ links ih => exact follow_sameSteps (fun _ _ _ hsteps h => ih hsteps h) hsteps h

theorem exists_ofPart
    {part : FsPath} (h : ¬(part = [] ∨ part = [dot])) :
  ∃ c, ofPart part = some c
  := by
  unfold ofPart
  rw [if_neg h]
  split
  · exact ⟨_, rfl⟩
  · exact ⟨_, rfl⟩

theorem ofPart_inj
    {part part' : FsPath} {c : Component} (h : ofPart part = some c) (h' : ofPart part' = some c) :
  part = part'
  := by
  unfold ofPart at h h'
  split at h
  · cases h
  split at h'
  · cases h'
  split at h
  · next hdots =>
    cases h
    split at h'
    · next hdots' => rw [hdots, hdots']
    · cases h'
  · cases h
    split at h'
    · cases h'
    · cases h'
      rfl

/-- Parts with the same components name the same. -/
theorem sameSteps_of_components
    (hcomps : parts.filterMap ofPart = parts'.filterMap ofPart)
    (hlast : ∀ part, parts'.getLast? = some part → IsName part) :
  SameSteps parts parts'
  := by
  induction parts' generalizing parts with
  | nil =>
      induction parts with
      | nil => exact .nil
      | cons part parts ih =>
          have hnone : ofPart part = none ∧ parts.filterMap ofPart = [] := by
            have hall := List.filterMap_eq_nil_iff.mp hcomps
            exact ⟨hall part List.mem_cons_self,
              List.filterMap_eq_nil_iff.mpr fun x hx => hall x (List.mem_cons_of_mem _ hx)⟩
          refine .skip ?_ (ih hnone.2)
          by_contra htrivial
          have hnone' := hnone.1
          unfold ofPart at hnone'
          rw [if_neg htrivial] at hnone'
          split at hnone' <;> cases hnone'
  | cons part' parts' ih' =>
      have hlast' : ∀ part, parts'.getLast? = some part → IsName part := by
        intro part hpart
        apply hlast part
        rw [List.getLast?_cons, hpart]
        rfl
      by_cases htrivial : part' = [] ∨ part' = [dot]
      · have hne : parts' ≠ [] := by
          rintro rfl
          have hname := hlast part' rfl
          exact htrivial.elim hname.nonempty hname.notDot
        refine .insert htrivial hne (ih' ?_ hlast')
        have hnone : ofPart part' = none := if_pos htrivial
        rw [hcomps, List.filterMap_cons, hnone]
      obtain ⟨c, hc⟩ := exists_ofPart htrivial
      rw [List.filterMap_cons, hc] at hcomps
      induction parts with
      | nil => cases hcomps
      | cons part parts ih =>
          by_cases hpart : part = [] ∨ part = [dot]
          · have hnone : ofPart part = none := if_pos hpart
            rw [List.filterMap_cons, hnone] at hcomps
            exact .skip hpart (ih hcomps)
          obtain ⟨c', hc'⟩ := exists_ofPart hpart
          rw [List.filterMap_cons, hc'] at hcomps
          obtain ⟨rfl, htail⟩ := List.cons.inj hcomps
          rw [ofPart_inj hc' hc]
          exact .keep part' (ih' htail hlast')

/-! ### Parts of joined paths -/

theorem splitOn_ofNames
    (hnames : ∀ name ∈ names, IsName name) (hne : names ≠ []) :
  (ofNames names).splitOn sep = names
  := List.splitOn_intercalate _ (fun name hname => (hnames name hname).noSep) hne

theorem join_nil_left
    (q : FsPath) :
  join [] q = q
  := by
  unfold join
  split
  · rfl
  · exact if_pos (.inl rfl)

/-- The parts of a path to which names are joined are its own and the names. -/
theorem splitOn_join
    (hp : p ≠ []) (hnames : ∀ name ∈ names, IsName name) (hne : names ≠ []) :
  ∃ parts, (p.join (ofNames names)).splitOn sep = parts ++ names ∧
    (p.splitOn sep = parts ∨ p.splitOn sep = parts ++ [[]])
  := by
  have habs := isAbsolute_ofNames hnames
  unfold join
  rw [if_neg (Bool.eq_false_iff.mp habs)]
  by_cases hend : p.getLast? = some sep
  · obtain ⟨r, rfl⟩ := List.getLast?_eq_some_iff.mp hend
    refine ⟨r.splitOn sep, ?_, .inr ?_⟩
    · rw [if_pos (.inr hend), List.append_assoc, List.singleton_append,
        List.splitOn_append_cons_self, splitOn_ofNames hnames hne]
    · rw [List.splitOn_append_cons_self, List.splitOn_nil]
  · refine ⟨p.splitOn sep, ?_, .inl rfl⟩
    rw [if_neg (not_or_intro hp hend), List.splitOn_append_cons_self, splitOn_ofNames hnames hne]

theorem isAbsolute_join
    (hp : p ≠ []) (hq : isAbsolute q = false) :
  isAbsolute (p.join q) = isAbsolute p
  := by
  unfold join
  rw [if_neg (Bool.eq_false_iff.mp hq)]
  split
  · exact isAbsolute_append hp _
  · exact isAbsolute_append hp _

/-- The last part of a path to which names are joined is the last one of these. -/
theorem getLast?_join
    (hnames : ∀ name ∈ names, IsName name) (hne : names ≠ []) :
  ((p.join (ofNames names)).splitOn sep).getLast? = some (names.getLast hne)
  := by
  by_cases hp : p = []
  · rw [hp, join_nil_left, splitOn_ofNames hnames hne, List.getLast?_eq_some_getLast hne]
  · obtain ⟨parts, hjoin, -⟩ := splitOn_join hp hnames hne
    rw [hjoin, List.getLast?_append, List.getLast?_eq_some_getLast hne]
    rfl

theorem join_ne_nil
    (hnames : ∀ name ∈ names, IsName name) (hne : names ≠ []) :
  p.join (ofNames names) ≠ []
  := by
  intro hnil
  have hlast := getLast?_join (p := p) hnames hne
  rw [hnil, List.splitOn_nil] at hlast
  exact (hnames _ (List.getLast_mem hne)).nonempty (Option.some.inj hlast).symm

/-- A path to which names are joined is followed as its own parts and the names. -/
theorem resolve_join
    (hp : p ≠ []) (hnames : ∀ name ∈ names, IsName name) (hne : names ≠ []) :
  resolve shape cwd true (p.join (ofNames names)) =
    resolveFrom shape true maxLinks (if isAbsolute p then [] else cwd) (p.splitOn sep ++ names)
  := by
  obtain ⟨parts, hjoin, hparts⟩ := splitOn_join hp hnames hne
  have habs := isAbsolute_join hp (isAbsolute_ofNames hnames)
  unfold resolve
  rw [if_neg (join_ne_nil hnames hne), habs, hjoin]
  rcases hparts with hparts | hparts
  · rw [hparts]
  · rw [hparts, List.append_assoc, List.singleton_append]
    ext l
    have hinsert : SameSteps names ([] :: names) := .insert (.inl rfl) hne (.refl names)
    have hskip : SameSteps ([] :: names) names := .skip (.inl rfl) (.refl names)
    exact ⟨resolveFrom_sameSteps maxLinks (hinsert.append parts),
      resolveFrom_sameSteps maxLinks (hskip.append parts)⟩

/-- A name is joined to names that are joined to a path. -/
theorem join_ofNames_join
    (hnames : ∀ name ∈ names, IsName name) (hne : names ≠ []) (hname : IsName name) :
  (p.join (ofNames names)).join name = p.join (ofNames (names ++ [name]))
  := by
  have hnil : ofNames names ≠ [] := mt (ofNames_eq_nil_iff hnames).mp hne
  have hend := getLast?_ofNames_ne_sep hnames
  have hlast : ∀ before : FsPath, (before ++ ofNames names).getLast? ≠ some sep := by
    intro before h
    rw [List.getLast?_append, List.getLast?_eq_some_getLast hnil, Option.some_or,
      ← List.getLast?_eq_some_getLast hnil] at h
    exact hend h
  have habs := isAbsolute_ofNames hnames
  have habs' : isAbsolute name = false := by
    have h := @isAbsolute_ofNames [name] (by simpa using hname)
    rwa [ofNames, List.intercalate_singleton] at h
  have hsep : sep :: ofNames names = [sep] ++ ofNames names := rfl
  rw [ofNames_concat hne]
  unfold join
  rw [if_neg (Bool.eq_false_iff.mp habs), if_neg (Bool.eq_false_iff.mp habs'),
    if_neg (Bool.eq_false_iff.mp ((isAbsolute_append hnil _).trans habs))]
  split
  · rw [if_neg (not_or_intro (List.append_ne_nil_of_right_ne_nil _ hnil) (hlast p)),
      List.append_assoc]
  · rw [if_neg (not_or_intro (List.append_ne_nil_of_right_ne_nil _ (List.cons_ne_nil _ _))
        (by rw [hsep, ← List.append_assoc]; exact hlast _)), List.append_assoc]
    rfl

/-! ### Parents -/

/-- Paths that start as `p` does have no component there, and are absolute when it is. -/
theorem lead_append
    {body : FsPath} (h : body <+: p.drop (lenBeforeBody p)) :
  bodyComponents (p.take (lenBeforeBody p) ++ body) = bodyComponents body ∧
    isAbsolute (p.take (lenBeforeBody p) ++ body) = isAbsolute p
  := by
  by_cases habs : isAbsolute p = true
  · obtain ⟨r, rfl⟩ := List.head?_eq_some_iff.mp (of_decide_eq_true habs)
    have hlead : lenBeforeBody (sep :: r) = 1 := if_pos (.inl habs)
    rw [hlead]
    exact ⟨bodyComponents_cons_sep body, rfl⟩
  by_cases hcur : includesCurDir p = true
  · have hlead : lenBeforeBody p = 1 := if_pos (.inr hcur)
    have hdot : bodyComponents [dot] = [] := by decide +kernel
    rw [hlead] at h ⊢
    rcases includesCurDir_cases hcur with rfl | ⟨r, rfl⟩
    · rw [List.prefix_nil.mp h]
      exact ⟨hdot, rfl⟩
    · refine ⟨?_, rfl⟩
      cases body with
      | nil => exact hdot
      | cons b t =>
          obtain ⟨rfl, -⟩ := List.cons_prefix_cons.mp h
          have hcons : List.take 1 (dot :: sep :: r) ++ sep :: t = [dot] ++ sep :: t := rfl
          rw [hcons, bodyComponents_sep, hdot, List.nil_append, bodyComponents_cons_sep]
  · have hlead : lenBeforeBody p = 0 := if_neg (not_or_intro habs hcur)
    rw [hlead, List.drop_zero] at h
    rw [hlead, List.take_zero, List.nil_append]
    refine ⟨rfl, ?_⟩
    obtain ⟨t, rfl⟩ := h
    cases body with
    | nil => exact (Bool.eq_false_iff.mpr habs).symm
    | cons b body => rfl

/-- A path with a file name has the components of its parent and that name. -/
theorem fileName_components
    (h : fileName p = some name) :
  IsName name ∧ ∃ q, parent p = some q ∧
    bodyComponents p = bodyComponents q ++ [.normal name] ∧ isAbsolute q = isAbsolute p
  := by
  obtain ⟨hname, -⟩ := locate_fileName [] h
  refine ⟨hname, ?_⟩
  unfold fileName at h
  dsimp only at h
  split at h
  · cases h
  next hbody =>
  obtain ⟨hne, -⟩ := not_or.mp hbody
  cases h
  obtain ⟨hcomps, habs⟩ := lead_append (((prefix_trimBody _).trans
    (prefix_beforeLastPart _)).trans (prefix_trimBody (p.drop (lenBeforeBody p))))
  refine ⟨p.take (lenBeforeBody p) ++ trimBody (beforeLastPart (trimBody (p.drop
    (lenBeforeBody p)))), ?_, ?_, habs⟩
  · unfold parent
    rw [if_pos hne]
  · rw [hcomps, bodyComponents_trimBody, ← bodyComponents_drop_lead, ← bodyComponents_trimBody,
      bodyComponents_lastPart, ofPart_name hname]
    rfl

/-- A path with a file name leads where this name leads in the parent. -/
theorem resolve_fileName
    (h : fileName p = some name) :
  ∃ q, parent p = some q ∧ ∀ {l : Location}, resolve shape cwd true p = some l →
    resolve shape cwd true (q.join name) = some l
  := by
  obtain ⟨hname, q, hq, hcomps, habs⟩ := fileName_components h
  refine ⟨q, hq, fun {l} hl => ?_⟩
  have hnames : ∀ n ∈ [name], IsName n := by simpa using hname
  have hofNames : ofNames [name] = name := List.intercalate_singleton
  have hrel := isAbsolute_ofNames hnames
  rw [hofNames] at hrel
  have hpart : bodyComponents name = [.normal name] := by
    rw [bodyComponents_of_not_mem hname.noSep, ofPart_name hname]
    rfl
  have hlast := getLast?_join (p := q) hnames (List.cons_ne_nil _ _)
  have hjoin := join_ne_nil (p := q) hnames (List.cons_ne_nil _ _)
  rw [hofNames] at hlast hjoin
  have hsame : (p.splitOn sep).filterMap ofPart = ((q.join name).splitOn sep).filterMap ofPart := by
    have hbody := bodyComponents_join q hrel
    rw [hpart, ← hcomps] at hbody
    exact hbody.symm
  have habs' : isAbsolute (q.join name) = isAbsolute p := by
    rw [← habs]
    by_cases hnil : q = []
    · rw [hnil, join_nil_left, hrel]
      rfl
    · exact isAbsolute_join hnil hrel
  unfold resolve at hl ⊢
  split at hl
  · cases hl
  rw [if_neg hjoin, habs']
  refine resolveFrom_sameSteps maxLinks (sameSteps_of_components hsame ?_) hl
  intro part hget
  rw [hlast] at hget
  cases hget
  exact hname

/-! ### Names below a directory -/

/-- The directory in which a name that is joined to the path is looked up. -/
def dirPlace (shape : Location → Shape) (cwd : Location) (p : FsPath) : Option Location :=
  if p = [] then some cwd else resolve shape cwd true p

/-- A link is among what the names name on their way from a directory. -/
def MeetsLink (shape : Location → Shape) (cur : Location) (names : List Name) : Prop :=
  ∃ pre target, pre ≠ [] ∧ pre <+: names ∧ shape (cur ++ pre) = .link target

theorem MeetsLink.cons
    (h : MeetsLink shape (cur ++ [name]) names) :
  MeetsLink shape cur (name :: names)
  := by
  obtain ⟨pre, target, -, hpre, hshape⟩ := h
  refine ⟨name :: pre, target, List.cons_ne_nil _ _, List.cons_prefix_cons.mpr ⟨rfl, hpre⟩, ?_⟩
  rw [← hshape, List.append_assoc, List.singleton_append]

/-- Names that meet no link lead to the place below the directory that has these names. -/
theorem follow_names
    (hnames : ∀ name ∈ names, IsName name) (hlinks : ¬MeetsLink shape cur names)
    (h : follow onLink shape true cur names = some l) :
  l = cur ++ names ∧ follow onLink' shape true cur names = some l
  := by
  induction names generalizing cur with
  | nil =>
      cases h
      exact ⟨(List.append_nil _).symm, rfl⟩
  | cons name names ih =>
      have hname := hnames name List.mem_cons_self
      rw [follow] at h ⊢
      split at h
      · cases h
      next hdir =>
      rw [if_neg (not_or_intro hname.nonempty hname.notDot), if_neg hname.notDots,
        if_neg fun h => Bool.noConfusion h.2] at h
      rw [if_neg hdir, if_neg (not_or_intro hname.nonempty hname.notDot), if_neg hname.notDots,
        if_neg fun h => Bool.noConfusion h.2]
      cases hshape : shape (cur ++ [name]) with
      | dir =>
          rw [hshape] at h
          have hrest : ∀ n ∈ names, IsName n := fun n hn => hnames n (List.mem_cons_of_mem _ hn)
          have h' := ih hrest (mt MeetsLink.cons hlinks) h
          rwa [List.append_assoc, List.singleton_append] at h'
      | link target =>
          refine absurd ⟨[name], target, List.cons_ne_nil _ _, ?_, hshape⟩ hlinks
          exact ⟨names, rfl⟩
      | leaf =>
          rw [hshape] at h
          dsimp only at h ⊢
          split at h
          · next hrest =>
            cases h
            rw [hrest]
            exact ⟨rfl, rfl⟩
          · cases h

theorem resolveFrom_names
    (hnames : ∀ name ∈ names, IsName name) (hlinks : ¬MeetsLink shape cur names) {links : ℕ}
    (h : resolveFrom shape true links cur names = some l) :
  l = cur ++ names ∧ ∀ links', resolveFrom shape true links' cur names = some l
  := by
  have key : ∀ links', l = cur ++ names ∧ resolveFrom shape true links' cur names = some l := by
    intro links'
    cases links with
    | zero =>
        cases links' with
        | zero => exact follow_names hnames hlinks h
        | succ links' => exact follow_names hnames hlinks h
    | succ links =>
        cases links' with
        | zero => exact follow_names hnames hlinks h
        | succ links' => exact follow_names hnames hlinks h
  exact ⟨(key 0).1, fun links' => (key links').2⟩

theorem follow_append
    (hlink : ∀ cur parts, onLink cur (parts ++ names) = some l →
      ∃ dir links, onLink cur parts = some dir ∧ resolveFrom shape true links dir names = some l)
    (hfollow : ∀ cur, follow onLink shape true cur names = some l →
      ∃ links, resolveFrom shape true links cur names = some l) (hne : names ≠ [])
    (h : follow onLink shape true cur (parts ++ names) = some l) :
  ∃ dir links, follow onLink shape true cur parts = some dir ∧
    resolveFrom shape true links dir names = some l
  := by
  have hlast : ∀ rest : List FsPath, ¬(rest = [] ∧ true = false) := fun _ h => Bool.noConfusion h.2
  induction parts generalizing cur with
  | nil =>
      obtain ⟨links, hlinks⟩ := hfollow cur h
      exact ⟨cur, links, rfl, hlinks⟩
  | cons part rest ih =>
      rw [List.cons_append, follow] at h
      rw [follow]
      split at h
      · cases h
      next hdir =>
      rw [if_neg hdir]
      split at h
      · next htrivial =>
        rw [if_pos htrivial]
        exact ih h
      next htrivial =>
      rw [if_neg htrivial]
      split at h
      · next hdots =>
        rw [if_pos hdots]
        exact ih h
      next hdots =>
      rw [if_neg (hlast _)] at h
      rw [if_neg hdots, if_neg (hlast _)]
      cases hshape : shape (cur ++ [part]) with
      | dir =>
          rw [hshape] at h
          exact ih h
      | link target =>
          rw [hshape] at h
          dsimp only at h
          rw [← List.append_assoc] at h
          exact hlink _ _ h
      | leaf =>
          rw [hshape] at h
          dsimp only at h
          rw [if_neg (List.append_ne_nil_of_right_ne_nil _ hne)] at h
          cases h

/-- What comes last on a way is looked up where the rest of it leads. -/
theorem resolveFrom_append
    (links : ℕ) (hne : names ≠ [])
    (h : resolveFrom shape true links cur (parts ++ names) = some l) :
  ∃ dir links', resolveFrom shape true links cur parts = some dir ∧
    resolveFrom shape true links' dir names = some l
  := by
  induction links generalizing cur parts with
  | zero => exact follow_append (fun _ _ h => by cases h) (fun _ h => ⟨0, h⟩) hne h
  | succ links ih =>
      exact follow_append (fun _ _ h => ih h) (fun _ h => ⟨links + 1, h⟩) hne h

theorem append_follow
    {dir : Location}
    (hlink : ∀ cur parts, onLink cur parts = some dir → onLink cur (parts ++ names) = some l)
    (hfollow : follow onLink shape true dir names = some l) (hne : names ≠ [])
    (h : follow onLink shape true cur parts = some dir) :
  follow onLink shape true cur (parts ++ names) = some l
  := by
  have hlast : ∀ rest : List FsPath, ¬(rest = [] ∧ true = false) := fun _ h => Bool.noConfusion h.2
  induction parts generalizing cur with
  | nil =>
      cases h
      exact hfollow
  | cons part rest ih =>
      rw [List.cons_append, follow]
      rw [follow] at h
      split at h
      · cases h
      next hdir =>
      rw [if_neg hdir]
      split at h
      · next htrivial =>
        rw [if_pos htrivial]
        exact ih h
      next htrivial =>
      rw [if_neg htrivial]
      split at h
      · next hdots =>
        rw [if_pos hdots]
        exact ih h
      next hdots =>
      rw [if_neg (hlast _)] at h
      rw [if_neg hdots, if_neg (hlast _)]
      cases hshape : shape (cur ++ [part]) with
      | dir =>
          rw [hshape] at h
          exact ih h
      | link target =>
          rw [hshape] at h
          dsimp only at h ⊢
          rw [← List.append_assoc]
          exact hlink _ _ h
      | leaf =>
          rw [hshape] at h
          dsimp only at h
          split at h
          · cases h
            -- a name is looked up in a directory only
            obtain ⟨name, names, rfl⟩ := List.exists_cons_of_ne_nil hne
            rw [follow, hshape, if_pos fun hdir => by cases hdir] at hfollow
            cases hfollow
          · cases h

theorem append_resolveFrom
    {dir : Location} (links : ℕ) (hne : names ≠ [])
    (hnames : ∀ links', resolveFrom shape true links' dir names = some l)
    (h : resolveFrom shape true links cur parts = some dir) :
  resolveFrom shape true links cur (parts ++ names) = some l
  := by
  induction links generalizing cur parts with
  | zero => exact append_follow (fun _ _ h => by cases h) (hnames 0) hne h
  | succ links ih => exact append_follow (fun _ _ h => ih h) (hnames (links + 1)) hne h

/-- Names that are joined to a path are looked up in its directory. -/
theorem dirPlace_of_join
    (hnames : ∀ name ∈ names, IsName name) (hne : names ≠ [])
    (h : resolve shape cwd true (p.join (ofNames names)) = some l) :
  ∃ dir links, dirPlace shape cwd p = some dir ∧ resolveFrom shape true links dir names = some l
  := by
  unfold dirPlace
  by_cases hp : p = []
  · rw [hp] at h ⊢
    rw [join_nil_left, resolve, isAbsolute_ofNames hnames, splitOn_ofNames hnames hne] at h
    split at h
    · cases h
    · exact ⟨cwd, maxLinks, if_pos rfl, h⟩
  · rw [resolve_join hp hnames hne] at h
    obtain ⟨dir, links, hdir, hrest⟩ := resolveFrom_append maxLinks hne h
    refine ⟨dir, links, ?_, hrest⟩
    rw [if_neg hp, resolve, if_neg hp]
    exact hdir

theorem join_of_dirPlace
    {dir : Location} (hnames : ∀ name ∈ names, IsName name) (hne : names ≠ [])
    (hdir : dirPlace shape cwd p = some dir)
    (h : ∀ links, resolveFrom shape true links dir names = some l) :
  resolve shape cwd true (p.join (ofNames names)) = some l
  := by
  unfold dirPlace at hdir
  by_cases hp : p = []
  · rw [if_pos hp] at hdir
    cases hdir
    have hnil : ofNames names ≠ [] := mt (ofNames_eq_nil_iff hnames).mp hne
    rw [hp, join_nil_left, resolve, isAbsolute_ofNames hnames, splitOn_ofNames hnames hne,
      if_neg hnil]
    exact h maxLinks
  · rw [if_neg hp, resolve, if_neg hp] at hdir
    rw [resolve_join hp hnames hne]
    exact append_resolveFrom maxLinks hne h hdir

end FsPath
