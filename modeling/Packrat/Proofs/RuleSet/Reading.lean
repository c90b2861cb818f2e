import Mathlib.Data.List.Induction
import Mathlib.Data.List.Nodup
import Packrat.Proofs.RuleSet.Plain

/-!
# `Packrat/Proofs/RuleSet/Reading.lean` — which texts are read, and as what

Whether a text is a sequence of declarations shows in the kinds of its words alone. `FormsOutlines`
divides the words into outlines, in which alternatives are still words, and there is one way at most to
do so (`FormsOutlines.unique`). A text is read exactly if its words form outlines, one of them at most
names the start, and each quoted text stands for something. What it is read as can be said of the
outlines: which rules there are and in which order, what their alternatives are, and where to begin.
-/

set_option autoImplicit false

namespace Packrat

variable {names : CharacterNames}

/-! ## Outlines -/

/-- A declaration whose alternatives have been told apart but not read. -/
inductive Outline where
  | start (name : String)
  | rule (name : String) (sequences : List (List Word))

namespace Outline

/-- The rule that is named as the start. -/
def start? : Outline → Option String
  | .start name => some name
  | .rule _ _ => none

/-- The rule that is declared. -/
def name? : Outline → Option String
  | .start _ => none
  | .rule name _ => some name

/-- The alternatives that are declared for a rule. -/
def sequencesOf (rule : String) : Outline → List (List Word)
  | .start _ => []
  | .rule name sequences => if name = rule then sequences else []

end Outline

/-- Alternatives with bars between them, each of one name, quoted text or pattern at least. -/
inductive FormsSequences : List Word → List (List Word) → Prop
  | last {ws : List Word} (hne : ws ≠ []) (h : ∀ w ∈ ws, RuleSet.isItemKind w.1 = true) :
      FormsSequences ws [ws]
  | more {ws rest : List Word} {sequences : List (List Word)} (bar : List Char) (hne : ws ≠ [])
      (h : ∀ w ∈ ws, RuleSet.isItemKind w.1 = true) (hrest : FormsSequences rest sequences) :
      FormsSequences (ws ++ (.bar, bar) :: rest) (ws :: sequences)

inductive FormsOutline : List Word → Outline → Prop
  | start (percent name semi : List Char) :
      FormsOutline
        [(.percent, percent), (.ident, ['s', 't', 'a', 'r', 't']), (.ident, name), (.semi, semi)]
        (.start (String.ofList name))
  | rule {k : TokenKind} {ws : List Word} {sequences : List (List Word)}
      (name colon semi : List Char) (hk : k = .colon ∨ k = .assign)
      (h : FormsSequences ws sequences) :
      FormsOutline ((.ident, name) :: (k, colon) :: (ws ++ [(.semi, semi)]))
        (.rule (String.ofList name) sequences)

inductive FormsOutlines : List Word → List Outline → Prop
  | nil : FormsOutlines [] []
  | cons {ws rest : List Word} {o : Outline} {os : List Outline} (h : FormsOutline ws o)
      (hrest : FormsOutlines rest os) : FormsOutlines (ws ++ rest) (o :: os)

theorem FormsOutline.ne_nil {ws : List Word} {o : Outline} (h : FormsOutline ws o) : ws ≠ [] := by
  cases h <;> simp

theorem FormsSequences.mem {ws : List Word} {sequences : List (List Word)}
    (h : FormsSequences ws sequences) :
    ∀ sequence ∈ sequences, ∀ w ∈ sequence, w ∈ ws ∧ RuleSet.isItemKind w.1 = true := by
  induction h with
  | last _ h =>
    intro sequence hs w hw
    rw [List.mem_singleton.1 hs] at hw
    exact ⟨hw, h w hw⟩
  | more bar _ h _ ih =>
    intro sequence hs w hw
    rcases List.mem_cons.1 hs with rfl | hs
    · exact ⟨List.mem_append_left _ hw, h w hw⟩
    · obtain ⟨hmem, hkind⟩ := ih sequence hs w hw
      exact ⟨List.mem_append_right _ (List.mem_cons_of_mem _ hmem), hkind⟩

/-! ## There is one way to divide the words -/

/-- Items up to the first word that is none. -/
theorem items_unique {ws ws' rest rest' : List Word} {stop stop' : Word}
    (h : ∀ w ∈ ws, RuleSet.isItemKind w.1 = true) (h' : ∀ w ∈ ws', RuleSet.isItemKind w.1 = true)
    (hstop : RuleSet.isItemKind stop.1 = false) (hstop' : RuleSet.isItemKind stop'.1 = false)
    (he : ws ++ stop :: rest = ws' ++ stop' :: rest') :
    ws = ws' ∧ stop = stop' ∧ rest = rest' := by
  induction ws generalizing ws' with
  | nil =>
    cases ws' with
    | nil => exact ⟨rfl, List.cons.inj he⟩
    | cons w' ws' =>
      obtain ⟨rfl, -⟩ := List.cons.inj he
      rw [h' _ List.mem_cons_self] at hstop
      cases hstop
  | cons w ws ih =>
    cases ws' with
    | nil =>
      obtain ⟨rfl, -⟩ := List.cons.inj he
      rw [h _ List.mem_cons_self] at hstop'
      cases hstop'
    | cons w' ws' =>
      obtain ⟨rfl, htail⟩ := List.cons.inj he
      obtain ⟨rfl, hrest⟩ := ih (fun x hx => h x (List.mem_cons_of_mem _ hx))
        (fun x hx => h' x (List.mem_cons_of_mem _ hx)) htail
      exact ⟨rfl, hrest⟩

/-- Alternatives up to the semicolon. -/
theorem FormsSequences.unique {ws ws' rest rest' : List Word} {ss ss' : List (List Word)}
    {semi semi' : List Char} (h : FormsSequences ws ss) (h' : FormsSequences ws' ss')
    (he : ws ++ (.semi, semi) :: rest = ws' ++ (.semi, semi') :: rest') :
    ss = ss' ∧ rest = rest' := by
  induction h generalizing ws' ss' with
  | last _ h =>
    cases h' with
    | last _ h' =>
      obtain ⟨rfl, -, hrest⟩ := items_unique h h' rfl rfl he
      exact ⟨rfl, hrest⟩
    | more bar _ h' _ =>
      rw [List.append_assoc, List.cons_append] at he
      obtain ⟨-, hstop, -⟩ := items_unique h h' rfl rfl he
      cases hstop
  | more bar _ h _ ih =>
    rw [List.append_assoc, List.cons_append] at he
    cases h' with
    | last _ h' =>
      obtain ⟨-, hstop, -⟩ := items_unique h h' rfl rfl he
      cases hstop
    | more bar' _ h' hrest' =>
      rw [List.append_assoc, List.cons_append] at he
      obtain ⟨rfl, -, he⟩ := items_unique h h' rfl rfl he
      obtain ⟨rfl, hrest⟩ := ih hrest' he
      exact ⟨rfl, hrest⟩

theorem FormsOutline.unique {ws ws' rest rest' : List Word} {o o' : Outline}
    (h : FormsOutline ws o) (h' : FormsOutline ws' o') (he : ws ++ rest = ws' ++ rest') :
    o = o' ∧ rest = rest' := by
  cases h with
  | start percent name semi =>
    cases h' with
    | start percent' name' semi' =>
      simp only [List.cons_append, List.nil_append, List.cons.injEq, Prod.mk.injEq] at he
      obtain ⟨-, -, ⟨-, rfl⟩, -, hrest⟩ := he
      exact ⟨rfl, hrest⟩
    | rule name' colon' semi' _ _ => cases (List.cons.inj he).1
  | rule name colon semi _ h =>
    cases h' with
    | start percent' name' semi' => cases (List.cons.inj he).1
    | rule name' colon' semi' _ h' =>
      simp only [List.cons_append, List.append_assoc, List.nil_append, List.cons.injEq,
        Prod.mk.injEq] at he
      obtain ⟨⟨-, rfl⟩, -, he⟩ := he
      obtain ⟨rfl, hrest⟩ := h.unique h' he
      exact ⟨rfl, hrest⟩

theorem FormsOutlines.unique {ws ws' : List Word} {os os' : List Outline} (h : FormsOutlines ws os)
    (h' : FormsOutlines ws' os') (he : ws = ws') : os = os' := by
  induction h generalizing ws' os' with
  | nil =>
    cases h' with
    | nil => rfl
    | cons ho' _ => exact absurd (List.append_eq_nil_iff.1 he.symm).1 ho'.ne_nil
  | cons ho _ ih =>
    cases h' with
    | nil => exact absurd (List.append_eq_nil_iff.1 he).1 ho.ne_nil
    | cons ho' hrest' =>
      obtain ⟨rfl, hrest⟩ := ho.unique ho' he
      rw [ih hrest' hrest]

/-! ## From outlines to declarations -/

/-- If the word is a quoted text, it stands for something. -/
def Word.Evaluates (names : CharacterNames) (w : Word) : Prop :=
  w.1 = .doubleQuoted ∨ w.1 = .singleQuoted → ∃ text, Quotation.read names w.2 = .ok text

/-- A word of another kind is no quoted text. -/
theorem Word.evaluates_of_ne {k : TokenKind} (hd : k ≠ .doubleQuoted) (hs : k ≠ .singleQuoted)
    (lexeme : List Char) : Word.Evaluates names (k, lexeme) :=
  fun h => absurd h (not_or.2 ⟨hd, hs⟩)

theorem exists_spellsItem_iff {w : Word} :
    (∃ i, SpellsItem names w i) ↔ RuleSet.isItemKind w.1 = true ∧ w.Evaluates names := by
  constructor
  · rintro ⟨i, h⟩
    cases h with
    | reference name => exact ⟨rfl, Word.evaluates_of_ne (by decide) (by decide) name⟩
    | literal hk hread =>
      refine ⟨?_, fun _ => ⟨_, hread⟩⟩
      rcases hk with rfl | rfl <;> rfl
    | pattern lexeme => exact ⟨rfl, Word.evaluates_of_ne (by decide) (by decide) lexeme⟩
  · obtain ⟨k, lexeme⟩ := w
    rintro ⟨hkind, heval⟩
    cases k with
    | ident => exact ⟨_, .reference lexeme⟩
    | regex => exact ⟨_, .pattern lexeme⟩
    | doubleQuoted =>
      obtain ⟨text, hread⟩ := heval (.inl rfl)
      exact ⟨_, .literal (.inl rfl) hread⟩
    | singleQuoted =>
      obtain ⟨text, hread⟩ := heval (.inr rfl)
      exact ⟨_, .literal (.inr rfl) hread⟩
    | percent | assign | colon | semi | bar | eof => cases hkind

/-- The alternatives that the words of an outline stand for. -/
abbrev SpellsSequences (names : CharacterNames) (sequences : List (List Word))
    (as : List Sequence) : Prop :=
  List.Forall₂ (List.Forall₂ (SpellsItem names)) sequences as

/-- A word stands for one item at most. -/
theorem SpellsItem.rightUnique : Relator.RightUnique (SpellsItem names) := by
  intro w i j hi hj
  cases hi with
  | reference name => cases hj with
    | reference _ => rfl
    | literal hk _ => rcases hk with hk | hk <;> cases hk
  | literal hk hread => cases hj with
    | reference _ | pattern _ => rcases hk with hk | hk <;> cases hk
    | literal _ hread' =>
      cases hread.symm.trans hread'
      rfl
  | pattern lexeme => cases hj with
    | literal hk _ => rcases hk with hk | hk <;> cases hk
    | pattern _ => rfl

theorem SpellsSequences.unique {sequences : List (List Word)} {as as' : List Sequence}
    (h : SpellsSequences names sequences as) (h' : SpellsSequences names sequences as') : as = as' :=
  SpellsItem.rightUnique.forall₂.forall₂ h h'

inductive Outline.Says (names : CharacterNames) : Outline → RuleSet.Declaration → Prop
  | start (name : String) : Says names (.start name) (.start name)
  | rule {sequences : List (List Word)} {as : List Sequence} (name : String)
      (h : SpellsSequences names sequences as) : Says names (.rule name sequences) (.rule name as)

theorem exists_forall₂ {α β : Type} {R : α → β → Prop} :
    ∀ {xs : List α}, (∀ x ∈ xs, ∃ y, R x y) → ∃ ys, List.Forall₂ R xs ys
  | [], _ => ⟨[], .nil⟩
  | x :: xs, h => by
    obtain ⟨y, hy⟩ := h x List.mem_cons_self
    obtain ⟨ys, hys⟩ := exists_forall₂ fun z hz => h z (List.mem_cons_of_mem x hz)
    exact ⟨y :: ys, .cons hy hys⟩

theorem exists_says {ws : List Word} {o : Outline} (h : FormsOutline ws o)
    (heval : ∀ w ∈ ws, w.Evaluates names) : ∃ d, o.Says names d := by
  cases h with
  | start percent name semi => exact ⟨_, .start _⟩
  | @rule k ws sequences name colon semi hk h =>
    obtain ⟨as, has⟩ : ∃ as, SpellsSequences names sequences as :=
      exists_forall₂ fun sequence hs => exists_forall₂ fun w hw => by
        obtain ⟨hmem, hkind⟩ := h.mem sequence hs w hw
        exact exists_spellsItem_iff.2 ⟨hkind, heval w (by simp [hmem])⟩
    exact ⟨_, .rule _ has⟩

theorem exists_forall₂_says {ws : List Word} {os : List Outline} (h : FormsOutlines ws os)
    (heval : ∀ w ∈ ws, w.Evaluates names) : ∃ ds, List.Forall₂ (Outline.Says names) os ds := by
  induction h with
  | nil => exact ⟨[], .nil⟩
  | cons ho _ ih =>
    obtain ⟨d, hd⟩ := exists_says ho fun w hw => heval w (List.mem_append_left _ hw)
    obtain ⟨ds, hds⟩ := ih fun w hw => heval w (List.mem_append_right _ hw)
    exact ⟨d :: ds, .cons hd hds⟩

/-! ### Both readings of a text -/

section

variable {ws : List Word}

theorem evaluates_of_spellsItems {is : Sequence} (h : List.Forall₂ (SpellsItem names) ws is) :
    ∀ w ∈ ws, RuleSet.isItemKind w.1 = true ∧ w.Evaluates names := by
  have hboth := h.imp fun w i hi => And.intro (exists_spellsItem_iff.1 ⟨i, hi⟩) hi
  exact ((List.forall₂_and_left _ _).1 hboth).1

theorem evaluates_of_spellsAlternatives {as : List Sequence} (h : SpellsAlternatives names ws as) :
    ∀ w ∈ ws, w.Evaluates names := by
  induction h with
  | last h _ => exact fun w hw => (evaluates_of_spellsItems h w hw).2
  | more bar h _ _ ih =>
    intro w hw
    rcases List.mem_append.1 hw with hw | hw
    · exact (evaluates_of_spellsItems h w hw).2
    · rcases List.mem_cons.1 hw with rfl | hw
      · exact Word.evaluates_of_ne (by decide) (by decide) bar
      · exact ih w hw

theorem evaluates_of_spellsAll {ds : List RuleSet.Declaration} (h : SpellsAll names ws ds) :
    ∀ w ∈ ws, w.Evaluates names := by
  induction h with
  | nil => simp
  | cons hd _ ih =>
    intro w hw
    rcases List.mem_append.1 hw with hw | hw
    · -- apart from the alternatives, a declaration is made of names and signs
      cases hd with
      | start percent name semi =>
        simp only [List.mem_cons, List.not_mem_nil, or_false] at hw
        rcases hw with rfl | rfl | rfl | rfl <;>
          exact Word.evaluates_of_ne (by decide) (by decide) _
      | rule name colon semi hk has =>
        simp only [List.mem_cons, List.mem_append, List.not_mem_nil, or_false] at hw
        rcases hw with rfl | rfl | hw | rfl
        · exact Word.evaluates_of_ne (by decide) (by decide) name
        · exact Word.evaluates_of_ne (by rcases hk with rfl | rfl <;> decide)
            (by rcases hk with rfl | rfl <;> decide) colon
        · exact evaluates_of_spellsAlternatives has w hw
        · exact Word.evaluates_of_ne (by decide) (by decide) semi
    · exact ih w hw

theorem spellsAlternatives_iff {as : List Sequence} :
    SpellsAlternatives names ws as ↔ ∃ sequences, FormsSequences ws sequences ∧
      SpellsSequences names sequences as := by
  have hne : ∀ {ws : List Word} {is : Sequence}, List.Forall₂ (SpellsItem names) ws is →
      (ws ≠ [] ↔ is ≠ []) := by
    intro ws is h
    cases h <;> simp
  constructor
  · intro h
    induction h with
    | last h hi =>
      exact ⟨_, .last ((hne h).2 hi) fun w hw => (evaluates_of_spellsItems h w hw).1,
        .cons h .nil⟩
    | more bar h hi _ ih =>
      obtain ⟨sequences, hforms, hspells⟩ := ih
      exact ⟨_, .more bar ((hne h).2 hi) (fun w hw => (evaluates_of_spellsItems h w hw).1) hforms,
        .cons h hspells⟩
  · rintro ⟨sequences, hforms, hspells⟩
    induction hforms generalizing as with
    | last hw _ =>
      obtain ⟨is, _, h, hnil, rfl⟩ := List.forall₂_cons_left_iff.1 hspells
      cases hnil
      exact .last h ((hne h).1 hw)
    | more bar hw _ _ ih =>
      obtain ⟨is, as, h, hrest, rfl⟩ := List.forall₂_cons_left_iff.1 hspells
      exact .more bar h ((hne h).1 hw) (ih hrest)

theorem spellsDeclaration_iff {d : RuleSet.Declaration} :
    SpellsDeclaration names ws d ↔ ∃ o, FormsOutline ws o ∧ o.Says names d := by
  constructor
  · intro h
    cases h with
    | start percent name semi => exact ⟨_, .start percent name semi, .start _⟩
    | rule name colon semi hk h =>
      obtain ⟨sequences, hforms, hspells⟩ := spellsAlternatives_iff.1 h
      exact ⟨_, .rule name colon semi hk hforms, .rule _ hspells⟩
  · rintro ⟨o, h, hsays⟩
    cases h with
    | start percent name semi =>
      cases hsays
      exact .start percent name semi
    | rule name colon semi hk h =>
      cases hsays with
      | rule _ hspells =>
        exact .rule name colon semi hk (spellsAlternatives_iff.2 ⟨_, h, hspells⟩)

theorem spellsAll_iff {ds : List RuleSet.Declaration} :
    SpellsAll names ws ds ↔ ∃ os, FormsOutlines ws os ∧ List.Forall₂ (Outline.Says names) os ds := by
  constructor
  · intro h
    induction h with
    | nil => exact ⟨[], .nil, .nil⟩
    | cons hd _ ih =>
      obtain ⟨o, ho, hsays⟩ := spellsDeclaration_iff.1 hd
      obtain ⟨os, hos, hall⟩ := ih
      exact ⟨o :: os, .cons ho hos, .cons hsays hall⟩
  · rintro ⟨os, hos, hall⟩
    induction hos generalizing ds with
    | nil =>
      cases hall
      exact .nil
    | cons ho _ ih =>
      obtain ⟨d, ds, hsays, hrest, rfl⟩ := List.forall₂_cons_left_iff.1 hall
      exact .cons (spellsDeclaration_iff.2 ⟨_, ho, hsays⟩) (ih hrest)

end

/-! ## What declarations make up -/

namespace RuleSet

def Declaration.name? : Declaration → Option String
  | .start _ => none
  | .rule name _ => some name

def Declaration.alternativesOf (rule : String) : Declaration → List Sequence
  | .start _ => []
  | .rule name as => if name = rule then as else []

/-- The alternatives that declarations give to a rule, in order. -/
def alternativesIn (ds : List Declaration) (rule : String) : List Sequence :=
  ds.flatMap (Declaration.alternativesOf rule)

/-- The rules that are declared, by their first declaration. -/
def declared (ds : List Declaration) : List String := (ds.filterMap Declaration.name?).eraseDups

theorem eraseDups_concat (ns : List String) (n : String) :
    (ns ++ [n]).eraseDups = ns.eraseDups ++ if n ∈ ns.eraseDups then [] else [n] := by
  rw [List.eraseDups_append, List.removeAll]
  by_cases h : n ∈ ns <;> simp [h, List.eraseDups_cons]

theorem declared_concat_rule (ds : List Declaration) (name : String) (as : List Sequence) :
    declared (ds ++ [.rule name as]) =
      declared ds ++ if name ∈ declared ds then [] else [name] := by
  have hlast : [Declaration.rule name as].filterMap Declaration.name? = [name] := rfl
  rw [declared, List.filterMap_append, hlast, eraseDups_concat]
  rfl

theorem alternativesIn_concat_rule (ds : List Declaration) (name : String) (as : List Sequence)
    (rule : String) : alternativesIn (ds ++ [.rule name as]) rule =
      alternativesIn ds rule ++ if name = rule then as else [] := by
  rw [alternativesIn, List.flatMap_append, List.flatMap_singleton]
  rfl

theorem alternativesIn_of_not_declared {ds : List Declaration} {rule : String}
    (h : rule ∉ declared ds) : alternativesIn ds rule = [] := by
  refine List.flatMap_eq_nil_iff.2 fun d hd => ?_
  cases d with
  | start name => rfl
  | rule name as =>
    refine if_neg ?_
    rintro rfl
    exact h (List.mem_eraseDups.2 (List.mem_filterMap.2 ⟨_, hd, rfl⟩))

theorem nodup_eraseDups (ns : List String) : ns.eraseDups.Nodup := by
  induction ns using List.reverseRecOn with
  | nil => exact List.nodup_nil
  | append_singleton ns n ih =>
    rw [eraseDups_concat]
    by_cases h : n ∈ ns.eraseDups
    · rw [if_pos h, List.append_nil]
      exact ih
    · rw [if_neg h, ← List.concat_eq_append]
      exact ih.concat h

/-- The rules that declarations make up, in closed form: one for every rule that is declared, with
all the alternatives that are declared for it. -/
def rulesOf (ds : List Declaration) : List (String × List Sequence) :=
  (declared ds).map fun rule => (rule, alternativesIn ds rule)

theorem names_rulesOf (ds : List Declaration) : (rulesOf ds).map Prod.fst = declared ds := by
  rw [rulesOf, List.map_map]
  exact List.map_id _

/-- A declaration of a rule adds its alternatives where the rule stands, or a rule at the end. -/
theorem foldl_add_rulesOf (ds : List Declaration) (name : String) {as : List Sequence}
    (has : as ≠ []) {start : Option String} (hstart : start = none → declared ds = []) :
    as.foldl (fun (s : RuleSet) a => s.add name a) ⟨rulesOf ds, start⟩ =
      ⟨rulesOf (ds ++ [.rule name as]), start.or (some name)⟩ := by
  have hother : ∀ rules : List String, name ∉ rules →
      rules.map (fun rule => (rule, alternativesIn (ds ++ [.rule name as]) rule)) =
        rules.map fun rule => (rule, alternativesIn ds rule) := by
    intro rules hname
    refine List.map_congr_left fun rule hrule => ?_
    have hne : name ≠ rule := fun he => hname (he ▸ hrule)
    rw [alternativesIn_concat_rule, if_neg hne, List.append_nil]
  by_cases hname : name ∈ declared ds
  · obtain ⟨before, behind, hsplit⟩ := List.append_of_mem hname
    have hnodup : (declared ds).Nodup := nodup_eraseDups _
    rw [hsplit, List.nodup_middle] at hnodup
    obtain ⟨hrest, -⟩ := List.nodup_cons.1 hnodup
    obtain ⟨hbefore, hbehind⟩ := not_or.1 (mt List.mem_append.2 hrest)
    obtain ⟨first, rfl⟩ : ∃ first, start = some first := by
      cases start with
      | none => exact absurd (hstart rfl) (List.ne_nil_of_mem hname)
      | some first => exact ⟨first, rfl⟩
    rw [rulesOf, rulesOf, declared_concat_rule, if_pos hname, List.append_nil, hsplit,
      List.map_append, List.map_append, List.map_cons, List.map_cons, hother before hbefore,
      hother behind hbehind, alternativesIn_concat_rule, if_pos rfl]
    refine foldl_add_old ?_ _ as _ first
    rw [List.map_map]
    simpa using hbefore
  · have hrules : rulesOf (ds ++ [.rule name as]) = rulesOf ds ++ [(name, as)] := by
      rw [rulesOf, declared_concat_rule, if_neg hname, List.map_append, hother _ hname,
        List.map_singleton, alternativesIn_concat_rule, if_pos rfl,
        alternativesIn_of_not_declared hname]
      rfl
    rw [hrules]
    refine foldl_add_new (s := ⟨rulesOf ds, start⟩) ?_ has
    rw [names, names_rulesOf]
    exact hname

theorem starts_append (ds ds' : List Declaration) :
    starts (ds ++ ds') = starts ds ++ starts ds' := by
  induction ds with
  | nil => rfl
  | cons d ds ih =>
    cases d with
    | start name => exact congrArg (name :: ·) ih
    | rule name as => exact ih

/-- Collecting comes to the closed form. -/
theorem collect_eq_rulesOf {ds : List Declaration}
    (h : ∀ name as, Declaration.rule name as ∈ ds → as ≠ []) :
    collect ds = (⟨rulesOf ds, (declared ds).head?⟩, (starts ds).getLast?) := by
  rw [collect_eq]
  induction ds using List.reverseRecOn with
  | nil => rfl
  | append_singleton ds d ih =>
    rw [List.foldl_append, ih fun name as hmem => h name as (List.mem_append_left _ hmem),
      List.foldl_cons, List.foldl_nil, starts_append]
    cases d with
    | start name =>
      have hdeclared : declared (ds ++ [.start name]) = declared ds := by
        rw [declared, List.filterMap_append]
        exact congrArg List.eraseDups (List.append_nil _)
      have halternatives : alternativesIn (ds ++ [.start name]) = alternativesIn ds := by
        funext rule
        rw [alternativesIn, List.flatMap_append, List.flatMap_singleton]
        exact List.append_nil _
      rw [collectOne, rulesOf, rulesOf, hdeclared, halternatives, starts, starts,
        List.getLast?_append]
      rfl
    | rule name as =>
      have hstart : (declared ds).head? = none → declared ds = [] := List.head?_eq_none_iff.1
      rw [collectOne, foldl_add_rulesOf ds name (h name as (by simp)) hstart, declared_concat_rule,
        List.head?_append, starts, starts, List.append_nil]
      by_cases hname : name ∈ declared ds
      · rw [if_pos hname, List.head?_nil, Option.or_none]
        obtain ⟨first, hfirst⟩ := Option.isSome_iff_exists.1
          (List.isSome_head?.2 (List.ne_nil_of_mem hname))
        rw [hfirst]
        rfl
      · rw [if_neg hname]
        rfl

/-! ### What outlines show of it -/

section

variable {os : List Outline} {ds : List Declaration}

theorem names_of_says (h : List.Forall₂ (Outline.Says names) os ds) :
    os.filterMap Outline.name? = ds.filterMap Declaration.name? := by
  induction h with
  | nil => rfl
  | cons hd _ ih =>
    cases hd with
    | start name => exact ih
    | rule name _ => exact congrArg (name :: ·) ih

theorem starts_of_says (h : List.Forall₂ (Outline.Says names) os ds) :
    os.filterMap Outline.start? = starts ds := by
  induction h with
  | nil => rfl
  | cons hd _ ih =>
    cases hd with
    | start name => exact congrArg (name :: ·) ih
    | rule name _ => exact ih

theorem spells_of_says (h : List.Forall₂ (Outline.Says names) os ds) (rule : String) :
    SpellsSequences names (os.flatMap (Outline.sequencesOf rule)) (alternativesIn ds rule) := by
  induction h with
  | nil => exact .nil
  | cons hd _ ih =>
    rw [alternativesIn, List.flatMap_cons, List.flatMap_cons]
    refine List.rel_append ?_ ih
    cases hd with
    | start name => exact .nil
    | rule name has =>
      rw [Outline.sequencesOf, Declaration.alternativesOf]
      by_cases hname : name = rule
      · rw [if_pos hname, if_pos hname]
        exact has
      · rw [if_neg hname, if_neg hname]
        exact .nil

end

/-- A rule is declared with alternatives. -/
theorem alternatives_ne_nil {ws : List Word} {ds : List Declaration} (h : SpellsAll names ws ds) :
    ∀ name as, Declaration.rule name as ∈ ds → as ≠ [] := by
  induction h with
  | nil => simp
  | cons hd _ ih =>
    intro name as hmem
    rcases List.mem_cons.1 hmem with rfl | hmem
    · cases hd with
      | rule _ _ _ _ has => cases has <;> simp
    · exact ih name as hmem

theorem head?_eraseDups (ns : List String) : ns.eraseDups.head? = ns.head? := by
  cases ns with
  | nil => rfl
  | cons n ns => rw [List.eraseDups_cons, List.head?_cons, List.head?_cons]

theorem getLast?_eq_head? {α : Type} {xs : List α} (h : xs.length ≤ 1) :
    xs.getLast? = xs.head? := by
  match xs, h with
  | [], _ => rfl
  | [x], _ => rfl

/-- What declarations make up, if the start is named once at most. -/
theorem ofDeclarations_eq_rulesOf {ws : List Word} {ds : List Declaration} (h : SpellsAll names ws ds)
    (hstarts : (starts ds).length ≤ 1) :
    ofDeclarations ds =
      ⟨rulesOf ds, (starts ds).head?.or (ds.filterMap Declaration.name?).head?⟩ := by
  rw [ofDeclarations_eq, collect_eq_rulesOf (alternatives_ne_nil h), getLast?_eq_head? hstarts,
    declared, head?_eraseDups]

theorem scan_eq_ok_iff {src : List Char} {ws : List Word} :
    (∃ tokens, scan src = .ok tokens ∧ tokens.list.map Token.word = ws) ↔ Words src ws := by
  constructor
  · rintro ⟨tokens, hscan, rfl⟩
    exact (words_of_scanFrom hscan).1
  · exact fun h => exists_scanFrom_of_words h src .first

/-- A text is read exactly if it can be scanned, its words form declarations, one of them at most names
the start, and every quoted text among them stands for something. It is read as the rules that are
declared, in the order of their first declarations, each with all the alternatives that are declared for
it, and the start is the one named, or else the first rule. -/
theorem read_forms (names : CharacterNames) (src : List Char) :
    ((∃ s, RuleSet.read names src = .ok s) ↔ ∃ tokens os, scan src = .ok tokens ∧
      FormsOutlines (tokens.list.map Token.word) os ∧
      (os.filterMap Outline.start?).length ≤ 1 ∧ ∀ t ∈ tokens.list, t.word.Evaluates names) ∧
    ∀ s tokens os, RuleSet.read names src = .ok s → scan src = .ok tokens →
      FormsOutlines (tokens.list.map Token.word) os →
      ∃ alternatives : String → List Sequence,
        (∀ rule, SpellsSequences names (os.flatMap (Outline.sequencesOf rule)) (alternatives rule)) ∧
        s = ⟨(os.filterMap Outline.name?).eraseDups.map fun rule => (rule, alternatives rule),
          (os.filterMap Outline.start?).head?.or (os.filterMap Outline.name?).head?⟩ := by
  refine ⟨⟨?_, ?_⟩, ?_⟩
  · rintro ⟨s, hread⟩
    obtain ⟨ws, ds, hws, hall, hstarts, -⟩ := read_eq_ok_iff.1 hread
    obtain ⟨tokens, hscan, rfl⟩ := scan_eq_ok_iff.2 hws
    obtain ⟨os, hos, hsays⟩ := spellsAll_iff.1 hall
    refine ⟨tokens, os, hscan, hos, starts_of_says hsays ▸ hstarts, fun t ht => ?_⟩
    exact evaluates_of_spellsAll hall _ (List.mem_map_of_mem ht)
  · rintro ⟨tokens, os, hscan, hos, hstarts, heval⟩
    obtain ⟨ds, hsays⟩ := exists_forall₂_says hos (List.forall_mem_map.2 heval)
    exact ⟨_, read_eq_ok_iff.2 ⟨_, ds, scan_eq_ok_iff.1 ⟨tokens, hscan, rfl⟩,
      spellsAll_iff.2 ⟨os, hos, hsays⟩, starts_of_says hsays ▸ hstarts, rfl⟩⟩
  · intro s tokens os hread hscan hos
    obtain ⟨ws, ds, hws, hall, hstarts, rfl⟩ := read_eq_ok_iff.1 hread
    obtain ⟨os', hos', hsays⟩ := spellsAll_iff.1 hall
    -- the words and the outlines that were read are those given
    obtain ⟨tokens', hscan', rfl⟩ := scan_eq_ok_iff.2 hws
    cases hscan.symm.trans hscan'
    obtain rfl := hos.unique hos' rfl
    refine ⟨alternativesIn ds, spells_of_says hsays, ?_⟩
    rw [ofDeclarations_eq_rulesOf hall hstarts, names_of_says hsays, starts_of_says hsays]
    rfl

/-- A table with one name in it. -/
def bulletOnly : CharacterNames := fun name => if name = "BULLET" then some '\u2022' else none

/-- A quoted text with a character that is named, and a surrogate behind it. -/
def bulletQuotation : List Char := "\"\\N\x7bBULLET\x7d\\ud800\"".toList

/-- A rule in two declarations, with the one that names the start between them. -/
def scattered : List Char :=
  "a : 'x' | b ; %start b ; b ::= /y/i ; a : ".toList ++ bulletQuotation ++ " ;".toList

def scatteredOutlines : List Outline :=
  [.rule "a" [[(.singleQuoted, ['\x27', 'x', '\x27'])], [(.ident, ['b'])]], .start "b",
    .rule "b" [[(.regex, ['/', 'y', '/', 'i'])]], .rule "a" [[(.doubleQuoted, bulletQuotation)]]]

theorem read_forms_scattered :
    ∃ tokens, scan scattered = .ok tokens ∧
      FormsOutlines (tokens.list.map Token.word) scatteredOutlines ∧
      RuleSet.read bulletOnly scattered = .ok
        ⟨[("a", [[.literal "x"], [.reference "b"], [.literal [.char '\u2022', .surrogate 0]]]),
          ("b", [[.pattern "y" "i"]])], some "b"⟩ := by
  have hwords : (scan scattered).toOption.map (·.list.map Token.word) = some
      [(.ident, ['a']), (.colon, [':']), (.singleQuoted, ['\x27', 'x', '\x27']), (.bar, ['|']),
        (.ident, ['b']), (.semi, [';']), (.percent, ['%']), (.ident, ['s', 't', 'a', 'r', 't']),
        (.ident, ['b']), (.semi, [';']), (.ident, ['b']), (.assign, [':', ':', '=']),
        (.regex, ['/', 'y', '/', 'i']), (.semi, [';']), (.ident, ['a']), (.colon, [':']),
        (.doubleQuoted, bulletQuotation), (.semi, [';'])] := by decide +kernel
  obtain ⟨tokens, hscan, htokens⟩ := exists_of_toOption_map hwords
  obtain ⟨x, hx, rfl⟩ : ∃ x, Quotation.read bulletOnly ['\x27', 'x', '\x27'] = .ok x ∧ x = "x" :=
    exists_of_toOption_map (f := id) (by decide +kernel)
  obtain ⟨bullet, hbullet, rfl⟩ : ∃ x, Quotation.read bulletOnly bulletQuotation = .ok x ∧
      x = [.char '\u2022', .surrogate 0] :=
    exists_of_toOption_map (f := id) (by decide +kernel)
  have hforms : FormsOutlines (tokens.list.map Token.word) scatteredOutlines := by
    rw [htokens]
    have hone : ∀ w : Word, RuleSet.isItemKind w.1 = true → FormsSequences [w] [[w]] :=
      fun w hw => .last (List.cons_ne_nil w []) (List.forall_mem_singleton.2 hw)
    have htwo : FormsSequences
        [(.singleQuoted, ['\x27', 'x', '\x27']), (.bar, ['|']), (.ident, ['b'])]
        [[(.singleQuoted, ['\x27', 'x', '\x27'])], [(.ident, ['b'])]] :=
      .more ['|'] (List.cons_ne_nil _ []) (List.forall_mem_singleton.2 rfl) (hone _ rfl)
    exact .cons (.rule ['a'] [':'] [';'] (.inl rfl) htwo) (.cons (.start ['%'] ['b'] [';'])
      (.cons (.rule ['b'] [':', ':', '='] [';'] (.inr rfl) (hone _ rfl))
        (.cons (.rule ['a'] [':'] [';'] (.inl rfl) (hone _ rfl)) .nil)))
  have heval : ∀ t ∈ tokens.list, t.word.Evaluates bulletOnly := by
    rw [← List.forall_mem_map, htokens]
    simp [Word.Evaluates, hx, hbullet]
  obtain ⟨s, hread⟩ :=
    (read_forms bulletOnly scattered).1.2 ⟨tokens, _, hscan, hforms, by decide, heval⟩
  obtain ⟨alternatives, halternatives, rfl⟩ :=
    (read_forms bulletOnly scattered).2 s tokens _ hread hscan hforms
  -- what the words of the two rules stand for
  have ha : alternatives "a" = [[.literal "x"], [.reference "b"],
      [.literal [.char '\u2022', .surrogate 0]]] :=
    (halternatives "a").unique (.cons (.cons (.literal (.inr rfl) hx) .nil)
      (.cons (.cons (.reference ['b']) .nil)
        (.cons (.cons (.literal (.inl rfl) hbullet) .nil) .nil)))
  have hb : alternatives "b" = [[.pattern "y" "i"]] :=
    (halternatives "b").unique (.cons (.cons (.pattern ['/', 'y', '/', 'i']) .nil) .nil)
  refine ⟨tokens, hscan, hforms, ?_⟩
  rw [hread, ← ha, ← hb]
  rfl

end RuleSet

end Packrat
