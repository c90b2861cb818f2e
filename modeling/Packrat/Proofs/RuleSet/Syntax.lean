import Mathlib.Data.List.Forall2
import Packrat.Proofs.Grammar
import Packrat.Proofs.Token.Words
import Packrat.RuleSet.Reader

/-!
# `Packrat/Proofs/RuleSet/Syntax.lean` — what grammar text says

Words spell items, items make up alternatives, alternatives with a name in front make up the
declaration of a rule, and a text is a sequence of declarations of which at most one names the start
rule. The relations below say this without a reader. The reader agrees with them in both directions
(`RuleSet.read_eq_ok_iff`): a text that spells declarations is read as those, and what is read is
spelled by the text.
-/

set_option autoImplicit false

namespace Packrat

variable {names : CharacterNames}

/-! ## Spelling -/

/-- The item that a word stands for. -/
inductive SpellsItem (names : CharacterNames) : Word → Item → Prop
  | reference (name : List Char) : SpellsItem names (.ident, name) (.reference (String.ofList name))
  | literal {k : TokenKind} {lexeme : List Char} {text : CodePoints}
      (hk : k = .doubleQuoted ∨ k = .singleQuoted) (h : Quotation.read names lexeme = .ok text) :
      SpellsItem names (k, lexeme) (.literal text)
  | pattern (lexeme : List Char) :
      SpellsItem names (.regex, lexeme)
        (.pattern (RuleSet.splitPattern lexeme).1 (RuleSet.splitPattern lexeme).2)

/-- Alternatives with bars between them, each of one item at least. -/
inductive SpellsAlternatives (names : CharacterNames) : List Word → List Sequence → Prop
  | last {ws : List Word} {is : Sequence} (h : List.Forall₂ (SpellsItem names) ws is)
      (hne : is ≠ []) : SpellsAlternatives names ws [is]
  | more {ws rest : List Word} {is : Sequence} {as : List Sequence} (bar : List Char)
      (h : List.Forall₂ (SpellsItem names) ws is) (hne : is ≠ [])
      (hrest : SpellsAlternatives names rest as) :
      SpellsAlternatives names (ws ++ (.bar, bar) :: rest) (is :: as)

inductive SpellsDeclaration (names : CharacterNames) : List Word → RuleSet.Declaration → Prop
  | start (percent name semi : List Char) :
      SpellsDeclaration names
        [(.percent, percent), (.ident, ['s', 't', 'a', 'r', 't']), (.ident, name), (.semi, semi)]
        (.start (String.ofList name))
  | rule {k : TokenKind} {ws : List Word} {as : List Sequence} (name colon semi : List Char)
      (hk : k = .colon ∨ k = .assign) (h : SpellsAlternatives names ws as) :
      SpellsDeclaration names ((.ident, name) :: (k, colon) :: (ws ++ [(.semi, semi)]))
        (.rule (String.ofList name) as)

inductive SpellsAll (names : CharacterNames) : List Word → List RuleSet.Declaration → Prop
  | nil : SpellsAll names [] []
  | cons {ws rest : List Word} {d : RuleSet.Declaration} {ds : List RuleSet.Declaration}
      (h : SpellsDeclaration names ws d) (hrest : SpellsAll names rest ds) :
      SpellsAll names (ws ++ rest) (d :: ds)

theorem SpellsDeclaration.ne_nil {ws : List Word} {d : RuleSet.Declaration}
    (h : SpellsDeclaration names ws d) : ws ≠ [] := by
  cases h <;> simp

namespace RuleSet

/-- The rules that declarations name as the start. -/
def starts : List Declaration → List String
  | [] => []
  | .start name :: ds => name :: starts ds
  | .rule _ _ :: ds => starts ds

/-! ## Tokens and rests -/

/-- Whether a word of this kind is an item. -/
def isItemKind : TokenKind → Bool
  | .ident => true
  | .doubleQuoted => true
  | .singleQuoted => true
  | .regex => true
  | _ => false

theorem item?_of_spells {t : Token} {i : Item} (h : SpellsItem names t.word i) :
    item? names t = .ok (some i) := by
  obtain ⟨k, lexeme, place⟩ := t
  generalize hw : Token.word ⟨k, lexeme, place⟩ = w at h
  cases h with
  | reference name =>
    cases hw
    rfl
  | literal hk hread =>
    cases hw
    rcases hk with rfl | rfl <;> simp [item?, hread]
  | pattern lexeme =>
    cases hw
    rfl

theorem spells_of_item? {t : Token} {i : Item} (h : item? names t = .ok (some i)) :
    SpellsItem names t.word i := by
  obtain ⟨k, lexeme, place⟩ := t
  cases k with
  | ident | regex =>
    cases h
    constructor
  | doubleQuoted | singleQuoted =>
    simp only [item?] at h
    split at h
    · rename_i text hread
      cases h
      exact .literal (by simp) hread
    · cases h
  | percent | assign | colon | semi | bar | eof => cases h

theorem item?_of_other {t : Token} (h : isItemKind t.kind = false) : item? names t = .ok none := by
  obtain ⟨k, lexeme, place⟩ := t
  cases k <;> first | rfl | cases h

namespace Rest

/-- The words still to be read. -/
def words (r : Rest) : List Word := r.tokens.map Token.word

theorem next_of_words {r : Rest} {w : Word} {ws : List Word} (h : r.words = w :: ws) :
    r.next.word = w := by
  obtain ⟨tokens, eof, behind⟩ := r
  cases tokens with
  | nil => cases h
  | cons t ts => exact (List.cons.inj h).1

theorem words_tail {r : Rest} {w : Word} {ws : List Word} (h : r.words = w :: ws) :
    r.tail.words = ws := by
  obtain ⟨tokens, eof, behind⟩ := r
  cases tokens with
  | nil => cases h
  | cons t ts => exact (List.cons.inj h).2

end Rest

/-! ## What is spelled is read -/

theorem readItems_of_spells {ws rest : List Word} {is : Sequence}
    (h : List.Forall₂ (SpellsItem names) ws is) {stop : Word} (hstop : isItemKind stop.1 = false)
    {ts : List Token} (hts : ts.map Token.word = ws ++ stop :: rest) (eof : Token) (behind : Nat) :
    ∃ r, readItems names eof ts behind = .ok (is, r) ∧ r.words = stop :: rest := by
  induction h generalizing ts behind with
  | nil =>
    cases ts with
    | nil => cases hts
    | cons t ts =>
      obtain ⟨rfl, -⟩ := List.cons.inj hts
      refine ⟨⟨t :: ts, eof, behind⟩, ?_, hts⟩
      rw [readItems, item?_of_other hstop]
  | @cons w i ws is hi _ ih =>
    cases ts with
    | nil => cases hts
    | cons t ts =>
      obtain ⟨rfl, htail⟩ := List.cons.inj hts
      obtain ⟨r, hr, hrest⟩ := ih htail t.stop
      refine ⟨r, ?_, hrest⟩
      rw [readItems, item?_of_spells hi]
      dsimp only
      rw [hr]
      rfl

section

variable (src : List Char) {r : Rest} {rest : List Word}

theorem readSequence_of_spells {ws : List Word} {is : Sequence}
    (h : List.Forall₂ (SpellsItem names) ws is) (hne : is ≠ []) {stop : Word}
    (hstop : isItemKind stop.1 = false) (hr : r.words = ws ++ stop :: rest) (rule : String) :
    ∃ r', readSequence names src rule r = .ok (is, r') ∧ r'.words = stop :: rest := by
  obtain ⟨r', hread, hrest⟩ := readItems_of_spells h hstop hr r.eof r.behind
  refine ⟨r', ?_, hrest⟩
  rw [readSequence, hread]
  cases is with
  | nil => exact absurd rfl hne
  | cons i is => rfl

theorem readAlternatives_of_sequence {rule : String} {is : Sequence} {r' : Rest}
    (h : readSequence names src rule r = .ok (is, r')) :
    readAlternatives names src rule r =
      if r'.next.kind = .bar then
        (readAlternatives names src rule r'.tail).map fun (more, rest) => (is :: more, rest)
      else .ok ([is], r') := by
  rw [readAlternatives]
  split
  · rename_i hf
    cases hf.symm.trans h
  · rename_i is' r'' hread
    cases hread.symm.trans h
    rfl

theorem readAlternatives_of_spells {ws : List Word} {as : List Sequence}
    (h : SpellsAlternatives names ws as) {semi : List Char}
    (hr : r.words = ws ++ (.semi, semi) :: rest) (rule : String) :
    ∃ r', readAlternatives names src rule r = .ok (as, r') ∧ r'.words = (.semi, semi) :: rest := by
  induction h generalizing r with
  | last h hne =>
    obtain ⟨r', hread, hrest⟩ := readSequence_of_spells src h hne rfl hr rule
    refine ⟨r', ?_, hrest⟩
    have hkind : r'.next.kind = .semi := congrArg Prod.fst (Rest.next_of_words hrest)
    rw [readAlternatives_of_sequence src hread, hkind]
    rfl
  | more bar h hne _ ih =>
    rw [List.append_assoc, List.cons_append] at hr
    obtain ⟨r', hread, hrest⟩ := readSequence_of_spells src h hne rfl hr rule
    obtain ⟨r'', hread', hrest'⟩ := ih (Rest.words_tail hrest)
    refine ⟨r'', ?_, hrest'⟩
    have hkind : r'.next.kind = .bar := congrArg Prod.fst (Rest.next_of_words hrest)
    rw [readAlternatives_of_sequence src hread, if_pos hkind, hread']
    rfl

theorem Rest.take_of_words {k : TokenKind} {lexeme : List Char}
    (h : r.words = (k, lexeme) :: rest) :
    r.take src k = .ok (r.next, r.tail) ∧ r.next.lexeme = lexeme ∧ r.tail.words = rest := by
  have hnext := next_of_words h
  refine ⟨?_, congrArg Prod.snd hnext, words_tail h⟩
  have hkind : r.next.kind = k := congrArg Prod.fst hnext
  rw [take, if_pos hkind]

theorem readStart_of_spells {percent name semi : List Char}
    (hr : r.words = (.percent, percent) :: (.ident, ['s', 't', 'a', 'r', 't']) :: (.ident, name) ::
      (.semi, semi) :: rest) :
    ∃ r', readStart src false r = .ok (.start (String.ofList name), r') ∧ r'.words = rest := by
  obtain ⟨hpercent, -, hr⟩ := Rest.take_of_words src hr
  obtain ⟨hword, hlexeme, hr⟩ := Rest.take_of_words src hr
  obtain ⟨hname, hname', hr⟩ := Rest.take_of_words src hr
  have hsemi : r.tail.tail.tail.next.kind = .semi := congrArg Prod.fst (Rest.next_of_words hr)
  refine ⟨r.tail.tail.tail.tail, ?_, Rest.words_tail hr⟩
  unfold readStart
  simp only [hpercent, hword, hlexeme, hname, Rest.close, hsemi, Token.text, hname', bind,
    Except.bind, ne_eq, not_true_eq_false, Bool.false_eq_true, if_false, if_true]
  rfl

theorem readRule_of_spells {name colon semi : List Char} {k : TokenKind} {ws : List Word}
    {as : List Sequence} (hk : k = .colon ∨ k = .assign) (h : SpellsAlternatives names ws as)
    (hr : r.words = (.ident, name) :: (k, colon) :: (ws ++ (.semi, semi) :: rest)) :
    ∃ r', readRule names src r = .ok (.rule (String.ofList name) as, r') ∧ r'.words = rest := by
  obtain ⟨hname, hname', hr⟩ := Rest.take_of_words src hr
  have hcolon : r.tail.next.kind = k := congrArg Prod.fst (Rest.next_of_words hr)
  obtain ⟨r', hread, hrest⟩ := readAlternatives_of_spells src h (Rest.words_tail hr)
    (String.ofList name)
  have hsemi : r'.next.kind = .semi := congrArg Prod.fst (Rest.next_of_words hrest)
  refine ⟨r'.tail, ?_, Rest.words_tail hrest⟩
  have hsign : ¬ (k ≠ .colon ∧ k ≠ .assign) := by
    rintro ⟨hc, ha⟩
    exact hk.elim hc ha
  unfold readRule
  simp only [hname, hcolon, hsign, Token.text, hname', hread, Rest.close, hsemi, bind, Except.bind,
    if_false, if_true]
  rfl

theorem readDeclaration_of_spells {ws : List Word} {d : Declaration}
    (h : SpellsDeclaration names ws d) (hr : r.words = ws ++ rest) {started : Bool}
    (hstart : started = true → starts [d] = []) :
    ∃ r', readDeclaration names src started r = .ok (d, r') ∧ r'.words = rest := by
  cases h with
  | start percent name semi =>
    have hkind : r.next.kind = .percent := congrArg Prod.fst (Rest.next_of_words hr)
    have hstarted : started = false := by
      cases started with
      | false => rfl
      | true => exact absurd (hstart rfl) (by simp [starts])
    rw [readDeclaration, if_pos hkind, hstarted]
    exact readStart_of_spells src hr
  | rule name colon semi hk h =>
    have hkind : r.next.kind = .ident := congrArg Prod.fst (Rest.next_of_words hr)
    rw [readDeclaration, if_neg (by rw [hkind]; decide)]
    rw [List.cons_append, List.cons_append, List.append_assoc] at hr
    exact readRule_of_spells src hk h hr

end

/-- Whether the start is named once the declaration is read. -/
def Declaration.namesStart (started : Bool) : Declaration → Bool
  | .start _ => true
  | .rule _ _ => started

theorem readDeclarations_cons {src : List Char} {limit : Nat} {started : Bool} {r r' : Rest}
    {d : Declaration} (hne : r.tokens ≠ [])
    (h : readDeclaration names src started r = .ok (d, r')) :
    readDeclarations names src (limit + 1) started r =
      (readDeclarations names src limit (d.namesStart started) r').map (d :: ·) := by
  rw [readDeclarations]
  split
  · rename_i hnil
    exact absurd hnil hne
  · rw [h]
    cases d <;> rfl

theorem length_starts_cons (d : Declaration) (ds : List Declaration) (started : Bool) :
    (starts (d :: ds)).length + started.toNat ≤ 1 ↔
      (started = true → starts [d] = []) ∧ (starts ds).length + (d.namesStart started).toNat ≤ 1 := by
  cases d <;> cases started <;> simp [starts, Declaration.namesStart]

theorem readDeclarations_of_spells (src : List Char) {ws : List Word} {ds : List Declaration}
    (h : SpellsAll names ws ds) {limit : Nat} (hlimit : ws.length ≤ limit) (started : Bool)
    (hstarts : (starts ds).length + started.toNat ≤ 1) {r : Rest} (hr : r.words = ws) :
    readDeclarations names src limit started r = .ok ds := by
  induction h generalizing limit started r with
  | nil =>
    have htokens : r.tokens = [] := List.map_eq_nil_iff.1 hr
    cases limit with
    | zero => rfl
    | succ limit => rw [readDeclarations, htokens]
  | @cons ws rest d ds h _ ih =>
    obtain ⟨hstart, hstarts⟩ := (length_starts_cons d ds started).1 hstarts
    have hlen := List.length_pos_iff.2 h.ne_nil
    rw [List.length_append] at hlimit
    have htokens : r.tokens ≠ [] := by
      intro hnil
      rw [Rest.words, hnil] at hr
      exact h.ne_nil (List.append_eq_nil_iff.1 hr.symm).1
    -- every declaration takes a word at least, so the limit lasts for the rest
    cases limit with
    | zero => omega
    | succ limit =>
      obtain ⟨r', hread, hrest⟩ := readDeclaration_of_spells src h hr hstart
      rw [readDeclarations_cons htokens hread, ih (by omega) _ hstarts hrest]
      rfl

/-! ## What is read was spelled -/

/-- Reading has come from `r` to `r'`, past the words `ws`. -/
structure Rest.Past (r : Rest) (ws : List Word) (r' : Rest) : Prop where
  words : r.words = ws ++ r'.words
  eof : r'.eof = r.eof

namespace Rest.Past

theorem trans {r r' r'' : Rest} {ws ws' : List Word} (h : r.Past ws r') (h' : r'.Past ws' r'') :
    r.Past (ws ++ ws') r'' :=
  ⟨by rw [h.words, h'.words, List.append_assoc], h'.eof.trans h.eof⟩

/-- One token, unless the end is reached. -/
theorem tail {r : Rest} (hne : r.next.kind ≠ r.eof.kind) :
    r.Past [(r.next.kind, r.next.lexeme)] r.tail := by
  obtain ⟨tokens, eof, behind⟩ := r
  cases tokens with
  | nil => exact absurd rfl hne
  | cons t ts => exact ⟨rfl, rfl⟩

theorem take {src : List Char} {r r' : Rest} {k : TokenKind} {t : Token}
    (he : r.eof.kind = .eof) (hk : k ≠ .eof) (h : r.take src k = .ok (t, r')) :
    r.Past [(k, t.lexeme)] r' := by
  unfold Rest.take at h
  split at h
  · rename_i hkind
    cases h
    have hpast := tail (r := r) (by rw [hkind, he]; exact hk)
    rw [hkind] at hpast
    exact hpast
  · cases h

theorem close {src : List Char} {r r' : Rest} {what sample : String} (he : r.eof.kind = .eof)
    (h : r.close src what sample = .ok r') : ∃ semi, r.Past [(.semi, semi)] r' := by
  unfold Rest.close at h
  split at h
  · rename_i hkind
    cases h
    have hpast := tail (r := r) (by rw [hkind, he]; decide)
    rw [hkind] at hpast
    exact ⟨_, hpast⟩
  · cases h

end Rest.Past

theorem spells_of_readItems {eof : Token} {ts : List Token} {behind : Nat} {is : Sequence}
    {r : Rest} (h : readItems names eof ts behind = .ok (is, r)) :
    ∃ ws, List.Forall₂ (SpellsItem names) ws is ∧ Rest.Past ⟨ts, eof, behind⟩ ws r := by
  fun_induction readItems names eof ts behind generalizing is r with
  | case1 =>
    cases h
    exact ⟨[], .nil, rfl, rfl⟩
  | case2 => cases h
  | case3 =>
    cases h
    exact ⟨[], .nil, rfl, rfl⟩
  | case4 t ts behind i hi ih =>
    obtain ⟨⟨is', r'⟩, hread, he⟩ := exists_of_map_ok h
    cases he
    obtain ⟨ws, hws, hpast⟩ := ih hread
    exact ⟨t.word :: ws, .cons (spells_of_item? hi) hws, by
      rw [List.cons_append, ← hpast.words]; rfl, hpast.eof⟩

section

variable {src : List Char} {r r' : Rest}

theorem spells_of_readSequence {rule : String} {is : Sequence}
    (h : readSequence names src rule r = .ok (is, r')) :
    ∃ ws, List.Forall₂ (SpellsItem names) ws is ∧ is ≠ [] ∧ r.Past ws r' := by
  unfold readSequence at h
  split at h
  · cases h
  · cases h
  · rename_i is' r'' hne hread
    cases h
    obtain ⟨ws, hws, hpast⟩ := spells_of_readItems hread
    exact ⟨ws, hws, hne, hpast⟩

theorem spells_of_readAlternatives {rule : String} {as : List Sequence} (he : r.eof.kind = .eof)
    (h : readAlternatives names src rule r = .ok (as, r')) :
    ∃ ws, SpellsAlternatives names ws as ∧ r.Past ws r' := by
  fun_induction readAlternatives names src rule r generalizing as r' with
  | case1 => cases h
  | case2 r is r'' hread hbar ih =>
    obtain ⟨⟨more, rest⟩, hmore, he'⟩ := exists_of_map_ok h
    cases he'
    obtain ⟨ws, hws, hne, hpast⟩ := spells_of_readSequence hread
    have hend : r''.eof.kind = .eof := by rw [hpast.eof, he]
    have htail : r''.Past _ r''.tail := .tail (by rw [hbar, hend]; decide)
    rw [hbar] at htail
    obtain ⟨ws', hws', hpast'⟩ := ih hend hmore
    exact ⟨_, .more _ hws hne hws', hpast.trans (htail.trans hpast')⟩
  | case3 r is r'' hread _ =>
    cases h
    obtain ⟨ws, hws, hne, hpast⟩ := spells_of_readSequence hread
    exact ⟨ws, .last hws hne, hpast⟩

theorem spells_of_readStart {started : Bool} {d : Declaration} (he : r.eof.kind = .eof)
    (h : readStart src started r = .ok (d, r')) :
    (started = true → starts [d] = []) ∧ ∃ ws, SpellsDeclaration names ws d ∧ r.Past ws r' := by
  unfold readStart at h
  obtain ⟨⟨percent, r₁⟩, hpercent, h⟩ := exists_of_bind_ok h
  obtain ⟨⟨word, r₂⟩, hword, h⟩ := exists_of_bind_ok h
  dsimp only at h
  split at h
  · cases h
  rename_i hlexeme
  split at h
  · cases h
  rename_i hstarted
  obtain ⟨⟨name, r₃⟩, hname, h⟩ := exists_of_bind_ok h
  obtain ⟨r₄, hclose, h⟩ := exists_of_bind_ok h
  cases h
  -- a token that is taken is a word: the end of the text is of another kind
  have hpast₁ := Rest.Past.take he (by decide) hpercent
  have he₁ : r₁.eof.kind = .eof := by rw [hpast₁.eof, he]
  have hpast₂ := Rest.Past.take he₁ (by decide) hword
  have he₂ : r₂.eof.kind = .eof := by rw [hpast₂.eof, he₁]
  have hpast₃ := Rest.Past.take he₂ (by decide) hname
  have he₃ : r₃.eof.kind = .eof := by rw [hpast₃.eof, he₂]
  obtain ⟨semi, hpast₄⟩ := Rest.Past.close he₃ hclose
  have hpast := hpast₁.trans (hpast₂.trans (hpast₃.trans hpast₄))
  rw [not_ne_iff.1 hlexeme] at hpast
  exact ⟨fun hs => absurd hs hstarted, _, .start _ _ _, hpast⟩

theorem spells_of_readRule {d : Declaration} (he : r.eof.kind = .eof)
    (h : readRule names src r = .ok (d, r')) :
    starts [d] = [] ∧ ∃ ws, SpellsDeclaration names ws d ∧ r.Past ws r' := by
  unfold readRule at h
  obtain ⟨⟨name, r₁⟩, hname, h⟩ := exists_of_bind_ok h
  dsimp only at h
  split at h
  · cases h
  rename_i hsign
  obtain ⟨⟨as, r₂⟩, hread, h⟩ := exists_of_bind_ok h
  obtain ⟨r₃, hclose, h⟩ := exists_of_bind_ok h
  cases h
  have hk : r₁.next.kind = .colon ∨ r₁.next.kind = .assign := by
    by_contra hk
    exact hsign (not_or.1 hk)
  have hpast₁ := Rest.Past.take he (by decide) hname
  have he₁ : r₁.eof.kind = .eof := by rw [hpast₁.eof, he]
  have htail : r₁.Past _ r₁.tail := .tail (by rcases hk with hk | hk <;> rw [hk, he₁] <;> decide)
  obtain ⟨ws, hws, hpast₂⟩ := spells_of_readAlternatives (htail.eof ▸ he₁) hread
  have he₂ : r₂.eof.kind = .eof := by rw [hpast₂.eof, htail.eof, he₁]
  obtain ⟨semi, hpast₃⟩ := Rest.Past.close he₂ hclose
  exact ⟨rfl, _, .rule _ _ _ hk hws, hpast₁.trans (htail.trans (hpast₂.trans hpast₃))⟩

theorem spells_of_readDeclaration {started : Bool} {d : Declaration} (he : r.eof.kind = .eof)
    (h : readDeclaration names src started r = .ok (d, r')) :
    (started = true → starts [d] = []) ∧ ∃ ws, SpellsDeclaration names ws d ∧ r.Past ws r' := by
  unfold readDeclaration at h
  split at h
  · exact spells_of_readStart he h
  · obtain ⟨hstarts, hws⟩ := spells_of_readRule he h
    exact ⟨fun _ => hstarts, hws⟩

end

theorem spells_of_readDeclarations {src : List Char} {limit : Nat} {started : Bool} {r : Rest}
    {ds : List Declaration} (he : r.eof.kind = .eof) (hlimit : r.words.length ≤ limit)
    (h : readDeclarations names src limit started r = .ok ds) :
    SpellsAll names r.words ds ∧ (starts ds).length + started.toNat ≤ 1 := by
  induction limit generalizing started r ds with
  | zero =>
    cases h
    rw [List.length_eq_zero_iff.1 (Nat.le_zero.1 hlimit)]
    exact ⟨.nil, by cases started <;> decide⟩
  | succ limit ih =>
    cases htokens : r.tokens with
    | nil =>
      rw [readDeclarations, htokens] at h
      cases h
      rw [Rest.words, htokens]
      exact ⟨.nil, by cases started <;> decide⟩
    | cons t ts =>
      cases hread : readDeclaration names src started r with
      | error f =>
        rw [readDeclarations, htokens, hread] at h
        cases h
      | ok p =>
        obtain ⟨d, r'⟩ := p
        rw [readDeclarations_cons (by rw [htokens]; simp) hread] at h
        obtain ⟨ds', hds, rfl⟩ := exists_of_map_ok h
        obtain ⟨hstart, ws, hws, hpast⟩ := spells_of_readDeclaration he hread
        have hlen := List.length_pos_iff.2 hws.ne_nil
        rw [hpast.words, List.length_append] at hlimit
        obtain ⟨hall, hstarts⟩ := ih (hpast.eof ▸ he) (by omega) hds
        rw [hpast.words]
        exact ⟨.cons hws hall, (length_starts_cons d ds' started).2 ⟨hstart, hstarts⟩⟩

/-- Grammar text is read just if it spells declarations that name the start rule once at most, and the
rule set is what they make up. -/
theorem read_eq_ok_iff {src : List Char} {s : RuleSet} :
    RuleSet.read names src = .ok s ↔ ∃ ws ds, Words src ws ∧ SpellsAll names ws ds ∧
      (starts ds).length ≤ 1 ∧ s = ofDeclarations ds := by
  constructor
  · intro h
    unfold RuleSet.read at h
    split at h
    · cases h
    · rename_i tokens hscan
      obtain ⟨ds, hds, rfl⟩ := exists_of_map_ok h
      obtain ⟨hws, heof⟩ := words_of_scanFrom hscan
      obtain ⟨hall, hstarts⟩ := spells_of_readDeclarations (r := ⟨tokens.list, tokens.eof, 0⟩) heof
        (Nat.le_of_eq (List.length_map _)) hds
      exact ⟨_, ds, hws, hall, hstarts, rfl⟩
  · rintro ⟨ws, ds, hws, hall, hstarts, rfl⟩
    obtain ⟨tokens, hscan, hwords⟩ := exists_scanFrom_of_words hws src .first
    have hlimit : ws.length ≤ tokens.list.length := by rw [← hwords, List.length_map]
    have hread := readDeclarations_of_spells src hall hlimit false hstarts
      (r := ⟨tokens.list, tokens.eof, 0⟩) hwords
    rw [RuleSet.read, scan, hscan]
    dsimp only
    rw [hread]
    rfl

end RuleSet

end Packrat
