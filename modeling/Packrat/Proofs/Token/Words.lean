import Mathlib.Data.List.TakeWhile
import Packrat.Proofs.Token.Quoting
import Packrat.Token.Lexer

/-!
# `Packrat/Proofs/Token/Words.lean` — grammar text as a sequence of words

What a grammar says does not depend on where its tokens stand. A `Word` is a token without its place,
and `Words` splits a text into words without counting places. The scanner succeeds exactly on the texts
that split (`exists_scanFrom_of_words`, `words_of_scanFrom`).

Below that stand the forms of words: how each of them is read when a blank or a sign follows, and what
can be said of every name and every pattern that a text splits into (`Words.formed`).
-/

set_option autoImplicit false

namespace Packrat

/-- A token without its place. -/
abbrev Word := TokenKind × List Char

def Token.word (t : Token) : Word := (t.kind, t.lexeme)

/-- The characters split into these words and what separates them. -/
inductive Words : List Char → List Word → Prop
  | nil : Words [] []
  | gap {cs text rest : List Char} {ws : List Word} (hl : lexeme? cs = some ⟨none, text, rest⟩)
      (h : Words rest ws) : Words cs ws
  | word {k : TokenKind} {cs text rest : List Char} {ws : List Word}
      (hl : lexeme? cs = some ⟨some k, text, rest⟩) (h : Words rest ws) :
      Words cs ((k, text) :: ws)

/-! ## Scanning -/

theorem scanFrom_of_lexeme? {cs : List Char} {l : Lexeme} (hl : lexeme? cs = some l)
    (src : List Char) (p : Place) :
    scanFrom src p cs = (scanFrom src (p.after l.text) l.rest).map (.cons p l) := by
  cases cs with
  | nil => exact absurd hl (by simp [lexeme?])
  | cons c tail =>
    rw [scanFrom]
    split
    · rename_i hn
      exact absurd (hn.symm.trans hl) (by simp)
    · rename_i l' hl'
      cases hl'.symm.trans hl
      rfl

theorem exists_scanFrom_of_words {cs : List Char} {ws : List Word} (h : Words cs ws)
    (src : List Char) (p : Place) :
    ∃ ts, scanFrom src p cs = .ok ts ∧ ts.list.map Token.word = ws := by
  induction h generalizing p with
  | nil =>
    rw [scanFrom]
    exact ⟨_, rfl, rfl⟩
  | @gap cs text rest ws hl _ ih =>
    obtain ⟨ts, hts, hws⟩ := ih (p.after text)
    rw [scanFrom_of_lexeme? hl, hts]
    exact ⟨_, rfl, hws⟩
  | @word k cs text rest ws hl _ ih =>
    obtain ⟨ts, hts, hws⟩ := ih (p.after text)
    rw [scanFrom_of_lexeme? hl, hts]
    refine ⟨_, rfl, ?_⟩
    rw [Tokens.cons, List.map_cons, hws]
    rfl

theorem words_of_scanFrom {src cs : List Char} {p : Place} {ts : Tokens}
    (h : scanFrom src p cs = .ok ts) :
    Words cs (ts.list.map Token.word) ∧ ts.eof.kind = .eof := by
  fun_induction scanFrom src p cs generalizing ts with
  | case1 p =>
    cases h
    exact ⟨.nil, rfl⟩
  | case2 => cases h
  | case3 p c tail l hl ih =>
    cases hs : scanFrom src (p.after l.text) l.rest with
    | error f =>
      rw [hs] at h
      cases h
    | ok ts' =>
      rw [hs] at h
      cases h
      obtain ⟨hws, heof⟩ := ih hs
      obtain ⟨k, text, rest⟩ := l
      cases k with
      | none => exact ⟨.gap hl hws, heof⟩
      | some k => exact ⟨.word hl hws, heof⟩

/-! ## What delimiters enclose -/

/-- Text that may stand between two delimiters `q`: escapes, and characters other than `q`, the
backslash and the line end. -/
inductive Enclosed (q : Char) : List Char → Prop
  | nil : Enclosed q []
  | plain {c : Char} {cs : List Char} (hq : c ≠ q) (hback : c ≠ '\\') (hline : c ≠ '\n')
      (h : Enclosed q cs) : Enclosed q (c :: cs)
  | escape {c : Char} {cs : List Char} (h : Enclosed q cs) : Enclosed q ('\\' :: c :: cs)

namespace Enclosed

variable {q : Char}

theorem append {cs ds : List Char} (hc : Enclosed q cs) (hd : Enclosed q ds) :
    Enclosed q (cs ++ ds) := by
  induction hc with
  | nil => exact hd
  | plain hq hback hline _ ih => exact .plain hq hback hline ih
  | escape _ ih => exact .escape ih

theorem head?_ne {cs : List Char} (h : Enclosed q cs) (hq : q ≠ '\\') : cs.head? ≠ some q := by
  cases h with
  | nil => simp
  | plain hc _ _ _ => simpa using hc
  | escape _ => simpa using hq.symm

end Enclosed

namespace Lexeme

theorem delimited?_of_enclosed {q : Char} {cs : List Char} (h : Enclosed q cs) (hq : q ≠ '\\')
    (rest : List Char) : delimited? q (cs ++ q :: rest) = some (cs ++ [q], rest) := by
  induction h with
  | nil =>
    unfold delimited?
    exact if_pos rfl
  | plain hc hback hline _ ih =>
    unfold delimited?
    simp only [List.cons_append, hc, hback, hline, if_false]
    rw [ih]
    rfl
  | escape _ ih =>
    unfold delimited?
    simp only [List.cons_append, hq.symm, if_false, if_true]
    rw [ih]
    rfl

theorem enclosed_of_delimited? {q : Char} {cs inner rest : List Char}
    (h : delimited? q cs = some (inner, rest)) : ∃ body, inner = body ++ [q] ∧ Enclosed q body := by
  fun_induction delimited? q cs generalizing inner rest with
  | case1 => cases h
  | case2 =>
    cases h
    exact ⟨[], rfl, .nil⟩
  | case3 => cases h
  | case4 _ d ds ih =>
    obtain ⟨⟨i, r⟩, hi, he⟩ := Option.map_eq_some_iff.1 h
    cases he
    obtain ⟨body, rfl, hbody⟩ := ih hi
    exact ⟨_, rfl, .escape hbody⟩
  | case5 => cases h
  | case6 c cs hq hback hline ih =>
    obtain ⟨⟨i, r⟩, hi, he⟩ := Option.map_eq_some_iff.1 h
    cases he
    obtain ⟨body, rfl, hbody⟩ := ih hi
    exact ⟨_, rfl, .plain hq hback hline hbody⟩

end Lexeme

/-! ## The forms of words -/

/-- A name begins with a letter or an underscore; digits may follow. -/
def IsName : List Char → Prop
  | [] => False
  | c :: cs => Lexeme.isNameStart c = true ∧ ∀ d ∈ cs, Lexeme.isNameChar d = true

/-- The characters stand between the slashes of a pattern. -/
def IsPattern (source : List Char) : Prop := source ≠ [] ∧ Enclosed '/' source

def AreFlags (flags : List Char) : Prop := ∀ c ∈ flags, Lexeme.isFlag c = true

/-- A pattern between slashes with its flags behind. -/
def patternLexeme (source flags : List Char) : List Char := '/' :: source ++ '/' :: flags

/-- The kind of a text between quotes `q`. -/
def quotationKind (q : Char) : TokenKind := if q = '"' then .doubleQuoted else .singleQuoted

namespace Lexeme

theorem isNameStart_ne {c d : Char} (hd : isNameStart d = false) (hc : isNameStart c = true) :
    c ≠ d := by
  rintro rfl
  exact absurd (hc.symm.trans hd) (by decide)

/-- A run ends before a character that does not belong to it. -/
theorem run_eq {p : Char → Bool} {k : Option TokenKind} {c d : Char} {cs : List Char}
    (hcs : ∀ x ∈ cs, p x = true) (hd : p d = false) (rest : List Char) :
    run k p c (cs ++ d :: rest) = ⟨k, c :: cs, d :: rest⟩ := by
  have hd' : ¬ p d = true := by simp [hd]
  rw [run, List.takeWhile_append_of_pos hcs, List.dropWhile_append_of_pos hcs,
    List.takeWhile_cons_of_neg hd', List.dropWhile_cons_of_neg hd', List.append_nil]

theorem lexeme?_name {name : List Char} (h : IsName name) (rest : List Char) :
    lexeme? (name ++ ' ' :: rest) = some ⟨some .ident, name, ' ' :: rest⟩ := by
  cases name with
  | nil => exact h.elim
  | cons c cs =>
    obtain ⟨hc, hcs⟩ := h
    have hne := fun d hd => isNameStart_ne (d := d) hd hc
    have hblank : isBlank c = false := by
      simp [isBlank, hne ' ' rfl, hne '\t' rfl, hne '\x0c' rfl]
    unfold lexeme?
    simp only [List.cons_append, hblank, hne '\n' rfl, hne '/' rfl,
      hne '#' rfl, hne '%' rfl, hne ':' rfl, hne ';' rfl,
      hne '|' rfl, hne '"' rfl, hne '\x27' rfl, hc, Bool.false_eq_true,
      if_false, if_true]
    rw [run_eq hcs rfl]

theorem lexeme?_quotation {q : Char} (hq : q = '\x27' ∨ q = '"') {body : List Char}
    (h : Enclosed q body) (rest : List Char) :
    lexeme? (q :: body ++ [q] ++ rest) =
      some ⟨some (quotationKind q), q :: body ++ [q], rest⟩ := by
  have hback : q ≠ '\\' := by rcases hq with rfl | rfl <;> decide
  have hd := delimited?_of_enclosed h hback rest
  have hshape : q :: body ++ [q] ++ rest = q :: (body ++ q :: rest) := by simp
  rw [hshape]
  rcases hq with rfl | rfl
  · show quotation? .singleQuoted _ (body ++ _ :: rest) = _
    rw [quotation?, hd]
    rfl
  · show quotation? .doubleQuoted _ (body ++ _ :: rest) = _
    rw [quotation?, hd]
    rfl

theorem lexeme?_pattern {source flags : List Char} (h : IsPattern source)
    (hstar : source.head? ≠ some '*') (hflags : AreFlags flags) (rest : List Char) :
    lexeme? (patternLexeme source flags ++ ' ' :: rest) =
      some ⟨some .regex, patternLexeme source flags, ' ' :: rest⟩ := by
  have hd := delimited?_of_enclosed h.2 (by decide) (flags ++ ' ' :: rest)
  have hhead : (source ++ '/' :: (flags ++ ' ' :: rest)).head? = source.head? := by
    cases source with
    | nil => exact absurd rfl h.1
    | cons c cs => rfl
  have hblank : ¬ isFlag ' ' = true := by decide
  have hshape : patternLexeme source flags ++ ' ' :: rest =
      '/' :: (source ++ '/' :: (flags ++ ' ' :: rest)) := by simp [patternLexeme]
  rw [hshape]
  show slash? (source ++ '/' :: (flags ++ ' ' :: rest)) = _
  -- neither a line comment nor a block comment
  rw [slash?, hhead, if_neg (h.2.head?_ne (by decide)), if_neg hstar, regex?, hd, Option.map_some]
  dsimp only
  rw [List.takeWhile_append_of_pos hflags, List.dropWhile_append_of_pos hflags,
    List.takeWhile_cons_of_neg hblank, List.dropWhile_cons_of_neg hblank]
  simp [patternLexeme]

end Lexeme

/-! ## Splitting a text word by word -/

namespace Words

variable {cs rest : List Char} {ws : List Word}

theorem newline (h : Words cs ws) : Words ('\n' :: cs) ws := .gap rfl h

/-- A blank in front makes no difference, also where blanks follow. -/
theorem blank (h : Words cs ws) : Words (' ' :: cs) ws := by
  have hl : lexeme? (' ' :: cs) = some (Lexeme.run none Lexeme.isBlank ' ' cs) := rfl
  refine .gap hl ?_
  cases cs with
  | nil => exact h
  | cons c cs =>
    by_cases hc : Lexeme.isBlank c = true
    · have hl : lexeme? (c :: cs) = some (Lexeme.run none Lexeme.isBlank c cs) := by
        rw [lexeme?, if_pos hc]
      rw [List.dropWhile_cons_of_pos hc]
      cases h with
      | gap hl' h =>
        cases hl.symm.trans hl'
        exact h
      | word hl' _ => cases hl.symm.trans hl'
    · rw [List.dropWhile_cons_of_neg hc]
      exact h

theorem name {n : List Char} (hn : IsName n) (h : Words (' ' :: rest) ws) :
    Words (n ++ ' ' :: rest) ((.ident, n) :: ws) := .word (Lexeme.lexeme?_name hn rest) h

theorem pattern {source flags : List Char} (hs : IsPattern source)
    (hstar : source.head? ≠ some '*') (hf : AreFlags flags) (h : Words (' ' :: rest) ws) :
    Words (patternLexeme source flags ++ ' ' :: rest)
      ((.regex, patternLexeme source flags) :: ws) :=
  .word (Lexeme.lexeme?_pattern hs hstar hf rest) h

theorem percent (h : Words rest ws) : Words ('%' :: rest) ((.percent, ['%']) :: ws) := .word rfl h

theorem colon (h : Words (' ' :: rest) ws) :
    Words (':' :: ' ' :: rest) ((.colon, [':']) :: ws) := .word rfl h

theorem bar (h : Words rest ws) : Words ('|' :: rest) ((.bar, ['|']) :: ws) := .word rfl h

theorem semi (h : Words rest ws) : Words (';' :: rest) ((.semi, [';']) :: ws) := .word rfl h

end Words

theorem enclosed_digits {q : Char} (hq : isHexDigit q = false) {digits : List Char}
    (h : ∀ d ∈ digits, isHexDigit d = true) : Enclosed q digits := by
  induction digits with
  | nil => exact .nil
  | cons d ds ih =>
    have hd := h d List.mem_cons_self
    exact .plain (isHexDigit_ne hq hd) (isHexDigit_ne rfl hd) (isHexDigit_ne rfl hd)
      (ih fun x hx => h x (List.mem_cons_of_mem d hx))

theorem Spelled.enclosed {q : Char} {c : CodePoint} {cs : List Char} (h : Spelled q c cs)
    (hq : q = '\x27' ∨ q = '"') : Enclosed q cs := by
  cases h with
  | itself hc hback hline _ =>
    refine .plain hc hback ?_ .nil
    rintro rfl
    exact absurd hline (by decide)
  | escaped _ _ hdigits _ =>
    have hdigit : isHexDigit q = false := by rcases hq with rfl | rfl <;> rfl
    exact .escape (enclosed_digits hdigit hdigits)

/-- What is written between quotes can stand there. -/
theorem enclosed_quoted {q : Char} (hq : q = '\x27' ∨ q = '"') (cs : CodePoints) :
    Enclosed q (cs.flatMap (quotedPoint q)) := by
  induction cs with
  | nil => exact .nil
  | cons c cs ih => exact ((spelled_quotedPoint hq c).enclosed hq).append ih

theorem Words.quotation {rest : List Char} {ws : List Word} (cs : CodePoints) (h : Words rest ws) :
    Words (quotedChars cs ++ rest) ((quotationKind (quoteFor cs), quotedChars cs) :: ws) :=
  .word (Lexeme.lexeme?_quotation (quoteFor_eq cs) (enclosed_quoted (quoteFor_eq cs) cs) rest) h

/-! ## What words look like -/

/-- Names are names, and patterns stand between slashes. -/
def Word.Formed : Word → Prop
  | (.ident, text) => IsName text
  | (.regex, text) =>
    ∃ source flags, text = patternLexeme source flags ∧ IsPattern source ∧ AreFlags flags
  | _ => True

/-- Nothing is asked of words of another kind. -/
theorem Word.formed_of_ne {k : TokenKind} (hname : k ≠ .ident) (hpattern : k ≠ .regex)
    (text : List Char) : Word.Formed (k, text) := by
  cases k <;> first | exact trivial | exact absurd rfl hname | exact absurd rfl hpattern

namespace Lexeme

/-- If a token is read, it is formed as its kind demands. -/
def Shaped (o : Option Lexeme) : Prop :=
  ∀ k text rest, o = some ⟨some k, text, rest⟩ → Word.Formed (k, text)

theorem Shaped.gap (text rest : List Char) : Shaped (some ⟨none, text, rest⟩) := by
  rintro k text rest ⟨⟩

theorem Shaped.token {k : TokenKind} {text : List Char} (h : Word.Formed (k, text))
    (rest : List Char) : Shaped (some ⟨some k, text, rest⟩) := by
  rintro k text rest ⟨⟩
  exact h

theorem Shaped.sign {k : TokenKind} (hname : k ≠ .ident) (hpattern : k ≠ .regex)
    (text rest : List Char) : Shaped (some ⟨some k, text, rest⟩) :=
  .token (Word.formed_of_ne hname hpattern text) rest

theorem Shaped.none : Shaped none := by
  rintro k text rest ⟨⟩

theorem Shaped.ite {p : Prop} [Decidable p] {a b : Option Lexeme} (ha : p → Shaped a)
    (hb : ¬ p → Shaped b) : Shaped (if p then a else b) := by
  by_cases hp : p
  · rw [if_pos hp]
    exact ha hp
  · rw [if_neg hp]
    exact hb hp

theorem shaped_regex? {cs : List Char} (hslash : cs.head? ≠ some '/') : Shaped (regex? cs) := by
  intro k text rest h
  obtain ⟨⟨body, behind⟩, hd, he⟩ := Option.map_eq_some_iff.1 h
  cases he
  obtain ⟨source, rfl, hsource⟩ := enclosed_of_delimited? hd
  refine ⟨source, behind.takeWhile isFlag, by simp [patternLexeme], ⟨?_, hsource⟩,
    fun c hc => List.mem_takeWhile_imp hc⟩
  rintro rfl
  rw [← delimited?_append hd] at hslash
  exact hslash rfl

theorem shaped_slash? (cs : List Char) : Shaped (slash? cs) := by
  refine .ite (fun _ => .gap _ _) fun hline => .ite (fun _ => ?_) fun _ => shaped_regex? hline
  split
  · exact .gap _ _
  · exact shaped_regex? hline

theorem shaped_colon (cs : List Char) : Shaped (some (colon cs)) := by
  unfold colon
  split
  · exact .sign (by decide) (by decide) _ _
  · exact .sign (by decide) (by decide) _ _

theorem shaped_quotation? {k : TokenKind} (hname : k ≠ .ident) (hpattern : k ≠ .regex) (q : Char)
    (cs : List Char) : Shaped (quotation? k q cs) := by
  intro k' text rest h
  obtain ⟨⟨body, behind⟩, -, he⟩ := Option.map_eq_some_iff.1 h
  cases he
  exact Word.formed_of_ne hname hpattern _

theorem shaped_name {c : Char} (hc : isNameStart c = true) (cs : List Char) :
    Shaped (some (run (some .ident) isNameChar c cs)) := by
  have h : Word.Formed (.ident, c :: cs.takeWhile isNameChar) := by
    show IsName (c :: cs.takeWhile isNameChar)
    exact ⟨hc, fun _ hd => List.mem_takeWhile_imp hd⟩
  exact .token h _

theorem shaped_lexeme? (cs : List Char) : Shaped (lexeme? cs) := by
  cases cs with
  | nil => exact .none
  | cons c cs =>
    rw [lexeme?]
    refine .ite (fun _ => .gap _ _) fun _ => .ite (fun _ => .gap _ _) fun _ =>
      .ite (fun _ => shaped_slash? cs) fun _ => .ite (fun _ => .gap _ _) fun _ => ?_
    refine .ite (fun _ => .sign (by decide) (by decide) _ _) fun _ =>
      .ite (fun _ => shaped_colon cs) fun _ =>
      .ite (fun _ => .sign (by decide) (by decide) _ _) fun _ =>
      .ite (fun _ => .sign (by decide) (by decide) _ _) fun _ => ?_
    exact .ite (fun _ => shaped_quotation? (by decide) (by decide) c cs) fun _ =>
      .ite (fun _ => shaped_quotation? (by decide) (by decide) c cs) fun _ =>
      .ite (fun hc => shaped_name hc cs) fun _ => .none

end Lexeme

theorem Words.formed {cs : List Char} {ws : List Word} (h : Words cs ws) : ∀ w ∈ ws, w.Formed := by
  induction h with
  | nil => simp
  | gap _ _ ih => exact ih
  | word hl _ ih =>
    intro w hw
    rcases List.mem_cons.1 hw with rfl | hw
    · exact Lexeme.shaped_lexeme? _ _ _ _ hl
    · exact ih w hw

end Packrat
