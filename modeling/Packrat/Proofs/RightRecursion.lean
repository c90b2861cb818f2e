import Packrat.Proofs.Regex.Greedy
import Packrat.Proofs.Run.Writing
import Packrat.Proofs.Tree.Instances
import Packrat.Regex.Standard

/-!
# `Packrat/Proofs/RightRecursion.lean` — right recursion nests once for each element

A list is an element with a list behind it, or an element alone. Where the list goes on, its rule is
begun again two characters further while it is still under way, so it takes a level of nesting for
each element. With fewer levels the run goes down as far as they reach and is refused there
(`listRule_refused`); with enough, what a list writes follows by induction on its elements from what
the list behind its first element writes (`writes_list`).

Where a list has more than one element both alternatives match, the first all of it and the second
its first element alone. The shorter match is written as well, behind the longer one, and does not
change the answer. A second round finds both again. When the tree is put together, the match of an
element alone comes too late for a place (`foldl_keep_listWritten`): the node of the whole list is
there already, and it ends further right.
-/

set_option autoImplicit false

namespace Packrat

variable {text : Text} {letter : Regex}

/-! ## Lists of letters -/

/-- The alternative with an element, a comma and a list. -/
def listLonger : Alternative := ⟨"list", [.reference "item", .literal ",", .reference "list"]⟩

/-- The alternative with an element only. -/
def listSingle : Alternative := ⟨"list", [.reference "item"]⟩

def listRule : Rule := ⟨"list", [listLonger, listSingle]⟩

def lists : RuleSet :=
  ⟨[("list", [[.reference "item", .literal ",", .reference "list"], [.reference "item"]]),
    ("item", [[.pattern "[a-z]" ""]])], some "list"⟩

/-- The grammar of lists, with the regular expression that matches an element. -/
def listGrammar (letter : Regex) : Grammar := ⟨[listRule, tokenRule "item" letter], some "list"⟩

/-- At `p` stands a letter, and `k` more behind it with a comma in front of each. -/
inductive Letters (letter : Regex) (text : Text) : Nat → Nat → Prop
  | last {p : Nat} (hitem : letter.matchEnd? text p = some (p + 1))
      (hsep : text.startsAt "," (p + 1) = false) : Letters letter text p 0
  | cons {p k : Nat} (hitem : letter.matchEnd? text p = some (p + 1))
      (hsep : text.startsAt "," (p + 1) = true) (rest : Letters letter text (p + 2) k) :
      Letters letter text p (k + 1)

/-- Where the list at `p` ends that has `k` elements behind its first. -/
def listEnd (p k : Nat) : Nat := p + 2 * k + 1

theorem listEnd_succ (p k : Nat) : listEnd (p + 2) k = listEnd p (k + 1) := by
  rw [listEnd, listEnd]
  omega

theorem lt_listEnd (p k : Nat) : p < listEnd p k := by
  rw [listEnd]
  omega

/-- The match of the element at `p`. -/
def itemAt (p : Nat) : Completed := ⟨some "item", p, (p + 1 : Nat)⟩

/-- A match of the list rule. -/
def listFrom (p q : Nat) : Completed := ⟨some "list", p, q⟩

/-- What the rule writes at `p`: behind the match of the whole list stands that of its first element
alone. -/
def listWritten (p : Nat) : Nat → List Completed
  | 0 => [itemAt p, listFrom p (p + 1)]
  | k + 1 => (itemAt p :: listWritten (p + 2) k) ++
      [listFrom p (listEnd p (k + 1)), listFrom p (p + 1)]

/-! ## Rounds -/

/-- The memo behind a round over the list at `p` has the answers that the next round asks for, and
both matches of the list are written. -/
structure Memo.Listed (p k : Nat) (L : List Completed) (m : Memo) : Prop where
  reads : m.Reads L
  item : m.Answers "item" p (p + 1)
  whole : m.Answers "list" p (listEnd p k)
  others : ∀ j, k = j + 1 → m.Answers "list" (p + 2) (listEnd p k)
  long : listFrom p (listEnd p k) ∈ L
  short : listFrom p (p + 1) ∈ L

section

variable {f : Follow text} {n p k : Nat} {L : List Completed} {c d : Cursor text}

theorem writes_item (h : letter.matchEnd? text p = some (p + 1)) (n : Nat) :
    Writes text ["item"] "item" p (p + 1) [itemAt p]
      (resolve (listGrammar letter) (n + 1) "item") :=
  (writes_tokenRule _ "item" h (Nat.lt_succ_self p)).resolve rfl List.mem_cons_self

/-- Where there is no comma behind the element, the longer alternative fails. -/
theorem listLonger_failed (hitem : f "item" c = .matched d) (hpos : d.pos.val = p + 1)
    (hsep : text.startsAt "," (p + 1) = false) :
    listLonger.run f c = .failed (d.backTo c.pos) := by
  rw [Alternative.run, listLonger, runTerms_matched _ hitem,
    runTerms_literal_failed _ (hpos ▸ hsep)]

/-- Where there is one, the terms of the longer alternative go on with a list. -/
theorem runTerms_listLonger (hitem : f "item" c = .matched d) (hpos : d.pos.val = p + 1)
    (hsep : text.startsAt "," (p + 1) = true) :
    ∃ hq : p + 2 < text.size + 1,
      runTerms f listLonger.terms c = f "list" (d.backTo ⟨p + 2, hq⟩) := by
  obtain ⟨hq, hlit⟩ := runTerms_literal (f := f) (c := d) [.reference "list"] (hpos ▸ hsep)
  have heq : d.pos.val + List.length (",": CodePoints) = p + 2 := by
    rw [hpos]
    rfl
  refine ⟨heq ▸ hq, ?_⟩
  rw [listLonger, runTerms_matched _ hitem, hlit, runTerms_last]
  simp only [heq]

/-- From `c` to `d`, a round over the list at `p` was run. -/
structure Cursor.Listed (p k : Nat) (L : List Completed) (c d : Cursor text) : Prop where
  memo : d.memo.Listed p k (L ++ listWritten p k)
  keeps : c.memo.KeepsBut [⟨"list", p⟩] d.memo
  before : c.memo.BeginsBefore (listEnd p k) d.memo

/-- Over one element, the first round finds it by the second alternative. -/
theorem listRule_first_round_last
    (hitem : letter.matchEnd? text c.pos = some (c.pos.val + 1))
    (hsep : text.startsAt "," (c.pos.val + 1) = false) (hread : c.memo.Reads L)
    (hs : c.memo.isStarted (c.spot "list") = true) (hl : c.memo.longest? (c.spot "list") = none)
    (hu : c.memo.Untouched ["item"] c.pos) :
    ∃ (he : listEnd c.pos 0 < text.size + 1) (d : Cursor text),
      runRound (resolve (listGrammar letter) (n + 1)) c.pos listRule.alternatives none c =
        .ended (some ⟨listEnd c.pos 0, he⟩) d ∧ c.Listed c.pos 0 L d := by
  obtain ⟨d, hrun, hw⟩ := writes_item hitem n c L rfl hread hu
  have he : listEnd c.pos 0 < text.size + 1 :=
    Nat.lt_of_le_of_lt (Nat.le_of_eq hw.pos.symm) d.pos.isLt
  have hterms : runTerms (resolve (listGrammar letter) (n + 1)) listSingle.terms
      (d.backTo c.pos) = .matched (d.backTo ⟨listEnd c.pos 0, he⟩) :=
    runTerms_last.trans (resolve_of_answers (c := d.backTo c.pos) hw.reads hw.answers he _)
  have hl' : d.memo.longest? (c.spot "list") = none := (hw.keeps.longest _ hs (by simp)).trans hl
  obtain ⟨d', hrun', hw'⟩ := Alternative.wrote_moved (a := listSingle) (c := d.backTo c.pos) hterms
    hw.reads (hw.keeps.started _ hs) fun e h => absurd (hl'.symm.trans h) (by simp)
  have hpos : d'.pos = ⟨listEnd c.pos 0, he⟩ := Fin.ext hw'.pos
  have hround : runRound (resolve (listGrammar letter) (n + 1)) c.pos listRule.alternatives none
      c = .ended (some ⟨listEnd c.pos 0, he⟩) d' :=
    runRound_of_failed (listLonger_failed hrun hw.pos hsep) hrun' hpos
      (Fin.le_def.2 (Nat.le_of_lt (lt_listEnd c.pos 0)))
  have hreads : d'.memo.Reads (L ++ listWritten c.pos 0) := by
    have h := hw'.reads
    rw [List.append_assoc] at h
    exact h
  have hitem' : d'.memo.Answers "item" c.pos (c.pos.val + 1) :=
    hw.reads.answers_of_keepsBut hw'.keeps (by simp [Cursor.spot, listSingle]) hw.answers
  refine ⟨he, d', hround, ⟨hreads, hitem', hw'.answers, fun j hj => ?_, ?_, ?_⟩,
    (hw.keeps.weaken _).trans hw'.keeps, hw.before.trans hw'.before (Nat.le_refl _)⟩
  · exact absurd hj (by omega)
  · simp [listWritten, listEnd]
  · simp [listWritten]

/-- The list of the others stands at another spot. -/
theorem others_spot (p : Nat) : (⟨"list", (p + 2 : Nat)⟩ : Spot) ∉ [⟨"list", p⟩] := by
  simp only [List.mem_singleton, Spot.mk.injEq, true_and]
  omega

/-- Where a comma and a list stand behind the element, the longer alternative matches them
all. -/
theorem listLonger_wrote (hitem : letter.matchEnd? text c.pos = some (c.pos.val + 1))
    (hsep : text.startsAt "," (c.pos.val + 1) = true)
    (hrest : Writes text ["list", "item"] "list" (c.pos.val + 2) (listEnd c.pos (k + 1))
      (listWritten (c.pos.val + 2) k) (resolve (listGrammar letter) (n + 1) "list"))
    (hread : c.memo.Reads L) (hs : c.memo.isStarted (c.spot "list") = true)
    (hl : c.memo.longest? (c.spot "list") = none) (hu : c.memo.Untouched ["item"] c.pos)
    (hu' : c.memo.Untouched ["list", "item"] (c.pos.val + 1)) :
    ∃ d, listLonger.run (resolve (listGrammar letter) (n + 1)) c = .matched d ∧
      d.memo.Answers "item" c.pos (c.pos.val + 1) ∧
      d.memo.Answers "list" (c.pos.val + 2) (listEnd c.pos (k + 1)) ∧
      c.Wrote [c.spot "list"] "list" (listEnd c.pos (k + 1)) L
        (itemAt c.pos :: listWritten (c.pos.val + 2) k ++
          [listFrom c.pos (listEnd c.pos (k + 1))]) d := by
  obtain ⟨d₁, hrun₁, hw₁⟩ := writes_item hitem n c L rfl hread hu
  obtain ⟨hq, hterms⟩ := runTerms_listLonger hrun₁ hw₁.pos hsep
  obtain ⟨d₂, hrun₂, hw₂⟩ := hrest (d₁.backTo ⟨c.pos.val + 2, hq⟩) _ rfl hw₁.reads
    ((hu'.after hw₁.before (Nat.le_refl _)).mono (fun _ h => h) (Nat.le_succ _))
  have hend : c.pos.val + 1 ≤ listEnd c.pos (k + 1) := lt_listEnd _ _
  have hreads : d₂.memo.Reads (L ++ itemAt c.pos :: listWritten (c.pos.val + 2) k) := by
    rw [List.append_cons]
    exact hw₂.reads
  obtain ⟨d, hrun, hkeep, hw⟩ := Alternative.wrote_run (a := listLonger) (c := c)
    (itemAt c.pos :: listWritten (c.pos.val + 2) k) (hterms.trans hrun₂) hw₂.pos hreads
    (hw₁.keeps.trans hw₂.keeps) (hw₁.before.trans hw₂.before hend) hs
    fun e h => absurd (hl.symm.trans h) (by simp)
  have hitem' : d.memo.Answers "item" c.pos (c.pos.val + 1) :=
    hw₂.reads.answers_of_keepsBut hkeep (by simp [Cursor.spot, listLonger])
      (hw₁.reads.answers_of_keepsBut hw₂.keeps (by simp) hw₁.answers)
  have hothers : d.memo.Answers "list" (c.pos.val + 2) (listEnd c.pos (k + 1)) :=
    hw₂.reads.answers_of_keepsBut hkeep (others_spot _) hw₂.answers
  exact ⟨d, hrun, hitem', hothers, hw⟩

/-- No match that the rule writes begins before the list, or runs backwards. -/
theorem bounds_of_mem_listWritten {x : Completed} : ∀ {k p : Nat}, x ∈ listWritten p k →
    (p : Int) ≤ x.start ∧ x.start ≤ x.stop
  | 0, p, h => by
    simp only [listWritten, List.mem_cons, List.not_mem_nil, or_false] at h
    rcases h with rfl | rfl <;> exact ⟨Int.le_refl _, Int.ofNat_le.2 (Nat.le_succ p)⟩
  | k + 1, p, h => by
    simp only [listWritten, List.mem_append, List.mem_cons, List.not_mem_nil, or_false] at h
    rcases h with (rfl | h) | rfl | rfl
    · exact ⟨Int.le_refl _, Int.ofNat_le.2 (Nat.le_succ p)⟩
    · obtain ⟨hstart, hle⟩ := bounds_of_mem_listWritten h
      exact ⟨by omega, hle⟩
    · exact ⟨Int.le_refl _, Int.ofNat_le.2 (Nat.le_of_lt (lt_listEnd p (k + 1)))⟩
    · exact ⟨Int.le_refl _, Int.ofNat_le.2 (Nat.le_succ p)⟩

/-- The match of the first element alone is new behind that of the whole. -/
theorem shorter_not_mem (hnew : ∀ q : Int, ⟨some "list", p, q⟩ ∉ L) :
    listFrom p (p + 1) ∉
      L ++ (itemAt p :: listWritten (p + 2) k ++ [listFrom p (listEnd p (k + 1))]) := by
  simp only [List.mem_append, List.mem_cons, List.not_mem_nil, or_false]
  rintro (h | (h | h) | h)
  · exact hnew _ h
  · exact absurd h (by simp [listFrom, itemAt])
  · have hle : ((p + 2 : Nat) : Int) ≤ p := (bounds_of_mem_listWritten h).1
    omega
  · have hend : ((p + 1 : Nat) : Int) = listEnd p (k + 1) := congrArg Completed.stop h
    have hlt := lt_listEnd (p + 2) k
    rw [listEnd_succ] at hlt
    omega

/-- Over more than one element, the first round finds the whole list by the first alternative, and
its first element alone by the second. -/
theorem listRule_first_round_cons
    (hitem : letter.matchEnd? text c.pos = some (c.pos.val + 1))
    (hsep : text.startsAt "," (c.pos.val + 1) = true)
    (hrest : Writes text ["list", "item"] "list" (c.pos.val + 2) (listEnd c.pos (k + 1))
      (listWritten (c.pos.val + 2) k) (resolve (listGrammar letter) (n + 1) "list"))
    (hread : c.memo.Reads L) (hnew : ∀ q : Int, ⟨some "list", c.pos.val, q⟩ ∉ L)
    (hs : c.memo.isStarted (c.spot "list") = true) (hl : c.memo.longest? (c.spot "list") = none)
    (hu : c.memo.Untouched ["item"] c.pos)
    (hu' : c.memo.Untouched ["list", "item"] (c.pos.val + 1)) :
    ∃ (he : listEnd c.pos (k + 1) < text.size + 1) (d : Cursor text),
      runRound (resolve (listGrammar letter) (n + 1)) c.pos listRule.alternatives none c =
        .ended (some ⟨listEnd c.pos (k + 1), he⟩) d ∧ c.Listed c.pos (k + 1) L d := by
  have hle : c.pos.val + 1 ≤ listEnd c.pos (k + 1) := lt_listEnd _ _
  obtain ⟨d, hrun, hitem', hothers, hw⟩ := listLonger_wrote hitem hsep hrest hread hs hl hu hu'
  have he : listEnd c.pos (k + 1) < text.size + 1 :=
    Nat.lt_of_le_of_lt (Nat.le_of_eq hw.pos.symm) d.pos.isLt
  have hpos : d.pos = ⟨listEnd c.pos (k + 1), he⟩ := Fin.ext hw.pos
  have hp : c.pos.val + 1 < text.size + 1 := Nat.lt_of_le_of_lt hle he
  have hterms : runTerms (resolve (listGrammar letter) (n + 1)) listSingle.terms
      (d.backTo c.pos) = .matched (d.backTo ⟨c.pos.val + 1, hp⟩) :=
    runTerms_last.trans (resolve_of_answers (c := d.backTo c.pos) hw.reads hitem' hp _)
  obtain ⟨d', hrun', hpos', hw'⟩ := Alternative.wrote_shorter (a := listSingle) he hterms hw.reads
    hw.answers hle (shorter_not_mem hnew)
  have hround : runRound (resolve (listGrammar letter) (n + 1)) c.pos listRule.alternatives none
      c = .ended (some ⟨listEnd c.pos (k + 1), he⟩) d' :=
    runRound_of_longer hrun hpos hrun' (Fin.le_def.2 (Nat.le_of_lt (lt_listEnd c.pos (k + 1))))
      (hpos' ▸ Fin.le_def.2 hle)
  have hreads : d'.memo.Reads (L ++ listWritten c.pos (k + 1)) := by
    have h := hw'.reads
    rw [List.append_assoc, List.append_assoc] at h
    exact h
  have hkeep : ∀ {name : String} {p q : Nat}, (⟨name, p⟩ : Spot) ∉ [c.spot "list"] →
      d.memo.Answers name p q → d'.memo.Answers name p q :=
    fun h ha => hw.reads.answers_of_keepsBut hw'.keeps h ha
  refine ⟨he, d', hround, ⟨hreads, hkeep (by simp [Cursor.spot]) hitem', hw'.answers, fun _ _ =>
    hkeep (others_spot _) hothers, ?_, ?_⟩, hw.keeps.trans hw'.keeps,
    hw.before.trans hw'.before (Nat.le_refl _)⟩
  · simp [listWritten]
  · simp [listWritten]

/-- The next round finds nothing new, with the answers of the round before. -/
theorem listRule_next_round {start : Fin (text.size + 1)} (h : Letters letter text start k)
    (hc : c.memo.Listed start k L) (he : listEnd start k < text.size + 1) :
    ∃ p : Fin (text.size + 1),
      runRound (resolve (listGrammar letter) n) start listRule.alternatives none c =
        .ended (some ⟨listEnd start k, he⟩) (c.backTo p) := by
  have hle : start.val + 1 ≤ listEnd start k := lt_listEnd _ _
  have hp : start.val + 1 < text.size + 1 := Nat.lt_of_le_of_lt hle he
  have hitem := resolve_of_answers (g := listGrammar letter) (c := c.backTo start) hc.reads
    hc.item hp n
  have hsingle : listSingle.run (resolve (listGrammar letter) n) (c.backTo start) =
      .matched (c.backTo ⟨start.val + 1, hp⟩) :=
    Alternative.run_answered (c := c.backTo start) hc.reads hc.item hp hc.short
  refine ⟨⟨start.val + 1, hp⟩, ?_⟩
  cases h with
  | last _ hsep =>
    exact runRound_of_failed (listLonger_failed hitem rfl hsep) hsingle rfl
      (Fin.le_def.2 (Nat.le_succ _))
  | cons _ hsep _ =>
    obtain ⟨hq, hterms⟩ := runTerms_listLonger hitem rfl hsep
    have hlist := resolve_of_answers (g := listGrammar letter) (c := c.backTo ⟨start.val + 2, hq⟩)
      hc.reads (hc.others _ rfl) he n
    have hlonger : listLonger.run (resolve (listGrammar letter) n) (c.backTo start) =
        .matched (c.backTo ⟨listEnd start _, he⟩) :=
      Alternative.run_again (hterms.trans hlist) hc.reads (hc.reads.mem_log hc.long)
    exact runRound_of_longer hlonger rfl hsingle
      (Fin.le_def.2 (Nat.le_of_lt (lt_listEnd start.val _))) (Fin.le_def.2 hle)

/-- After the first round, the rule matches. -/
theorem listRule_run_of_first_round (h : Letters letter text c.pos k)
    (hnew : c.memo.isStarted (c.spot "list") = false) (he : listEnd c.pos k < text.size + 1)
    (hround : runRound (resolve (listGrammar letter) n) c.pos listRule.alternatives none
      (c.saveStarted (c.spot "list")) = .ended (some ⟨listEnd c.pos k, he⟩) d)
    (hd : (c.saveStarted (c.spot "list")).Listed c.pos k L d) :
    ∃ d', listRule.run (resolve (listGrammar letter) n) c = .matched d' ∧
      c.Wrote [] "list" (listEnd c.pos k) L (listWritten c.pos k) d' := by
  obtain ⟨p, hnext⟩ := listRule_next_round (n := n) h hd.memo he
  have hlt : c.pos < ⟨listEnd c.pos k, he⟩ := Fin.lt_def.2 (lt_listEnd c.pos k)
  have hrun : listRule.run (resolve (listGrammar letter) n) c =
      .matched (d.backTo ⟨listEnd c.pos k, he⟩) :=
    Rule.run_of_two_rounds (e := d.backTo p) hround hlt hnext (Fin.le_refl _)
  exact ⟨_, hrun, .of_rule hnew (lt_listEnd c.pos k)
    ⟨rfl, hd.memo.reads, hd.keeps, hd.memo.whole, hd.before⟩⟩

/-- With a level for each element, the rule writes the list. -/
theorem writes_list (h : Letters letter text p k) : ∀ n, k < n →
    Writes text ["list", "item"] "list" p (listEnd p k) (listWritten p k)
      (listRule.run (resolve (listGrammar letter) n)) := by
  induction h with
  | @last p hitem hsep =>
    intro n hn c L hp hread hu
    obtain ⟨n, rfl⟩ := Nat.exists_eq_add_one_of_ne_zero (Nat.ne_of_gt hn)
    subst hp
    have hnew : c.memo.isStarted (c.spot "list") = false :=
      hu _ List.mem_cons_self _ (Int.le_refl _)
    obtain ⟨he, d, hround, hd⟩ := listRule_first_round_last (n := n)
      (c := c.saveStarted (c.spot "list")) hitem hsep (hread.saveStarted _)
      ((Memo.isStarted_saveStarted _ _ _).2 (.inl rfl))
      (hread.longest_of_new hnew)
      ((hu.mono (by simp) (Nat.le_refl _)).saveStarted (by simp [Cursor.spot]))
    exact listRule_run_of_first_round (.last hitem hsep) hnew he hround hd
  | @cons p k hitem hsep rest ih =>
    intro n hn c L hp hread hu
    obtain ⟨n, rfl⟩ := Nat.exists_eq_add_one_of_ne_zero (Nat.ne_of_gt (Nat.zero_lt_of_lt hn))
    subst hp
    have hnew : c.memo.isStarted (c.spot "list") = false :=
      hu _ List.mem_cons_self _ (Int.le_refl _)
    have hrest := (ih n (Nat.lt_of_succ_lt_succ hn)).resolve (g := listGrammar letter) rfl
      List.mem_cons_self
    rw [listEnd_succ] at hrest
    obtain ⟨he, d, hround, hd⟩ := listRule_first_round_cons (n := n)
      (c := c.saveStarted (c.spot "list")) hitem hsep hrest (hread.saveStarted _)
      (fun q => hread.not_mem_of_new hnew)
      ((Memo.isStarted_saveStarted _ _ _).2 (.inl rfl)) (hread.longest_of_new hnew)
      ((hu.mono (by simp) (Nat.le_refl _)).saveStarted (by simp [Cursor.spot]))
      (hu.after (Memo.beginsBefore_saveStarted (Int.ofNat_lt.2 (Nat.lt_succ_self _)))
        (Nat.le_succ _))
    exact listRule_run_of_first_round (.cons hitem hsep rest) hnew he hround hd

/-! ## Too few levels -/

/-- What stops the terms of the longer alternative stops the rule. -/
theorem listRule_stopped {fault : RunFault}
    (h : runTerms f listLonger.terms (c.saveStarted (c.spot "list")) = .stopped fault d) :
    listRule.run f c = .stopped fault d := by
  have hlonger : listLonger.run f ((c.saveStarted (c.spot "list")).backTo c.pos) =
      .stopped fault d := by
    rw [Alternative.run, show (c.saveStarted (c.spot "list")).backTo c.pos =
      c.saveStarted (c.spot "list") from rfl, h]
  have hround : runRound f c.pos listRule.alternatives none (c.saveStarted (c.spot "list")) =
      .stopped fault d := by
    rw [listRule, runRound, hlonger]
  exact grow_of_stopped hround

/-- With fewer levels than elements, the run is refused at the first element that there is no level
for. -/
theorem listRule_refused : ∀ (n : Nat) {k : Nat} {c : Cursor text} {L : List Completed},
    Letters letter text c.pos k → n ≤ k → c.memo.Reads L → c.memo.Untouched ["list", "item"] c.pos →
      ∃ d, listRule.run (resolve (listGrammar letter) n) c =
        .stopped (.tooDeep "item" (c.pos.val + 2 * n) c.limit) d
  | 0, _, c, _, _, _, hread, hu => by
    have hu₁ : (c.saveStarted (c.spot "list")).memo.Untouched ["item"] c.pos :=
      (hu.mono (by simp) (Nat.le_refl _)).saveStarted (by simp [Cursor.spot])
    have hnew : (c.saveStarted (c.spot "list")).memo.isStarted (c.spot "item") = false :=
      hu₁ _ List.mem_cons_self _ (Int.le_refl _)
    have hitem := resolve_zero_of_new (g := listGrammar letter) (r := tokenRule "item" letter)
      (c := c.saveStarted (c.spot "list")) (hread.saveStarted _) hnew rfl
    exact ⟨_, listRule_stopped (runTerms_stopped _ hitem)⟩
  | n + 1, 0, _, _, _, hn, _, _ => absurd hn (Nat.not_succ_le_zero n)
  | n + 1, k + 1, c, L, .cons hitem hsep rest, hn, hread, hu => by
    have hu₁ : (c.saveStarted (c.spot "list")).memo.Untouched ["item"] c.pos :=
      (hu.mono (by simp) (Nat.le_refl _)).saveStarted (by simp [Cursor.spot])
    obtain ⟨d, hrun, hw⟩ := writes_item hitem n (c.saveStarted (c.spot "list")) L rfl
      (hread.saveStarted _) hu₁
    obtain ⟨hq, hterms⟩ := runTerms_listLonger hrun hw.pos hsep
    have hu₂ : d.memo.Untouched ["list", "item"] (c.pos.val + 2) :=
      (hu.after ((Memo.beginsBefore_saveStarted (Int.ofNat_lt.2 (Nat.lt_succ_self _))).trans
        hw.before (Nat.le_refl _)) (Nat.le_succ _)).mono (fun _ h => h) (Nat.le_succ _)
    have hlimit : d.limit = c.limit := by
      have h := resolve_steady (listGrammar letter) (n + 1) "item" (c.saveStarted (c.spot "list"))
      rw [hrun] at h
      exact congrArg Prod.fst h
    have hlist := resolve_of_new (g := listGrammar letter) (r := listRule)
      (c := d.backTo ⟨c.pos.val + 2, hq⟩) hw.reads
      (hu₂ _ List.mem_cons_self _ (Int.le_refl _)) rfl n
    obtain ⟨e, hrest⟩ := listRule_refused n (c := d.backTo ⟨c.pos.val + 2, hq⟩) rest
      (Nat.le_of_succ_le_succ hn) hw.reads hu₂
    have hpos : c.pos.val + 2 * (n + 1) = c.pos.val + 2 + 2 * n := by omega
    refine ⟨e, listRule_stopped ?_⟩
    rw [hterms, hpos, ← hlimit]
    exact hlist.trans hrest

end

/-! ## The tree -/

/-- The node of the element at `p`. -/
def itemNode (p : Nat) : Node := ⟨some "item", p, (p + 1 : Nat), []⟩

/-- The node of the list at `p` with `k` elements behind its first: its children are the first
element and, if there are others, the list of these. -/
def listNode (p : Nat) : Nat → Node
  | 0 => ⟨some "list", p, listEnd p 0, [itemNode p]⟩
  | k + 1 => ⟨some "list", p, listEnd p (k + 1), [itemNode p, listNode (p + 2) k]⟩

theorem listing_listNode_zero (p : Nat) :
    (listNode p 0).listing = [itemAt p, listFrom p (listEnd p 0)] := rfl

theorem listing_listNode_succ (p k : Nat) :
    (listNode p (k + 1)).listing =
      itemAt p :: (listNode (p + 2) k).listing ++ [listFrom p (listEnd p (k + 1))] := by
  simp [listNode, itemNode, Node.listing, Node.listingAll, itemAt, listFrom]

theorem start_listNode (p k : Nat) : (listNode p k).start = p := by cases k <;> rfl

theorem stop_listNode (p k : Nat) : (listNode p k).stop = listEnd p k := by cases k <;> rfl

theorem wellNested_itemNode (p : Nat) : (itemNode p).WellNested :=
  Node.wellNested_leaf "item" (Int.ofNat_lt.2 (Nat.lt_succ_self p))

theorem wellNested_listNode : ∀ k p : Nat, (listNode p k).WellNested
  | 0, p => by
    refine .node (by simp [listNode]) (Int.ofNat_lt.2 (lt_listEnd p 0)) (fun c hc => ?_)
      (.singleton _) fun c hc => ?_
    · cases List.mem_singleton.1 hc
      exact ⟨Int.le_refl _, Int.le_refl _⟩
    · cases List.mem_singleton.1 hc
      exact wellNested_itemNode p
  | k + 1, p => by
    have hstart := start_listNode (p + 2) k
    have hstop : (listNode (p + 2) k).stop = listEnd p (k + 1) := by
      rw [stop_listNode, listEnd_succ]
    have hle : p + 1 ≤ listEnd p (k + 1) := lt_listEnd p (k + 1)
    refine .node (by simp [listNode]) (Int.ofNat_lt.2 (lt_listEnd p (k + 1))) (fun c hc => ?_)
      (.cons_cons ?_ (.singleton _)) fun c hc => ?_
    · rcases List.mem_cons.1 hc with rfl | hc
      · exact ⟨Int.le_refl _, Int.ofNat_le.2 hle⟩
      · cases List.mem_singleton.1 hc
        exact ⟨show (p : Int) ≤ _ by omega, Int.le_of_eq hstop⟩
    · show ((p + 1 : Nat) : Int) ≤ (listNode (p + 2) k).start
      omega
    · rcases List.mem_cons.1 hc with rfl | hc
      · exact wellNested_itemNode p
      · cases List.mem_singleton.1 hc
        exact wellNested_listNode k (p + 2)

/-- The matches in the listing lie in the list, and those of lists reach to its end. -/
theorem bounds_of_mem_listing {x : Completed} : ∀ {k p : Nat}, x ∈ (listNode p k).listing →
    (p : Int) ≤ x.start ∧ x.stop ≤ listEnd p k ∧ (x.name = some "list" → x.stop = listEnd p k)
  | 0, p, h => by
    rw [listing_listNode_zero] at h
    simp only [List.mem_cons, List.not_mem_nil, or_false] at h
    rcases h with rfl | rfl
    · exact ⟨Int.le_refl _, Int.le_refl _, by simp [itemAt]⟩
    · exact ⟨Int.le_refl _, Int.le_refl _, fun _ => rfl⟩
  | k + 1, p, h => by
    rw [listing_listNode_succ] at h
    simp only [List.mem_append, List.mem_cons, List.not_mem_nil, or_false] at h
    rcases h with (rfl | h) | rfl
    · exact ⟨Int.le_refl _, Int.ofNat_le.2 (lt_listEnd p (k + 1)), by simp [itemAt]⟩
    · obtain ⟨hstart, hstop, hlist⟩ := bounds_of_mem_listing h
      rw [listEnd_succ] at hstop hlist
      exact ⟨by omega, hstop, hlist⟩
    · exact ⟨Int.le_refl _, Int.le_refl _, fun _ => rfl⟩

/-! ### The matches that find a place -/

theorem Completed.keep_of_fit {ks : List Completed} {m : Completed}
    (h : ∀ k ∈ ks, k.stop ≤ m.stop ∧ (k.stop ≤ m.start ∨ m.start ≤ k.start)) :
    Completed.keep ks m = ks ++ [m] := by
  rw [Completed.keep, if_neg]
  rintro ⟨k, hk, hout⟩
  have := h k hk
  omega

theorem Completed.keep_of_further {ks : List Completed} {m k : Completed} (hk : k ∈ ks)
    (h : m.stop < k.stop) : Completed.keep ks m = ks :=
  if_pos ⟨k, hk, .inl h⟩

/-- An element fits behind what ends before it. -/
theorem keep_itemAt {ks : List Completed} {p : Nat} (hks : ∀ x ∈ ks, x.stop ≤ p) :
    Completed.keep ks (itemAt p) = ks ++ [itemAt p] :=
  Completed.keep_of_fit fun x hx =>
    ⟨Int.le_trans (hks x hx) (Int.ofNat_le.2 (Nat.le_succ p)), .inl (hks x hx)⟩

/-- A list fits over its elements. -/
theorem keep_listFrom {ks rest : List Completed} {p q : Nat} (hks : ∀ x ∈ ks, x.stop ≤ p)
    (hpq : p < q) (hrest : ∀ x ∈ rest, (p : Int) ≤ x.start ∧ x.stop ≤ q) :
    Completed.keep (ks ++ itemAt p :: rest) (listFrom p q) =
      ks ++ itemAt p :: rest ++ [listFrom p q] := by
  refine Completed.keep_of_fit fun x hx => ?_
  simp only [List.mem_append, List.mem_cons] at hx
  rcases hx with hx | rfl | hx
  · exact ⟨Int.le_trans (hks x hx) (Int.ofNat_le.2 (Nat.le_of_lt hpq)), .inl (hks x hx)⟩
  · exact ⟨Int.ofNat_le.2 hpq, .inr (Int.le_refl _)⟩
  · exact ⟨(hrest x hx).2, .inr (hrest x hx).1⟩

/-- Behind matches that end before the list begins, the matches of the rule that find a place are
the listing of the tree. -/
theorem foldl_keep_listWritten : ∀ (k p : Nat) (ks : List Completed), (∀ x ∈ ks, x.stop ≤ p) →
    (listWritten p k).foldl Completed.keep ks = ks ++ (listNode p k).listing
  | 0, p, ks, hks => by
    rw [listWritten, List.foldl_cons, keep_itemAt hks, List.foldl_cons,
      keep_listFrom hks (Nat.lt_succ_self p) (by simp), List.foldl_nil, List.append_assoc]
    rfl
  | k + 1, p, ks, hks => by
    have hlt := lt_listEnd (p + 2) k
    rw [listEnd_succ] at hlt
    have hothers : (itemAt p :: listWritten (p + 2) k).foldl Completed.keep ks =
        ks ++ itemAt p :: (listNode (p + 2) k).listing := by
      rw [List.foldl_cons, keep_itemAt hks, List.append_cons ks (itemAt p) (listNode _ _).listing]
      refine foldl_keep_listWritten k (p + 2) (ks ++ [itemAt p]) fun x hx => ?_
      rcases List.mem_append.1 hx with hx | hx
      · exact Int.le_trans (hks x hx) (Int.ofNat_le.2 (Nat.le_add_right p 2))
      · cases List.mem_singleton.1 hx
        exact Int.ofNat_le.2 (Nat.le_succ (p + 1))
    have hwhole := keep_listFrom hks (lt_listEnd p (k + 1)) fun x hx => by
      obtain ⟨hstart, hstop, -⟩ := bounds_of_mem_listing (p := p + 2) (k := k) hx
      rw [listEnd_succ] at hstop
      exact ⟨by omega, hstop⟩
    -- the match of the first element alone ends before that of the whole
    have hshort : Completed.keep
        (ks ++ itemAt p :: (listNode (p + 2) k).listing ++ [listFrom p (listEnd p (k + 1))])
        (listFrom p (p + 1)) =
          ks ++ itemAt p :: (listNode (p + 2) k).listing ++ [listFrom p (listEnd p (k + 1))] :=
      Completed.keep_of_further (k := listFrom p (listEnd p (k + 1))) (by simp)
        (Int.ofNat_lt.2 (by omega))
    rw [listWritten, List.foldl_append, hothers, List.foldl_cons, hwhole, List.foldl_cons, hshort,
      List.foldl_nil, List.append_assoc, listing_listNode_succ]

/-- The tree of what the rule writes is that of the list. -/
theorem ofCompleted?_listWritten (p k : Nat) :
    Node.ofCompleted? (listWritten p k) = some (listNode p k) :=
  Node.ofCompleted?_of_kept (fun _ hx => (bounds_of_mem_listWritten hx).2) (wellNested_listNode k p)
    ((foldl_keep_listWritten k p [] (by simp)).trans (List.nil_append _))

/-! ## Texts that the rule matches -/

abbrev Letter := {c : Char // 'a' ≤ c ∧ c ≤ 'z'}

/-- Letters with `,` between them. -/
def lettersText (s : Series Letter) : List Char := s.joined "," fun c => [c.val]

/-- A letter is matched. -/
def Regex.MatchesLetters (r : Regex) : Prop :=
  ∀ {text : Text} {c : Letter} {p : Nat} {rest : List Char},
    text.toList.drop p = c.val :: rest → r.matchEnd? text p = some (p + 1)

theorem letters_of_drop (hletter : letter.MatchesLetters) :
    ∀ (cs : List Letter) (c : Letter) (p : Nat),
      text.toList.drop p = c.val :: Series.joinedBehind "," (fun c => [c.val]) cs →
        Letters letter text p cs.length
  | [], c, p, h => by
    have h' : text.toList.drop p = [c.val] ++ [] := h
    have hrest : text.toList.drop (p + 1) = [] := Text.drop_add h'
    refine .last (hletter h) ?_
    rw [Bool.eq_false_iff, Ne, Text.startsAt_ofString, hrest]
    decide
  | d :: cs, c, p, h => by
    have h' : text.toList.drop p =
        [c.val] ++ (",".toList ++ (d.val :: Series.joinedBehind "," (fun c => [c.val]) cs)) := h
    have hrest : text.toList.drop (p + 1) =
        ",".toList ++ (d.val :: Series.joinedBehind "," (fun c => [c.val]) cs) := Text.drop_add h'
    refine .cons (hletter h) ?_
      (letters_of_drop hletter cs d (p + 2) (Text.drop_add hrest))
    rw [Text.startsAt_ofString, hrest]
    exact List.prefix_append _ _

theorem length_lettersText (s : Series Letter) :
    (lettersText s).length = listEnd 0 s.others.length := by
  obtain ⟨c, cs⟩ := s
  have hbehind : (Series.joinedBehind "," (fun c : Letter => [c.val]) cs).length =
      2 * cs.length := by
    induction cs with
    | nil => rfl
    | cons d cs ih =>
      rw [Series.joinedBehind_cons, List.length_append, List.length_append, ih, List.length_cons]
      show 1 + (1 + 2 * cs.length) = 2 * (cs.length + 1)
      omega
  rw [lettersText, Series.joined, List.length_append, hbehind, List.length_singleton]
  show 1 + 2 * cs.length = 0 + 2 * cs.length + 1
  omega

/-- For each element that others follow, the match of it alone is written. -/
theorem shorter_mem_listWritten : ∀ {k i p : Nat}, i < k →
    listFrom (p + 2 * i) (p + 2 * i + 1) ∈ listWritten p k
  | k + 1, 0, p, _ => by simp [listWritten]
  | k + 1, i + 1, p, h => by
    have hrest := shorter_mem_listWritten (p := p + 2) (Nat.lt_of_succ_lt_succ h)
    rw [show p + 2 * (i + 1) = p + 2 + 2 * i by omega]
    simp [listWritten, hrest]

theorem compile_lists {lib : Regex.Library} (h : lib.read "[a-z]" {} = .ok letter) :
    lists.compile lib = .ok (listGrammar letter) := by
  have hlist : RuleSet.compileRule lib "list"
      [[.reference "item", .literal ",", .reference "list"], [.reference "item"]] =
        .ok listRule := rfl
  simp only [lists, RuleSet.compile, List.mapM_cons, hlist,
    compileRule_token "item" (by decide) h]
  rfl

/-- Over letters with commas between them, the rule that ends with itself finds all of them, if there
is a level for each, and the tree leans to the right: a list of more than one has its first element
for a child, and the list of the others. That the rule has matched each of the elements alone as well
is recorded, and does not show in the tree. With fewer levels, the parse is refused at the first
letter that there is no level for. -/
theorem list_leans_right {lib : Regex.Library} {letter : Regex}
    (hread : lib.read "[a-z]" {} = .ok letter) (hletter : letter.MatchesLetters)
    (s : Series Letter) (m : Nat) :
    lists.compile lib = .ok (listGrammar letter) ∧
    (s.toList.length ≤ m →
      ∃ c, (listGrammar letter).parse (lettersText s).toArray (some "list") m = .ok c ∧
        c.matched = true ∧ c.pos.val = (lettersText s).length ∧
        c.tree? = some (listNode 0 s.others.length) ∧
        ∀ i < s.others.length, listFrom (2 * i) (2 * i + 1) ∈ c.completed ∧
          listFrom (2 * i) (2 * i + 1) ∉ (listNode 0 s.others.length).listing) ∧
    (m < s.toList.length →
      (listGrammar letter).parse (lettersText s).toArray (some "list") m =
        .error (.tooDeep "item" (2 * m) m)) := by
  have hletters : Letters letter (lettersText s).toArray 0 s.others.length :=
    letters_of_drop hletter s.others s.first 0 rfl
  have hr : (listGrammar letter).startRule (some "list") = .ok listRule := rfl
  refine ⟨compile_lists hread, fun hm => ?_, fun hm => ?_⟩
  · have hwrites : Writes (lettersText s).toArray ["list", "item"] "list" 0
        (listEnd 0 s.others.length) (listWritten 0 s.others.length)
        (listRule.run (resolve (listGrammar letter) (m : Int).toNat)) := writes_list hletters m hm
    obtain ⟨c, hc, hpos, hlog⟩ := Grammar.parse_of_writes hr hwrites
    rw [← length_lettersText] at hpos
    refine ⟨c, hc, Cursor.matched_of_pos hpos, hpos, ?_, fun i hi => ⟨?_, fun hmem => ?_⟩⟩
    · rw [Cursor.tree?_eq, hlog]
      exact ofCompleted?_listWritten 0 _
    · have := shorter_mem_listWritten (p := 0) hi
      rw [hlog]
      rwa [Nat.zero_add] at this
    · have hend : ((2 * i + 1 : Nat) : Int) = listEnd 0 s.others.length :=
        (bounds_of_mem_listing hmem).2.2 rfl
      rw [listEnd] at hend
      omega
  · obtain ⟨d, hd⟩ : ∃ d, listRule.run (resolve (listGrammar letter) (m : Int).toNat)
        (.first (lettersText s).toArray m) = .stopped (.tooDeep "item" (0 + 2 * m) m) d :=
      listRule_refused m hletters (Nat.le_of_lt_succ hm) Memo.reads_empty
        (Memo.untouched_empty _ _)
    rw [Grammar.parse_of_stopped hr hd, Nat.zero_add]

/-- What the standard library reads for a letter. -/
def letterPattern : Regex.Parsed := ⟨"[a-z]", .set true [.range 97 122] false, false, []⟩

theorem read_letter : Regex.Library.standard.read "[a-z]" {} = .ok letterPattern.toRegex :=
  Regex.Library.read_standard (by decide +kernel)

theorem matchesLetters_letterPattern : letterPattern.toRegex.MatchesLetters := by
  rintro text ⟨c, hlo, hhi⟩ p rest h
  have hlo' : 97 ≤ c.toNat := hlo
  have hhi' : c.toNat ≤ 122 := hhi
  refine Regex.Parsed.matchEnd?_set (r := letterPattern) rfl h fun v => ?_
  simp [Regex.accepts, Regex.Member.contains, hlo', hhi']

/-- The letters of `a,b,c`. -/
def threeLetters : Series Letter := ⟨⟨'a', by decide⟩, [⟨'b', by decide⟩, ⟨'c', by decide⟩]⟩

theorem threeLetters_leans_right :
    Regex.Library.standard.read "[a-z]" {} = .ok letterPattern.toRegex ∧
    letterPattern.toRegex.MatchesLetters ∧
    lettersText threeLetters = "a,b,c".toList ∧
    threeLetters.toList.length ≤ 3 ∧
    (∃ c, (listGrammar letterPattern.toRegex).parse (lettersText threeLetters).toArray
        (some "list") 3 = .ok c ∧
      c.matched = true ∧ c.tree? = some
        ⟨some "list", 0, 5, [⟨some "item", 0, 1, []⟩, ⟨some "list", 2, 5, [⟨some "item", 2, 3, []⟩,
          ⟨some "list", 4, 5, [⟨some "item", 4, 5, []⟩]⟩]⟩]⟩) ∧
    2 < threeLetters.toList.length ∧
    (listGrammar letterPattern.toRegex).parse (lettersText threeLetters).toArray (some "list") 2 =
      .error (.tooDeep "item" 4 2) := by
  obtain ⟨c, hc, hmatched, -, htree, -⟩ :=
    (list_leans_right read_letter matchesLetters_letterPattern threeLetters 3).2.1 (by decide)
  exact ⟨read_letter, matchesLetters_letterPattern, by decide, by decide, ⟨c, hc, hmatched, htree⟩,
    by decide,
    (list_leans_right read_letter matchesLetters_letterPattern threeLetters 2).2.2 (by decide)⟩

end Packrat
