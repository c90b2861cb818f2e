import Packrat.Proofs.Run.Counter
import Packrat.Proofs.Run.Steps
import Packrat.Proofs.Soundness

/-!
# `Packrat/Proofs/Run/Exits.lean` — how a step leaves the cursor

A step may match, fail or be stopped, and it may be taken from any cursor, not only from those that a
run comes through: whatever the tables say, of the recorded matches it is only asked that they lie in
the text (`Memo.Within`). `Cursor.Passes` is what every exit has in common: the counter is where it
was and the tables have only grown. `Result.Exits` adds where the cursor stands, and the reasons for
which a step is stopped; a move out of the text is not among them.

The terms of an alternative are the one step without a promise about the position when it fails. The
alternative around them goes back, whatever was matched on the way.
-/

set_option autoImplicit false

namespace Packrat

variable {text : Text} {g : Grammar}

/-! ## What the tables may say -/

namespace Memo

/-- The recorded matches lie in the text, and the greatest end at a spot is the end of one of them.
About failures and beginnings nothing is said. -/
structure Within (text : Text) (m : Memo) : Prop where
  bounds : ∀ x ∈ m.log, 0 ≤ x.start ∧ x.start ≤ x.stop ∧ x.stop ≤ text.size
  longest : ∀ s e, m.longest? s = some e → ⟨s.name, s.start, e⟩ ∈ m.log

theorem within_empty : Within text {} where
  bounds x hx := by simp at hx
  longest s e he := by simp [longest?] at he

/-- A match that is new is logged, and its end counts if it is the greatest so far. -/
theorem saveMatch_cases (m : Memo) (x : Match) :
    m.saveMatch x = m ∨
      (m.saveMatch x).log = m.log.push x ∧
        ∀ s, (m.saveMatch x).longest? s = m.longest? s ∨
          s = x.spot ∧ (m.saveMatch x).longest? s = some x.stop ∧
            ∀ e, m.longest? s = some e → e ≤ x.stop := by
  unfold saveMatch
  split
  · exact .inl rfl
  · refine .inr ⟨rfl, fun s => ?_⟩
    simp only [longest?, Std.TreeMap.getD_eq_getD_getElem?]
    split
    · rename_i hlt
      by_cases hs : s = x.spot
      · subst hs
        refine .inr ⟨rfl, Std.TreeMap.getElem?_insert_self, fun e he => ?_⟩
        rw [he, Option.getD_some] at hlt
        omega
      · left
        simp [Std.TreeMap.getElem?_insert, Ne.symm hs]
    · exact .inl rfl

namespace Within

variable {m : Memo}

theorem saveMatch (h : m.Within text) {x : Match}
    (hx : 0 ≤ x.start ∧ x.start ≤ x.stop ∧ x.stop ≤ text.size) : (m.saveMatch x).Within text := by
  rcases saveMatch_cases m x with he | ⟨hlog, hlong⟩
  · rwa [he]
  · refine ⟨fun y hy => ?_, fun s e he => ?_⟩
    · rw [hlog, Array.mem_push] at hy
      rcases hy with hy | rfl
      · exact h.bounds y hy
      · exact hx
    · rw [hlog, Array.mem_push]
      rcases hlong s with hold | ⟨rfl, hnew, -⟩
      · exact .inl (h.longest s e (hold ▸ he))
      · rw [hnew] at he
        cases he
        exact .inr rfl

theorem saveMismatch (h : m.Within text) (s : Spot) : (m.saveMismatch s).Within text :=
  ⟨h.bounds, h.longest⟩

theorem saveStarted (h : m.Within text) (s : Spot) : (m.saveStarted s).Within text :=
  ⟨h.bounds, h.longest⟩

end Within

/-- Every spot with a greatest end has one that is no less. -/
def Raises (m n : Memo) : Prop :=
  ∀ s e, m.longest? s = some e → ∃ e', n.longest? s = some e' ∧ e ≤ e'

namespace Raises

theorem refl (m : Memo) : m.Raises m := fun _ e he => ⟨e, he, Int.le_refl e⟩

theorem trans {l m n : Memo} (h : l.Raises m) (h' : m.Raises n) : l.Raises n := by
  intro s e he
  obtain ⟨e₁, he₁, hle⟩ := h s e he
  obtain ⟨e₂, he₂, hle'⟩ := h' s e₁ he₁
  exact ⟨e₂, he₂, Int.le_trans hle hle'⟩

theorem saveMatch (m : Memo) (x : Match) : m.Raises (m.saveMatch x) := by
  intro s e he
  rcases saveMatch_cases m x with hsame | ⟨-, hlong⟩
  · exact ⟨e, hsame.symm ▸ he, Int.le_refl e⟩
  · rcases hlong s with hold | ⟨-, hnew, hle⟩
    · exact ⟨e, hold.trans he, Int.le_refl e⟩
    · exact ⟨x.stop, hnew, hle e he⟩

end Raises

end Memo

/-! ## What every exit has in common -/

/-- From `c` to `d` the limit and the depth are kept, the tables have only grown, and the matches still
lie in the text. -/
structure Cursor.Passes (c d : Cursor text) : Prop where
  limit : d.limit = c.limit
  depth : d.depth = c.depth
  tables : c.memo.Extends d.memo
  longest : c.memo.Raises d.memo
  within : d.memo.Within text

namespace Cursor.Passes

variable {b c d : Cursor text}

theorem refl (h : c.memo.Within text) : c.Passes c := ⟨rfl, rfl, .refl _, .refl _, h⟩

theorem trans (h : b.Passes c) (h' : c.Passes d) : b.Passes d :=
  ⟨h'.limit.trans h.limit, h'.depth.trans h.depth, h.tables.trans h'.tables,
    h.longest.trans h'.longest, h'.within⟩

theorem backTo (h : c.Passes d) (p : Fin (text.size + 1)) : c.Passes (d.backTo p) :=
  ⟨h.limit, h.depth, h.tables, h.longest, h.within⟩

theorem saveMatch (h : c.Passes d) (name : String) {p q : Fin (text.size + 1)} (hpq : p ≤ q) :
    c.Passes (d.saveMatch ⟨name, p.val, q.val⟩) := by
  have hx : (0 : Int) ≤ p.val ∧ (p.val : Int) ≤ q.val ∧ (q.val : Int) ≤ text.size := by
    have := q.isLt
    rw [Fin.le_def] at hpq
    omega
  exact ⟨h.limit, h.depth, h.tables.trans (.saveMatch _ _), h.longest.trans (.saveMatch _ _),
    h.within.saveMatch hx⟩

theorem saveMismatch (h : c.Passes d) (s : Spot) : c.Passes (d.saveMismatch s) :=
  ⟨h.limit, h.depth, h.tables.trans (.saveMismatch _ _), h.longest, h.within.saveMismatch s⟩

theorem saveStarted (h : c.Passes d) (s : Spot) : c.Passes (d.saveStarted s) :=
  ⟨h.limit, h.depth, h.tables.trans (.saveStarted _ _), h.longest, h.within.saveStarted s⟩

end Cursor.Passes

/-! ## Exits -/

/-- Why a step from `c` that comes to no terms but those in `T` may be stopped: for a reference that
leads nowhere, for one that is nested too deep, or for a value that is no term. -/
inductive RunFault.Arises (g : Grammar) (T : Term → Prop) (c : Cursor text) : RunFault → Prop
  | unknownRule {name : String} (hr : g.rule? name = none) : Arises g T c (.unknownRule name)
  | tooDeep {name : String} {r : Rule} {p : Fin (text.size + 1)} (hr : g.rule? name = some r)
      (hp : c.pos ≤ p) : Arises g T c (.tooDeep name p c.limit)
  | foreignTerm {v : Json} (ht : T (.foreign v) ∨ T (.foreignLiteral v)) :
      Arises g T c (.foreignTerm v)

theorem RunFault.Arises.before {T : Term → Prop} {c d : Cursor text} {f : RunFault}
    (h : f.Arises g T d) (hl : d.limit = c.limit) (hp : c.pos ≤ d.pos) : f.Arises g T c := by
  cases h with
  | unknownRule hr => exact .unknownRule hr
  | tooDeep hr hle =>
    rw [hl]
    exact .tooDeep hr (Fin.le_trans hp hle)
  | foreignTerm ht => exact .foreignTerm ht

namespace Result

/-- The exits of a step from `c`: it has matched and stands at or behind the beginning, or it has failed
and stands at the beginning, or it is stopped for one of the reasons there are. -/
def Exits (g : Grammar) (T : Term → Prop) (c : Cursor text) : Result text → Prop
  | matched d => c.Passes d ∧ c.pos ≤ d.pos
  | failed d => c.Passes d ∧ d.pos = c.pos
  | stopped f d => c.Passes d ∧ f.Arises g T c

variable {T : Term → Prop} {c d : Cursor text}

theorem Exits.after {res : Result text} (h : res.Exits g T d) (hcd : c.Passes d)
    (hp : d.pos = c.pos) : res.Exits g T c := by
  cases res with
  | matched e => exact ⟨hcd.trans h.1, hp ▸ h.2⟩
  | failed e => exact ⟨hcd.trans h.1, h.2.trans hp⟩
  | stopped f e => exact ⟨hcd.trans h.1, h.2.before hcd.limit (Fin.le_of_eq hp.symm)⟩

/-- A move that goes forward and stays in the text is carried out. -/
theorem exits_matchedAt (h : c.memo.Within text) {i : Int} (hlo : c.pos.val ≤ i)
    (hhi : i ≤ text.size) : (matchedAt c i).Exits g T c := by
  obtain ⟨q, rfl⟩ := Int.eq_ofNat_of_zero_le (show 0 ≤ i by omega)
  rw [matchedAt_of_le c (Int.ofNat_le.1 hhi)]
  exact ⟨(Cursor.Passes.refl h).backTo _, Fin.le_def.2 (Int.ofNat_le.1 hlo)⟩

end Result

/-! ## The steps -/

/-- References exit as steps do. -/
def Follow.Exits (g : Grammar) (T : Term → Prop) (f : Follow text) : Prop :=
  ∀ (name : String) (c : Cursor text), c.memo.Within text → (f name c).Exits g T c

section

variable {T : Term → Prop} {f : Follow text}

theorem Term.exits_run (hf : f.Exits g T) {t : Term} (ht : T t) {c : Cursor text}
    (h : c.memo.Within text) : (t.run f c).Exits g T c := by
  have hpos : c.pos.val ≤ text.size := Nat.le_of_lt_succ c.pos.isLt
  cases t with
  | literal s =>
    rw [Term.run]
    split
    · rename_i hs
      obtain ⟨hle, -⟩ := Text.slice_of_startsAt hpos hs
      exact Result.exits_matchedAt h (by omega) (by omega)
    · exact ⟨.refl h, rfl⟩
  | pattern r =>
    rw [Term.run]
    split
    · rename_i i hi
      obtain ⟨hlo, hhi⟩ := r.bounds hpos hi
      exact Result.exits_matchedAt h (by omega) (by omega)
    · exact ⟨.refl h, rfl⟩
  | reference name => exact hf name c h
  | foreignLiteral v => exact ⟨.refl h, .foreignTerm (.inr ht)⟩
  | foreign v => exact ⟨.refl h, .foreignTerm (.inl ht)⟩

/-- Terms that fail promise nothing about the position. -/
theorem runTerms_exits (hf : f.Exits g T) : ∀ (ts : List Term) (c : Cursor text),
    (∀ t ∈ ts, T t) → c.memo.Within text →
      match runTerms f ts c with
      | .matched d => c.Passes d ∧ c.pos ≤ d.pos
      | .failed d => c.Passes d
      | .stopped fault d => c.Passes d ∧ fault.Arises g T c
  | [], c, _, h => ⟨.refl h, Fin.le_refl _⟩
  | t :: ts, c, hT, h => by
    have ht := Term.exits_run hf (hT t List.mem_cons_self) h
    rw [runTerms]
    cases hres : t.run f c with
    | failed d =>
      rw [hres] at ht
      exact ht.1
    | stopped fault d =>
      rw [hres] at ht
      exact ht
    | matched d =>
      rw [hres] at ht
      obtain ⟨hcd, hle⟩ := ht
      have hts := runTerms_exits hf ts d (fun t ht => hT t (List.mem_cons_of_mem _ ht)) hcd.within
      dsimp only
      cases hrest : runTerms f ts d with
      | matched e =>
        rw [hrest] at hts
        exact ⟨hcd.trans hts.1, Fin.le_trans hle hts.2⟩
      | failed e =>
        rw [hrest] at hts
        exact hcd.trans hts
      | stopped fault e =>
        rw [hrest] at hts
        exact ⟨hcd.trans hts.1, hts.2.before hcd.limit hle⟩

theorem Alternative.exits_run (hf : f.Exits g T) {a : Alternative} (ha : ∀ t ∈ a.terms, T t)
    {c : Cursor text} (h : c.memo.Within text) : (a.run f c).Exits g T c := by
  have hts := runTerms_exits hf a.terms c ha h
  rw [Alternative.run]
  cases hres : runTerms f a.terms c with
  | matched d =>
    rw [hres] at hts
    exact ⟨hts.1.saveMatch a.owner hts.2, hts.2⟩
  | failed d =>
    rw [hres] at hts
    exact ⟨hts.backTo c.pos, rfl⟩
  | stopped fault d =>
    rw [hres] at hts
    exact hts

/-- The exits of a round that begins where `c` stands. -/
def Round.Exits (g : Grammar) (T : Term → Prop) (c : Cursor text) : Round text → Prop
  | ended _ d => c.Passes d
  | stopped f d => c.Passes d ∧ f.Arises g T c

theorem Round.Exits.after {c d : Cursor text} {res : Round text} (h : res.Exits g T d)
    (hcd : c.Passes d) (hp : d.pos = c.pos) : res.Exits g T c := by
  cases res with
  | ended longest e => exact hcd.trans h
  | stopped fault e => exact ⟨hcd.trans h.1, h.2.before hcd.limit (Fin.le_of_eq hp.symm)⟩

theorem runRound_exits (hf : f.Exits g T) (start : Fin (text.size + 1)) :
    ∀ (as : List Alternative) (longest : Option (Fin (text.size + 1))) (c : Cursor text),
      (∀ a ∈ as, ∀ t ∈ a.terms, T t) → c.memo.Within text →
        (runRound f start as longest c).Exits g T (c.backTo start)
  | [], _, c, _, h => ⟨rfl, rfl, .refl _, .refl _, h⟩
  | a :: as, longest, c, hT, h => by
    have ha := Alternative.exits_run hf (hT a List.mem_cons_self) (c := c.backTo start) h
    have hrest : ∀ longest d, (c.backTo start).Passes d →
        (runRound f start as longest d).Exits g T (c.backTo start) := fun longest d hd =>
      (runRound_exits hf start as longest d (fun a ha => hT a (List.mem_cons_of_mem _ ha))
        hd.within).after (hd.backTo start) rfl
    rw [runRound]
    cases hres : a.run f (c.backTo start) with
    | matched d =>
      rw [hres] at ha
      exact hrest _ d ha.1
    | failed d =>
      rw [hres] at ha
      exact hrest _ d ha.1
    | stopped fault d =>
      rw [hres] at ha
      exact ha

theorem grow_exits (hf : f.Exits g T) {r : Rule}
    (hT : ∀ a ∈ r.alternatives, ∀ t ∈ a.terms, T t) {start best : Fin (text.size + 1)}
    (hle : start ≤ best) (c : Cursor text) (h : c.memo.Within text) :
    (grow f r start best c).Exits g T (c.backTo start) := by
  have hround := fun c => runRound_exits hf start r.alternatives none c hT
  induction best, c using grow.induct f r start with
  | case1 best c fault d hd =>
    have hd' := hround c h
    rw [hd] at hd'
    rw [grow_of_stopped hd]
    exact hd'
  | case2 best c d hd =>
    have hd' := hround c h
    rw [hd] at hd'
    rw [grow_of_none hd]
    exact ⟨(hd'.saveMismatch _).backTo start, rfl⟩
  | case3 best c longest d hd hlt ih =>
    have hd' : (c.backTo start).Passes d := by
      have hd' := hround c h
      rwa [hd] at hd'
    rw [grow_of_lt hd hlt]
    exact (ih (Fin.le_trans hle (Fin.le_of_lt hlt)) hd'.within).after (hd'.backTo start) rfl
  | case4 best c longest d hd hlt =>
    have hd' := hround c h
    rw [hd] at hd'
    rw [grow_of_not_lt hd hlt]
    exact ⟨hd'.backTo best, hle⟩

theorem Rule.exits_run (hf : f.Exits g T) {r : Rule}
    (hT : ∀ a ∈ r.alternatives, ∀ t ∈ a.terms, T t) {c : Cursor text}
    (h : c.memo.Within text) : (r.run f c).Exits g T c := by
  have hs : c.Passes (c.saveStarted (c.spot r.name)) := (Cursor.Passes.refl h).saveStarted _
  exact (grow_exits hf hT (Fin.le_refl c.pos) _ hs.within).after (hs.backTo c.pos) rfl

end

theorem resolve_exits {T : Term → Prop} (hT : ∀ t, g.Uses t → T t) :
    ∀ n, Follow.Exits g T (resolve g n : Follow text) := by
  intro n
  induction n using Nat.strongRecOn with
  | ind n ih =>
    intro name c hc
    have h := resolution g n name c
    generalize resolve g n name c = res at h
    cases h with
    | mismatch _ => exact ⟨.refl hc, rfl⟩
    | recorded _ hl =>
      obtain ⟨-, hlo, hhi⟩ := hc.bounds _ (hc.longest _ _ hl)
      exact Result.exits_matchedAt hc hlo hhi
    | underWay _ _ _ => exact ⟨.refl hc, rfl⟩
    | unknown _ _ _ hr => exact ⟨.refl hc, .unknownRule hr⟩
    | tooDeep _ _ _ hr _ => exact ⟨.refl hc, .tooDeep hr (Fin.le_refl _)⟩
    | @fresh r k _ _ _ hr hn =>
      refine Rule.exits_run (ih k (by omega)) (fun a ha t ht => hT t ?_) hc
      exact ⟨r, Grammar.mem_of_rule? hr, a, ha, ht⟩

/-- The terms that a step which begins with `ts` may come to. -/
def Grammar.Meets (g : Grammar) (ts : List Term) (t : Term) : Prop := g.Uses t ∨ t ∈ ts

theorem follow_exits (ts : List Term) : Follow.Exits g (g.Meets ts) (follow g : Follow text) :=
  fun name c => resolve_exits (fun _ ht => .inl ht) c.levels name c

/-- However a step ends, and from whatever cursor it is taken: the limit and the depth are as before,
the log goes on from what it was, and nothing else that the tables said is taken back. A match stands
at or behind the beginning, a failure at the beginning; and a step is stopped for a rule that there is
not, for the depth, or for a value that is no term, never for a position.

The depth is that of the counter: counting up and down around each reference answers references as
`follow` does, and nothing else does. -/
theorem steps_leave_cursor (g : Grammar) (c : Cursor text) (h : c.memo.Within text) :
    (∀ f : Follow text, lookUp g f = f ↔ f = follow g) ∧
    (∀ t : Term, (t.run (follow g) c).Exits g (g.Meets [t]) c) ∧
    (∀ name : String, (follow g name c).Exits g (g.Meets []) c) ∧
    (∀ a : Alternative, (a.run (follow g) c).Exits g (g.Meets a.terms) c) ∧
    ∀ r : Rule, (r.run (follow g) c).Exits g (g.Meets (r.alternatives.flatMap (·.terms))) c := by
  refine ⟨fun f => lookUp_eq_self_iff, fun t => ?_, fun name => ?_, fun a => ?_, fun r => ?_⟩
  · exact Term.exits_run (follow_exits _) (.inr (List.mem_singleton.2 rfl)) h
  · exact follow_exits [] name c h
  · exact Alternative.exits_run (follow_exits _) (fun t ht => .inr ht) h
  · refine Rule.exits_run (follow_exits _) (fun a ha t ht => .inr ?_) h
    exact List.mem_flatMap.2 ⟨a, ha, ht⟩

/-- A cursor at the bracket of `1+(1)`, nested deeper than its limit, which knows a rule both to match
and to fail. -/
def strandedCursor : Cursor #['1', '+', '(', '1', ')'] :=
  ⟨2, 7, 9, (Memo.saveMatch {} ⟨"sum", 0, 1⟩).saveMismatch ⟨"sum", 0⟩⟩

/-- The bracket is read before the reference behind it is refused. The step is stopped there, with the
depth that it had. -/
theorem steps_leave_cursor_stranded :
    strandedCursor.memo.Within #['1', '+', '(', '1', ')'] ∧
    (itemRule.run (follow sumGrammar) strandedCursor).Exits sumGrammar
      (sumGrammar.Meets (itemRule.alternatives.flatMap (·.terms))) strandedCursor ∧
    (itemRule.run (follow sumGrammar) strandedCursor).cursor.pos.val = 3 ∧
    (itemRule.run (follow sumGrammar) strandedCursor).cursor.depth = 9 := by
  have hw : strandedCursor.memo.Within #['1', '+', '(', '1', ')'] :=
    (Memo.within_empty.saveMatch (by decide)).saveMismatch _
  exact ⟨hw, (steps_leave_cursor sumGrammar strandedCursor hw).2.2.2.2 itemRule,
    by decide +kernel, by decide +kernel⟩

end Packrat
