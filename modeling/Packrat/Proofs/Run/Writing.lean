import Packrat.Proofs.Run.Steps
import Packrat.Proofs.Tree.Root

/-!
# `Packrat/Proofs/Run/Writing.lean` — what a run writes into its log

Where the grammar and the text are known, one can say what a run does to the last entry of its log.
`Writes` says it of a step: from a cursor at `p`, and over a memo that has no news about the rules that
the step may begin, the step matches up to `q` and adds the matches `ms` to the log. What was written
before makes no difference and stays as it is, so that steps can be put one behind the other.

This is about runs in which no rule fails for good (`Memo.Reads`). A reference may fail all the same,
but only because its rule is under way, and that is not written down.
-/

set_option autoImplicit false

namespace Packrat

variable {text : Text}

theorem Match.completed_injective : Function.Injective Match.completed := by
  rintro ⟨name, start, stop⟩ ⟨name', start', stop'⟩ h
  simpa [Match.completed] using h

namespace Memo

/-! ## What the log reads -/

/-- The log reads `L`, the rules in it were begun, and no rule has failed for good. -/
structure Reads (m : Memo) (L : List Completed) : Prop where
  coherent : m.Coherent
  log : m.log.toList.map Match.completed = L
  begun : ∀ x ∈ m.log, m.isStarted x.spot = true
  unfailed : ∀ s, m.isMismatch s = false

theorem reads_empty : Reads {} [] :=
  ⟨coherent_empty, rfl, fun x hx => by simp at hx, fun s => by simp [isMismatch]⟩

namespace Reads

variable {m : Memo} {L : List Completed}

theorem mem_log (h : m.Reads L) {x : Match} (hx : x.completed ∈ L) : x ∈ m.log := by
  rw [← h.log] at hx
  rwa [List.mem_map_of_injective Match.completed_injective, Array.mem_toList_iff] at hx

/-- No match of a rule is written at a spot where it was not begun. -/
theorem not_mem_of_new (h : m.Reads L) {name : String} {p q : Int}
    (hs : m.isStarted ⟨name, p⟩ = false) : (⟨some name, p, q⟩ : Completed) ∉ L := by
  intro hx
  have hbegun : m.isStarted ⟨name, p⟩ = true := h.begun ⟨name, p, q⟩ (h.mem_log hx)
  rw [hs] at hbegun
  exact Bool.false_ne_true hbegun

theorem longest_of_new (h : m.Reads L) {s : Spot} (hs : m.isStarted s = false) :
    m.longest? s = none := by
  refine (h.coherent.longest_eq_none_iff s).2 fun x hx he => ?_
  rw [← he, h.begun x hx] at hs
  exact absurd hs (by simp)

theorem saveStarted (h : m.Reads L) (s : Spot) : (m.saveStarted s).Reads L where
  coherent := h.coherent.saveStarted s
  log := h.log
  begun x hx := (isStarted_saveStarted m s _).2 (.inr (h.begun x hx))
  unfailed := h.unfailed

/-- A match that goes further than those before at its spot is new. -/
theorem not_mem_log (h : m.Reads L) {name : String} {p q : Nat}
    (hnew : ∀ e, m.longest? ⟨name, p⟩ = some e → e < q) : (⟨name, p, q⟩ : Match) ∉ m.log := by
  intro hx
  obtain ⟨e, he⟩ := h.coherent.longest_of_mem _ hx
  exact Int.not_lt.2 (h.coherent.le_longest hx he) (hnew e he)

/-- A new match is added to the log. -/
theorem saveMatch (h : m.Reads L) {name : String} {p q : Nat} (hs : m.isStarted ⟨name, p⟩ = true)
    (hmem : (⟨name, p, q⟩ : Match) ∉ m.log) :
    (m.saveMatch ⟨name, p, q⟩).Reads (L ++ [⟨some name, p, q⟩]) where
  coherent := h.coherent.saveMatch (Int.natCast_nonneg q)
  log := by
    rw [log_saveMatch, if_neg fun hrec => hmem ((h.coherent.recorded_iff _).1 hrec),
      Array.toList_push, List.map_append, h.log]
    rfl
  begun x hx := by
    rw [isStarted_saveMatch]
    rcases (h.coherent.mem_log_saveMatch _ x).1 hx with rfl | hx
    · exact hs
    · exact h.begun x hx
  unfailed s := by
    rw [isMismatch_saveMatch]
    exact h.unfailed s

/-- A match that is in the log already changes nothing. -/
theorem saveMatch_again (h : m.Reads L) {x : Match} (hx : x ∈ m.log) : m.saveMatch x = m :=
  if_pos ((h.coherent.recorded_iff x).2 hx)

theorem answers_saveMatch (h : m.Reads L) {name : String} {p q : Nat}
    (hnew : ∀ e, m.longest? ⟨name, p⟩ = some e → e < q) :
    (m.saveMatch ⟨name, p, q⟩).Answers name p q := by
  rw [Answers, h.coherent.longest_saveMatch (Int.natCast_nonneg q)]
  refine (if_pos rfl).trans (congrArg some ?_)
  cases he : m.longest? ⟨name, p⟩ with
  | none => exact Int.max_self _
  | some e => exact Int.max_eq_right (Int.le_of_lt (hnew e he))

/-- A shorter match leaves the answer as it is. -/
theorem answers_saveMatch_of_le (h : m.Reads L) {name : String} {p q q' : Nat}
    (ha : m.Answers name p q) (hle : q' ≤ q) : (m.saveMatch ⟨name, p, q'⟩).Answers name p q := by
  rw [Answers, h.coherent.longest_saveMatch (Int.natCast_nonneg q')]
  refine (if_pos rfl).trans (congrArg some ?_)
  rw [Answers] at ha
  rw [ha]
  exact Int.max_eq_left (Int.ofNat_le.2 hle)

/-- An answer is about a spot that was begun, so it is kept where its spot is. -/
theorem answers_of_keepsBut (h : m.Reads L) {n : Memo} {ts : List Spot} {name : String} {p q : Nat}
    (hk : m.KeepsBut ts n) (hne : (⟨name, p⟩ : Spot) ∉ ts) (ha : m.Answers name p q) :
    n.Answers name p q :=
  (hk.longest ⟨name, p⟩ (h.begun _ (h.coherent.mem_of_longest ha)) hne).trans ha

end Reads

/-! ## Which rules were begun -/

/-- None of the rules was begun at `p` or behind it. -/
def Untouched (names : List String) (p : Nat) (m : Memo) : Prop :=
  ∀ name ∈ names, ∀ i : Int, p ≤ i → m.isStarted ⟨name, i⟩ = false

/-- What was begun from `m` to `n` was begun before `q`. -/
def BeginsBefore (q : Nat) (m n : Memo) : Prop :=
  ∀ s, n.isStarted s = true → m.isStarted s = true ∨ s.start < q

theorem BeginsBefore.trans {l m n : Memo} {q r : Nat} (h : BeginsBefore q l m)
    (h' : BeginsBefore r m n) (hqr : q ≤ r) : BeginsBefore r l n := by
  intro s hs
  rcases h' s hs with hs | hs
  · refine (h s hs).imp id fun hlt => ?_
    omega
  · exact .inr hs

theorem BeginsBefore.of_eq {m n : Memo} (h : ∀ s, n.isStarted s = m.isStarted s) (q : Nat) :
    BeginsBefore q m n := fun s hs => .inl (h s ▸ hs)

theorem untouched_empty (names : List String) (p : Nat) : Untouched names p {} :=
  fun _ _ _ _ => by simp [isStarted]

theorem beginsBefore_saveStarted {m : Memo} {s : Spot} {q : Nat} (hs : s.start < q) :
    m.BeginsBefore q (m.saveStarted s) := by
  intro t ht
  rcases (isStarted_saveStarted m s t).1 ht with rfl | ht
  · exact .inr hs
  · exact .inl ht

theorem Untouched.mono {names names' : List String} {p p' : Nat} {m : Memo}
    (h : m.Untouched names p) (hn : ∀ name ∈ names', name ∈ names) (hp : p ≤ p') :
    m.Untouched names' p' := fun name hname i hi => h name (hn name hname) i (by omega)

/-- Another rule may begin. -/
theorem Untouched.saveStarted {names : List String} {p : Nat} {m : Memo} (h : m.Untouched names p)
    {s : Spot} (hs : s.name ∉ names) : (m.saveStarted s).Untouched names p := by
  intro name hname i hi
  rw [Bool.eq_false_iff, Ne, isStarted_saveStarted]
  rintro (rfl | hold)
  · exact hs hname
  · rw [h name hname i hi] at hold
    exact absurd hold (by simp)

/-- What was begun further left does not touch the rules. -/
theorem Untouched.after {names : List String} {p q : Nat} {m n : Memo} (h : m.Untouched names p)
    (hb : m.BeginsBefore q n) (hpq : p ≤ q) : n.Untouched names q := by
  intro name hname i hi
  cases hs : n.isStarted ⟨name, i⟩ with
  | false => rfl
  | true =>
    rcases hb _ hs with hold | hlt
    · rw [h name hname i (by omega)] at hold
      exact absurd hold (by simp)
    · exact absurd hlt (by simpa using hi)

end Memo

/-! ## Steps that write -/

/-- From `c`, where the log reads `L`, to `d`: the rule `name` has matched up to `q`, the log reads on by
`ms`, only the spots `ts` have got a new answer, and what was begun was begun before `q`. -/
structure Cursor.Wrote (ts : List Spot) (name : String) (q : Nat) (L ms : List Completed)
    (c d : Cursor text) : Prop where
  pos : d.pos.val = q
  reads : d.memo.Reads (L ++ ms)
  keeps : c.memo.KeepsBut ts d.memo
  answers : d.memo.Answers name c.pos q
  before : c.memo.BeginsBefore q d.memo

/-- Over whatever log, the step from `p` matches the rule `name` up to `q` and writes `ms`, if the rules
`names` are untouched there. -/
def Writes (text : Text) (names : List String) (name : String) (p q : Nat) (ms : List Completed)
    (step : Cursor text → Result text) : Prop :=
  ∀ (c : Cursor text) (L : List Completed), c.pos.val = p → c.memo.Reads L →
    c.memo.Untouched names p → ∃ d, step c = .matched d ∧ c.Wrote [] name q L ms d

theorem Cursor.Wrote.weaken {c d : Cursor text} {name : String} {q : Nat} {L ms : List Completed}
    (h : c.Wrote [] name q L ms d) (ts : List Spot) : c.Wrote ts name q L ms d :=
  ⟨h.pos, h.reads, h.keeps.weaken ts, h.answers, h.before⟩

theorem Cursor.Wrote.then {b c d : Cursor text} {ts : List Spot} {name name' : String} {q r : Nat}
    {L ms ms' : List Completed} (h : b.Wrote ts name q L ms c)
    (h' : (c.backTo b.pos).Wrote ts name' r (L ++ ms) ms' d) (hqr : q ≤ r) :
    b.Wrote ts name' r L (ms ++ ms') d where
  pos := h'.pos
  reads := List.append_assoc L ms ms' ▸ h'.reads
  keeps := h.keeps.trans h'.keeps
  answers := h'.answers
  before := h.before.trans h'.before hqr

/-- What was done between the beginning of a rule and its match, seen from outside the rule. -/
theorem Cursor.Wrote.of_rule {c d : Cursor text} {name : String} {q : Nat} {L ms : List Completed}
    (hnew : c.memo.isStarted (c.spot name) = false) (hlt : c.pos.val < q)
    (h : (c.saveStarted (c.spot name)).Wrote [c.spot name] name q L ms d) :
    c.Wrote [] name q L ms d where
  pos := h.pos
  reads := h.reads
  keeps := by
    have hbegin : c.memo.KeepsBut [c.spot name] (c.saveStarted (c.spot name)).memo :=
      ⟨fun s hs => (Memo.isStarted_saveStarted _ _ _).2 (.inr hs), fun _ _ _ => rfl⟩
    exact (hbegin.trans h.keeps).of_new hnew
  answers := h.answers
  before := (Memo.beginsBefore_saveStarted (Int.ofNat_lt.2 hlt)).trans h.before (Nat.le_refl q)

/-! ## Alternatives -/

section

variable {f : Follow text} {a : Alternative} {c d : Cursor text} {m : Nat} {L : List Completed}

/-- An alternative that goes further than those before adds its match to what its terms have
written. -/
theorem Alternative.wrote_run (ms : List Completed) (hterms : runTerms f a.terms c = .matched d)
    (hpos : d.pos.val = m) (hread : d.memo.Reads (L ++ ms)) (hkeep : c.memo.KeepsBut [] d.memo)
    (hbefore : c.memo.BeginsBefore m d.memo) (hs : c.memo.isStarted (c.spot a.owner) = true)
    (hold : ∀ e, c.memo.longest? (c.spot a.owner) = some e → e < m) :
    ∃ d', a.run f c = .matched d' ∧ d.memo.KeepsBut [c.spot a.owner] d'.memo ∧
      c.Wrote [c.spot a.owner] a.owner m L (ms ++ [⟨some a.owner, c.pos.val, m⟩]) d' := by
  subst hpos
  have hnew : ∀ e, d.memo.longest? ⟨a.owner, c.pos.val⟩ = some e → e < d.pos.val := by
    intro e he
    exact hold e ((hkeep.longest _ hs (by simp)).symm.trans he)
  have hrun : a.run f c = .matched (d.saveMatch ⟨a.owner, c.pos.val, d.pos.val⟩) := by
    rw [Alternative.run, hterms]
  have hsave : d.memo.KeepsBut [c.spot a.owner] (d.memo.saveMatch ⟨a.owner, c.pos.val, d.pos.val⟩) :=
    hread.coherent.keepsBut_saveMatch (x := ⟨a.owner, c.pos.val, d.pos.val⟩) (Int.natCast_nonneg _)
  refine ⟨_, hrun, hsave, rfl, ?_, (hkeep.weaken _).trans hsave, hread.answers_saveMatch hnew,
    hbefore.trans (.of_eq (fun s => Memo.isStarted_saveMatch _ _ s) _) (Nat.le_refl _)⟩
  rw [← List.append_assoc]
  exact hread.saveMatch (hkeep.started _ hs) (hread.not_mem_log hnew)

/-- The same, where the terms only move the cursor. -/
theorem Alternative.wrote_moved {p : Fin (text.size + 1)}
    (hterms : runTerms f a.terms c = .matched (c.backTo p)) (hread : c.memo.Reads L)
    (hs : c.memo.isStarted (c.spot a.owner) = true)
    (hold : ∀ e, c.memo.longest? (c.spot a.owner) = some e → e < p.val) :
    ∃ d, a.run f c = .matched d ∧
      c.Wrote [c.spot a.owner] a.owner p L [⟨some a.owner, c.pos.val, p.val⟩] d := by
  have hread' : (c.backTo p).memo.Reads (L ++ []) := by
    rw [List.append_nil]
    exact hread
  obtain ⟨d, hrun, -, hw⟩ := wrote_run [] hterms rfl hread' (.refl _ _)
    (.of_eq (fun _ => rfl) _) hs hold
  exact ⟨d, hrun, hw⟩

/-- An alternative that goes less far than one before it adds its match, but the answer stays as it
is. -/
theorem Alternative.wrote_shorter {p : Fin (text.size + 1)} {q : Nat} (hq : q < text.size + 1)
    (hterms : runTerms f a.terms c = .matched (c.backTo p)) (hread : c.memo.Reads L)
    (ha : c.memo.Answers a.owner c.pos q) (hle : p.val ≤ q)
    (hmem : ⟨some a.owner, c.pos.val, p.val⟩ ∉ L) :
    ∃ d, a.run f c = .matched d ∧ d.pos = p ∧
      c.Wrote [c.spot a.owner] a.owner q L [⟨some a.owner, c.pos.val, p.val⟩] (d.backTo ⟨q, hq⟩) := by
  have hrun : a.run f c = .matched ((c.backTo p).saveMatch ⟨a.owner, c.pos.val, p.val⟩) := by
    rw [Alternative.run, hterms]
    rfl
  have hs : c.memo.isStarted (c.spot a.owner) = true :=
    hread.begun _ (hread.coherent.mem_of_longest ha)
  refine ⟨_, hrun, rfl, rfl, hread.saveMatch hs fun hx => hmem ?_, ?_,
    hread.answers_saveMatch_of_le ha hle, .of_eq (fun s => Memo.isStarted_saveMatch _ _ s) _⟩
  · rw [← hread.log]
    exact List.mem_map.2 ⟨_, Array.mem_toList_iff.2 hx, rfl⟩
  · exact hread.coherent.keepsBut_saveMatch (x := ⟨a.owner, c.pos.val, p.val⟩) (Int.natCast_nonneg _)

/-- An alternative whose match is in the log already only moves the cursor. -/
theorem Alternative.run_again (hterms : runTerms f a.terms c = .matched d) (hread : d.memo.Reads L)
    (hmem : (⟨a.owner, c.pos.val, d.pos.val⟩ : Match) ∈ d.memo.log) : a.run f c = .matched d := by
  rw [Alternative.run, hterms]
  exact congrArg (fun m => Result.matched ⟨d.pos, d.limit, d.depth, m⟩) (hread.saveMatch_again hmem)

end

/-! ## References -/

section

variable {g : Grammar} {c : Cursor text} {L : List Completed} {name : String}

/-- A reference to a rule that was not begun runs it, if there is a level left. -/
theorem resolve_of_new {r : Rule} (hread : c.memo.Reads L)
    (hs : c.memo.isStarted (c.spot r.name) = false) (hr : g.rule? r.name = some r) (n : Nat) :
    resolve g (n + 1) r.name c = r.run (resolve g n) c := by
  rw [resolve.eq_def]
  simp only [hread.unfailed, hread.longest_of_new hs, hs, hr, Bool.false_eq_true, if_false]

/-- A reference to a rule that was not begun is refused, if no level is left. -/
theorem resolve_zero_of_new {r : Rule} (hread : c.memo.Reads L)
    (hs : c.memo.isStarted (c.spot r.name) = false) (hr : g.rule? r.name = some r) :
    resolve g 0 r.name c = .stopped (.tooDeep r.name c.pos c.limit) c := by
  rw [resolve.eq_def]
  simp only [hread.unfailed, hread.longest_of_new hs, hs, hr, Bool.false_eq_true, if_false]

/-- A reference to a rule under way that has no match yet fails. -/
theorem resolve_of_underWay (hread : c.memo.Reads L) (hs : c.memo.isStarted (c.spot name) = true)
    (hl : c.memo.longest? (c.spot name) = none) (n : Nat) : resolve g n name c = .failed c := by
  rw [resolve.eq_def]
  simp only [hread.unfailed, hl, hs, Bool.false_eq_true, if_false, if_true]

/-- A reference that the memo has an answer for is answered. -/
theorem resolve_of_answers (hread : c.memo.Reads L) {q : Nat} (ha : c.memo.Answers name c.pos q)
    (hq : q < text.size + 1) (n : Nat) : resolve g n name c = .matched (c.backTo ⟨q, hq⟩) := by
  rw [resolve_recalls g n name c q (hread.unfailed _) ha,
    Result.matchedAt_of_le c (Nat.le_of_lt_succ hq)]

end

/-- A reference to an untouched rule writes what the rule writes. -/
theorem Writes.resolve {g : Grammar} {n : Nat} {names : List String} {r : Rule} {p q : Nat}
    {ms : List Completed} (h : Writes text names r.name p q ms (r.run (resolve g n)))
    (hr : g.rule? r.name = some r) (hn : r.name ∈ names) :
    Writes text names r.name p q ms (Packrat.resolve g (n + 1) r.name) := by
  intro c L hp hread hu
  have hs : c.memo.isStarted (c.spot r.name) = false :=
    hu _ hn _ (Int.ofNat_le.2 (Nat.le_of_eq hp.symm))
  rw [resolve_of_new hread hs hr]
  exact h c L hp hread hu

/-! ## Terms one after the other -/

section

variable {f : Follow text} {c d : Cursor text} {name : String} {s : CodePoints} (ts : List Term)

theorem runTerms_literal (h : text.startsAt s c.pos = true) :
    ∃ hq : c.pos.val + s.length < text.size + 1,
      runTerms f (.literal s :: ts) c = runTerms f ts (c.backTo ⟨c.pos.val + s.length, hq⟩) := by
  have hle := (Text.slice_of_startsAt (Nat.le_of_lt_succ c.pos.isLt) h).1
  refine ⟨Nat.lt_succ_of_le hle, ?_⟩
  rw [runTerms, Term.run, if_pos h, ← Int.natCast_add, Result.matchedAt_of_le c hle]

theorem runTerms_literal_failed (h : text.startsAt s c.pos = false) :
    runTerms f (.literal s :: ts) c = .failed c := by
  rw [runTerms, Term.run, h]
  rfl

theorem runTerms_matched (h : f name c = .matched d) :
    runTerms f (.reference name :: ts) c = runTerms f ts d := by
  rw [runTerms, Term.run, h]

theorem runTerms_last : runTerms f [.reference name] c = f name c := by
  rw [runTerms, Term.run]
  cases f name c <;> rfl

theorem runTerms_failed (h : f name c = .failed d) :
    runTerms f (.reference name :: ts) c = .failed d := by
  rw [runTerms, Term.run, h]

theorem runTerms_stopped {fault : RunFault} (h : f name c = .stopped fault d) :
    runTerms f (.reference name :: ts) c = .stopped fault d := by
  rw [runTerms, Term.run, h]

end

section

variable {g : Grammar} {n : Nat} {name item : String} {c : Cursor text} {L : List Completed} {q : Nat}

/-- A reference that is answered only moves the cursor, and so does the alternative, if its match is in
the log already. -/
theorem Alternative.run_answered (hread : c.memo.Reads L) (ha : c.memo.Answers item c.pos q)
    (hq : q < text.size + 1) (hmem : ⟨some name, c.pos.val, q⟩ ∈ L) :
    (Alternative.mk name [.reference item]).run (resolve g n) c = .matched (c.backTo ⟨q, hq⟩) :=
  run_again (runTerms_matched _ (resolve_of_answers hread ha hq n)) hread (hread.mem_log hmem)

end

/-! ## Rounds -/

section

variable {f : Follow text} {start p : Fin (text.size + 1)} {a b : Alternative} {c d e : Cursor text}

/-- A round in which the second of two alternatives goes no further than the first. -/
theorem runRound_of_longer (ha : a.run f (c.backTo start) = .matched d) (hp : d.pos = p)
    (hb : b.run f (d.backTo start) = .matched e) (hstart : start ≤ p) (hle : e.pos ≤ p) :
    runRound f start [a, b] none c = .ended (some p) e := by
  rw [runRound, ha]
  dsimp only
  rw [runRound, hb]
  dsimp only
  rw [runRound, hp, furthest_none hstart, furthest_some hle]

/-- A round in which only the second of two alternatives matches. -/
theorem runRound_of_failed (ha : a.run f (c.backTo start) = .failed d)
    (hb : b.run f (d.backTo start) = .matched e) (hp : e.pos = p) (hstart : start ≤ p) :
    runRound f start [a, b] none c = .ended (some p) e := by
  rw [runRound, ha]
  dsimp only
  rw [runRound, hb]
  dsimp only
  rw [runRound, hp, furthest_none hstart]

/-- A rule whose second round goes no further than the first matches where the first has ended. -/
theorem Rule.run_of_two_rounds {r : Rule} {q : Fin (text.size + 1)}
    (h : runRound f c.pos r.alternatives none (c.saveStarted (c.spot r.name)) = .ended (some p) d)
    (hlt : c.pos < p) (h' : runRound f c.pos r.alternatives none d = .ended (some q) e)
    (hle : q ≤ p) : r.run f c = .matched (e.backTo p) := by
  rw [run, grow_of_lt h hlt, grow_of_not_lt h' (Fin.not_lt.2 hle)]

end

/-! ## Tokens -/

/-- The rule that matches a pattern. -/
def tokenRule (name : String) (r : Regex) : Rule := ⟨name, [⟨name, [.pattern r]⟩]⟩

theorem compileRule_token {lib : Regex.Library} (name : String) {source : String} {r : Regex}
    (hpinned : Pattern.isPinned source = false) (h : lib.read source {} = .ok r) :
    RuleSet.compileRule lib name [[.pattern source ""]] = .ok (tokenRule name r) := by
  simp only [RuleSet.compileRule, RuleSet.compileAlternatives, RuleSet.compileSequence,
    List.mapM_cons, Item.compile_pattern hpinned h]
  rfl

/-- A rule that matches a pattern writes its match. In a second round it finds the match again, where it
is no news. -/
theorem writes_tokenRule (f : Follow text) (name : String) {r : Regex} {p q : Nat}
    (hr : r.matchEnd? text p = some q) (hpq : p < q) :
    Writes text [name] name p q [⟨some name, p, q⟩] ((tokenRule name r).run f) := by
  intro c L hp hread hu
  subst hp
  have hq : q < text.size + 1 :=
    Nat.lt_succ_of_le (r.bounds (Nat.le_of_lt_succ c.pos.isLt) hr).2
  have hlt : c.pos < ⟨q, hq⟩ := Fin.lt_def.2 hpq
  have hnew : c.memo.isStarted (c.spot name) = false :=
    hu name (List.mem_singleton.2 rfl) _ (Int.le_refl _)
  have hterms : ∀ e : Cursor text, e.pos = c.pos →
      runTerms f [.pattern r] e = .matched (e.backTo ⟨q, hq⟩) := by
    intro e he
    rw [runTerms, Term.run, he, hr]
    dsimp only
    rw [Result.matchedAt_of_le _ (Nat.le_of_lt_succ hq)]
    rfl
  have hround : ∀ e d : Cursor text, d.pos = ⟨q, hq⟩ →
      (Alternative.mk name [.pattern r]).run f (e.backTo c.pos) = .matched d →
      runRound f c.pos (tokenRule name r).alternatives none e = .ended (some ⟨q, hq⟩) d := by
    intro e d hd hrun
    rw [tokenRule, runRound, hrun]
    dsimp only
    rw [runRound, hd, furthest_none (Fin.le_of_lt hlt)]
  -- the match is recorded in the first round, and found again in the second
  obtain ⟨d, hrun, hw⟩ := Alternative.wrote_moved (a := ⟨name, [.pattern r]⟩)
    (hterms ((c.saveStarted (c.spot name)).backTo c.pos) rfl) (hread.saveStarted _)
    ((Memo.isStarted_saveStarted _ _ _).2 (.inl rfl)) fun e he =>
      absurd ((hread.longest_of_new hnew).symm.trans he) (by simp)
  have hpos : d.pos = ⟨q, hq⟩ := Fin.ext hw.pos
  have hback : (d.backTo c.pos).backTo ⟨q, hq⟩ = d := by
    rw [← hpos]
    rfl
  have hagain : (Alternative.mk name [.pattern r]).run f (d.backTo c.pos) = .matched d := by
    have hmem : (⟨name, c.pos.val, q⟩ : Match) ∈ d.memo.log :=
      hw.reads.mem_log (List.mem_append_right L (List.mem_singleton.2 rfl))
    have hd := hterms (d.backTo c.pos) rfl
    rw [hback] at hd
    refine Alternative.run_again hd hw.reads ?_
    rw [hpos]
    exact hmem
  have hrule : (tokenRule name r).run f c = .matched (d.backTo ⟨q, hq⟩) :=
    Rule.run_of_two_rounds (hround _ d hpos hrun) hlt (hround d d hpos hagain) (Fin.le_refl _)
  exact ⟨d, hrule.trans (congrArg Result.matched hback), .of_rule hnew hpq hw⟩

/-! ## A whole run -/

theorem Cursor.matched_of_pos {cs : List Char} {c : Cursor cs.toArray} (h : c.pos.val = cs.length) :
    c.matched = true := by
  rw [matched, atEnd, h, beq_iff_eq]
  exact List.size_toArray.symm

/-- A start rule that writes `ms` from the beginning of the text leaves a log that reads just that. -/
theorem Grammar.parse_of_writes {g : Grammar} {start : Option String} {limit : Int} {r : Rule}
    {names : List String} {q : Nat} {ms : List Completed} (hr : g.startRule start = .ok r)
    (h : Writes text names r.name 0 q ms (r.run (resolve g limit.toNat))) :
    ∃ c, g.parse text start limit = .ok c ∧ c.pos.val = q ∧ c.completed = ms := by
  obtain ⟨d, hrun, hw⟩ := h (.first text limit) [] rfl Memo.reads_empty
    (Memo.untouched_empty names 0)
  refine ⟨d, ?_, hw.pos, hw.reads.log⟩
  rw [Grammar.parse, hr]
  dsimp only
  rw [Grammar.run_eq_resolve, hrun]

theorem Grammar.parse_of_stopped {g : Grammar} {start : Option String} {limit : Int} {r : Rule}
    {fault : RunFault} {c : Cursor text} (hr : g.startRule start = .ok r)
    (h : r.run (resolve g limit.toNat) (.first text limit) = .stopped fault c) :
    g.parse text start limit = .error fault := by
  rw [Grammar.parse, hr]
  dsimp only
  rw [Grammar.run_eq_resolve, h]

end Packrat
