import Mathlib.Data.List.Chain
import Mathlib.Data.List.Perm.Subperm
import Packrat.Proofs.Run.UnderWay

/-!
# `Packrat/Proofs/Run/Bounds.lean` — how much a run can do

A run is bounded by the grammar and the text alone, whatever limit it is given. There are as many spots
as rules times positions. The spots of the rules under way are different ones, which bounds the nesting
(`State.Orderly`). What happens at a spot is paid for from a budget: a spot may be entered once, and
once entered it has a round for the beginning and one for each position that its best end can still
move to (`Trace.countP_enters_le`, `Trace.countP_beginsRound_le`).
-/

set_option autoImplicit false

namespace Packrat

variable {text : Text} {g : Grammar}

/-! ## Spots -/

/-- The rules of the grammar at the positions of the text. -/
def Grammar.spots (g : Grammar) (text : Text) : List Spot :=
  g.names.flatMap fun name => (List.range (text.size + 1)).map fun i : Nat => ⟨name, i⟩

theorem Grammar.length_spots (g : Grammar) (text : Text) :
    (g.spots text).length = g.size * (text.size + 1) := by
  simp [spots, names, size, List.length_flatMap, Function.comp_def]

theorem Grammar.mem_spots {r : Rule} (hr : g.rule? r.name = some r) (p : Fin (text.size + 1)) :
    (⟨r.name, p.val⟩ : Spot) ∈ g.spots text := by
  rw [spots, List.mem_flatMap]
  refine ⟨r.name, List.mem_map_of_mem (mem_of_rule? hr), List.mem_map.2 ⟨p.val, ?_, rfl⟩⟩
  exact List.mem_range.2 p.isLt

/-! ## The spots under way -/

theorem Stacked.openRounds_mem {inside : Bool} {K : List (Frame text)} (h : Stacked g inside K) :
    ∀ x ∈ openRounds K, x.1 ∈ g.spots text := by
  induction h with
  | nil => exact fun x hx => absurd hx (by simp [openRounds])
  | reference _ ih => exact ih
  | terms _ _ ih => exact ih
  | alternative _ ih => exact ih
  | round hr _ _ _ ih =>
    intro x hx
    rcases List.mem_cons.1 hx with rfl | hx
    · exact Grammar.mem_spots hr _
    · exact ih x hx

/-- Inside a round there is one open round more than there are references. -/
theorem Stacked.length_openRounds {inside : Bool} {K : List (Frame text)}
    (h : Stacked g inside K) : (openRounds K).length = nesting K + inside.toNat := by
  induction h with
  | nil => rfl
  | reference _ ih => exact ih
  | terms _ _ ih => exact ih
  | alternative _ ih => exact ih
  | round _ _ _ _ ih =>
    rw [openRounds, List.length_cons, ih]
    rfl

theorem State.Fits.rounds_mem {s : State text} (h : s.Fits g) :
    ∀ x ∈ s.rounds, x.1 ∈ g.spots text := by
  match s, h with
  | .perform (.term _) _ _, h => exact h.2.openRounds_mem
  | .perform (.terms _) _ _, h => exact h.2.openRounds_mem
  | .perform (.alternative _) _ _, h => exact h.2.openRounds_mem
  | .perform (.reference _) _ _, h => exact h.2.openRounds_mem
  | .perform (.rule _) _ _, h => exact h.2.2.openRounds_mem
  | .deliver _ _, ⟨_, h⟩ => exact h.openRounds_mem
  | .perform (.round r start best rest longest) c K, ⟨hr, _, hK⟩ =>
    intro x hx
    rcases List.mem_cons.1 hx with rfl | hx
    · exact Grammar.mem_spots hr start
    · exact hK.openRounds_mem x hx

/-- The spots under way are different ones, all of them begun, and the references among them do not
exhaust the spots that there are. -/
structure State.Orderly (g : Grammar) (s : State text) : Prop where
  fits : s.Fits g
  nodup : (s.rounds.map Prod.fst).Nodup
  started : ∀ x ∈ s.rounds, s.memo.isStarted x.1 = true
  nested_lt : s.nested < g.size * (text.size + 1)

/-- A spot that was not begun is one more beside those under way. -/
theorem State.Orderly.length_lt {s : State text} (h : s.Orderly g) {r : Rule}
    {p : Fin (text.size + 1)} (hr : g.rule? r.name = some r)
    (hnew : s.memo.isStarted ⟨r.name, p.val⟩ = false) :
    s.rounds.length < g.size * (text.size + 1) := by
  have hnot : (⟨r.name, p.val⟩ : Spot) ∉ s.rounds.map Prod.fst := by
    intro hmem
    obtain ⟨x, hx, he⟩ := List.mem_map.1 hmem
    rw [← he, h.started x hx] at hnew
    exact absurd hnew (by simp)
  have hsub : (⟨r.name, p.val⟩ :: s.rounds.map Prod.fst : List Spot) ⊆ g.spots text := by
    intro t ht
    rcases List.mem_cons.1 ht with rfl | ht
    · exact Grammar.mem_spots hr p
    · obtain ⟨x, hx, rfl⟩ := List.mem_map.1 ht
      exact h.fits.rounds_mem x hx
  have hle := ((List.nodup_cons.2 ⟨hnot, h.nodup⟩).subperm hsub).length_le
  rw [Grammar.length_spots, List.length_cons, List.length_map] at hle
  exact hle

theorem State.Orderly.step {s s' : State text} (h : s.Orderly g) (hstep : s.step g = some s') :
    s'.Orderly g := by
  have hfits := h.fits.step hstep
  cases h.fits.moves hstep with
  | stays hr hs hn =>
    refine ⟨hfits, hr ▸ h.nodup, fun x hx => ?_, Nat.lt_of_le_of_lt hn h.nested_lt⟩
    rw [hs]
    exact h.started x (hr ▸ hx)
  | @follows r c K hnew _ =>
    -- the stack holds an open round for each reference and one more, and `r` is another spot
    have hlt := h.length_lt hfits.1 hnew
    have hlen := h.fits.2.length_openRounds
    refine ⟨hfits, h.nodup, h.started, ?_⟩
    rw [show (State.perform (.reference r.name) c K).rounds.length = nesting K + 1 from hlen] at hlt
    exact hlt
  | @opens r c K =>
    have hnew := h.fits.2.1
    refine ⟨hfits, List.nodup_cons.2 ⟨fun hmem => ?_, h.nodup⟩, fun x hx => ?_, h.nested_lt⟩
    · obtain ⟨x, hx, he⟩ := List.mem_map.1 hmem
      have hst := h.started x hx
      rw [show x.1 = c.spot r.name from he] at hst
      exact absurd (hst.symm.trans hnew) (by simp)
    · refine (Memo.isStarted_saveStarted _ _ _).2 ?_
      rcases List.mem_cons.1 hx with rfl | hx
      · exact Or.inl rfl
      · exact Or.inr (h.started x hx)
  | @grows r start best _ _ _ _ =>
    refine ⟨hfits, h.nodup, fun x hx => ?_, h.nested_lt⟩
    rcases List.mem_cons.1 hx with rfl | hx
    · exact h.started (⟨r.name, start.val⟩, best) List.mem_cons_self
    · exact h.started x (List.mem_cons_of_mem _ hx)
  | closes hr hs hn =>
    have hnodup := h.nodup
    rw [hr] at hnodup
    refine ⟨hfits, (List.nodup_cons.1 hnodup).2, fun x hx => ?_, hn ▸ h.nested_lt⟩
    rw [hs]
    exact h.started x (hr ▸ List.mem_cons_of_mem _ hx)

section

variable {limit : Int} {r : Rule} {s : State text}

theorem orderly_first (hr : g.rule? r.name = some r) (limit : Int) :
    (State.perform (.rule r) (.first text limit) []).Orderly g where
  fits := ⟨hr, rfl, .nil⟩
  nodup := .nil
  started x hx := absurd hx (by simp [State.rounds, openRounds])
  nested_lt := by
    have hpos := List.length_pos_of_mem (Grammar.mem_of_rule? hr)
    exact Nat.mul_pos hpos (Nat.succ_pos _)

theorem Reached.orderly (hr : g.rule? r.name = some r) (h : Reached g text limit r s) :
    s.Orderly g := by
  induction h with
  | refl => exact orderly_first hr limit
  | tail _ hstep ih => exact ih.step hstep

end

/-! ## Traces -/

/-- A beginning of the run of a rule: its moments one after the other, from the first one on. -/
def Trace (g : Grammar) (text : Text) (limit : Int) (r : Rule) (l : List (State text)) : Prop :=
  l.head? = some (.perform (.rule r) (.first text limit) []) ∧
    l.IsChain fun s t => s.step g = some t

/-- What is paid for from a budget does not happen more often than the budget allows. The budget is
that of the first moment; no move may raise it, and whatever is counted has to be paid for. -/
theorem countP_le_of_budget {P : State text → Bool} {budget : State text → Nat}
    {l : List (State text)} (hl : l.IsChain fun s t => s.step g = some t) {s : State text}
    (hs : l.head? = some s) (ho : s.Orderly g)
    (hmove : ∀ s t, s.Orderly g → s.step g = some t → budget t + (P s).toNat ≤ budget s)
    (hlast : ∀ s, s.Orderly g → (P s).toNat ≤ budget s) : l.countP P ≤ budget s := by
  induction l generalizing s with
  | nil => exact absurd hs (by simp)
  | cons u l ih =>
    obtain rfl : u = s := Option.some.inj hs
    have hcount : (u :: l).countP P = l.countP P + (P u).toNat := by
      rw [List.countP_cons]
      cases P u <;> rfl
    rw [hcount]
    cases l with
    | nil =>
      rw [List.countP_nil, Nat.zero_add]
      exact hlast u ho
    | cons t l =>
      have hst : u.step g = some t := hl.rel
      have hrest := ih hl.tail rfl (ho.step hst)
      have hpaid := hmove u t ho hst
      omega

/-! ### Entries -/

/-- How often the spot may still be entered. -/
def Memo.entriesLeft (t : Spot) (m : Memo) : Nat := if m.isStarted t then 0 else 1

theorem Memo.entriesLeft_congr {t : Spot} {m n : Memo} (h : n.isStarted t = m.isStarted t) :
    n.entriesLeft t = m.entriesLeft t := by
  rw [entriesLeft, entriesLeft, h]

/-- To begin a rule uses up the entry at its spot, and no other. -/
theorem Memo.entriesLeft_saveStarted {m : Memo} {u : Spot} (hnew : m.isStarted u = false)
    (t : Spot) : (m.saveStarted u).entriesLeft t + (u == t).toNat = m.entriesLeft t := by
  by_cases ht : u = t
  · subst ht
    have hs : (m.saveStarted u).isStarted u = true := (isStarted_saveStarted m u u).2 (Or.inl rfl)
    simp [entriesLeft, hs, hnew]
  · have hs : (m.saveStarted u).isStarted t = m.isStarted t := by
      rw [Bool.eq_iff_iff, isStarted_saveStarted]
      exact ⟨fun h => h.resolve_left (Ne.symm ht), Or.inr⟩
    rw [entriesLeft_congr hs, beq_eq_false_iff_ne.2 ht]
    rfl

theorem State.Orderly.entriesLeft_step {s s' : State text} (h : s.Orderly g)
    (hstep : s.step g = some s') (t : Spot) :
    s'.memo.entriesLeft t + (s.enters t).toNat ≤ s.memo.entriesLeft t := by
  cases h.fits.moves hstep with
  | stays _ hs _ he | closes _ hs _ he =>
    rw [Memo.entriesLeft_congr (hs t), he t]
    exact Nat.le_refl _
  | follows _ _ | grows _ => exact Nat.le_refl _
  | opens => exact Nat.le_of_eq (Memo.entriesLeft_saveStarted h.fits.2.1 t)

/-- A rule that is taken up has its entry left. -/
theorem State.Orderly.enters_le {s : State text} (h : s.Orderly g) (t : Spot) :
    (s.enters t).toNat ≤ s.memo.entriesLeft t := by
  match s, h with
  | .perform (.rule _) _ _, h =>
    exact Nat.le_trans (Nat.le_add_left _ _) (h.entriesLeft_step rfl t)
  | .perform (.term _) _ _, _ => exact Nat.zero_le _
  | .perform (.terms _) _ _, _ => exact Nat.zero_le _
  | .perform (.alternative _) _ _, _ => exact Nat.zero_le _
  | .perform (.round ..) _ _, _ => exact Nat.zero_le _
  | .perform (.reference _) _ _, _ => exact Nat.zero_le _
  | .deliver _ _, _ => exact Nat.zero_le _

/-! ### Rounds -/

/-- How far the best ends of the open rounds at the spot may still move. -/
def roundsAhead (t : Spot) : List (Spot × Fin (text.size + 1)) → Nat
  | [] => 0
  | (u, best) :: rounds => (if u = t then text.size - best.val else 0) + roundsAhead t rounds

/-- How many rounds of the rule at the spot may still begin, the present one included if it is at its
beginning. -/
def State.roundsLeft (t : Spot) (s : State text) : Nat :=
  s.memo.entriesLeft t * (text.size - t.start.toNat + 1) + roundsAhead t s.rounds +
    (s.beginsRound t).toNat

/-- At the beginning of a round of `r`. -/
theorem State.roundsLeft_begin (t : Spot) (r : Rule) (start best : Fin (text.size + 1))
    (c : Cursor text) (K : List (Frame text)) :
    (State.perform (.round r start best r.alternatives none) c K).roundsLeft t =
      c.memo.entriesLeft t * (text.size - t.start.toNat + 1) + roundsAhead t (openRounds K) +
        if (⟨r.name, start.val⟩ : Spot) = t then text.size - best.val + 1 else 0 := by
  rw [roundsLeft, rounds, roundsAhead, beginsRound, beq_self_eq_true, Bool.true_and, memo]
  by_cases ht : (⟨r.name, start.val⟩ : Spot) = t
  · rw [if_pos ht, if_pos ht, beq_iff_eq.2 ht, Bool.toNat_true]
    omega
  · rw [if_neg ht, if_neg ht, beq_eq_false_iff_ne.2 ht, Bool.toNat_false]
    omega

theorem State.Orderly.roundsLeft_step {s s' : State text} (h : s.Orderly g)
    (hstep : s.step g = some s') (t : Spot) :
    s'.roundsLeft t + (s.beginsRound t).toNat ≤ s.roundsLeft t := by
  cases h.fits.moves hstep with
  | stays hr hs _ _ hb =>
    rw [roundsLeft, roundsLeft, Memo.entriesLeft_congr (hs t), hr, hb t]
    exact Nat.le_refl _
  | follows _ _ => exact Nat.le_refl _
  | @opens r c K =>
    -- the entry is traded for the first round and for the positions behind the beginning
    have hpaid := Memo.entriesLeft_saveStarted h.fits.2.1 t
    rw [roundsLeft_begin, Cursor.saveStarted, roundsLeft, memo, ← hpaid, Nat.add_mul]
    simp only [rounds, beginsRound, Bool.toNat_false]
    rw [show (⟨r.name, c.pos.val⟩ : Spot) = c.spot r.name from rfl]
    by_cases ht : c.spot r.name = t
    · rw [if_pos ht, beq_iff_eq.2 ht, Bool.toNat_true, ← ht]
      simp only [Cursor.spot, Int.toNat_natCast]
      omega
    · rw [if_neg ht]
      omega
  | @grows r start best longest c K hlt =>
    -- a round without alternatives is at its beginning and at its end at once
    have hlt' : best.val < longest.val := hlt
    rw [roundsLeft_begin, roundsLeft, rounds, roundsAhead, memo]
    by_cases ht : (⟨r.name, start.val⟩ : Spot) = t
    · rw [if_pos ht, if_pos ht]
      omega
    · have hb : (State.perform (.round r start best [] (some longest)) c K).beginsRound t = false := by
        rw [beginsRound, beq_eq_false_iff_ne.2 ht, Bool.and_false]
      rw [if_neg ht, if_neg ht, hb]
      simp only [Bool.toNat_false]
      omega
  | @closes s s' x hr hs _ _ hb =>
    rw [roundsLeft, roundsLeft, Memo.entriesLeft_congr (hs t), hr, hb t, roundsAhead]
    simp only [Bool.toNat_false]
    omega

/-! ### A whole run -/

namespace Trace

variable {limit : Int} {r : Rule} {l : List (State text)}

theorem reached_of_isChain : ∀ {l : List (State text)} {s : State text},
    (s :: l).IsChain (fun s t => s.step g = some t) → Reached g text limit r s →
      ∀ t ∈ s :: l, Reached g text limit r t
  | [], s, _, hs, t, ht => List.mem_singleton.1 ht ▸ hs
  | u :: l, s, hl, hs, t, ht => by
    rcases List.mem_cons.1 ht with rfl | ht
    · exact hs
    · exact reached_of_isChain hl.tail (hs.tail hl.rel) t ht

theorem reached (h : Trace g text limit r l) : ∀ s ∈ l, Reached g text limit r s := by
  obtain ⟨hhead, hchain⟩ := h
  cases l with
  | nil => exact absurd hhead (by simp)
  | cons u l =>
    obtain rfl := Option.some.inj hhead
    exact reached_of_isChain hchain .refl

end Trace

/-- What a run comes through is the end of a trace. -/
theorem exists_trace_of_reached {limit : Int} {r : Rule} {s : State text}
    (h : Reached g text limit r s) : ∃ l, Trace g text limit r l ∧ l.getLast? = some s := by
  obtain ⟨l, hchain, hlast⟩ := List.exists_isChain_cons_of_relationReflTransGen h
  exact ⟨_, ⟨rfl, hchain⟩, by rw [List.getLast?_eq_getLast_of_ne_nil (List.cons_ne_nil _ _), hlast]⟩

namespace Trace

variable {limit : Int} {r : Rule} {l : List (State text)}

/-- No rule is entered twice at one position. -/
theorem countP_enters_le (hr : g.rule? r.name = some r) (h : Trace g text limit r l) (t : Spot) :
    l.countP (State.enters t) ≤ 1 :=
  countP_le_of_budget h.2 h.1 (orderly_first hr limit) (fun _ _ ho hst => ho.entriesLeft_step hst t)
    fun _ ho => ho.enters_le t

/-- A rule goes round at most once for each position from its beginning to the end of the text. -/
theorem countP_beginsRound_le (hr : g.rule? r.name = some r) (h : Trace g text limit r l)
    (name : String) (p : Fin (text.size + 1)) :
    l.countP (State.beginsRound ⟨name, p.val⟩) ≤ text.size - p.val + 1 := by
  have hle := countP_le_of_budget h.2 h.1 (orderly_first hr limit)
    (fun _ _ ho hst => ho.roundsLeft_step hst ⟨name, p.val⟩) fun s _ => Nat.le_add_left _ _
  refine Nat.le_trans hle ?_
  simp [State.roundsLeft, State.memo, Cursor.first, Memo.entriesLeft, State.rounds, openRounds,
    roundsAhead, State.beginsRound, Memo.isStarted]

end Trace

end Packrat
