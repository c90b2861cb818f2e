import Packrat.Proofs.Run.Machine
import Packrat.Proofs.Run.Steps
import Packrat.Regex.Standard

/-!
# `Packrat/Proofs/Consistency.lean` — the tables of the memo do not contradict each other

While a run is on its way, no rule is known to fail at an offset and matched there too. When it
returns, every rule that was begun at an offset is decided there, and asking for it again is answered
from the memo.

All of it comes from `Memo.Settled`: with no rule under way it says just this.
-/

set_option autoImplicit false

namespace Packrat

variable {g : Grammar} {text : Text}

/-- No spot that is known to fail has a match. -/
def Memo.Apart (m : Memo) : Prop := ∀ s, m.isMismatch s = true → ∀ x ∈ m.log, x.spot ≠ s

/-- Every spot that was begun is known to fail or has a match, and no other spot is or has. -/
def Memo.Complete (m : Memo) : Prop :=
  ∀ s, m.isStarted s = true ↔ m.isMismatch s = true ∨ ∃ x ∈ m.log, x.spot = s

/-- How the cursor answers the reference to a rule that was begun at `p`: it fails if the rule is
known to fail there, and otherwise goes to the greatest end recorded there. The tables stay. -/
def Cursor.Replays (g : Grammar) (c : Cursor text) (name : String) (p : Fin (text.size + 1)) : Prop :=
  (c.memo.isMismatch ⟨name, p.val⟩ = true ∧ follow g name (c.backTo p) = .failed (c.backTo p)) ∨
  (c.memo.isMismatch ⟨name, p.val⟩ = false ∧ ∃ e : Fin (text.size + 1),
    ⟨name, p.val, e.val⟩ ∈ c.memo.log ∧
    (∀ d : Int, ⟨name, p.val, d⟩ ∈ c.memo.log → d ≤ e.val) ∧
    follow g name (c.backTo p) = .matched (c.backTo e))

theorem Memo.Sound.apart_log {m : Memo} (h : m.Sound g text) : m.Apart :=
  fun s hs => (h.coherent.longest_eq_none_iff s).1 (h.apart s hs)

/-- Tables that do not contradict each other later never did: all that a memo has to say is still
said by one that goes on from it. -/
theorem Memo.Apart.of_extends {m n : Memo} (h : n.Apart) (hmn : m.Extends n) : m.Apart :=
  fun s hs x hx => h s (hmn.mismatches s hs) x (hmn.mem_log hx)

/-- With nothing under way, every spot that was begun is decided. -/
theorem Memo.Settled.complete {m : Memo} (h : m.Settled g text []) : m.Complete := by
  intro s
  constructor
  · intro hs
    rcases h.decided s hs (by simp) with hm | ⟨e, he⟩
    · exact Or.inl hm
    · exact Or.inr ⟨_, h.coherent.mem_of_longest he, rfl⟩
  · rintro (hm | ⟨x, hx, rfl⟩)
    · exact h.started_of_mismatch s hm
    · exact h.started_of_mem x hx

/-- With nothing under way, what was begun is answered from the memo. -/
theorem Cursor.replays_of_settled {c : Cursor text} (h : c.memo.Settled g text []) {name : String}
    {p : Fin (text.size + 1)} (hs : c.memo.isStarted ⟨name, p.val⟩ = true) :
    c.Replays g name p := by
  rcases h.decided _ hs (by simp) with hm | ⟨e, he⟩
  · left
    refine ⟨hm, ?_⟩
    rw [follow, resolve]
    exact if_pos hm
  · right
    obtain ⟨q, rfl, hq⟩ := h.longest_nat he
    have hm := h.not_mismatch he
    refine ⟨hm, ⟨q, Nat.lt_succ_of_le hq⟩, h.coherent.mem_of_longest he,
      fun d hd => h.coherent.le_longest hd he, ?_⟩
    rw [follow, resolve_recalls g _ name (c.backTo p) q hm he, Result.matchedAt_of_le _ hq]
    rfl

/-- The tables never contradict each other during a run. When the run returns they are complete, the
cursor stands at the greatest end of the start rule, or at the beginning if it has none, and the
cursor answers for every spot that was begun. -/
theorem tables_consistent {lib : Regex.Library} {s : RuleSet} (hs : s.compile lib = .ok g)
    (text : Text) (start : Option String) (limit : Int) :
    (∀ r, g.startRule start = .ok r → ∀ st, Reached g text limit r st → st.memo.Apart) ∧
    ∀ c, g.parse text start limit = .ok c →
      c.memo.Apart ∧ c.memo.Complete ∧
      (∃ r, g.startRule start = .ok r ∧
        (c.pos.val : Int) = (c.memo.longest? ⟨r.name, 0⟩).getD 0) ∧
      ∀ t, c.memo.isStarted t = true → ∃ p, t.start = (p.val : Int) ∧ c.Replays g t.name p := by
  have hg := RuleSet.owned_of_compile hs
  refine ⟨fun r hr st h => ?_, fun c h => ?_⟩
  · have hrun := Grammar.run_concludes hg (Grammar.rule?_of_startRule hr) text limit
    exact hrun.sound.apart_log.of_extends h.extends_run
  · obtain ⟨r, hr, hset, hend⟩ := Grammar.settled_of_parse hg h
    refine ⟨hset.apart_log, hset.complete, ⟨r, hr, ?_⟩, fun t ht => ?_⟩
    · rcases hend with ⟨-, hlong⟩ | ⟨-, hm, hpos⟩
      · rw [hlong, Option.getD_some]
      · rw [hset.apart _ hm, hpos]
        rfl
    · obtain ⟨p, hp⟩ := hset.inside t ht
      refine ⟨p, hp, Cursor.replays_of_settled hset ?_⟩
      rw [← hp]
      exact ht

/-! ## Two rules that begin with each other -/

def twins : RuleSet :=
  ⟨[("a", [[.reference "b", .literal "x"], [.literal "y"]]), ("b", [[.reference "a", .literal "z"]])],
    some "a"⟩

def twinRule : Rule :=
  ⟨"a", [⟨"a", [.reference "b", .literal "x"]⟩, ⟨"a", [.literal "y"]⟩]⟩

def twinGrammar : Grammar :=
  ⟨[twinRule, ⟨"b", [⟨"b", [.reference "a", .literal "z"]⟩]⟩], some "a"⟩

theorem compile_twins (lib : Regex.Library) : twins.compile lib = .ok twinGrammar := rfl

/-- On `yzx` the rule `b` is tried while `a` has no seed, fails for good, and still fails when `a` has
grown: the run ends behind the `y`. -/
theorem tables_consistent_twins :
    twins.compile .standard = .ok twinGrammar ∧
    ∃ c, twinGrammar.parse #['y', 'z', 'x'] none 5 = .ok c ∧ c.pos.val = 1 ∧
      c.memo.isMismatch ⟨"b", 0⟩ = true ∧ c.memo.Apart ∧ c.memo.Complete := by
  have hend : (twinGrammar.parse #['y', 'z', 'x'] none 5).toOption.map
      (fun c => (c.pos.val, c.memo.isMismatch ⟨"b", 0⟩)) = some (1, true) := by decide +kernel
  obtain ⟨c, hc, hval⟩ := exists_of_toOption_map hend
  obtain ⟨hpos, hb⟩ := Prod.mk.inj hval
  have h := (tables_consistent (compile_twins .standard) #['y', 'z', 'x'] none 5).2 c hc
  exact ⟨rfl, c, hc, hpos, hb, h.1, h.2.1⟩

end Packrat
