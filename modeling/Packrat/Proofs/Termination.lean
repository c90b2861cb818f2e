import Packrat.Proofs.Run.Limit

/-!
# `Packrat/Proofs/Termination.lean` — a run ends by itself

Left recursion stays where it is, through other rules or not, so neither the grammar nor the text gets
smaller from one reference to the next, and a limit on the nesting is what one would expect to end a
run. It is not needed: what gets smaller is the number of spots that were never begun, and within a spot
the way that the best end has still to go. A limit that lets references nest as deep as there are spots
is as good as none.
-/

set_option autoImplicit false

namespace Packrat

variable {g : Grammar}

/-- Where every reference names a rule, a run that the limit does not keep from it returns. Whatever the
limit, a run comes to its end after finitely many moves; it enters a rule at most once at each position;
fewer references are nested in it than there are rules at positions; and a rule that is entered at `p`
goes round at most once for each position from `p` to the end of the text. -/
theorem run_terminates {lib : Regex.Library} {s : RuleSet} (hs : s.compile lib = .ok g)
    (ht : s.WellTyped) (hrefs : g.Resolved) {start : Option String} {r : Rule}
    (hr : g.startRule start = .ok r) (text : Text) :
    (∀ limit : Int, (g.size * (text.size + 1) : Nat) - 1 ≤ limit →
      ∃ c, g.parse text start limit = .ok c) ∧
    ∀ limit : Int,
      (∃ l, Trace g text limit r l ∧ l.getLast? = some (.deliver (g.run text limit r) [])) ∧
      ∀ l, Trace g text limit r l →
        (∀ t, l.countP (State.enters t) ≤ 1) ∧
        (∀ st ∈ l, st.nested < g.size * (text.size + 1)) ∧
        ∀ (name : String) (p : Fin (text.size + 1)),
          l.countP (State.beginsRound ⟨name, p.val⟩) ≤ text.size - p.val + 1 := by
  have hg := RuleSet.owned_of_compile hs
  have hrule := Grammar.rule?_of_startRule hr
  have hrun := RuleSet.runnable_of_compile hs ht hrefs
  refine ⟨fun limit hlimit => ?_, fun limit => ⟨?_, fun l hl => ⟨?_, fun st hst => ?_, ?_⟩⟩⟩
  · exact ⟨_, Grammar.parse_of_run hr (Grammar.run_ne_stopped hg hrun hrule hlimit)⟩
  · exact exists_trace_of_reached (reached_run g text limit r)
  · exact hl.countP_enters_le hrule
  · exact (Reached.orderly hrule (hl.reached st hst)).nested_lt
  · exact hl.countP_beginsRound_le hrule

/-- Two rules that begin with each other, and a text of three characters: seven levels are as good as
any number, and fewer than eight are ever used. -/
theorem run_terminates_twins :
    twins.compile .standard = .ok twinGrammar ∧ twins.WellTyped ∧ twinGrammar.Resolved ∧
    twinGrammar.startRule none = .ok twinRule ∧
    (∃ c, twinGrammar.parse #['y', 'z', 'x'] none 7 = .ok c) ∧
    ∀ l, Trace twinGrammar #['y', 'z', 'x'] 7 twinRule l →
      l.countP (State.enters ⟨"b", 0⟩) ≤ 1 ∧ (∀ st ∈ l, st.nested < 8) ∧
      l.countP (State.beginsRound ⟨"a", 0⟩) ≤ 4 := by
  have ht : twins.WellTyped := by simp [RuleSet.WellTyped, twins]
  have hrefs : twinGrammar.Resolved := Grammar.resolved_of_check rfl
  have hr : twinGrammar.startRule none = .ok twinRule := rfl
  obtain ⟨hret, hbounds⟩ := run_terminates (compile_twins .standard) ht hrefs hr
    #['y', 'z', 'x']
  refine ⟨rfl, ht, hrefs, hr, hret 7 (by decide), fun l hl => ?_⟩
  obtain ⟨henter, hnest, hround⟩ := (hbounds 7).2 l hl
  exact ⟨henter _, hnest, hround "a" 0⟩

end Packrat
