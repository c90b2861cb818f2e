import Packrat.Proofs.Run.Machine
import Packrat.Proofs.Run.Steps
import Packrat.Regex.Standard

/-!
# `Packrat/Proofs/Soundness.lean` — every recorded match is a derivation

The log of a run is a derivation written down from the leaves up: each match in it is cut into the
pieces of an alternative, and the pieces that stand for rules are matches further up in the log. That
holds at every state that a run comes through, so also of the log that a stopped run leaves behind.
-/

set_option autoImplicit false

namespace Packrat

variable {g : Grammar} {text : Text}

/-- Each match that is in the log at some moment of a run is accounted for by matches that were
recorded before it. The log of the moment is the beginning of the last one, which is justified. -/
theorem justified_of_reached {lib : Regex.Library} {s : RuleSet} (hs : s.compile lib = .ok g)
    {start : Option String} {r : Rule} (hr : g.startRule start = .ok r) {limit : Int} {st : State text}
    (h : Reached g text limit r st) : Justified g text st.memo.log := by
  have hrun := Grammar.run_concludes (RuleSet.owned_of_compile hs) (Grammar.rule?_of_startRule hr)
    text limit
  exact hrun.sound.justified.of_prefix h.extends_run.log

/-! ## Sums

Bracketed sums of ones, as a left-recursive rule set and as the grammar that it is compiled to. -/

def sumRule : Rule :=
  ⟨"sum", [⟨"sum", [.reference "sum", .literal "+", .reference "item"]⟩,
    ⟨"sum", [.reference "item"]⟩]⟩

def itemRule : Rule :=
  ⟨"item", [⟨"item", [.literal "1"]⟩,
    ⟨"item", [.literal "(", .reference "sum", .literal ")"]⟩]⟩

def sumGrammar : Grammar := ⟨[sumRule, itemRule], some "sum"⟩

def sums : RuleSet :=
  ⟨[("sum", [[.reference "sum", .literal "+", .reference "item"], [.reference "item"]]),
    ("item", [[.literal "1"], [.literal "(", .reference "sum", .literal ")"]])], some "sum"⟩

theorem compile_sums (lib : Regex.Library) : sums.compile lib = .ok sumGrammar := rfl

/-- One level is too little for the brackets: the run of `1+(1)` stops, with two matches in its
log. -/
theorem justified_of_stopped_sum :
    sums.compile .standard = .ok sumGrammar ∧ sumGrammar.startRule none = .ok sumRule ∧
    ∃ st : State #['1', '+', '(', '1', ')'],
      Reached sumGrammar #['1', '+', '(', '1', ')'] 1 sumRule st ∧
      st.memo.log = #[⟨"item", 0, 1⟩, ⟨"sum", 0, 1⟩] ∧
      Justified sumGrammar #['1', '+', '(', '1', ')'] st.memo.log := by
  have hstart : sumGrammar.startRule none = .ok sumRule := rfl
  have hend := reached_run sumGrammar #['1', '+', '(', '1', ')'] 1 sumRule
  refine ⟨rfl, hstart, _, hend, by decide +kernel, ?_⟩
  exact justified_of_reached (compile_sums .standard) hstart hend

end Packrat
