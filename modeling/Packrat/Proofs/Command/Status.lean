import Packrat.Command.Run
import Packrat.Proofs.Checked
import Packrat.Proofs.RuleSet.Plain

/-!
# `Packrat/Proofs/Command/Status.lean` — what the status of a command says

A command goes through stages: it reads the grammar file, decodes it, reads the grammar text, compiles
and checks it, and to parse it also fetches a text and runs the start rule. A stage that fails ends the
command. `Meets` says with what trouble, without a word about reports.

Most troubles end in status 2. A few are not reported at all but escape (`Trouble.Escapes`): bytes that
are no text, a NUL in a file name or in a quoted text, and patterns with switches or numbers that do not
do. Apart from these the status tells exactly how the stages went, except that parsing an empty text
always ends in status 0 where it comes to an end.
-/

set_option autoImplicit false

namespace Packrat

/-! ## Grammars from grammar text -/

theorem exists_mapM_ok {ε α β : Type} {f : α → Except ε β} :
    ∀ {xs : List α}, (∀ x ∈ xs, ∃ y, f x = .ok y) → ∃ ys, xs.mapM f = .ok ys
  | [], _ => ⟨[], rfl⟩
  | x :: xs, h => by
    obtain ⟨y, hy⟩ := h x List.mem_cons_self
    obtain ⟨ys, hys⟩ := exists_mapM_ok fun z hz => h z (List.mem_cons_of_mem x hz)
    exact ⟨y :: ys, by rw [List.mapM_cons, hy, hys]; rfl⟩

section

variable {ε δ α β : Type}

theorem error_of_bind {x : Except ε α} {f : α → Except ε β} {e : ε} (h : x.bind f = .error e) :
    x = .error e ∨ ∃ a, x = .ok a ∧ f a = .error e := by
  cases x with
  | error e' =>
    cases h
    exact .inl rfl
  | ok a => exact .inr ⟨a, rfl, h⟩

theorem error_of_map {x : Except ε α} {f : α → β} {e : ε} (h : x.map f = .error e) :
    x = .error e := by
  cases x with
  | error e' =>
    cases h
    rfl
  | ok a => cases h

theorem error_of_mapError {x : Except ε α} {f : ε → δ} {d : δ} (h : x.mapError f = .error d) :
    ∃ e, x = .error e ∧ f e = d := by
  cases x with
  | error e =>
    cases h
    exact ⟨e, rfl, rfl⟩
  | ok a => cases h

end

namespace RuleSet

theorem Plain.wellTyped {s : RuleSet} (h : s.Plain) : s.WellTyped :=
  fun rule hrule is his _ hf => ((h.rules rule hrule).sequences is his).2 _ hf

/-- What holds only items can be printed. -/
theorem WellTyped.exists_print {s : RuleSet} (h : s.WellTyped) : ∃ text, s.print = .ok text := by
  have hitem : ∀ i : Item, (∀ f, i ≠ .foreign f) → ∃ text, i.print = .ok text := by
    intro i hi
    cases i with
    | foreign f => exact absurd rfl (hi f)
    | literal _ | pattern _ _ | regex _ _ | reference _ => exact ⟨_, rfl⟩
  have hrule : ∀ rule ∈ s.rules, ∃ text, printRule rule.1 rule.2 = .ok text := by
    intro rule hrule
    obtain ⟨texts, htexts⟩ : ∃ texts, rule.2.mapM printSequence = .ok texts := by
      refine exists_mapM_ok fun is his => ?_
      obtain ⟨items, hitems⟩ := exists_mapM_ok fun i hi =>
        hitem i fun f hf => h rule hrule is his f (hf ▸ hi)
      exact ⟨_, by rw [printSequence, hitems]; rfl⟩
    exact ⟨_, by rw [printRule, htexts]; rfl⟩
  obtain ⟨lines, hlines⟩ := exists_mapM_ok hrule
  refine ⟨"\n".intercalate (startLine s.start ++ lines), ?_⟩
  rw [print]
  exact congrArg (Except.map fun lines => "\n".intercalate (startLine s.start ++ lines)) hlines

end RuleSet

namespace Command

/-! ## Stages and troubles -/

/-- The grammar in a file: loaded, read, compiled and checked. -/
def Host.grammar (host : Host) (path : String) : Except Trouble Grammar :=
  (host.ruleSet path).bind fun s => (checkedGrammar host.lib s).mapError .fault

/-- The trouble that ends a request, at the first stage that fails. -/
inductive Meets (host : Host) : Request → Trouble → Prop
  | check {path : String} {debug : Bool} {t : Trouble} (h : host.grammar path = .error t) :
      Meets host (.check path debug) t
  | grammar {r : ParseRequest} {t : Trouble} (h : host.grammar r.grammar = .error t) :
      Meets host (.parse r) t
  | source {r : ParseRequest} {g : Grammar} {t : Trouble} (hg : host.grammar r.grammar = .ok g)
      (h : host.files.sourceText r.source = .error t) : Meets host (.parse r) t
  | run {r : ParseRequest} {g : Grammar} {cs : List Char} {f : RunFault}
      (hg : host.grammar r.grammar = .ok g) (hs : host.files.sourceText r.source = .ok cs)
      (h : g.parse cs.toArray r.start r.limit = .error f) : Meets host (.parse r) (.fault (.run f))

/-- All stages of parsing succeed: there are a grammar, a text, a rule to begin with, and a cursor where
the run has ended. -/
structure Parses (host : Host) (r : ParseRequest) (g : Grammar) (cs : List Char) (rule : Rule)
    (c : Cursor cs.toArray) : Prop where
  grammar : host.grammar r.grammar = .ok g
  source : host.files.sourceText r.source = .ok cs
  start : g.startRule r.start = .ok rule
  run : g.parse cs.toArray r.start r.limit = .ok c

/-- The trouble is not reported: it ends the program as it is. -/
def Trouble.Escapes : Trouble → Prop
  | .fault (.decode _) => True
  | .fault .nulInFileName => True
  | .fault (.read (.quotation .nulCharacter)) => True
  | .fault (.compile (.pattern (.invalid _ (.misuse _)))) => True
  | _ => False

/-- The trouble is one that a command can meet. -/
def Trouble.Arises : Trouble → Prop
  | .file _ _ => True
  | .fault (.read _) => True
  | .fault (.compile _) => True
  | .fault (.check _) => True
  | .fault (.run f) =>
    f = .noStart ∨ (∃ name, f = .unknownStart name) ∨ ∃ name q m, f = .tooDeep name q m
  | .fault (.decode _) => True
  | .fault .nulInFileName => True
  | .fault (.define _) => False
  | .fault (.print _) => False

/-- A trouble either escapes or ends in status 2. -/
theorem Trouble.Arises.ending {t : Trouble} (h : t.Arises) (log : List String) :
    (t.Escapes ∧ ∃ f, (t.report log).ending = .unhandled f) ∨
      (¬ t.Escapes ∧ (t.report log).ending = .status 2) := by
  cases t with
  | file f path => exact .inr ⟨id, rfl⟩
  | fault f =>
    cases f with
    | read f =>
      cases f with
      | quotation f =>
        cases f with
        | nulCharacter => exact .inl ⟨trivial, _, rfl⟩
        | lineEnd _ | escape _ _ => exact .inr ⟨id, rfl⟩
      | scan _ | expected _ _ _ | unknownDirective _ _ | secondStart _ | noColon _ _ _
        | emptyAlternative _ _ | noSemicolon _ _ _ _ => exact .inr ⟨id, rfl⟩
    | compile f =>
      cases f with
      | pattern f =>
        cases f with
        | invalid source why =>
          cases why with
          | misuse _ => exact .inl ⟨trivial, _, rfl⟩
          | malformed _ => exact .inr ⟨id, rfl⟩
        | unknownFlag _ _ _ | flagsOnRegex _ | notText _ | pinned _ => exact .inr ⟨id, rfl⟩
      | noAlternatives _ | emptyAlternative _ _ | unknownItem _ | twoRules _ =>
        exact .inr ⟨id, rfl⟩
    | check f => exact .inr ⟨id, rfl⟩
    | run f =>
      refine .inr ⟨id, ?_⟩
      obtain rfl | ⟨name, rfl⟩ | ⟨name, q, m, rfl⟩ := h <;> rfl
    | decode f => exact .inl ⟨trivial, _, rfl⟩
    | nulInFileName => exact .inl ⟨trivial, _, rfl⟩
    | define _ => exact h.elim
    | print _ => exact h.elim

/-! ## What each stage can end with -/

section

variable {files : Files} {host : Host} {path : String} {t : Trouble}

theorem arises_of_read (h : files.read path = .error t) : t.Arises := by
  unfold Files.read at h
  split at h
  · cases h
    exact trivial
  · obtain ⟨f, -, rfl⟩ := error_of_mapError h
    exact trivial

theorem arises_of_text (h : files.text path = .error t) : t.Arises := by
  rcases error_of_bind h with h | ⟨bytes, -, h⟩
  · exact arises_of_read h
  · obtain ⟨f, -, rfl⟩ := error_of_mapError h
    exact trivial

theorem arises_of_sourceText {source : Source} (h : files.sourceText source = .error t) :
    t.Arises := by
  cases source with
  | text s => cases h
  | file path => exact arises_of_text h

theorem arises_of_ruleSet (h : host.ruleSet path = .error t) : t.Arises := by
  rcases error_of_bind h with h | ⟨bytes, -, h⟩
  · exact arises_of_read h
  · rcases error_of_bind h with h | ⟨src, -, h⟩
    · obtain ⟨f, -, rfl⟩ := error_of_mapError h
      exact trivial
    · obtain ⟨f, -, rfl⟩ := error_of_mapError h
      exact trivial

theorem exists_source_of_ruleSet {s : RuleSet} (h : host.ruleSet path = .ok s) :
    ∃ src, RuleSet.read host.names src = .ok s := by
  obtain ⟨bytes, -, h⟩ := exists_of_bind_ok h
  obtain ⟨src, -, h⟩ := exists_of_bind_ok h
  exact ⟨src, eq_of_mapError_ok h⟩

theorem arises_of_checkedGrammar {lib : Regex.Library} {s : RuleSet} {f : Fault}
    (h : checkedGrammar lib s = .error f) : (Trouble.fault f).Arises := by
  rcases error_of_bind h with h | ⟨g, -, h⟩
  · obtain ⟨f, -, rfl⟩ := error_of_mapError h
    exact trivial
  · obtain ⟨e, -, rfl⟩ := error_of_mapError (error_of_map h)
    exact trivial

theorem of_checkedGrammar {lib : Regex.Library} {s : RuleSet} {g : Grammar}
    (h : checkedGrammar lib s = .ok g) : s.compile lib = .ok g ∧ g.check = .ok () := by
  obtain ⟨g', hg', h⟩ := exists_of_bind_ok h
  obtain ⟨u, hu, rfl⟩ := exists_of_map_ok h
  exact ⟨eq_of_mapError_ok hg', eq_of_mapError_ok hu⟩

theorem exists_of_grammar {g : Grammar} (h : host.grammar path = .ok g) :
    ∃ s, host.ruleSet path = .ok s ∧ checkedGrammar host.lib s = .ok g := by
  obtain ⟨s, hs, h⟩ := exists_of_bind_ok h
  exact ⟨s, hs, eq_of_mapError_ok h⟩

theorem arises_of_grammar (h : host.grammar path = .error t) : t.Arises := by
  rcases error_of_bind h with h | ⟨s, -, h⟩
  · exact arises_of_ruleSet h
  · obtain ⟨f, hf, rfl⟩ := error_of_mapError h
    exact arises_of_checkedGrammar hf

/-- The grammar of a file can be run. -/
theorem runnable_of_grammar {g : Grammar} (h : host.grammar path = .ok g) :
    g.Owned ∧ g.Runnable := by
  obtain ⟨s, hs, hc⟩ := exists_of_grammar h
  obtain ⟨src, hread⟩ := exists_source_of_ruleSet hs
  obtain ⟨hcompile, hcheck⟩ := of_checkedGrammar hc
  exact ⟨RuleSet.owned_of_compile hcompile, RuleSet.runnable_of_compile hcompile
    (RuleSet.plain_of_read hread).wellTyped (Grammar.resolved_of_check hcheck)⟩

/-- A run of a grammar from a file ends with a fault only if there is no rule to begin with, or by the
limit. -/
theorem arises_of_run {g : Grammar} (hg : host.grammar path = .ok g) {text : Text}
    {start : Option String} {limit : Int} {f : RunFault}
    (h : g.parse text start limit = .error f) : (Trouble.fault (.run f)).Arises := by
  obtain ⟨howned, hrun⟩ := runnable_of_grammar hg
  cases hr : g.startRule start with
  | error f' =>
    rw [Grammar.parse, hr] at h
    cases h
    unfold Grammar.startRule at hr
    split at hr
    · cases hr
      exact .inl rfl
    · split at hr
      · cases hr
        exact .inr (.inl ⟨_, rfl⟩)
      · cases hr
  | ok r =>
    rcases Grammar.run_free_or_refused howned hrun (Grammar.rule?_of_startRule hr) text limit with
      hfree | ⟨name, q, c, hstop⟩
    · rw [Grammar.parse_of_run hr hfree] at h
      cases h
    · rw [Grammar.parse, hr] at h
      dsimp only at h
      rw [hstop] at h
      cases h
      exact .inr (.inr ⟨name, q, limit, rfl⟩)

theorem Meets.arises {request : Request} (h : Meets host request t) : t.Arises := by
  cases h with
  | check h => exact arises_of_grammar h
  | grammar h => exact arises_of_grammar h
  | source _ h => exact arises_of_sourceText h
  | run hg _ h => exact arises_of_run hg h

end

/-! ## From stages to endings -/

section

variable {host : Host}

theorem withGrammar_of_error {path : String} {t : Trouble} (h : host.grammar path = .error t)
    (debug : Bool) : ∃ log, ∀ go, withGrammar host path debug go = t.report log := by
  rcases error_of_bind h with h | ⟨s, hs, h⟩
  · exact ⟨[], fun go => by rw [withGrammar, h]⟩
  · obtain ⟨f, hf, rfl⟩ := error_of_mapError h
    refine ⟨note debug (readyLine s), fun go => ?_⟩
    rw [withGrammar, hs]
    dsimp only
    rw [hf]

theorem withGrammar_of_ok {path : String} {g : Grammar} (h : host.grammar path = .ok g)
    (debug : Bool) :
    ∃ s log, host.ruleSet path = .ok s ∧ ∀ go, withGrammar host path debug go = go log s g := by
  obtain ⟨s, hs, hc⟩ := exists_of_grammar h
  refine ⟨s, note debug (readyLine s) ++ note debug (compiledLine g), hs, fun go => ?_⟩
  rw [withGrammar, hs]
  dsimp only
  rw [hc]

/-- The trouble that a request meets is what its report is about. -/
theorem Meets.exists_report {request : Request} {t : Trouble} (h : Meets host request t) :
    ∃ log, request.run host = t.report log := by
  cases h with
  | @check path debug t h =>
    obtain ⟨log, hlog⟩ := withGrammar_of_error h debug
    exact ⟨log, by rw [Request.run, Command.check, hlog]⟩
  | @grammar r t h =>
    obtain ⟨log, hlog⟩ := withGrammar_of_error h r.debug
    exact ⟨log, by rw [Request.run, Command.parse, hlog]⟩
  | @source r g t hg h =>
    obtain ⟨s, log, -, hgo⟩ := withGrammar_of_ok hg r.debug
    refine ⟨log, ?_⟩
    rw [Request.run, Command.parse, hgo, h]
  | @run r g cs f hg hs h =>
    obtain ⟨s, log, -, hgo⟩ := withGrammar_of_ok hg r.debug
    refine ⟨log, ?_⟩
    rw [Request.run, Command.parse, hgo, hs]
    dsimp only
    rw [h]

/-- A trouble that a request meets decides its ending. -/
theorem Meets.ending {request : Request} {t : Trouble} (h : Meets host request t) :
    (t.Escapes ∧ ∃ f, (request.run host).ending = .unhandled f) ∨
      (¬ t.Escapes ∧ (request.run host).ending = .status 2) := by
  obtain ⟨log, hlog⟩ := h.exists_report
  rw [hlog]
  exact h.arises.ending log

theorem Parses.matched_iff {r : ParseRequest} {g : Grammar} {cs : List Char} {rule : Rule}
    {c : Cursor cs.toArray} (h : Parses host r g cs rule c) :
    c.matched = true ↔ c.Whole rule ∨ cs = [] := by
  rw [Grammar.matched_iff_of_parse (runnable_of_grammar h.grammar).1 h.run h.start]
  exact or_congr_right (by simp)

end

end Command

end Packrat
