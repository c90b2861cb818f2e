import Packrat.Proofs.Text.Series
import Packrat.Regex.Matcher

/-!
# `Packrat/Proofs/Regex/Greedy.lean` — sets of characters, once and again

The two patterns that tokens are mostly made of, as the standard library matches them: a set matches
the one character at the offset if that belongs to it (`Parsed.matchEnd?_set`), and a set repeated at
least once matches as far as its characters go (`Parsed.matchEnd?_repeated`).

A repetition keeps the stages that it came through and turns back at a stage that it meets again. Each
round of a set moves on by a character, so no stage comes up twice, and the rounds end where a character
does not belong or the text ends. The bound on the number of rounds is not what ends them.
-/

set_option autoImplicit false

namespace Packrat

namespace Regex

variable {v : Scene} {P : Nat → Bool}

/-! ## One character -/

theorem readChar_of_mem {s : State} {c : Char} (hc : v.text[s.pos]? = some c) (hP : P c.toNat = true) :
    readChar v false P s = some { s with pos := s.pos + 1 } := by
  rw [readChar, if_neg Bool.false_ne_true, hc]
  exact if_pos hP

theorem readChar_of_not_mem {s : State} (hP : ∀ c, v.text[s.pos]? = some c → P c.toNat = false) :
    readChar v false P s = none := by
  rw [readChar, if_neg Bool.false_ne_true]
  cases hc : v.text[s.pos]? with
  | none => rfl
  | some c => simp [hP c hc]

/-! ## Rounds -/

section

variable {r : Rounds} {body : State → Ways} {done : Nat} {moved : Bool} {s t : State}
  {seen : Std.HashSet Stage}

/-- Where the body has no way on, a repetition that has done its rounds ends. -/
theorem Rounds.first?_run_of_none (hlazy : r.lazy = false) (hseen : r.stage done moved s ∉ seen)
    (hleast : r.least ≤ done) (hbody : body s = .none) (limit : Nat)
    (others : Std.HashSet Stage → Ways) :
    (r.run body (limit + 1) done moved s seen others).first? = some s := by
  rw [Rounds.run, if_neg (by simpa using hseen)]
  simp only [hlazy, Bool.false_eq_true, hbody, Ways.thread, if_pos hleast, ite_self]
  rfl

/-- Where the body has one way on, a repetition that takes as many rounds as it can takes it. -/
theorem Rounds.first?_run_of_one (hlazy : r.lazy = false) (hseen : r.stage done moved s ∉ seen)
    (hgo : r.canGoOn done moved = true) (hbody : body s = .one t) (limit : Nat)
    (others : Std.HashSet Stage → Ways) :
    ∃ others', r.run body (limit + 1) done moved s seen others =
      r.run body limit (done + 1) (t != s) t (seen.insert (r.stage done moved s)) others' := by
  rw [Rounds.run, if_neg (by simpa using hseen)]
  simp only [hlazy, Bool.false_eq_true, if_false, hbody, if_pos hgo, Ways.one, Ways.thread]
  exact ⟨_, rfl⟩

/-- Over a body that reads one character, a repetition that takes as many rounds as it can goes on to
the end of the characters that the body reads. The stages that were met before all stand further
left. -/
theorem Rounds.first?_run (hlazy : r.lazy = false) (hmost : r.most = none)
    (hbody : ∀ s, body s = (Ways.one s).filterMap (readChar v false P)) {rest : List Char}
    (hrest : ∀ c ∈ rest.head?, P c.toNat = false) :
    ∀ (ds : List Char) (limit done : Nat) (moved : Bool) (s : State)
      (seen : Std.HashSet Stage) (others : Std.HashSet Stage → Ways),
      v.text.toList.drop s.pos = ds ++ rest → (∀ d ∈ ds, P d.toNat = true) →
      ds.length < limit → r.least ≤ done + ds.length → (moved || done < r.least) = true →
      (∀ stage ∈ seen, stage.2.2.pos < s.pos) →
      (r.run body limit done moved s seen others).first? = some { s with pos := s.pos + ds.length }
  | _, 0, _, _, _, _, _, _, _, hlimit, _, _, _ => absurd hlimit (Nat.not_lt_zero _)
  | [], limit + 1, done, moved, s, seen, others, hdrop, _, _, hleast, _, hseen => by
    have hnew : r.stage done moved s ∉ seen := fun h => Nat.lt_irrefl _ (hseen _ h)
    have hread : readChar v false P s = none := readChar_of_not_mem fun c hc => by
      rw [Text.getElem?_of_drop hdrop] at hc
      exact hrest c hc
    have hend : body s = .none := by
      rw [hbody, Ways.one, Ways.filterMap, hread]
      rfl
    exact Rounds.first?_run_of_none hlazy hnew hleast hend limit others
  | d :: ds, limit + 1, done, moved, s, seen, others, hdrop, hds, hlimit, hleast, hmoved, hseen => by
    have hnew : r.stage done moved s ∉ seen := fun h => Nat.lt_irrefl _ (hseen _ h)
    have hread := readChar_of_mem (v := v) (Text.getElem?_of_drop hdrop) (hds d List.mem_cons_self)
    have hone : body s = .one { s with pos := s.pos + 1 } := by
      rw [hbody, Ways.one, Ways.filterMap, hread]
      rfl
    have hgo : r.canGoOn done moved = true := by
      rw [Rounds.canGoOn, hmoved, hmost]
      rfl
    have hmove : (({ s with pos := s.pos + 1 } : State) != s) = true := by
      rw [bne_iff_ne]
      intro he
      exact absurd (congrArg State.pos he) (Nat.succ_ne_self s.pos)
    obtain ⟨others', hrun⟩ := Rounds.first?_run_of_one hlazy hnew hgo hone limit others
    have hdrop' : v.text.toList.drop s.pos = [d] ++ (ds ++ rest) := hdrop
    rw [List.length_cons] at hlimit hleast
    have hrec := Rounds.first?_run hlazy hmost hbody hrest ds limit (done + 1)
      (({ s with pos := s.pos + 1 } : State) != s) { s with pos := s.pos + 1 }
      (seen.insert (r.stage done moved s)) others'
      (Text.drop_add hdrop') (fun c hc => hds c (List.mem_cons_of_mem d hc)) (by omega)
      (by omega) (by rw [hmove, Bool.true_or]) fun stage hstage => by
        rcases Std.HashSet.mem_insert.1 hstage with he | hmem
        · rw [← eq_of_beq he]
          exact Nat.lt_succ_self s.pos
        · exact Nat.lt_succ_of_lt (hseen stage hmem)
    rw [hrun, hrec, List.length_cons, Nat.add_assoc, Nat.add_comm 1]

end

/-! ## Patterns -/

theorem Ways.first?_bind_one (s : State) (f : State → Ways) :
    ((Ways.one s).bind f).first? = (f s).first? := by
  rw [← Ways.head?_toList, Ways.toList_bind, Ways.toList_one, List.flatMap_singleton,
    Ways.head?_toList]

section

variable {r : Parsed} {text : Text} {positive fold : Bool} {members : List Member} {p : Nat}

/-- A set matches a character that belongs to it. -/
theorem Parsed.matchEnd?_set (hr : r.expr = .set positive members fold) {c : Char} {rest : List Char}
    (hdrop : text.toList.drop p = c :: rest)
    (hc : ∀ v, accepts v positive members fold c.toNat = true) :
    r.matchEnd? text p = some (p + 1) := by
  have hread : ∀ v : Scene, v.text = text → readChar v false (accepts v positive members fold) ⟨p, []⟩ =
      some ⟨p + 1, []⟩ := by
    rintro v rfl
    exact readChar_of_mem (Text.getElem?_of_drop hdrop) (hc v)
  rw [Parsed.matchEnd?, hr, run, Ways.one, Ways.filterMap, hread _ rfl]
  rfl

/-- A set that is repeated at least once, as often as it can be, matches the characters up to the first
that does not belong to it. -/
theorem Parsed.matchEnd?_repeated (hr : r.expr = .repeated .greedy 1 none (.set positive members fold))
    {ds rest : List Char} (hne : ds ≠ []) (hdrop : text.toList.drop p = ds ++ rest)
    (hds : ∀ v, ∀ d ∈ ds, accepts v positive members fold d.toNat = true)
    (hrest : ∀ v, ∀ c ∈ rest.head?, accepts v positive members fold c.toNat = false) :
    r.matchEnd? text p = some (p + ds.length) := by
  have hpos : 0 < ds.length := List.length_pos_iff.2 hne
  have hlen : ds.length ≤ text.size := by
    have := congrArg List.length hdrop
    simp only [List.length_drop, List.length_append, Array.length_toList] at this
    omega
  have hlimit : ∀ v : Scene, v.text = text → ds.length < roundLimit v 1 := by
    rintro v rfl
    have := Nat.le_mul_of_pos_right (v.text.size + 2) (show 0 < v.referenced.length + 2 by omega)
    rw [roundLimit]
    omega
  have hrounds : ∀ v : Scene, v.text = text →
      (run v (.repeated .greedy 1 none (.set positive members fold)) false
        (.one ⟨p, []⟩)).first? = some ⟨p + ds.length, []⟩ := by
    intro v hv
    rw [run]
    simp only [reduceCtorEq, if_false, Ways.first?_distinct]
    rw [Ways.first?_bind_one, Rounds.ways]
    exact Rounds.first?_run (v := v) rfl rfl (fun s => rfl) (hrest v) ds _ _ _ ⟨p, []⟩ _ _
      (hv ▸ hdrop) (hds v) (hlimit v hv) (by rw [Nat.zero_add]; exact hpos) rfl (by simp)
  rw [Parsed.matchEnd?, hr, hrounds _ rfl]
  rfl

end

end Regex

end Packrat
