import Packrat.Proofs.Run.Rest

/-!
# `Packrat/Proofs/Growth.lean` — how far a rule grows

A rule that refers to itself where it began grows: its alternatives are tried with the end that it has
come to so far, its seed, and every one that comes further moves the seed. Which seeds the alternatives
are tried with, and when, depends on their order. `Judge.Seeds` are the ends that the rule might have
come to in any order whatever.

The rounds stop at the first seed that no alternative leads beyond. That is the greatest of them all
just if a longer seed never spoils what a shorter one had led to (`Judge.Steady`); then the end is the
same for every order (`Rule.verdict_of_perm`).
-/

set_option autoImplicit false

namespace Packrat

variable {text : Text} {judge : Judge text}

/-! ## One thing after another -/

/-- What comes of a verdict when something else is to follow a match. -/
def Verdict.andThen (v : Verdict text) (f : Fin (text.size + 1) → Verdict text) : Verdict text :=
  match v with
  | .ends p => f p
  | v => v

theorem Verdict.andThen_eq_ends {v : Verdict text} {f : Fin (text.size + 1) → Verdict text}
    {q : Fin (text.size + 1)} : v.andThen f = .ends q ↔ ∃ p, v = .ends p ∧ f p = .ends q := by
  cases v with
  | ends p => simp [andThen]
  | undefined | fails => simp [andThen]

theorem termsVerdict_cons (judge : Judge text) (t : Term) (ts : List Term)
    (p : Fin (text.size + 1)) :
    termsVerdict judge (t :: ts) p = (t.verdict judge p).andThen (termsVerdict judge ts) := rfl

theorem Term.verdict_literal {s : CodePoints} {p q : Fin (text.size + 1)}
    (h : (Term.literal s).verdict judge p = .ends q) : q.val = p.val + s.length := by
  rw [Term.verdict] at h
  split at h
  · have hend := Verdict.eq_of_endsAt h
    omega
  · exact absurd h (by simp)

/-- Terms that match still match if the second judge has the matches of the first. -/
theorem termsVerdict_of_ends {j k : Judge text}
    (h : ∀ (name : String) (p q : Fin (text.size + 1)), j name p = .ends q → k name p = .ends q) :
    ∀ (ts : List Term) {p q : Fin (text.size + 1)}, termsVerdict j ts p = .ends q →
      termsVerdict k ts p = .ends q
  | [], _, _, hq => hq
  | t :: ts, p, q, hq => by
    rw [termsVerdict_cons, Verdict.andThen_eq_ends] at hq ⊢
    obtain ⟨i, ht, hts⟩ := hq
    refine ⟨i, ?_, termsVerdict_of_ends h ts hts⟩
    cases t with
    | reference name => exact h name p i ht
    | literal _ | pattern _ | foreignLiteral _ | foreign _ => exact ht

/-! ## Going forward -/

/-- What is said of a rule never ends before it begins. -/
def Judge.Forward (judge : Judge text) : Prop :=
  ∀ (name : String) (p q : Fin (text.size + 1)), judge name p = .ends q → p ≤ q

theorem Term.forward_verdict (h : judge.Forward) (t : Term) {p q : Fin (text.size + 1)}
    (hq : t.verdict judge p = .ends q) : p ≤ q := by
  cases t with
  | literal s =>
    have hend := Term.verdict_literal hq
    exact Fin.le_def.2 (by omega)
  | pattern r =>
    rw [Term.verdict] at hq
    split at hq
    · rename_i i hi
      have hend := Verdict.eq_of_endsAt hq
      have hle := (r.bounds (Nat.le_of_lt_succ p.isLt) hi).1
      exact Fin.le_def.2 (by omega)
    · exact absurd hq (by simp)
  | reference name => exact h name p q hq
  | foreignLiteral v => exact absurd hq (by simp [Term.verdict])
  | foreign v => exact absurd hq (by simp [Term.verdict])

theorem termsVerdict_forward (h : judge.Forward) : ∀ (ts : List Term) {p q : Fin (text.size + 1)},
    termsVerdict judge ts p = .ends q → p ≤ q
  | [], p, q, hq => Fin.le_of_eq (Verdict.ends.inj hq)
  | t :: ts, p, q, hq => by
    rw [termsVerdict_cons, Verdict.andThen_eq_ends] at hq
    obtain ⟨i, ht, hts⟩ := hq
    exact Fin.le_trans (Term.forward_verdict h t ht) (termsVerdict_forward h ts hts)

theorem Judge.Forward.seeded (h : judge.Forward) (name : String) (start : Fin (text.size + 1))
    {seed : Option (Fin (text.size + 1))} (hs : ∀ e, seed = some e → start ≤ e) :
    (judge.seeded name start seed).Forward := by
  intro n p q hq
  unfold Judge.seeded at hq
  split at hq
  · rename_i hp
    cases seed with
    | none => exact absurd hq (by simp)
    | some e =>
      rw [hp.2, ← Verdict.ends.inj hq]
      exact hs e rfl
  · exact h n p q hq

/-! ## Seeds -/

section

variable (judge : Judge text) (r : Rule) (start : Fin (text.size + 1))

/-- What an alternative of the rule comes to when the rule has come as far as the seed. -/
def Judge.extend (a : Alternative) (seed : Option (Fin (text.size + 1))) : Verdict text :=
  termsVerdict (judge.seeded r.name start seed) a.terms start

/-- The seeds that the rule can have, if its alternatives may be tried in any order and as often as one
likes. -/
inductive Judge.Seeds : Option (Fin (text.size + 1)) → Prop
  | first : Seeds none
  | grown {seed : Option (Fin (text.size + 1))} {a : Alternative} {p : Fin (text.size + 1)}
      (h : Seeds seed) (ha : a ∈ r.alternatives) (hp : judge.extend r start a seed = .ends p) :
      Seeds (some p)

/-- A longer seed spoils nothing. -/
structure Judge.Steady : Prop where
  /-- Where an alternative overtakes a longer seed from a shorter one, some alternative leads on from the
  longer one, too. -/
  overtakes : ∀ {q q' p : Fin (text.size + 1)} {a : Alternative},
    judge.Seeds r start (some q) → judge.Seeds r start (some q') → q < q' → a ∈ r.alternatives →
    judge.extend r start a (some q) = .ends p → q' < p →
    ∃ b ∈ r.alternatives, ∃ p', judge.extend r start b (some q') = .ends p' ∧ q' < p'
  /-- If all that the rule matches without a seed is empty, the empty seed leads to nothing else. -/
  rouses : judge.Seeds r start (some start) →
    (∀ a ∈ r.alternatives, ∀ p, judge.extend r start a none = .ends p → p = start) →
    ∀ a ∈ r.alternatives, ∀ p, judge.extend r start a (some start) = .ends p → p = start

/-- The verdict is the greatest seed that the rule can have, or it fails if it can have none. -/
def Judge.Greatest : Verdict text → Prop
  | .undefined => False
  | .fails => ∀ e, ¬ judge.Seeds r start (some e)
  | .ends e => judge.Seeds r start (some e) ∧ ∀ q, judge.Seeds r start (some q) → q ≤ e

end

section

variable {r : Rule} {start best : Fin (text.size + 1)} {seed : Option (Fin (text.size + 1))}

theorem Judge.Greatest.unique {v w : Verdict text} (hv : judge.Greatest r start v)
    (hw : judge.Greatest r start w) : v = w := by
  cases v with
  | undefined => exact hv.elim
  | fails =>
    cases w with
    | undefined => exact hw.elim
    | fails => rfl
    | ends q => exact absurd hw.1 (hv q)
  | ends e =>
    cases w with
    | undefined => exact hw.elim
    | fails => exact absurd hv.1 (hw e)
    | ends q => rw [Fin.le_antisymm (hw.2 e hv.1) (hv.2 q hw.1)]

/-- What matches without a seed has not looked at it. -/
theorem Judge.extend_of_seedless {a : Alternative} {p : Fin (text.size + 1)}
    (h : judge.extend r start a none = .ends p) (seed : Option (Fin (text.size + 1))) :
    judge.extend r start a seed = .ends p := by
  refine termsVerdict_of_ends (fun name q i hi => ?_) a.terms h
  unfold Judge.seeded at hi ⊢
  split at hi
  · exact absurd hi (by simp)
  · rename_i hno
    rw [if_neg hno]
    exact hi

/-- The first seed of all comes from an alternative that matches without one. -/
theorem Judge.Seeds.exists_seedless (h : judge.Seeds r start seed) (hs : seed ≠ none) :
    ∃ a ∈ r.alternatives, ∃ p, judge.extend r start a none = .ends p := by
  induction h with
  | first => exact absurd rfl hs
  | @grown seed a p _ ha hp ih =>
    cases seed with
    | none => exact ⟨a, ha, p, hp⟩
    | some e => exact ih (by simp)

theorem Judge.Seeds.le (hj : judge.Forward) (h : judge.Seeds r start seed) :
    ∀ e, seed = some e → start ≤ e := by
  induction h with
  | first => exact fun e he => absurd he (by simp)
  | @grown seed a p _ _ hp ih =>
    rintro e ⟨⟩
    exact termsVerdict_forward (hj.seeded r.name start ih) a.terms hp

/-- Counting in a match takes the seed to another that the rule can have. -/
theorem Judge.Seeds.furthest (hj : judge.Forward) (h : judge.Seeds r start seed) {a : Alternative}
    {p : Fin (text.size + 1)} (ha : a ∈ r.alternatives) (hp : judge.extend r start a seed = .ends p) :
    judge.Seeds r start (furthest start seed p) := by
  have hgrown := h.grown ha hp
  have hle := hgrown.le hj p rfl
  unfold Packrat.furthest
  dsimp only
  split
  · exact hgrown
  · rename_i hnot
    cases seed with
    | none =>
      rw [Option.getD_none] at hnot ⊢
      rwa [Fin.le_antisymm (Fin.not_lt.1 hnot) hle] at hgrown
    | some e => exact h

end

/-! ## Rounds -/

/-- How far a rule has come in a round behind the end `best`: `longest` is the furthest end in the
round, and `seed` the furthest of all. -/
def Tallied (start best : Fin (text.size + 1)) (longest seed : Option (Fin (text.size + 1))) : Prop :=
  match longest with
  | none => seed.getD start = best
  | some l => ∃ e, seed = some e ∧ e.val = max best.val l.val

section

variable {r : Rule} {start best : Fin (text.size + 1)}
  {longest longest' seed seed' : Option (Fin (text.size + 1))}

theorem Tallied.furthest (h : Tallied start best longest seed) (hb : start ≤ best)
    (p : Fin (text.size + 1)) :
    Tallied start best (furthest start longest p) (furthest start seed p) := by
  obtain ⟨l, hl, hlval⟩ := exists_furthest start longest p
  obtain ⟨e, he, heval⟩ := exists_furthest start seed p
  have hb := Fin.le_def.1 hb
  rw [hl]
  refine ⟨e, he, ?_⟩
  cases longest with
  | none =>
    rw [show seed.getD start = best from h] at heval
    rw [Option.getD_none] at hlval
    omega
  | some k =>
    obtain ⟨s, rfl, hs⟩ := h
    rw [Option.getD_some] at hlval heval
    omega

/-- A round is followed from its end: an alternative fails and leaves all as it is, or it is counted
in. -/
theorem sweep_induction
    {motive : List Alternative → (longest seed : Option (Fin (text.size + 1))) → Prop}
    (nil : motive [] longest' seed')
    (fails : ∀ (a : Alternative) (rest : List Alternative) (longest seed),
      judge.extend r start a seed = .fails → motive rest longest seed → motive (a :: rest) longest seed)
    (ends : ∀ (a : Alternative) (rest : List Alternative) (longest seed) (p : Fin (text.size + 1)),
      judge.extend r start a seed = .ends p →
      sweep judge r.name start rest (furthest start longest p) (furthest start seed p) =
        .ended longest' seed' →
      motive rest (furthest start longest p) (furthest start seed p) → motive (a :: rest) longest seed) :
    ∀ (as : List Alternative) (longest seed : Option (Fin (text.size + 1))),
      sweep judge r.name start as longest seed = .ended longest' seed' → motive as longest seed
  | [], _, _, h => by
    cases h
    exact nil
  | a :: as, longest, seed, h => by
    rw [sweep] at h
    cases ha : termsVerdict (judge.seeded r.name start seed) a.terms start with
    | undefined =>
      rw [ha] at h
      exact absurd h (by simp)
    | fails =>
      rw [ha] at h
      exact fails a as longest seed ha (sweep_induction nil fails ends as longest seed h)
    | ends p =>
      rw [ha] at h
      exact ends a as longest seed p ha h (sweep_induction nil fails ends as _ _ h)

theorem sweep_tallied (hb : start ≤ best) (as : List Alternative)
    (h : sweep judge r.name start as longest seed = .ended longest' seed')
    (ht : Tallied start best longest seed) : Tallied start best longest' seed' :=
  sweep_induction (motive := fun _ longest seed => Tallied start best longest seed →
      Tallied start best longest' seed')
    id (fun _ _ _ _ _ ih => ih) (fun _ _ _ _ p _ _ ih ht => ih (ht.furthest hb p)) as longest seed h ht

/-- A round moves the seed along the seeds that the rule can have. -/
theorem sweep_seeds (hj : judge.Forward) {as : List Alternative} (has : as ⊆ r.alternatives)
    (h : sweep judge r.name start as longest seed = .ended longest' seed')
    (hs : judge.Seeds r start seed) : judge.Seeds r start seed' := by
  refine sweep_induction (motive := fun as _ seed => as ⊆ r.alternatives → judge.Seeds r start seed →
    judge.Seeds r start seed') (fun _ => id) ?_ ?_ as longest seed h has hs
  · exact fun a rest _ _ _ ih has => ih fun b hb => has (List.mem_cons_of_mem a hb)
  · exact fun a rest _ _ p hp _ ih has hs =>
      ih (fun b hb => has (List.mem_cons_of_mem a hb)) (hs.furthest hj (has List.mem_cons_self) hp)

/-- The furthest end of a round does not go back. -/
theorem sweep_longest {l : Fin (text.size + 1)} (as : List Alternative)
    (h : sweep judge r.name start as (some l) seed = .ended longest' seed') :
    ∃ l', longest' = some l' ∧ l ≤ l' := by
  refine sweep_induction (motive := fun _ longest _ => ∀ l, longest = some l →
    ∃ l', longest' = some l' ∧ l ≤ l') ?_ ?_ ?_ as (some l) seed h l rfl
  · exact fun l hl => ⟨l, hl, Fin.le_refl l⟩
  · exact fun _ _ _ _ _ ih => ih
  · intro a rest longest seed p _ _ ih l hl
    obtain ⟨k, hk, hkval⟩ := exists_furthest start longest p
    obtain ⟨l', hl', hle⟩ := ih k hk
    rw [hl, Option.getD_some] at hkval
    rw [Fin.le_def] at hle
    exact ⟨l', hl', Fin.le_def.2 (by omega)⟩

/-- A match that is counted in is not beyond the furthest end of the round. -/
theorem sweep_counted {p : Fin (text.size + 1)} (as : List Alternative)
    (h : sweep judge r.name start as (furthest start longest p) seed = .ended longest' seed') :
    ∃ l', longest' = some l' ∧ p ≤ l' := by
  obtain ⟨k, hk, hkval⟩ := exists_furthest start longest p
  rw [hk] at h
  obtain ⟨l', hl', hle⟩ := sweep_longest as h
  refine ⟨l', hl', Fin.le_trans (Fin.le_def.2 ?_) hle⟩
  omega

/-- A round without a match tries all alternatives with the seed that it began with. -/
theorem sweep_none {as : List Alternative}
    (h : sweep judge r.name start as longest seed = .ended none seed') :
    ∀ a ∈ as, judge.extend r start a seed = .fails := by
  refine sweep_induction (motive := fun as _ seed => ∀ a ∈ as, judge.extend r start a seed = .fails)
    ?_ ?_ ?_ as longest seed h
  · exact fun a ha => absurd ha (by simp)
  · intro a rest _ seed ha ih b hb
    rcases List.mem_cons.1 hb with rfl | hb
    · exact ha
    · exact ih b hb
  · intro a rest longest seed p _ hrest
    obtain ⟨l', hl', -⟩ := sweep_counted rest hrest
    exact absurd hl' (by simp)

/-- In a round that does not go beyond its seed, all alternatives are tried with this seed. -/
theorem sweep_bounded {as : List Alternative} {b : Fin (text.size + 1)}
    (h : sweep judge r.name start as longest (some b) = .ended longest' seed')
    (hle : ∀ l, longest' = some l → l ≤ b) :
    ∀ a ∈ as, ∀ p, judge.extend r start a (some b) = .ends p → p ≤ b := by
  refine sweep_induction (motive := fun as _ seed => seed = some b →
    ∀ a ∈ as, ∀ p, judge.extend r start a (some b) = .ends p → p ≤ b) ?_ ?_ ?_ as longest _ h rfl
  · exact fun _ a ha => absurd ha (by simp)
  · rintro a rest _ _ ha ih rfl x hx p hp
    rcases List.mem_cons.1 hx with rfl | hx
    · exact absurd (ha.symm.trans hp) (by simp)
    · exact ih rfl x hx p hp
  · rintro a rest longest _ q ha hrest ih rfl x hx p hp
    obtain ⟨l', hl', hql⟩ := sweep_counted rest hrest
    have hqb : q ≤ b := Fin.le_trans hql (hle l' hl')
    rcases List.mem_cons.1 hx with rfl | hx
    · rw [← Verdict.ends.inj (ha.symm.trans hp)]
      exact hqb
    · -- the match is not beyond the seed, so the seed stays
      exact ih (congrArg some (if_neg (Fin.not_lt.2 hqb))) x hx p hp

/-- If the first round does not leave the beginning, no alternative does so without a seed. -/
theorem sweep_first (hj : judge.Forward) {as : List Alternative}
    (h : sweep judge r.name start as none none = .ended longest' seed')
    (hle : ∀ l, longest' = some l → l ≤ start) :
    ∀ a ∈ as, ∀ p, judge.extend r start a none = .ends p → p = start := by
  refine sweep_induction (motive := fun as _ seed => seed = none →
    ∀ a ∈ as, ∀ p, judge.extend r start a none = .ends p → p = start) ?_ ?_ ?_ as none none h rfl
  · exact fun _ a ha => absurd ha (by simp)
  · rintro a rest _ _ ha ih rfl x hx p hp
    rcases List.mem_cons.1 hx with rfl | hx
    · exact absurd (ha.symm.trans hp) (by simp)
    · exact ih rfl x hx p hp
  · rintro a rest longest _ q ha hrest - rfl x hx p hp
    have hforward : ∀ {x : Alternative} {p}, judge.extend r start x none = .ends p → start ≤ p :=
      fun hp => termsVerdict_forward (hj.seeded r.name start (by simp)) _ hp
    obtain ⟨l', hl', hql⟩ := sweep_counted rest hrest
    have hq : q = start := Fin.le_antisymm (Fin.le_trans hql (hle l' hl')) (hforward ha)
    subst hq
    refine Fin.le_antisymm ?_ (hforward hp)
    rcases List.mem_cons.1 hx with rfl | hx
    · exact Fin.le_of_eq (Verdict.ends.inj (ha.symm.trans hp)).symm
    · -- behind an empty match the alternatives have a seed, which those that match without do not need
      have hstay : furthest q none q = some q := congrArg some (if_neg (Fin.lt_irrefl q))
      rw [hstay] at hrest
      exact sweep_bounded hrest hle x hx p (Judge.extend_of_seedless hp _)

end

/-! ## Growing -/

section

variable {r : Rule} {start : Fin (text.size + 1)}

/-- No alternative refers to the rule itself. -/
def Rule.Plain (r : Rule) : Prop := ∀ a ∈ r.alternatives, .reference r.name ∉ a.terms

/-- A rule that does not refer to itself does not look at its seed, so nothing can be spoilt. -/
theorem Rule.Plain.steady (h : r.Plain) : judge.Steady r start := by
  have hsame : ∀ a ∈ r.alternatives, ∀ seed seed' p, judge.extend r start a seed = .ends p →
      judge.extend r start a seed' = .ends p := by
    intro a ha seed seed' p hp
    refine (termsVerdict_of_agree a.terms start (fun n hn q _ => ?_) ?_).trans hp
    · have hno : ¬ (n = r.name ∧ q = start) := fun hs => h a ha (hs.1 ▸ hn)
      unfold Judge.seeded
      rw [if_neg hno, if_neg hno]
    · exact fun hun => absurd (hun.symm.trans hp) (by simp)
  exact ⟨fun {q q' p a} _ _ _ ha hp hlt => ⟨a, ha, p, hsame a ha _ _ p hp, hlt⟩,
    fun _ hempty a ha p hp => hempty a ha p (hsame a ha _ _ p hp)⟩

/-- If no alternative leads beyond a seed, and growing is steady, there is no seed beyond it. -/
theorem Judge.Steady.le (hs : judge.Steady r start) {best : Fin (text.size + 1)}
    (hbest : judge.Seeds r start (some best))
    (hlast : ∀ a ∈ r.alternatives, ∀ p, judge.extend r start a (some best) = .ends p → p ≤ best)
    {seed : Option (Fin (text.size + 1))} (h : judge.Seeds r start seed) :
    ∀ q, seed = some q → q ≤ best := by
  induction h with
  | first => exact fun q hq => absurd hq (by simp)
  | @grown seed a p hseed ha hp ih =>
    rintro q ⟨⟩
    cases seed with
    | none => exact hlast a ha p (Judge.extend_of_seedless hp _)
    | some q =>
      rcases Fin.lt_or_eq_of_le (ih q rfl) with hlt | rfl
      · by_contra hnot
        obtain ⟨b, hb, p', hp', hbeyond⟩ :=
          hs.overtakes hseed hbest hlt ha hp (Fin.not_le.1 hnot)
        exact absurd hbeyond (Fin.not_lt.2 (hlast b hb p' hp'))
      · exact hlast a ha p hp

/-- The round that goes no further than the best end shows that no seed is beyond it. -/
theorem Judge.Steady.greatest_of_last (hs : judge.Steady r start) (hj : judge.Forward)
    {best longest : Fin (text.size + 1)} {seed seed' : Option (Fin (text.size + 1))}
    (hb : start ≤ best) (hseed : judge.Seeds r start seed) (htally : seed.getD start = best)
    (hround : sweep judge r.name start r.alternatives none seed = .ended (some longest) seed')
    (hle : longest ≤ best) : judge.Greatest r start (.ends best) := by
  obtain ⟨e, rfl, heval⟩ := sweep_tallied hb r.alternatives hround htally
  have he : e = best := Fin.ext (heval.trans (Nat.max_eq_left hle))
  subst he
  have hbest := sweep_seeds hj (fun _ => id) hround hseed
  have hbound : ∀ l, some longest = some l → l ≤ e := fun l hl => Option.some.inj hl ▸ hle
  refine ⟨hbest, fun q hq => hs.le hbest ?_ hq q rfl⟩
  cases seed with
  | some b =>
    rw [Option.getD_some] at htally
    subst htally
    exact sweep_bounded hround hbound
  | none =>
    rw [Option.getD_none] at htally
    subst htally
    exact fun a ha p hp =>
      Fin.le_of_eq (hs.rouses hbest (sweep_first hj hround hbound) a ha p hp)

/-- Growing ends at the greatest seed. -/
theorem growth_greatest (hj : judge.Forward) (hs : judge.Steady r start)
    (best : Fin (text.size + 1)) (seed : Option (Fin (text.size + 1))) (hb : start ≤ best)
    (hseed : judge.Seeds r start seed) (htally : seed.getD start = best)
    (hd : growth judge r start best seed ≠ .undefined) :
    judge.Greatest r start (growth judge r start best seed) := by
  induction best, seed using growth.induct judge r start with
  | case1 best seed hround =>
    rw [growth, hround] at hd
    exact absurd rfl hd
  | case2 best seed seed' hround =>
    rw [growth, hround]
    intro e he
    obtain ⟨a, ha, p, hp⟩ := he.exists_seedless (by simp)
    exact absurd ((sweep_none hround a ha).symm.trans (Judge.extend_of_seedless hp seed)) (by simp)
  | case3 best seed longest seed' hround hlt ih =>
    obtain ⟨e, rfl, heval⟩ := sweep_tallied hb r.alternatives hround htally
    have he : e = longest := Fin.ext (heval.trans (Nat.max_eq_right (Nat.le_of_lt hlt)))
    rw [growth, hround] at hd ⊢
    dsimp only at hd ⊢
    rw [if_pos hlt] at hd ⊢
    exact ih (Fin.le_trans hb (Fin.le_of_lt hlt)) (sweep_seeds hj (fun _ => id) hround hseed) he hd
  | case4 best seed longest seed' hround hlt =>
    rw [growth, hround]
    dsimp only
    rw [if_neg hlt]
    exact hs.greatest_of_last hj hb hseed htally hround (Fin.not_lt.1 hlt)

/-- Where growing is steady, a rule comes to the greatest end that it can come to. -/
theorem Rule.verdict_greatest (hj : judge.Forward) (hs : judge.Steady r start)
    (hd : r.verdict judge start ≠ .undefined) : judge.Greatest r start (r.verdict judge start) :=
  growth_greatest hj hs start none (Fin.le_refl start) .first rfl hd

end

/-! ## The order of the alternatives -/

section

variable {r r' : Rule} {start : Fin (text.size + 1)} {seed : Option (Fin (text.size + 1))}

theorem Judge.Seeds.of_subset (hname : r.name = r'.name) (has : r.alternatives ⊆ r'.alternatives)
    (h : judge.Seeds r start seed) : judge.Seeds r' start seed := by
  induction h with
  | first => exact .first
  | grown _ ha hp ih =>
    rw [Judge.extend, hname] at hp
    exact .grown ih (has ha) hp

theorem Judge.seeds_iff_of_perm (hname : r.name = r'.name)
    (hp : r.alternatives.Perm r'.alternatives) (seed : Option (Fin (text.size + 1))) :
    judge.Seeds r start seed ↔ judge.Seeds r' start seed :=
  ⟨.of_subset hname hp.subset, .of_subset hname.symm hp.symm.subset⟩

theorem Judge.Steady.of_perm (hname : r.name = r'.name) (hp : r.alternatives.Perm r'.alternatives)
    (h : judge.Steady r start) : judge.Steady r' start := by
  have hback : ∀ seed, judge.Seeds r' start seed → judge.Seeds r start seed :=
    fun seed => (Judge.seeds_iff_of_perm hname hp seed).2
  have hextend : judge.extend r start = judge.extend r' start := by
    funext a seed
    rw [Judge.extend, Judge.extend, hname]
  constructor
  · intro q q' p a hq hq' hlt ha hend hbeyond
    rw [← hextend] at hend ⊢
    obtain ⟨b, hb, hrest⟩ :=
      h.overtakes (hback _ hq) (hback _ hq') hlt (hp.mem_iff.2 ha) hend hbeyond
    exact ⟨b, hp.subset hb, hrest⟩
  · intro hseed hempty a ha
    rw [← hextend] at hempty ⊢
    exact h.rouses (hback _ hseed) (fun b hb => hempty b (hp.subset hb)) a (hp.mem_iff.2 ha)

/-- Where growing is steady, the order of the alternatives does not matter. -/
theorem Rule.verdict_of_perm (hj : judge.Forward) (hname : r.name = r'.name)
    (hp : r.alternatives.Perm r'.alternatives) (hs : judge.Steady r start)
    (hd : r.verdict judge start ≠ .undefined) (hd' : r'.verdict judge start ≠ .undefined) :
    r'.verdict judge start = r.verdict judge start := by
  have hgreatest := Rule.verdict_greatest hj hs hd
  have hgreatest' := Rule.verdict_greatest hj (hs.of_perm hname hp) hd'
  refine Judge.Greatest.unique (r := r') hgreatest' ?_
  cases hv : r.verdict judge start with
  | undefined => exact absurd hv hd
  | fails =>
    rw [hv] at hgreatest
    exact fun e he => hgreatest e ((Judge.seeds_iff_of_perm hname hp _).2 he)
  | ends e =>
    rw [hv] at hgreatest
    exact ⟨(Judge.seeds_iff_of_perm hname hp _).1 hgreatest.1,
      fun q hq => hgreatest.2 q ((Judge.seeds_iff_of_perm hname hp _).2 hq)⟩

end

end Packrat
