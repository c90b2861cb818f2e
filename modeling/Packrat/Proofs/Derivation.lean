import Packrat.Grammar
import Packrat.Memo

/-!
# `Packrat/Proofs/Derivation.lean` — what a match of a rule means

The meaning of a match, said without a run: `Splits` cuts a stretch of the text into pieces, one for
each term of an alternative. What a reference may stand over is left open as `known`, because the
places where the notion is used differ in just that:

* `Derives` closes it over itself: the references are derived in turn;
* `Justified` asks for entries of a log that stand before the entry in question;
* a run asks for what its memo answers.

`Splits.mono` moves between them.
-/

set_option autoImplicit false

namespace Packrat

/-! ## Literals as pieces of the text -/

namespace Text

theorem startsAt_iff (t : Text) : ∀ (cs : CodePoints) (i : Nat),
    t.startsAt cs i = true ↔ cs <+: (t.toList.drop i).map .char
  | [], i => by simp [startsAt]
  | c :: cs, i => by
    rw [startsAt, Bool.and_eq_true, startsAt_iff t cs (i + 1), beq_iff_eq]
    by_cases hi : i < t.size
    · have hd : t.toList.drop i = t[i] :: t.toList.drop (i + 1) := by
        rw [List.drop_eq_getElem_cons (by simpa using hi)]
        rfl
      rw [hd, List.map_cons, List.cons_prefix_cons, Array.getElem?_eq_getElem hi, Option.map_some,
        Option.some.injEq, eq_comm (a := c)]
    · have hd : t.toList.drop i = [] := List.drop_of_length_le (by simpa using hi)
      simp [hd, Array.getElem?_eq_none (Nat.le_of_not_lt hi)]

/-- Of a literal without surrogates the characters stand in the text. -/
theorem startsAt_ofString (t : Text) (s : String) (i : Nat) :
    t.startsAt (.ofString s) i = true ↔ s.toList <+: t.toList.drop i := by
  rw [startsAt_iff, CodePoints.ofString]
  exact List.prefix_map_iff_of_injective fun _ _ h => CodePoint.char.inj h

theorem toList_slice (t : Text) {i j : Nat} (hi : i ≤ t.size) (hj : j ≤ t.size) :
    (t.slice i j).toList = (t.toList.drop i).take (j - i) := by
  have hclamp : ∀ k : Nat, k ≤ t.size → t.clamp k = k := by
    intro k hk
    rw [clamp, if_neg (by omega), Int.toNat_natCast, Nat.min_eq_left hk]
  rw [slice, hclamp i hi, hclamp j hj, String.toList_ofList, Array.toList_extract, List.extract_eq_take_drop]

/-- A literal that stands at a position is the piece of the text from there to its end. -/
theorem slice_of_startsAt {t : Text} {s : CodePoints} {i : Nat} (hi : i ≤ t.size)
    (h : t.startsAt s i = true) :
    i + s.length ≤ t.size ∧ .ofString (t.slice i ((i + s.length : Nat) : Int)) = s := by
  have hpre := (startsAt_iff t _ _).1 h
  have hle : i + s.length ≤ t.size := by
    have := hpre.length_le
    simp only [List.length_map, List.length_drop, Array.length_toList] at this
    omega
  refine ⟨hle, ?_⟩
  rw [CodePoints.ofString, toList_slice t hi hle, Nat.add_sub_cancel_left, List.map_take]
  exact (List.prefix_iff_eq_take.1 hpre).symm

theorem startsAt_of_slice {t : Text} {s : CodePoints} {i j : Nat} (hij : i ≤ j) (hj : j ≤ t.size)
    (h : .ofString (t.slice i j) = s) : t.startsAt s i = true ∧ j = i + s.length := by
  have hs : s = ((t.toList.drop i).map .char).take (j - i) := by
    rw [← h, CodePoints.ofString, toList_slice t (Nat.le_trans hij hj) hj, List.map_take]
  refine ⟨(startsAt_iff t _ _).2 (hs ▸ List.take_prefix _ _), ?_⟩
  have hlen : s.length = j - i := by
    rw [hs, List.length_take, List.length_map, List.length_drop, Array.length_toList]
    omega
  omega

end Text

/-! ## Splitting a stretch -/

/-- The terms split the stretch from `p` to `q` into pieces from left to right, one for each term. A
literal is its piece, a pattern matched at the start of its piece ends where the piece ends, and a
reference stands over a piece that is `known` of its rule. -/
inductive Splits (text : Text) (known : String → Nat → Nat → Prop) : List Term → Nat → Nat → Prop
  | nil {p : Nat} : Splits text known [] p p
  | literal {s : CodePoints} {ts : List Term} {p m q : Nat} (hpm : p ≤ m) (hm : m ≤ text.size)
      (hs : .ofString (text.slice p m) = s) (rest : Splits text known ts m q) :
      Splits text known (.literal s :: ts) p q
  | pattern {r : Regex} {ts : List Term} {p m q : Nat} (hr : r.matchEnd? text p = some m)
      (rest : Splits text known ts m q) : Splits text known (.pattern r :: ts) p q
  | reference {name : String} {ts : List Term} {p m q : Nat} (hk : known name p m)
      (rest : Splits text known ts m q) : Splits text known (.reference name :: ts) p q

namespace Splits

variable {text : Text} {known known' : String → Nat → Nat → Prop} {ts : List Term} {p q : Nat}

theorem mono (hk : ∀ name i j, known name i j → known' name i j) (h : Splits text known ts p q) :
    Splits text known' ts p q := by
  induction h with
  | nil => exact .nil
  | literal hpm hm hs _ ih => exact .literal hpm hm hs ih
  | pattern hr _ ih => exact .pattern hr ih
  | reference hn _ ih => exact .reference (hk _ _ _ hn) ih

theorem append {us : List Term} {m : Nat}
    (h : Splits text known ts p m) (h' : Splits text known us m q) :
    Splits text known (ts ++ us) p q := by
  induction h with
  | nil => exact h'
  | literal hpm hm hs _ ih => exact .literal hpm hm hs (ih h')
  | pattern hr _ ih => exact .pattern hr (ih h')
  | reference hk _ ih => exact .reference hk (ih h')

/-- Pieces that go forward inside the text make up a stretch that does. -/
theorem bounds (hk : ∀ name i j, known name i j → i ≤ j ∧ j ≤ text.size) (hp : p ≤ text.size)
    (h : Splits text known ts p q) : p ≤ q ∧ q ≤ text.size := by
  induction h with
  | nil => exact ⟨Nat.le_refl _, hp⟩
  | literal hpm hm _ _ ih => exact ⟨Nat.le_trans hpm (ih hm).1, (ih hm).2⟩
  | @pattern r _ _ _ _ hr _ ih =>
    have hb := r.bounds hp hr
    exact ⟨Nat.le_trans hb.1 (ih hb.2).1, (ih hb.2).2⟩
  | reference hn _ ih =>
    have hb := hk _ _ _ hn
    exact ⟨Nat.le_trans hb.1 (ih hb.2).1, (ih hb.2).2⟩

end Splits

/-! ## Derivations -/

/-- The rule of this name derives the stretch from `p` to `q`: one of its alternatives splits it, and
the rules that the alternative refers to derive their pieces. -/
inductive Derives (g : Grammar) (text : Text) : String → Nat → Nat → Prop
  | rule {r : Rule} {a : Alternative} {name : String} {p q : Nat} (hr : g.rule? name = some r)
      (ha : a ∈ r.alternatives) (h : Splits text (Derives g text) a.terms p q) :
      Derives g text name p q

/-- The log holds the match of the rule over the stretch, at an index below `i`. -/
def RecordedBefore (log : Array Match) (i : Nat) (name : String) (p q : Nat) : Prop :=
  ∃ j < i, log[j]? = some ⟨name, p, q⟩

/-- A match is accounted for by what is `known`: it lies in the text, and an alternative of its rule
splits it. -/
def Accounted (g : Grammar) (text : Text) (known : String → Nat → Nat → Prop) (x : Match) : Prop :=
  ∃ p q : Nat, x.start = p ∧ x.stop = q ∧ p ≤ q ∧ q ≤ text.size ∧
    ∃ r, g.rule? x.name = some r ∧ ∃ a ∈ r.alternatives, Splits text known a.terms p q

/-- Every match of the log is accounted for by matches that were recorded before it. -/
def Justified (g : Grammar) (text : Text) (log : Array Match) : Prop :=
  ∀ i x, log[i]? = some x → Accounted g text (RecordedBefore log i) x

section

variable {g : Grammar} {text : Text} {log : Array Match}

theorem Accounted.mono {known known' : String → Nat → Nat → Prop} {x : Match}
    (hk : ∀ name i j, known name i j → known' name i j) (h : Accounted g text known x) :
    Accounted g text known' x := by
  obtain ⟨p, q, hp, hq, hpq, hqs, r, hr, a, ha, hsp⟩ := h
  exact ⟨p, q, hp, hq, hpq, hqs, r, hr, a, ha, hsp.mono hk⟩

theorem justified_empty : Justified g text #[] := by
  intro i x hx
  simp at hx

/-- A match may be added to the log as soon as it is accounted for by the log as it stands. -/
theorem Justified.push {x : Match} (h : Justified g text log)
    (hx : Accounted g text (fun name p q => (⟨name, p, q⟩ : Match) ∈ log) x) :
    Justified g text (log.push x) := by
  intro i y hy
  -- an entry that was there keeps its index, so what stood before it still does
  have hold : ∀ {j : Nat} {z : Match}, log[j]? = some z → (log.push x)[j]? = some z := by
    intro j z hz
    have hj : j < log.size := (Array.getElem?_eq_some_iff.1 hz).1
    rw [Array.getElem?_push_lt hj, ← hz, Array.getElem?_eq_getElem hj]
  rw [Array.getElem?_push] at hy
  split at hy
  · rename_i hi
    simp only [Option.some.injEq] at hy
    subst hy
    refine hx.mono fun name p q hmem => ?_
    obtain ⟨j, hj, hz⟩ := Array.mem_iff_getElem.1 hmem
    exact ⟨j, hi ▸ hj, hold (by rw [Array.getElem?_eq_getElem hj, hz])⟩
  · exact (h i y hy).mono fun name p q ⟨j, hj, hz⟩ => ⟨j, hj, hold hz⟩

/-- A log that goes on justifies what it held before. -/
theorem Justified.of_prefix {log' : Array Match} (h : Justified g text log')
    (hpre : log.toList <+: log'.toList) : Justified g text log := by
  -- the entries of the shorter log stand at the same indices in the longer one
  have hsame : ∀ {j : Nat}, j < log.size → log'[j]? = log[j]? := by
    intro j hj
    obtain ⟨rest, hrest⟩ := hpre
    rw [← Array.getElem?_toList, ← Array.getElem?_toList, ← hrest,
      List.getElem?_append_left (by simpa using hj)]
  intro i x hx
  have hi : i < log.size := (Array.getElem?_eq_some_iff.1 hx).1
  refine (h i x (by rw [hsame hi, hx])).mono fun name p q ⟨j, hj, hz⟩ => ?_
  exact ⟨j, hj, by rw [← hsame (Nat.lt_trans hj hi), hz]⟩

/-- A justified log only holds matches that can be derived. The induction is on the index: whatever
accounts for an entry stands before it. -/
theorem Justified.derives (h : Justified g text log) :
    ∀ (i : Nat) {name : String} {p q : Nat}, log[i]? = some ⟨name, p, q⟩ →
      Derives g text name p q := by
  intro i
  induction i using Nat.strongRecOn with
  | ind i ih =>
    intro name p q hi
    obtain ⟨p', q', hp, hq, -, -, r, hr, a, ha, hsp⟩ := h i _ hi
    have hp' : p' = p := Int.ofNat.inj hp.symm
    have hq' : q' = q := Int.ofNat.inj hq.symm
    subst hp' hq'
    exact .rule hr ha (hsp.mono fun name k l ⟨j, hj, hz⟩ => ih j hj hz)

theorem Justified.derives_of_mem (h : Justified g text log) {name : String} {p q : Nat}
    (hx : (⟨name, p, q⟩ : Match) ∈ log) : Derives g text name p q := by
  obtain ⟨i, hi, hz⟩ := Array.mem_iff_getElem.1 hx
  exact h.derives i (by rw [Array.getElem?_eq_getElem hi, hz])

end

end Packrat
