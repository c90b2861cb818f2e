import Packrat.Proofs.Outcome
import Packrat.Proofs.Tree.Structure

/-!
# `Packrat/Proofs/Tree/Root.lean` — which match becomes the root

The root should be the match of the start rule over the whole text. The forest knows nothing of the
start rule: it sees stretches, and a match that was recorded in an attempt and given up later is put
like any other. Two things can come between the start rule and the root.

* A later match may go over it or beside it: one over the whole text, too, or an empty one at the end
  of the text. No other later match can, for they are shut out (`SeenLast`).
* An empty match at the beginning may be left standing on the left. It happens only where nothing but
  empty matches at the beginning came before the first match over the whole text (`Stranded`).

`root_iff` says that there is nothing else. The proof follows the forest through the list of matches:
`Stage` has the forms that it can take, as far as the edges are concerned.
-/

set_option autoImplicit false

namespace Packrat

namespace Completed

/-- The match is over the whole of a text of `n` characters. -/
def Spans (n : Int) (m : Completed) : Prop := m.start = 0 ∧ m.stop = n

def EmptyAt (p : Int) (m : Completed) : Prop := m.start = p ∧ m.stop = p

/-- The match lies in a text of `n` characters. -/
structure Within (n : Int) (m : Completed) : Prop where
  named : m.name ≠ none
  first : 0 ≤ m.start
  forward : m.start ≤ m.stop
  last : m.stop ≤ n

/-- No match behind `x` is over the whole text or empty at its end. -/
def SeenLast (n : Int) (ms : List Completed) (x : Completed) : Prop :=
  ∃ before after, ms = before ++ x :: after ∧ ∀ m ∈ after, ¬ m.Spans n ∧ ¬ m.EmptyAt n

/-- Empty matches at the beginning, one at least, and then a match over the whole text; and no empty
match at the end of the text behind it. -/
def Stranded (n : Int) (ms : List Completed) : Prop :=
  0 < n ∧ ∃ empties whole rest, ms = empties ++ whole :: rest ∧ empties ≠ [] ∧
    (∀ m ∈ empties, m.EmptyAt 0) ∧ whole.Spans n ∧ ∀ m ∈ rest, ¬ m.EmptyAt n

variable {n : Int} {ms : List Completed} {m x y : Completed}

/-! ## The two conditions, one match after the other -/

theorem SeenLast.last (ms : List Completed) (m : Completed) : SeenLast n (ms ++ [m]) m :=
  ⟨ms, [], rfl, by simp⟩

theorem SeenLast.append (h : SeenLast n ms x) (hm : ¬ m.Spans n ∧ ¬ m.EmptyAt n) :
    SeenLast n (ms ++ [m]) x := by
  obtain ⟨before, after, rfl, hafter⟩ := h
  refine ⟨before, after ++ [m], by simp, fun y hy => ?_⟩
  rcases List.mem_append.1 hy with hy | hy
  · exact hafter y hy
  · cases List.mem_singleton.1 hy
    exact hm

theorem SeenLast.mem (h : SeenLast n ms x) : x ∈ ms := by
  obtain ⟨before, after, rfl, -⟩ := h
  simp

/-- There is one such match. -/
theorem SeenLast.unique (hx : SeenLast n ms x) (hy : SeenLast n ms y)
    (hxn : x.Spans n ∨ x.EmptyAt n) (hyn : y.Spans n ∨ y.EmptyAt n) : x = y := by
  obtain ⟨before, after, rfl, hafter⟩ := hx
  obtain ⟨before', after', heq, hafter'⟩ := hy
  -- of two places in the list one is the earlier, and the other one stands behind it
  rcases List.append_eq_append_iff.1 heq with ⟨mid, -, hmid⟩ | ⟨mid, -, hmid⟩
  · cases mid with
    | nil => exact (List.cons.inj hmid).1
    | cons z mid =>
      have hmem : y ∈ after := by
        rw [(List.cons.inj hmid).2]
        simp
      exact absurd hyn (not_or.2 (hafter y hmem))
  · cases mid with
    | nil => exact (List.cons.inj hmid).1.symm
    | cons z mid =>
      have hmem : x ∈ after' := by
        rw [(List.cons.inj hmid).2]
        simp
      exact absurd hxn (not_or.2 (hafter' x hmem))

theorem Stranded.append (h : Stranded n ms) (hm : ¬ m.EmptyAt n) : Stranded n (ms ++ [m]) := by
  obtain ⟨hn, empties, whole, rest, rfl, hne, hempties, hwhole, hrest⟩ := h
  refine ⟨hn, empties, whole, rest ++ [m], by simp, hne, hempties, hwhole, fun y hy => ?_⟩
  rcases List.mem_append.1 hy with hy | hy
  · exact hrest y hy
  · cases List.mem_singleton.1 hy
    exact hm

/-- A list of matches becomes stranded with its first match over the whole text, if at all. -/
theorem Stranded.of_append (h : Stranded n (ms ++ [m])) :
    Stranded n ms ∨ ∀ y ∈ ms, y.EmptyAt 0 := by
  obtain ⟨hn, empties, whole, rest, heq, hne, hempties, hwhole, hrest⟩ := h
  rcases List.eq_nil_or_concat' rest with rfl | ⟨rest, y, rfl⟩
  · right
    rw [(List.append_inj' heq rfl).1]
    exact hempties
  · left
    rw [← List.cons_append, ← List.append_assoc] at heq
    exact ⟨hn, empties, whole, rest, (List.append_inj' heq rfl).1, hne, hempties, hwhole,
      fun z hz => hrest z (List.mem_append_left _ hz)⟩

end Completed

open Completed

namespace Forest

/-! ## What the edges of the forest can look like -/

/-- The forms that the forest of the matches `ms` can take. -/
inductive Stage (n : Int) (ms : List Completed) (f : Forest) : Prop
  /-- Nothing but empty matches at the beginning. -/
  | blank {e : Node} (htrees : f.trees = [e]) (he : e.completed.EmptyAt 0) (hne : ms ≠ [])
      (hms : ∀ m ∈ ms, m.EmptyAt 0) (hn : 0 < n)
  /-- No match over the whole text. -/
  | partly (hfirst : 0 ≤ f.start) (hstop : 0 < f.stop) (hlast : f.stop ≤ n)
      (hnone : ∀ m ∈ ms, ¬ m.Spans n) (hsome : ∃ m ∈ ms, ¬ m.EmptyAt 0)
  /-- One tree over the whole text. -/
  | whole {t : Node} (htrees : f.trees = [t]) (ht : t.completed.Spans n)
      (hlast : SeenLast n ms t.completed) (hms : ¬ Stranded n ms)
  /-- One tree over the whole text, and an empty one on its left. -/
  | stranded {t e : Node} (htrees : f.trees = [t, e]) (ht : t.completed.Spans n)
      (he : e.completed.EmptyAt 0) (hms : Stranded n ms)
  /-- An empty tree at the end, behind one over the whole text. -/
  | trailing {z t : Node} {rest : List Node} (htrees : f.trees = z :: t :: rest)
      (hz : z.completed.EmptyAt n) (ht : t.completed.Spans n) (hn : 0 < n) (hfirst : f.start = 0)
      (hlast : ∃ x, x.EmptyAt n ∧ SeenLast n ms x)

section

variable {n : Int} {ms : List Completed} {f : Forest} {m : Completed}

theorem MadeOf.completed_mem (h : f.MadeOf ms) {t : Node} (ht : t ∈ f.trees) : t.completed ∈ ms :=
  h.listed.subset (Node.completed_mem_listingAll (List.mem_reverse.2 ht))

/-- Beside a tree over the whole text only matches over the whole text and empty ones at its end find a
place. -/
theorem add_eq_self {t : Node} (hf : f.Tidy) (ht : t ∈ f.trees) (htn : t.completed.Spans n)
    (hm : m.Within n) (hnot : ¬ m.Spans n ∧ ¬ m.EmptyAt n) : f.add m = f := by
  refine (hf.placed m).eq_of_shutOut hf hm.forward ?_
  have hstart : t.start = 0 := htn.1
  have hstop : t.stop = n := htn.2
  have hend := hf.stop_le ht
  have hfirst := hm.first
  have hlast := hm.last
  by_cases hlt : m.stop < n
  · exact Or.inl (by omega)
  · have hmstop : m.stop = n := by omega
    have hne : m.start ≠ 0 := fun h => hnot.1 ⟨h, hmstop⟩
    have hne' : m.start ≠ n := fun h => hnot.2 ⟨h, hmstop⟩
    have hforward := hm.forward
    exact Or.inr ⟨t, ht, by omega, by omega⟩

/-! ## One more match -/

theorem stage_single (hm : m.Within n) : Stage n [m] (single m) := by
  have hfirst := hm.first
  have hforward := hm.forward
  have hlast := hm.last
  by_cases hs : m.Spans n
  · refine .whole (t := .leaf m) rfl hs (SeenLast.last [] m) ?_
    rintro ⟨-, empties, whole, rest, heq, hne, -⟩
    obtain ⟨e, es, rfl⟩ := List.exists_cons_of_ne_nil hne
    have := congrArg List.length heq
    simp at this
  by_cases he : m.EmptyAt 0
  · have hn : n ≠ 0 := fun hn => hs (hn ▸ he)
    refine .blank (e := .leaf m) rfl he (by simp) (by simpa using he) ?_
    have := he.2
    omega
  · refine .partly hfirst ?_ hlast (by simpa using hs) ⟨m, by simp, he⟩
    have hpos : ¬ (m.start = 0 ∧ m.stop = 0) := he
    have hstop : (single m).stop = m.stop := rfl
    omega

/-- The first match over the whole text goes over the forest, if there is anything but empty matches
at the beginning. -/
theorem Stage.of_partly (hf : f.Tidy) (hmade : f.MadeOf ms) (hm : m.Within n) (hfirst : 0 ≤ f.start)
    (hstop : 0 < f.stop) (hlast : f.stop ≤ n) (hnone : ∀ m ∈ ms, ¬ m.Spans n)
    (hsome : ∃ m ∈ ms, ¬ m.EmptyAt 0) : Stage n (ms ++ [m]) (f.add m) := by
  obtain ⟨y, hy, hyne⟩ := hsome
  by_cases hs : m.Spans n
  · obtain ⟨last, before, htrees, -⟩ := hf.exists_last
    have hdiff : ¬ (last.start = m.start ∧ last.stop = m.stop) := by
      rintro ⟨hstart', hstop'⟩
      refine hnone _ (hmade.completed_mem (t := last) (by simp [htrees])) ⟨?_, ?_⟩
      · exact hstart'.trans hs.1
      · exact hstop'.trans hs.2
    have hbeyond : ¬ f.stop ≤ m.start := by
      rw [hs.1]
      omega
    have hcover : m.start ≤ f.start ∧ f.stop ≤ m.stop := by
      rw [hs.1, hs.2]
      exact ⟨hfirst, hlast⟩
    rw [add_of_diff htrees hdiff, place_of_cover hbeyond hcover]
    refine .whole rfl hs (SeenLast.last ms m) ?_
    -- had the list become stranded with this match, there would have been only empty ones before
    intro hst
    rcases hst.of_append with ⟨-, empties, whole, rest, rfl, -, -, hwhole, -⟩ | hempties
    · exact hnone whole (by simp) hwhole
    · exact hyne (hempties y hy)
  · have hnone' : ∀ x ∈ ms ++ [m], ¬ x.Spans n := by
      intro x hx
      rcases List.mem_append.1 hx with hx | hx
      · exact hnone x hx
      · cases List.mem_singleton.1 hx
        exact hs
    have hm0 := hm.first
    have hmn := hm.last
    have hedges := (hf.placed m).edges hf hm.forward
    refine .partly ?_ ?_ ?_ hnone' ⟨y, List.mem_append_left _ hy, hyne⟩
    · rcases hedges with heq | ⟨-, -, hle⟩
      · rwa [heq]
      · omega
    · rcases hedges with heq | ⟨hle, -, -⟩
      · rwa [heq]
      · omega
    · rcases hedges with heq | ⟨-, hend, -⟩
      · rwa [heq]
      · omega

theorem Stage.of_blank {e : Node} (hf : f.Tidy) (hm : m.Within n) (htrees : f.trees = [e])
    (he : e.completed.EmptyAt 0) (hne : ms ≠ []) (hms : ∀ m ∈ ms, m.EmptyAt 0) (hn : 0 < n) :
    Stage n (ms ++ [m]) (f.add m) := by
  have hshape := hf.eq_of_trees htrees
  have hstart : e.start = 0 := he.1
  have hstop : e.stop = 0 := he.2
  by_cases hempty : m.EmptyAt 0
  · have hsame : e.start = m.start ∧ e.stop = m.stop := by
      rw [hempty.1, hempty.2]
      exact he
    rw [add_of_same_span htrees hsame]
    refine .blank rfl hempty (by simp) (fun x hx => ?_) hn
    rcases List.mem_append.1 hx with hx | hx
    · exact hms x hx
    · cases List.mem_singleton.1 hx
      exact hempty
  -- any other match goes to the right of the empty one
  have hdiff : ¬ (e.start = m.start ∧ e.stop = m.stop) := by
    rintro ⟨h1, h2⟩
    exact hempty ⟨h1.symm.trans hstart, h2.symm.trans hstop⟩
  have hfstop : f.stop = 0 := by rw [hshape, hstop]
  have hfstart : f.start = 0 := by rw [hshape, hstart]
  have hbeyond : f.stop ≤ m.start := hfstop ▸ hm.first
  rw [add_of_diff htrees hdiff, place_of_beyond hbeyond, htrees]
  by_cases hs : m.Spans n
  · exact .stranded rfl hs he ⟨hn, ms, m, [], rfl, hne, hms, hs, by simp⟩
  · have hfirst := hm.first
    have hforward := hm.forward
    refine .partly (Int.le_of_eq hfstart.symm) ?_ hm.last (fun x hx => ?_) ⟨m, by simp, hempty⟩
    · have hpos : ¬ (m.start = 0 ∧ m.stop = 0) := hempty
      dsimp only
      omega
    · rcases List.mem_append.1 hx with hx | hx
      · intro hxs
        have h0 := (hms x hx).2
        have h1 := hxs.2
        omega
      · cases List.mem_singleton.1 hx
        exact hs

theorem Stage.of_whole {t : Node} (hf : f.Tidy) (hm : m.Within n) (htrees : f.trees = [t])
    (ht : t.completed.Spans n) (hlast : SeenLast n ms t.completed) (hms : ¬ Stranded n ms) :
    Stage n (ms ++ [m]) (f.add m) := by
  have hshape := hf.eq_of_trees htrees
  have hstart : t.start = 0 := ht.1
  have hstop : t.stop = n := ht.2
  have hnot : ¬ Stranded n (ms ++ [m]) := by
    intro hst
    rcases hst.of_append with hst' | hempties
    · exact hms hst'
    · have h0 := (hempties _ hlast.mem).2.symm.trans ht.2
      have hn := hst.1
      omega
  by_cases hs : m.Spans n
  · have hsame : t.start = m.start ∧ t.stop = m.stop := by
      rw [hs.1, hs.2]
      exact ht
    rw [add_of_same_span htrees hsame]
    exact .whole rfl hs (SeenLast.last ms m) hnot
  by_cases hempty : m.EmptyAt n
  · have hn : n ≠ 0 := by
      rintro rfl
      exact hs hempty
    have hpos : 0 < n := by
      have h1 := hm.first
      have h2 := hempty.1
      omega
    have hdiff : ¬ (t.start = m.start ∧ t.stop = m.stop) := by
      rw [hempty.1, hstart]
      omega
    have hbeyond : f.stop ≤ m.start := by
      rw [hshape, hempty.1]
      exact Int.le_of_eq hstop
    rw [add_of_diff htrees hdiff, place_of_beyond hbeyond, htrees]
    exact .trailing rfl hempty ht hpos (by rw [hshape]; exact hstart) ⟨m, hempty, SeenLast.last ms m⟩
  · rw [add_eq_self hf (by simp [htrees]) ht hm ⟨hs, hempty⟩]
    exact .whole htrees ht (hlast.append ⟨hs, hempty⟩) hnot

theorem Stage.of_stranded {t e : Node} (hf : f.Tidy) (hm : m.Within n) (htrees : f.trees = [t, e])
    (ht : t.completed.Spans n) (he : e.completed.EmptyAt 0) (hms : Stranded n ms) :
    Stage n (ms ++ [m]) (f.add m) := by
  have hn := hms.1
  have hstart : t.start = 0 := ht.1
  have hstop : t.stop = n := ht.2
  have hedges : f.start = e.start ∧ f.stop = t.stop := by
    have hs := hf.spanning
    rw [htrees, spanning, Option.some.injEq] at hs
    rw [← hs]
    exact ⟨rfl, rfl⟩
  by_cases hs : m.Spans n
  · have hsame : t.start = m.start ∧ t.stop = m.stop := by
      rw [hs.1, hs.2]
      exact ht
    rw [add_of_same_span htrees hsame]
    refine .stranded rfl hs he (hms.append fun hempty => ?_)
    have h0 := hs.1.symm.trans hempty.1
    omega
  by_cases hempty : m.EmptyAt n
  · have hdiff : ¬ (t.start = m.start ∧ t.stop = m.stop) := by
      rw [hempty.1, hstart]
      omega
    have hbeyond : f.stop ≤ m.start := by
      rw [hedges.2, hempty.1]
      exact Int.le_of_eq hstop
    rw [add_of_diff htrees hdiff, place_of_beyond hbeyond, htrees]
    exact .trailing rfl hempty ht hn (hedges.1.trans he.1) ⟨m, hempty, SeenLast.last ms m⟩
  · rw [add_eq_self hf (by simp [htrees]) ht hm ⟨hs, hempty⟩]
    exact .stranded htrees ht he (hms.append hempty)

theorem Stage.of_trailing {z t : Node} {rest : List Node} (hf : f.Tidy) (hm : m.Within n)
    (htrees : f.trees = z :: t :: rest) (hz : z.completed.EmptyAt n) (ht : t.completed.Spans n)
    (hn : 0 < n) (hfirst : f.start = 0) (hlast : ∃ x, x.EmptyAt n ∧ SeenLast n ms x) :
    Stage n (ms ++ [m]) (f.add m) := by
  obtain ⟨x, hx, hxlast⟩ := hlast
  have hzstart : z.start = n := hz.1
  have hzstop : z.stop = n := hz.2
  have hfstop : f.stop = n := by
    have hs := hf.spanning
    rw [htrees, spanning, Option.some.injEq] at hs
    rw [← hs]
    exact hzstop
  by_cases hs : m.Spans n
  · have hdiff : ¬ (z.start = m.start ∧ z.stop = m.stop) := by
      rw [hzstart, hs.1]
      omega
    have hbeyond : ¬ f.stop ≤ m.start := by
      rw [hfstop, hs.1]
      omega
    have hcover : m.start ≤ f.start ∧ f.stop ≤ m.stop := by
      rw [hs.1, hs.2, hfirst, hfstop]
      exact ⟨Int.le_refl _, Int.le_refl _⟩
    rw [add_of_diff htrees hdiff, place_of_cover hbeyond hcover]
    refine .whole rfl hs (SeenLast.last ms m) fun hst => ?_
    -- a list that is stranded has no empty match at the end of the text
    rcases hst.of_append with ⟨-, empties, whole, rest, rfl, -, hempties, hwhole, hrest⟩ | hempties
    · have hmem := hxlast.mem
      rcases List.mem_append.1 hmem with hmem | hmem
      · have h0 := (hempties x hmem).2.symm.trans hx.2
        omega
      rcases List.mem_cons.1 hmem with rfl | hmem
      · have h0 := hwhole.1.symm.trans hx.1
        omega
      · exact hrest x hmem hx
    · have h0 := (hempties x hxlast.mem).2.symm.trans hx.2
      omega
  by_cases hempty : m.EmptyAt n
  · have hsame : z.start = m.start ∧ z.stop = m.stop := by
      rw [hempty.1, hempty.2]
      exact hz
    rw [add_of_same_span htrees hsame]
    exact .trailing rfl hempty ht hn hfirst ⟨m, hempty, SeenLast.last ms m⟩
  · rw [add_eq_self hf (by simp [htrees]) ht hm ⟨hs, hempty⟩]
    exact .trailing htrees hz ht hn hfirst ⟨x, hx, hxlast.append ⟨hs, hempty⟩⟩

/-- The forest has one of the forms behind every match. -/
theorem Stage.add (h : Stage n ms f) (hf : f.Tidy) (hmade : f.MadeOf ms) (hm : m.Within n) :
    Stage n (ms ++ [m]) (f.add m) := by
  cases h with
  | blank htrees he hne hms hn => exact .of_blank hf hm htrees he hne hms hn
  | partly hfirst hstop hlast hnone hsome =>
    exact .of_partly hf hmade hm hfirst hstop hlast hnone hsome
  | whole htrees ht hlast hms => exact .of_whole hf hm htrees ht hlast hms
  | stranded htrees ht he hms => exact .of_stranded hf hm htrees ht he hms
  | trailing htrees hz ht hn hfirst hlast => exact .of_trailing hf hm htrees hz ht hn hfirst hlast

theorem exists_stage (hne : ms ≠ []) (hms : ∀ m ∈ ms, m.Within n) :
    ∃ f, grown ms = some f ∧ f.Tidy ∧ f.MadeOf ms ∧ Stage n ms f :=
  grown_induction (P := fun ms f => f.MadeOf ms ∧ Stage n ms f) (fun _ hm => hm.forward)
    (fun _ hm => ⟨madeOf_single hm.named, stage_single hm⟩)
    (fun _ _ _ _ hf hm h => ⟨h.1.add hf hm.named, h.2.add hf h.1 hm⟩) ms hne hms

end

end Forest

/-! ## The root -/

/-- Of matches in a text, one over the whole text is the root just if no match behind it is over the
whole text or empty at its end, and the list is not stranded. -/
theorem Node.root_completed_iff {n : Int} {ms : List Completed} (hms : ∀ m ∈ ms, m.Within n)
    {x : Completed} (hx : x ∈ ms) (hxn : x.Spans n) :
    ∃ root, Node.ofCompleted? ms = some root ∧
      (root.completed = x ↔ SeenLast n ms x ∧ ¬ Stranded n ms) := by
  have hne : ms ≠ [] := List.ne_nil_of_mem hx
  obtain ⟨f, hf, htidy, hmade, hstage⟩ := Forest.exists_stage hne hms
  refine ⟨f.root.unwrap, by rw [Forest.ofCompleted?_eq, ← Forest.grown, hf, Option.map_some], ?_⟩
  have hroot := htidy.unwrap_root fun t ht => hmade.named t (Forest.mem_nodes_of_mem_trees ht)
  have hname := (hms x hx).named
  cases hstage with
  | blank htrees he hne hempties hn =>
    have h0 := (hempties x hx).2.symm.trans hxn.2
    omega
  | partly hfirst hstop hlast hnone hsome => exact absurd hxn (hnone x hx)
  | @whole t htrees ht hlast hstranded =>
    rcases hroot with ⟨t', htrees', hunwrap⟩ | ⟨htwo, -⟩
    · cases (List.cons.inj (htrees.symm.trans htrees')).1
      rw [hunwrap]
      constructor
      · rintro rfl
        exact ⟨hlast, hstranded⟩
      · rintro ⟨hxlast, -⟩
        exact hlast.unique hxlast (Or.inl ht) (Or.inl hxn)
    · rw [htrees] at htwo
      simp at htwo
  | stranded htrees ht he hstranded =>
    rcases hroot with ⟨t', htrees', -⟩ | ⟨-, hunwrap⟩
    · rw [htrees] at htrees'
      simp at htrees'
    · rw [hunwrap]
      constructor
      · rintro rfl
        exact absurd rfl hname
      · rintro ⟨-, hnot⟩
        exact absurd hstranded hnot
  | trailing htrees hz ht hn hfirst hlast =>
    obtain ⟨y, hy, hylast⟩ := hlast
    rcases hroot with ⟨t', htrees', -⟩ | ⟨-, hunwrap⟩
    · rw [htrees] at htrees'
      simp at htrees'
    · rw [hunwrap]
      constructor
      · rintro rfl
        exact absurd rfl hname
      · rintro ⟨hxlast, -⟩
        have heq := hxlast.unique hylast (Or.inl hxn) (Or.inr hy)
        have h0 : (0 : Int) = n := hxn.1.symm.trans (heq ▸ hy.1)
        omega

/-! ## The matches of a run -/

variable {g : Grammar} {text : Text}

/-- The matches that the run recorded, as the tree sees them. -/
def Cursor.completed (c : Cursor text) : List Completed := c.memo.log.toList.map Match.completed

theorem Cursor.tree?_eq (c : Cursor text) : c.tree? = Node.ofCompleted? c.completed := rfl

/-- A run records matches that lie in the text. -/
theorem Memo.Sound.within {m : Memo} (h : m.Sound g text) {x : Match} (hx : x ∈ m.log) :
    x.completed.Within text.size := by
  obtain ⟨i, hi, rfl⟩ := Array.mem_iff_getElem.1 hx
  obtain ⟨p, q, hp, hq, hpq, hqs, -⟩ := h.justified i _ (Array.getElem?_eq_getElem hi)
  have hstart : m.log[i].completed.start = p := hp
  have hstop : m.log[i].completed.stop = q := hq
  exact ⟨by simp [Match.completed], by omega, by omega, by omega⟩

theorem Cursor.within_completed {c : Cursor text} (h : c.memo.Sound g text) :
    ∀ m ∈ c.completed, m.Within text.size := by
  intro m hm
  obtain ⟨x, hx, rfl⟩ := List.mem_map.1 hm
  exact h.within (Array.mem_toList_iff.1 hx)

/-- Where the start rule matches the whole text, the root of the tree is this match just if no match
recorded behind it is over the whole text or empty at its end, and the matches are not stranded: the
first one over the whole text does not come behind empty matches at the beginning and nothing else, or
an empty match at the end of the text comes behind it. -/
theorem root_iff {lib : Regex.Library} {s : RuleSet} (hs : s.compile lib = .ok g)
    {start : Option String} {limit : Int} {c : Cursor text} (h : g.parse text start limit = .ok c) :
    ∃ r, g.startRule start = .ok r ∧ (c.Whole r →
      ∃ root, c.tree? = some root ∧ (root.completed = ⟨some r.name, 0, text.size⟩ ↔
        SeenLast text.size c.completed ⟨some r.name, 0, text.size⟩ ∧
          ¬ Stranded text.size c.completed)) := by
  obtain ⟨r, hr, hset, -⟩ := Grammar.settled_of_parse (RuleSet.owned_of_compile hs) h
  refine ⟨r, hr, fun hw => ?_⟩
  refine Node.root_completed_iff (Cursor.within_completed hset.toSound) ?_ ⟨rfl, rfl⟩
  exact List.mem_map.2 ⟨_, Array.mem_toList_iff.2 hw.1, rfl⟩

theorem exists_parse_sum :
    ∃ c, sumGrammar.parse #['1', '+', '1'] none 5 = .ok c ∧ c.Whole sumRule ∧
      c.completed = [⟨some "item", 0, 1⟩, ⟨some "sum", 0, 1⟩, ⟨some "item", 2, 3⟩, ⟨some "sum", 0, 3⟩] := by
  have hend : (sumGrammar.parse #['1', '+', '1'] none 5).toOption.map (fun c => c.memo.log) =
      some #[⟨"item", 0, 1⟩, ⟨"sum", 0, 1⟩, ⟨"item", 2, 3⟩, ⟨"sum", 0, 3⟩] := by decide +kernel
  obtain ⟨c, hc, hlog⟩ := exists_of_toOption_map hend
  refine ⟨c, hc, ?_, by rw [Cursor.completed, hlog]; rfl⟩
  rw [Cursor.Whole, hlog]
  simp [sumRule]

theorem root_sum :
    sums.compile .standard = .ok sumGrammar ∧
    ∃ c, sumGrammar.parse #['1', '+', '1'] none 5 = .ok c ∧ c.Whole sumRule ∧
      ∃ root, c.tree? = some root ∧ root.completed = ⟨some "sum", 0, 3⟩ := by
  obtain ⟨c, hc, hw, hlist⟩ := exists_parse_sum
  obtain ⟨r, hr, hroot⟩ := root_iff (compile_sums .standard) hc
  cases (show Except.ok sumRule = .ok r from hr)
  obtain ⟨root, htree, hiff⟩ := hroot hw
  rw [hlist] at hiff
  refine ⟨rfl, c, hc, hw, root, htree, hiff.2 ⟨?_, ?_⟩⟩
  · exact SeenLast.last [⟨some "item", 0, 1⟩, ⟨some "sum", 0, 1⟩, ⟨some "item", 2, 3⟩] _
  · rintro ⟨-, empties, whole, rest, heq, hne, hempties, -⟩
    obtain ⟨e, es, rfl⟩ := List.exists_cons_of_ne_nil hne
    have hfirst := hempties e List.mem_cons_self
    rw [← (List.cons.inj heq).1] at hfirst
    exact absurd hfirst.2 (by decide)

/-! ## A match that was given up, over the start rule -/

/-- The second alternative of `s` tries `r`, which matches, and gives up behind it. -/
def secondThought : RuleSet :=
  ⟨[("s", [[.literal "a"], [.reference "r", .literal "b"]]), ("r", [[.literal "a"]])], some "s"⟩

def secondThoughtRule : Rule :=
  ⟨"s", [⟨"s", [.literal "a"]⟩, ⟨"s", [.reference "r", .literal "b"]⟩]⟩

def secondThoughtGrammar : Grammar :=
  ⟨[secondThoughtRule, ⟨"r", [⟨"r", [.literal "a"]⟩]⟩], some "s"⟩

/-- On `a` the match of `r` is recorded behind that of `s`, and goes over it. -/
theorem root_not_start :
    secondThought.compile .standard = .ok secondThoughtGrammar ∧
    secondThoughtGrammar.startRule none = .ok secondThoughtRule ∧
    ∃ c, secondThoughtGrammar.parse #['a'] none 200 = .ok c ∧ c.Whole secondThoughtRule ∧
      c.tree? = some ⟨some "r", 0, 1, [⟨some "s", 0, 1, []⟩]⟩ := by
  have hend : (secondThoughtGrammar.parse #['a'] none 200).toOption.map (fun c => c.memo.log) =
      some #[⟨"s", 0, 1⟩, ⟨"r", 0, 1⟩] := by decide +kernel
  obtain ⟨c, hc, hlog⟩ := exists_of_toOption_map hend
  refine ⟨rfl, rfl, c, hc, ?_, ?_⟩
  · rw [Cursor.Whole, hlog]
    simp [secondThoughtRule]
  · rw [Cursor.tree?, hlog]
    rfl

end Packrat
