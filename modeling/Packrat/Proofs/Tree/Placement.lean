import Mathlib.Data.List.TakeWhile
import Packrat.Proofs.Tree.Listing

/-!
# `Packrat/Proofs/Tree/Placement.lean` — where a match is put

A forest tries five ways to put a match, one after the other. What the five come to is simpler than
any of them, as long as the forest is `Tidy`: its trees stand side by side, and its stretch is theirs.
A match is then either `ShutOut`, and nothing happens; or it becomes the last tree of the forest, over
trees that lie inside it, with all others on its left (`Tidy.placed`). So a forest stays tidy, and
nothing that was put into it is moved or lost: a match is written behind the listing of the trees
(`listingAll_put`), and the nodes of the trees stay the nodes they are (`mem_nodes_put`).

Matches may be empty here, unlike in a listing. Empty trees can stand at the edge of a match without
being taken by it, which is why `Placed.put` does not say that the trees on the left begin before the
match.
-/

set_option autoImplicit false

namespace Packrat

namespace Forest

/-! ## Tidy forests -/

/-- Trees side by side, the last one first, over just the stretch of the forest. -/
structure Tidy (f : Forest) : Prop where
  spanning : spanning f.trees = some f
  forward : ∀ t ∈ f.trees, t.start ≤ t.stop
  apart : f.trees.Pairwise fun t s => s.stop ≤ t.start

/-- The match ends before the forest does, or begins in the middle of one of its trees. -/
def ShutOut (f : Forest) (m : Completed) : Prop :=
  m.stop < f.stop ∨ ∃ t ∈ f.trees, t.start < m.start ∧ m.start < t.stop

/-- What putting the match `m` may do to the forest. -/
inductive Placed (f : Forest) (m : Completed) : Forest → Prop
  | shutOut (h : f.ShutOut m) : Placed f m f
  /-- The match goes over the trees `inner`, and the trees `kept` stand on its left. -/
  | put {inner kept : List Node} {f' : Forest} (htrees : f.trees = inner ++ kept)
      (inside : ∀ t ∈ inner, m.start ≤ t.start ∧ t.stop ≤ m.stop)
      (left : ∀ t ∈ kept, t.stop ≤ m.start) (h : spanning (above m inner :: kept) = some f') :
      Placed f m f'

theorem trees_of_spanning {ts : List Node} {f : Forest} (h : spanning ts = some f) :
    f.trees = ts := by
  cases ts with
  | nil => exact absurd h (by simp [spanning])
  | cons t ts =>
    cases h
    rfl

theorem tidy_single {m : Completed} (hm : m.start ≤ m.stop) : (single m).Tidy where
  spanning := rfl
  forward := by simpa [single, Node.leaf] using hm
  apart := List.pairwise_singleton _ _

namespace Tidy

variable {f : Forest}

/-- There is a last tree, and the forest ends with it. -/
theorem exists_last (h : f.Tidy) :
    ∃ last before, f.trees = last :: before ∧ f.stop = last.stop := by
  have hs := h.spanning
  cases ht : f.trees with
  | nil =>
    rw [ht] at hs
    exact absurd hs (by simp [Forest.spanning])
  | cons last before =>
    rw [ht, Forest.spanning, Option.some.injEq] at hs
    exact ⟨last, before, rfl, by rw [← hs]⟩

/-- There is a first tree, and the forest begins with it. -/
theorem exists_first (h : f.Tidy) :
    ∃ first behind, f.trees = behind ++ [first] ∧ f.start = first.start := by
  have hs := h.spanning
  cases ht : f.trees with
  | nil =>
    rw [ht] at hs
    exact absurd hs (by simp [Forest.spanning])
  | cons t ts =>
    rw [ht, Forest.spanning, Option.some.injEq] at hs
    exact ⟨_, _, (List.dropLast_append_getLast (l := t :: ts) (by simp)).symm, by rw [← hs]⟩

theorem start_le (h : f.Tidy) {t : Node} (ht : t ∈ f.trees) : f.start ≤ t.start := by
  obtain ⟨first, behind, htrees, hstart⟩ := h.exists_first
  have hfirst : first ∈ f.trees := by simp [htrees]
  have hforward := h.forward first hfirst
  have hapart := h.apart
  rw [htrees] at ht hapart
  rw [hstart]
  rcases List.mem_append.1 ht with ht | ht
  · have hleft := (List.pairwise_append.1 hapart).2.2 t ht first (by simp)
    omega
  · cases List.mem_singleton.1 ht
    exact Int.le_refl _

theorem stop_le (h : f.Tidy) {t : Node} (ht : t ∈ f.trees) : t.stop ≤ f.stop := by
  obtain ⟨last, before, htrees, hstop⟩ := h.exists_last
  have hlast : last ∈ f.trees := by simp [htrees]
  have hforward := h.forward last hlast
  have hapart := h.apart
  rw [htrees] at ht hapart
  rw [hstop]
  rcases List.mem_cons.1 ht with rfl | ht
  · exact Int.le_refl _
  · have hleft := (List.pairwise_cons.1 hapart).1 t ht
    omega

/-- A forest of one tree spans what the tree spans. -/
theorem eq_of_trees (h : f.Tidy) {t : Node} (ht : f.trees = [t]) : f = ⟨t.start, t.stop, [t]⟩ := by
  have hs := h.spanning
  rw [ht, Forest.spanning, Option.some.injEq] at hs
  exact hs.symm

end Tidy

/-! ## The five ways -/

section

variable {f : Forest} {m : Completed} {last : Node} {before : List Node}

/-- A tree over which the match goes alone ends where the match ends. -/
theorem placed_of_same_span (h : f.Tidy) (ht : f.trees = last :: before)
    (hsame : last.start = m.start ∧ last.stop = m.stop) : Placed f m (f.add m) := by
  have hapart := h.apart
  have hs := h.spanning
  rw [ht] at hapart hs
  have htrees : f.trees = [last] ++ before := ht
  refine .put htrees ?_ ?_ ?_
  · intro t hmem
    cases List.mem_singleton.1 hmem
    omega
  · intro t hmem
    have hleft := (List.pairwise_cons.1 hapart).1 t hmem
    omega
  · rw [add_of_same_span ht hsame]
    -- the last tree has changed, but neither edge of the forest has moved
    cases before with
    | nil =>
      rw [spanning, Option.some.injEq] at hs
      rw [spanning, ← hs]
      simp [above, hsame]
    | cons s before =>
      rw [spanning, Option.some.injEq] at hs
      rw [spanning, ← hs]
      simp [above, hsame]

theorem placed_of_beyond (h : f.Tidy) (hbeyond : f.stop ≤ m.start) :
    Placed f m (add.place f m) := by
  have htrees : f.trees = [] ++ f.trees := rfl
  refine .put htrees (by simp) ?_ ?_
  · intro t hmem
    exact Int.le_trans (h.stop_le hmem) hbeyond
  · rw [place_of_beyond hbeyond]
    exact spanning_cons h.spanning (above m [])

theorem placed_of_cover (h : f.Tidy) (hbeyond : ¬ f.stop ≤ m.start)
    (hcover : m.start ≤ f.start ∧ f.stop ≤ m.stop) : Placed f m (add.place f m) := by
  have htrees : f.trees = f.trees ++ [] := (List.append_nil _).symm
  refine .put htrees ?_ (by simp) ?_
  · intro t hmem
    exact ⟨Int.le_trans hcover.1 (h.start_le hmem), Int.le_trans (h.stop_le hmem) hcover.2⟩
  · rw [place_of_cover hbeyond hcover]
    rfl

/-- What begins at or behind the match stands behind everything that begins before it. -/
theorem gather?_cases (hbeyond : ¬ f.stop ≤ m.start) (h : f.Tidy) :
    (gather? f.trees m.start m.stop = none ∧ f.ShutOut m) ∨
    ∃ inner kept, gather? f.trees m.start m.stop = some (inner, kept) ∧ f.trees = inner ++ kept ∧
      (∀ t ∈ inner, m.start ≤ t.start ∧ t.stop ≤ m.stop) ∧ (∀ t ∈ kept, t.stop ≤ m.start) ∧
      f.stop ≤ m.stop := by
  obtain ⟨last, before, htrees, hstop⟩ := h.exists_last
  have hsplit := List.takeWhile_append_dropWhile (p := fun n : Node => decide (m.start ≤ n.start))
    (l := f.trees)
  have hbegin : ∀ t ∈ f.trees.takeWhile (m.start ≤ ·.start), m.start ≤ t.start := by
    intro t ht
    simpa using List.mem_takeWhile_imp ht
  rw [gather?]
  cases hinner : f.trees.takeWhile (m.start ≤ ·.start) with
  | nil =>
    -- the last tree begins before the match, and it reaches beyond the beginning of the match
    left
    refine ⟨rfl, Or.inr ⟨last, by simp [htrees], ?_, by omega⟩⟩
    rw [htrees] at hinner
    by_contra hlt
    rw [List.takeWhile_cons_of_pos (by simpa using Int.not_lt.1 hlt)] at hinner
    exact absurd hinner (by simp)
  | cons t inner =>
    have hfirst : t = last := by
      rw [hinner, htrees, List.cons_append] at hsplit
      exact (List.cons.inj hsplit).1
    subst hfirst
    dsimp only
    split
    · rename_i hlt
      exact Or.inl ⟨rfl, Or.inl (by omega)⟩
    rename_i hle
    have hinside : ∀ s ∈ t :: inner, m.start ≤ s.start ∧ s.stop ≤ m.stop := by
      intro s hs
      rw [← hinner] at hs
      have hmem : s ∈ f.trees := (List.takeWhile_sublist _).subset hs
      have hend := h.stop_le hmem
      exact ⟨hbegin s hs, by omega⟩
    cases hkept : f.trees.dropWhile (m.start ≤ ·.start) with
    | nil =>
      rw [hinner, hkept] at hsplit
      exact Or.inr ⟨_, _, rfl, hsplit.symm, hinside, by simp, by omega⟩
    | cons n kept =>
      rw [hinner, hkept] at hsplit
      have hn : n ∈ f.trees := by simp [← hsplit]
      have hnstart : n.start < m.start := by
        have hhead := List.head_dropWhile_not (fun n : Node => decide (m.start ≤ n.start))
          (l := f.trees) (by simp [hkept])
        simpa [hkept] using hhead
      dsimp only
      split
      · rename_i hlt
        exact Or.inl ⟨rfl, Or.inr ⟨n, hn, hnstart, hlt⟩⟩
      · rename_i hnle
        refine Or.inr ⟨_, _, rfl, hsplit.symm, hinside, ?_, by omega⟩
        have hapart := h.apart
        rw [← hsplit] at hapart
        have hkeptApart := (List.pairwise_append.1 hapart).2.1
        intro s hs
        rcases List.mem_cons.1 hs with rfl | hs
        · omega
        · have hleft := (List.pairwise_cons.1 hkeptApart).1 s hs
          omega

theorem placed_of_gather (h : f.Tidy) (hbeyond : ¬ f.stop ≤ m.start)
    (hcover : ¬ (m.start ≤ f.start ∧ f.stop ≤ m.stop)) : Placed f m (add.place f m) := by
  rcases gather?_cases hbeyond h with ⟨hnone, hout⟩ | ⟨inner, kept, hsome, htrees, hin, hleft, hend⟩
  · have hsame : add.place f m = f := by
      rw [add.place, if_neg hbeyond, if_neg hcover, hnone]
    rw [hsame]
    exact .shutOut hout
  · refine .put htrees hin hleft ?_
    rw [place_of_gather hbeyond hcover hsome, Int.max_eq_right hend]
    -- a match that takes all trees would cover the forest
    obtain ⟨first, behind, hfirst, hstart⟩ := h.exists_first
    have hne : kept ≠ [] := by
      rintro rfl
      rw [List.append_nil] at htrees
      have hf := (hin first (by simp [← htrees, hfirst])).1
      omega
    obtain ⟨k, ks, rfl⟩ := List.exists_cons_of_ne_nil hne
    have hlast : (k :: ks).getLast (by simp) = first := by
      have hall : (inner ++ k :: ks).getLast (by simp) = first := by
        simp [← htrees, hfirst]
      rwa [List.getLast_append_of_ne_nil (by simp) (by simp)] at hall
    rw [spanning, Option.some.injEq, List.getLast_cons (by simp), hlast, hstart]
    rfl

/-- A match is shut out of a tidy forest, or becomes its last tree. -/
theorem Tidy.placed (h : f.Tidy) (m : Completed) : Placed f m (f.add m) := by
  obtain ⟨last, before, htrees, -⟩ := h.exists_last
  by_cases hsame : last.start = m.start ∧ last.stop = m.stop
  · exact placed_of_same_span h htrees hsame
  rw [add_of_diff htrees hsame]
  by_cases hbeyond : f.stop ≤ m.start
  · exact placed_of_beyond h hbeyond
  by_cases hcover : m.start ≤ f.start ∧ f.stop ≤ m.stop
  · exact placed_of_cover h hbeyond hcover
  · exact placed_of_gather h hbeyond hcover

end

/-! ## What is put stays -/

/-- The nodes of the trees. -/
def nodes (f : Forest) : List Node := Node.preorderAll f.trees.reverse

end Forest

namespace Node

theorem mem_preorderAll {n : Node} (ns : List Node) :
    n ∈ preorderAll ns ↔ ∃ t ∈ ns, n ∈ t.preorder := by
  induction ns with
  | nil => simp [preorderAll]
  | cons t ns ih =>
    rw [preorderAll, List.mem_append, ih]
    simp

theorem mem_preorder_self : ∀ n : Node, n ∈ n.preorder
  | ⟨_, _, _, _⟩ => List.mem_cons_self

theorem listingAll_append (ns ms : List Node) :
    listingAll (ns ++ ms) = listingAll ns ++ listingAll ms := by
  induction ns with
  | nil => rfl
  | cons n ns ih => rw [List.cons_append, listingAll, listingAll, ih, List.append_assoc]

theorem completed_mem_listingAll {ns : List Node} {t : Node} (ht : t ∈ ns) :
    t.completed ∈ listingAll ns := by
  obtain ⟨left, right, rfl⟩ := List.append_of_mem ht
  obtain ⟨name, start, stop, children⟩ := t
  simp [listingAll_append, listingAll, listing, completed]

end Node

namespace Forest

theorem listing_above (m : Completed) (inner : List Node) :
    (above m inner).listing = Node.listingAll inner.reverse ++ [m] := rfl

theorem mem_preorder_above {m : Completed} {inner : List Node} {n : Node} :
    n ∈ (above m inner).preorder ↔ n = above m inner ∨ ∃ t ∈ inner, n ∈ t.preorder := by
  rw [above, Node.preorder, List.mem_cons, Node.mem_preorderAll]
  simp only [List.mem_reverse]

theorem mem_nodes {f : Forest} {n : Node} : n ∈ f.nodes ↔ ∃ t ∈ f.trees, n ∈ t.preorder := by
  rw [nodes, Node.mem_preorderAll]
  simp only [List.mem_reverse]

section

variable {f f' : Forest} {m : Completed} {inner kept : List Node}

/-- A match that is put is one node more. -/
theorem mem_nodes_put (htrees : f.trees = inner ++ kept) (ht : f'.trees = above m inner :: kept)
    {n : Node} : n ∈ f'.nodes ↔ n = above m inner ∨ n ∈ f.nodes := by
  rw [mem_nodes, mem_nodes, ht, htrees]
  simp only [List.mem_cons, List.mem_append, or_and_right, exists_or, exists_eq_left,
    mem_preorder_above, or_assoc]

/-- A match that is put is written behind what was there. -/
theorem listingAll_put (htrees : f.trees = inner ++ kept) (ht : f'.trees = above m inner :: kept) :
    Node.listingAll f'.trees.reverse = Node.listingAll f.trees.reverse ++ [m] := by
  rw [ht, htrees, List.reverse_cons, List.reverse_append, Node.listingAll_append,
    Node.listingAll_append, Node.listingAll, Node.listingAll, listing_above]
  simp

end

namespace Placed

variable {f f' : Forest} {m : Completed}

theorem tidy (h : Placed f m f') (hf : f.Tidy) (hm : m.start ≤ m.stop) : f'.Tidy := by
  cases h with
  | shutOut => exact hf
  | @put inner kept _ htrees inside left hs =>
    have ht := trees_of_spanning hs
    have hapart := hf.apart
    rw [htrees] at hapart
    refine ⟨by rw [ht, hs], ?_, ?_⟩
    · rw [ht]
      intro t hmem
      rcases List.mem_cons.1 hmem with rfl | hmem
      · exact hm
      · exact hf.forward t (by simp [htrees, hmem])
    · rw [ht]
      exact List.pairwise_cons.2 ⟨left, (List.pairwise_append.1 hapart).2.1⟩

/-- A match that is put reaches at least as far as the forest did. -/
theorem stop_le_of_put {inner kept : List Node} (hf : f.Tidy) (hm : m.start ≤ m.stop)
    (htrees : f.trees = inner ++ kept) (inside : ∀ t ∈ inner, m.start ≤ t.start ∧ t.stop ≤ m.stop)
    (left : ∀ t ∈ kept, t.stop ≤ m.start) : f.stop ≤ m.stop := by
  obtain ⟨last, before, hlast, hstop⟩ := hf.exists_last
  have hmem : last ∈ inner ++ kept := by simp [← htrees, hlast]
  rcases List.mem_append.1 hmem with hmem | hmem
  · have hin := inside last hmem
    omega
  · have hleft := left last hmem
    omega

/-- A match that is put was not shut out. -/
theorem not_shutOut_of_put {inner kept : List Node} (hf : f.Tidy) (hm : m.start ≤ m.stop)
    (htrees : f.trees = inner ++ kept) (inside : ∀ t ∈ inner, m.start ≤ t.start ∧ t.stop ≤ m.stop)
    (left : ∀ t ∈ kept, t.stop ≤ m.start) : ¬ f.ShutOut m := by
  have hstop := stop_le_of_put hf hm htrees inside left
  rintro (hlt | ⟨t, ht, hstart, hend⟩)
  · omega
  · rw [htrees] at ht
    rcases List.mem_append.1 ht with hmem | hmem
    · have hin := inside t hmem
      omega
    · have hleft := left t hmem
      omega

/-- A match that is shut out changes nothing. -/
theorem eq_of_shutOut (h : Placed f m f') (hf : f.Tidy) (hm : m.start ≤ m.stop) (hout : f.ShutOut m) :
    f' = f := by
  cases h with
  | shutOut => rfl
  | put htrees inside left => exact absurd hout (not_shutOut_of_put hf hm htrees inside left)

/-- A match moves the end of the forest to its own end, if it moves anything, and never moves the
beginning beyond its own. -/
theorem edges (h : Placed f m f') (hf : f.Tidy) (hm : m.start ≤ m.stop) :
    f' = f ∨ f.stop ≤ f'.stop ∧ f'.stop = m.stop ∧ (f.start ≤ f'.start ∨ m.start ≤ f'.start) := by
  cases h with
  | shutOut => exact Or.inl rfl
  | @put inner kept _ htrees inside left hs =>
    right
    have hle := stop_le_of_put hf hm htrees inside left
    have hstop : f'.stop = m.stop := by
      rw [spanning, Option.some.injEq] at hs
      rw [← hs]
      rfl
    have hstart : f'.start = ((above m inner :: kept).getLast (by simp)).start := by
      rw [spanning, Option.some.injEq] at hs
      rw [← hs]
    refine ⟨by omega, hstop, ?_⟩
    rcases List.mem_cons.1 (List.getLast_mem (l := above m inner :: kept) (by simp)) with heq | hmem
    · right
      rw [hstart, heq]
      exact Int.le_refl _
    · left
      rw [hstart]
      exact hf.start_le (by simp [htrees, hmem])

end Placed

theorem Tidy.add {f : Forest} (h : f.Tidy) {m : Completed} (hm : m.start ≤ m.stop) : (f.add m).Tidy :=
  (h.placed m).tidy h hm

/-! ## The forest of a list of matches -/

/-- The forest that matches grow into; there is none before the first. -/
def grown (ms : List Completed) : Option Forest := ms.foldl next none

theorem grown_append_singleton (ms : List Completed) (m : Completed) :
    grown (ms ++ [m]) = next (grown ms) m := List.foldl_concat _ _ _ _

/-- What holds of the forest of the first match, and is kept by each further one, holds of the forest
of any matches. `Q` is what is known of the matches. -/
theorem grown_induction {Q : Completed → Prop} {P : List Completed → Forest → Prop}
    (hQ : ∀ m, Q m → m.start ≤ m.stop) (hfirst : ∀ m, Q m → P [m] (single m))
    (hnext : ∀ ms f m, grown ms = some f → f.Tidy → Q m → P ms f → P (ms ++ [m]) (f.add m))
    (ms : List Completed) (hne : ms ≠ []) (hms : ∀ m ∈ ms, Q m) :
    ∃ f, grown ms = some f ∧ f.Tidy ∧ P ms f := by
  induction ms using List.reverseRecOn with
  | nil => exact absurd rfl hne
  | append_singleton ms m ih =>
    have hm : Q m := hms m (by simp)
    rw [grown_append_singleton]
    rcases List.eq_nil_or_concat' ms with rfl | ⟨_, _, hms'⟩
    · exact ⟨_, rfl, tidy_single (hQ m hm), hfirst m hm⟩
    · obtain ⟨f, hf, htidy, hP⟩ := ih (by simp [hms']) fun x hx => hms x (by simp [hx])
      rw [hf]
      exact ⟨_, rfl, htidy.add (hQ m hm), hnext ms f m hf htidy hm hP⟩

/-! ## The root -/

/-- A forest of one tree is that tree, and otherwise the root has no name and two children at
least. -/
theorem Tidy.unwrap_root {f : Forest} (h : f.Tidy) (hn : ∀ t ∈ f.trees, t.name ≠ none) :
    (∃ t, f.trees = [t] ∧ f.root.unwrap = t) ∨
      2 ≤ f.trees.length ∧ f.root.unwrap = f.root := by
  obtain ⟨last, before, htrees, -⟩ := h.exists_last
  cases before with
  | nil =>
    refine Or.inl ⟨last, htrees, ?_⟩
    rw [h.eq_of_trees htrees, root, List.reverse_singleton, Node.unwrap, if_pos ⟨rfl, rfl⟩]
    exact Node.unwrap_of_named (hn last (by simp [htrees]))
  | cons t ts =>
    refine Or.inr ⟨by simp [htrees], ?_⟩
    rw [root, htrees]
    cases hrev : (last :: t :: ts).reverse with
    | nil => simp at hrev
    | cons a as =>
      cases as with
      | nil =>
        have := congrArg List.length hrev
        simp at this
      | cons b bs => rfl

end Forest

end Packrat
