import Mathlib.Data.List.Chain
import Packrat.Tree.Forest

/-!
# `Packrat/Proofs/Tree/Listing.lean` — a tree is read back from its listing

A tree is listed by writing down its nodes as completed matches, each behind the nodes inside it. This
is the order in which a run completes rules, so a listing is what the forest gets to see when no
attempt was given up. From such a list the forest grows back the trees that were listed:
`ofCompleted?_listingAll`.

The argument is about what the forest looks like between two matches. The trees that are complete stand
side by side in it and nothing else does (`Forest.spanning`). When a node arrives, its children are the
last trees of the forest, and each of the five ways to put a match has to be the one that gathers just
these (`Forest.next_completed`): an earlier tree ends before the node begins, and since no node is
empty it begins before the node, too.
-/

set_option autoImplicit false

namespace Packrat

namespace Node

/-! ## Listings -/

mutual

/-- The nodes of a tree as completed matches, each behind those of its children. -/
def listing : Node → List Completed
  | ⟨name, start, stop, children⟩ => listingAll children ++ [⟨name, start, stop⟩]

/-- The listings of several trees, one behind the other. -/
def listingAll : List Node → List Completed
  | [] => []
  | n :: ns => n.listing ++ listingAll ns

end

/-- Trees side by side: none begins before the one on its left has ended. There may be gaps. -/
def Aligned (ns : List Node) : Prop := ns.IsChain (·.stop ≤ ·.start)

/-- Every node of the tree has a name and is not empty, and its children lie inside it, side by
side. -/
inductive WellNested : Node → Prop
  | node {n : Node} (named : n.name ≠ none) (nonempty : n.start < n.stop)
      (inside : ∀ c ∈ n.children, n.start ≤ c.start ∧ c.stop ≤ n.stop) (aligned : Aligned n.children)
      (children : ∀ c ∈ n.children, c.WellNested) : n.WellNested

namespace WellNested

variable {n : Node}

theorem named (h : n.WellNested) : n.name ≠ none := by cases h; assumption

theorem nonempty (h : n.WellNested) : n.start < n.stop := by cases h; assumption

theorem inside (h : n.WellNested) : ∀ c ∈ n.children, n.start ≤ c.start ∧ c.stop ≤ n.stop := by
  cases h; assumption

theorem aligned (h : n.WellNested) : Aligned n.children := by cases h; assumption

theorem children (h : n.WellNested) : ∀ c ∈ n.children, c.WellNested := by cases h; assumption

end WellNested

/-- A node with a name is not unwrapped. -/
theorem unwrap_of_named {n : Node} (h : n.name ≠ none) : n.unwrap = n := by
  obtain ⟨name, start, stop, children⟩ := n
  cases name with
  | none => exact absurd rfl h
  | some name => rfl

@[simp] theorem start_completed (n : Node) : n.completed.start = n.start := rfl

@[simp] theorem stop_completed (n : Node) : n.completed.stop = n.stop := rfl

end Node

namespace Forest

/-! ## The ways to put a match -/

section

variable {f : Forest} {m : Completed} {last : Node} {before : List Node}

theorem add_of_same_span (ht : f.trees = last :: before)
    (hsame : last.start = m.start ∧ last.stop = m.stop) :
    f.add m = { f with trees := above m [last] :: before } := by
  rw [add, ht]
  exact if_pos hsame

theorem add_of_diff (ht : f.trees = last :: before)
    (hdiff : ¬ (last.start = m.start ∧ last.stop = m.stop)) : f.add m = add.place f m := by
  rw [add, ht]
  exact if_neg hdiff

theorem place_of_beyond (h : f.stop ≤ m.start) :
    add.place f m = { f with stop := m.stop, trees := .leaf m :: f.trees } := by
  rw [add.place, if_pos h]

theorem place_of_cover (h : ¬ f.stop ≤ m.start) (hcover : m.start ≤ f.start ∧ f.stop ≤ m.stop) :
    add.place f m = ⟨m.start, m.stop, [above m f.trees]⟩ := by
  rw [add.place, if_neg h, if_pos hcover]

theorem place_of_gather {inner kept : List Node} (h : ¬ f.stop ≤ m.start)
    (hcover : ¬ (m.start ≤ f.start ∧ f.stop ≤ m.stop))
    (hg : gather? f.trees m.start m.stop = some (inner, kept)) :
    add.place f m = { f with stop := max f.stop m.stop, trees := above m inner :: kept } := by
  rw [add.place, if_neg h, if_neg hcover, hg]

end

/-- A node is its completed match over its children. -/
theorem above_completed {n : Node} {inner : List Node} (h : n.children.reverse = inner) :
    above n.completed inner = n := by
  subst h
  cases n
  rw [above, List.reverse_reverse]
  rfl

/-! ## The forest between two matches -/

/-- The forest behind one more match; there is none before the first. -/
def next (f : Option Forest) (m : Completed) : Option Forest :=
  match f with
  | none => some (.single m)
  | some f => some (f.add m)

theorem foldl_next_some (f : Forest) (ms : List Completed) :
    ms.foldl next (some f) = some (ms.foldl add f) := by
  induction ms generalizing f with
  | nil => rfl
  | cons m ms ih => exact ih (f.add m)

theorem ofCompleted?_eq (ms : List Completed) :
    Node.ofCompleted? ms = (ms.foldl next none).map fun f => f.root.unwrap := by
  cases ms with
  | nil => rfl
  | cons m ms =>
    rw [List.foldl_cons, next, foldl_next_some]
    rfl

/-- The forest of the trees `ts`, given the last one first, and of nothing else. -/
def spanning : List Node → Option Forest
  | [] => none
  | t :: ts => some ⟨((t :: ts).getLast (by simp)).start, t.stop, t :: ts⟩

theorem spanning_cases (ts : List Node) : ts = [] ∨ ∃ f, spanning ts = some f := by
  cases ts with
  | nil => exact Or.inl rfl
  | cons t ts => exact Or.inr ⟨_, rfl⟩

/-- Trees that are not empty, side by side, the last one first. The order is said of any two of them,
because gathering looks over several trees at once. -/
structure Row (ts : List Node) : Prop where
  nonempty : ∀ t ∈ ts, t.start < t.stop
  apart : ts.Pairwise fun t s => s.stop ≤ t.start

namespace Row

variable {t : Node} {ts : List Node}

theorem cons (h : Row ts) (ht : t.start < t.stop) (hts : ∀ s ∈ ts, s.stop ≤ t.start) :
    Row (t :: ts) := by
  refine ⟨?_, List.pairwise_cons.2 ⟨hts, h.apart⟩⟩
  intro s hs
  rcases List.mem_cons.1 hs with rfl | hs
  · exact ht
  · exact h.nonempty s hs

end Row

/-- Side by side means side by side for trees further apart, too, as long as none is empty. -/
theorem pairwise_of_aligned {ns : List Node} (hw : ∀ n ∈ ns, n.WellNested) (ha : Node.Aligned ns) :
    ns.Pairwise fun n m => n.stop ≤ m.start := by
  induction ns with
  | nil => exact .nil
  | cons n ns ih =>
    have hrest := ih (fun m hm => hw m (List.mem_cons_of_mem n hm)) ha.tail
    refine List.pairwise_cons.2 ⟨fun m hm => ?_, hrest⟩
    cases ns with
    | nil => exact absurd hm (by simp)
    | cons k ns =>
      have hk : n.stop ≤ k.start := ha.rel
      rcases List.mem_cons.1 hm with rfl | hm
      · exact hk
      · have hkm : k.stop ≤ m.start := (List.pairwise_cons.1 hrest).1 m hm
        have hpos := (hw k (by simp)).nonempty
        omega

/-! ## The arrival of a node

`n` arrives when its children `inner`, given the last one first, are complete and the trees `ts` stand
on their left. -/

section

variable {n : Node} {inner ts : List Node}

/-- The stretch of a forest begins with its first tree, whatever is put behind it. -/
theorem spanning_cons {f : Forest} (hf : spanning ts = some f) (t : Node) :
    spanning (t :: ts) = some ⟨f.start, t.stop, t :: ts⟩ := by
  cases ts with
  | nil => exact absurd hf (by simp [spanning])
  | cons s ts =>
    cases hf
    rfl

theorem spanning_append {f : Forest} (hf : spanning ts = some f) (t : Node) (inner : List Node) :
    spanning (t :: inner ++ ts) = some ⟨f.start, t.stop, t :: inner ++ ts⟩ := by
  have hrest : ∃ f', spanning (inner ++ ts) = some f' ∧ f'.start = f.start := by
    induction inner with
    | nil => exact ⟨f, hf, rfl⟩
    | cons s inner ih =>
      obtain ⟨f', hf', hs⟩ := ih
      exact ⟨_, spanning_cons hf' s, hs⟩
  obtain ⟨f', hf', hs⟩ := hrest
  rw [List.cons_append, spanning_cons hf' t, hs]

/-- The first tree of a row begins before what stands behind the row. -/
theorem start_lt_of_row {f : Forest} (hf : spanning ts = some f) (hrow : Row ts) {i : Int}
    (hleft : ∀ t ∈ ts, t.stop ≤ i) : f.start < i := by
  cases ts with
  | nil => exact absurd hf (by simp [spanning])
  | cons t ts =>
    cases hf
    have hmem := List.getLast_mem (l := t :: ts) (by simp)
    exact Int.lt_of_lt_of_le (hrow.nonempty _ hmem) (hleft _ hmem)

/-- What gathers under a node is what begins inside it: the trees on its left begin before it. -/
theorem gather?_append {last : Node} (hrow : Row ts) (hleft : ∀ t ∈ ts, t.stop ≤ n.start)
    (hin : ∀ c ∈ last :: inner, n.start ≤ c.start) (hlast : last.stop ≤ n.stop) :
    gather? (last :: inner ++ ts) n.start n.stop = some (last :: inner, ts) := by
  have hbegin : ∀ c ∈ last :: inner, decide (n.start ≤ c.start) = true := fun c hc =>
    decide_eq_true (hin c hc)
  have htake : (last :: inner ++ ts).takeWhile (n.start ≤ ·.start) = last :: inner := by
    rw [List.takeWhile_append_of_pos hbegin]
    cases ts with
    | nil => simp
    | cons t ts =>
      have hpos := hrow.nonempty t List.mem_cons_self
      have hend := hleft t List.mem_cons_self
      simp [show ¬ n.start ≤ t.start by omega]
  have hdrop : (last :: inner ++ ts).dropWhile (n.start ≤ ·.start) = ts := by
    rw [List.dropWhile_append_of_pos hbegin]
    cases ts with
    | nil => rfl
    | cons t ts =>
      have hpos := hrow.nonempty t List.mem_cons_self
      have hend := hleft t List.mem_cons_self
      simp [show ¬ n.start ≤ t.start by omega]
  rw [gather?, htake, hdrop]
  dsimp only
  rw [if_neg (by omega)]
  cases ts with
  | nil => rfl
  | cons t ts =>
    have hend := hleft t List.mem_cons_self
    exact if_neg (by omega)

/-- A leaf goes to the right of everything. -/
theorem next_leaf (hleaf : n.children.reverse = []) (hrow : Row ts)
    (hleft : ∀ t ∈ ts, t.stop ≤ n.start) : next (spanning ts) n.completed = spanning (n :: ts) := by
  have hn : Node.leaf n.completed = n := above_completed hleaf
  cases ts with
  | nil =>
    rw [spanning, next, single, hn]
    rfl
  | cons t ts =>
    have hpos := hrow.nonempty t List.mem_cons_self
    have hend := hleft t List.mem_cons_self
    have hdiff : ¬ (t.start = n.completed.start ∧ t.stop = n.completed.stop) := by
      rw [Node.start_completed]
      omega
    rw [spanning_cons rfl n, spanning, next, add_of_diff rfl hdiff, place_of_beyond hend, hn]
    rfl

/-- A node that spans exactly what its last child spans has no other child, and goes over it. -/
theorem next_same_span {last : Node} (hw : n.WellNested)
    (hinner : n.children.reverse = last :: inner) (hsame : last.start = n.start ∧ last.stop = n.stop) :
    next (spanning (last :: inner ++ ts)) n.completed = spanning (n :: ts) := by
  have hmem : ∀ c ∈ last :: inner, c ∈ n.children := fun c hc => List.mem_reverse.1 (hinner ▸ hc)
  have hlone : inner = [] := by
    cases inner with
    | nil => rfl
    | cons c inner =>
      have hpair := pairwise_of_aligned hw.children hw.aligned
      rw [← List.pairwise_reverse, hinner] at hpair
      have hcl : c.stop ≤ last.start := (List.pairwise_cons.1 hpair).1 c List.mem_cons_self
      have hc := hw.inside c (hmem c (by simp))
      have hpos := (hw.children c (hmem c (by simp))).nonempty
      omega
  subst hlone
  rw [List.cons_append, List.nil_append]
  rcases spanning_cases ts with rfl | ⟨f, hts⟩
  · rw [spanning, next, add_of_same_span rfl hsame, above_completed hinner]
    simp [spanning, hsame]
  · rw [spanning_cons hts, spanning_cons hts, next, add_of_same_span rfl hsame, above_completed hinner,
      hsame.2]

/-- A node goes over its children where there is nothing else in the forest, and otherwise gathers
them. -/
theorem next_gathering {last : Node} (hw : n.WellNested)
    (hinner : n.children.reverse = last :: inner)
    (hdiff : ¬ (last.start = n.start ∧ last.stop = n.stop)) (hrow : Row ts)
    (hleft : ∀ t ∈ ts, t.stop ≤ n.start) :
    next (spanning (last :: inner ++ ts)) n.completed = spanning (n :: ts) := by
  have hmem : ∀ c ∈ last :: inner, c ∈ n.children := fun c hc => List.mem_reverse.1 (hinner ▸ hc)
  have hin : ∀ c ∈ last :: inner, n.start ≤ c.start := fun c hc => (hw.inside c (hmem c hc)).1
  have hlast := hw.inside last (hmem last List.mem_cons_self)
  have hpos := (hw.children last (hmem last List.mem_cons_self)).nonempty
  have hbefore : ¬ last.stop ≤ n.start := by omega
  rcases spanning_cases ts with rfl | ⟨f, hts⟩
  · have hfirst := hin _ (List.getLast_mem (l := last :: inner) (by simp))
    rw [List.append_nil, spanning, next, add_of_diff rfl hdiff,
      place_of_cover hbefore ⟨hfirst, hlast.2⟩, above_completed hinner]
    rfl
  · have hfirst := start_lt_of_row hts hrow hleft
    have hcover : ¬ (n.start ≤ f.start ∧ last.stop ≤ n.stop) := by omega
    rw [spanning_append hts, spanning_cons hts, next, add_of_diff rfl hdiff,
      place_of_gather hbefore hcover (gather?_append hrow hleft hin hlast.2), above_completed hinner]
    dsimp only [Node.stop_completed]
    rw [Int.max_eq_right hlast.2]

/-- Behind its children and right of other trees, a node takes its children and nothing else. -/
theorem next_completed (hw : n.WellNested) (hrow : Row ts) (hleft : ∀ t ∈ ts, t.stop ≤ n.start) :
    next (spanning (n.children.reverse ++ ts)) n.completed = spanning (n :: ts) := by
  cases hinner : n.children.reverse with
  | nil => exact next_leaf hinner hrow hleft
  | cons last inner =>
    by_cases hsame : last.start = n.start ∧ last.stop = n.stop
    · exact next_same_span hw hinner hsame
    · exact next_gathering hw hinner hsame hrow hleft

end

/-! ## Whole listings -/

mutual

/-- A tree that is listed right of other trees is added to them. The induction is on the tree: behind
the listing of the children comes the node itself. -/
theorem foldl_next_listing : ∀ (n : Node) (ts : List Node), n.WellNested → Row ts →
    (∀ t ∈ ts, t.stop ≤ n.start) → n.listing.foldl next (spanning ts) = spanning (n :: ts)
  | ⟨name, start, stop, children⟩, ts, hw, hrow, hleft => by
    have hpair := pairwise_of_aligned hw.children hw.aligned
    have hchildren := foldl_next_listingAll children ts hw.children hpair hrow fun t ht c hc =>
      Int.le_trans (hleft t ht) (hw.inside c hc).1
    rw [Node.listing, List.foldl_append, hchildren]
    exact next_completed hw hrow hleft

theorem foldl_next_listingAll : ∀ (ns ts : List Node), (∀ n ∈ ns, n.WellNested) →
    ns.Pairwise (fun n m => n.stop ≤ m.start) → Row ts → (∀ t ∈ ts, ∀ n ∈ ns, t.stop ≤ n.start) →
    (Node.listingAll ns).foldl next (spanning ts) = spanning (ns.reverse ++ ts)
  | [], ts, _, _, _, _ => rfl
  | n :: ns, ts, hw, hpair, hrow, hleft => by
    obtain ⟨hn, hns⟩ := List.pairwise_cons.1 hpair
    have hwn := hw n List.mem_cons_self
    have hleftn := fun t ht => hleft t ht n List.mem_cons_self
    have hleftns : ∀ t ∈ n :: ts, ∀ m ∈ ns, t.stop ≤ m.start := by
      intro t ht m hm
      rcases List.mem_cons.1 ht with rfl | ht
      · exact hn m hm
      · exact hleft t ht m (List.mem_cons_of_mem n hm)
    rw [Node.listingAll, List.foldl_append, foldl_next_listing n ts hwn hrow hleftn,
      foldl_next_listingAll ns (n :: ts) (fun m hm => hw m (List.mem_cons_of_mem n hm)) hns
        (hrow.cons hwn.nonempty hleftn) hleftns]
    simp

end

end Forest

/-- From its listing a tree is read back as it was, and several trees under a node without a name that
reaches from the first to the last of them. -/
theorem ofCompleted?_listingAll {roots : List Node} (hw : ∀ n ∈ roots, n.WellNested)
    (ha : Node.Aligned roots) :
    (∀ n, roots = [n] → Node.ofCompleted? (Node.listingAll roots) = some n) ∧
    ∀ n ns m, roots = n :: (ns ++ [m]) →
      Node.ofCompleted? (Node.listingAll roots) = some ⟨none, n.start, m.stop, roots⟩ := by
  have hfold := Forest.foldl_next_listingAll roots [] hw (Forest.pairwise_of_aligned hw ha)
    ⟨by simp, .nil⟩ (by simp)
  rw [Forest.ofCompleted?_eq, show (none : Option Forest) = Forest.spanning [] from rfl, hfold,
    List.append_nil]
  constructor
  · rintro n rfl
    have hn := (hw n List.mem_cons_self).named
    simp only [List.reverse_singleton, Forest.spanning, Forest.root, List.getLast_singleton,
      Option.map_some, Node.unwrap, and_self, if_true, Node.unwrap_of_named hn]
  · rintro n ns m rfl
    simp [Forest.spanning, Forest.root, Node.unwrap]

/-! ## A sum beside a name

`1+(2)` in two levels, and a name behind it: a bracketed operand is wider than its only child, the sum
spans what its first child does not, and the number is spanned by the rule over it. -/

def sumTree : Node :=
  ⟨some "sum", 0, 5, [⟨some "sum", 0, 1, [⟨some "number", 0, 1, []⟩]⟩,
    ⟨some "group", 2, 5, [⟨some "number", 3, 4, []⟩]⟩]⟩

def nameTree : Node := ⟨some "name", 7, 9, []⟩

theorem Node.wellNested_leaf (name : String) {start stop : Int} (h : start < stop) :
    Node.WellNested ⟨some name, start, stop, []⟩ :=
  .node (by simp) h (by simp) .nil (by simp)

theorem sumTree_wellNested : sumTree.WellNested := by
  have hsum : Node.WellNested ⟨some "sum", 0, 1, [⟨some "number", 0, 1, []⟩]⟩ :=
    .node (by simp) (by decide) (by simp) (.singleton _)
      (by simpa using Node.wellNested_leaf "number" (by decide))
  have hgroup : Node.WellNested ⟨some "group", 2, 5, [⟨some "number", 3, 4, []⟩]⟩ :=
    .node (by simp) (by decide) (by simp) (.singleton _)
      (by simpa using Node.wellNested_leaf "number" (by decide))
  refine .node (by simp [sumTree]) (by decide) (by simp [sumTree]) ?_ ?_
  · exact .cons_cons (by decide) (.singleton _)
  · intro c hc
    rcases List.mem_cons.1 hc with rfl | hc
    · exact hsum
    · cases List.mem_singleton.1 hc
      exact hgroup

theorem ofCompleted?_sum_name :
    (∀ n ∈ [sumTree, nameTree], n.WellNested) ∧ Node.Aligned [sumTree, nameTree] ∧
    Node.ofCompleted? [⟨some "number", 0, 1⟩, ⟨some "sum", 0, 1⟩, ⟨some "number", 3, 4⟩,
      ⟨some "group", 2, 5⟩, ⟨some "sum", 0, 5⟩, ⟨some "name", 7, 9⟩] =
        some ⟨none, 0, 9, [sumTree, nameTree]⟩ ∧
    Node.ofCompleted? sumTree.listing = some sumTree := by
  have hw : ∀ n ∈ [sumTree, nameTree], n.WellNested := by
    intro n hn
    rcases List.mem_cons.1 hn with rfl | hn
    · exact sumTree_wellNested
    · cases List.mem_singleton.1 hn
      exact Node.wellNested_leaf "name" (by decide)
  have ha : Node.Aligned [sumTree, nameTree] := .cons_cons (by decide) (.singleton _)
  have hsum : ∀ n ∈ [sumTree], n.WellNested := fun n hn =>
    List.mem_singleton.1 hn ▸ sumTree_wellNested
  have hone := (ofCompleted?_listingAll hsum (.singleton _)).1 _ rfl
  rw [Node.listingAll, Node.listingAll, List.append_nil] at hone
  exact ⟨hw, ha, (ofCompleted?_listingAll hw ha).2 _ [] _ rfl, hone⟩

end Packrat
