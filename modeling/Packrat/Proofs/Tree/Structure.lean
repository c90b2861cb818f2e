import Packrat.Proofs.Tree.Placement

/-!
# `Packrat/Proofs/Tree/Structure.lean` — every list of matches gives a proper tree

Whatever matches there are, in whatever order, with repetitions and with attempts that were given up
among them: the tree that they grow into is one. Its nodes lie inside their parents, side by side; only
the root may be without a name, and then it has more than one child; and its nodes, read from the leaves
up, are matches from the list, in the order of the list (`ofCompleted?_structure`).
-/

set_option autoImplicit false

namespace Packrat

namespace Node

/-- The children of the node lie inside it, side by side, and have names. -/
structure Orderly (n : Node) : Prop where
  inside : ∀ c ∈ n.children, n.start ≤ c.start ∧ c.stop ≤ n.stop
  aligned : Aligned n.children
  named : ∀ c ∈ n.children, c.name ≠ none

end Node

namespace Forest

/-- The trees of the forest are made of matches from the list. -/
structure MadeOf (ms : List Completed) (f : Forest) : Prop where
  orderly : ∀ n ∈ f.nodes, n.Orderly
  named : ∀ n ∈ f.nodes, n.name ≠ none
  listed : (Node.listingAll f.trees.reverse).Sublist ms

variable {f : Forest} {ms : List Completed}

theorem mem_nodes_of_mem_trees {t : Node} (ht : t ∈ f.trees) : t ∈ f.nodes :=
  mem_nodes.2 ⟨t, ht, t.mem_preorder_self⟩

/-- Trees side by side in a forest are side by side as children. -/
theorem aligned_reverse {ts : List Node} (h : ts.Pairwise fun t s => s.stop ≤ t.start) :
    Node.Aligned ts.reverse :=
  (List.pairwise_reverse.2 h).isChain

theorem madeOf_single {m : Completed} (hm : m.name ≠ none) : MadeOf [m] (single m) := by
  have hnode : ∀ n ∈ (single m).nodes, n = .leaf m := by
    intro n hn
    simpa [nodes, single, Node.leaf, Node.preorderAll, Node.preorder] using hn
  refine ⟨fun n hn => ?_, fun n hn => ?_, ?_⟩
  · rw [hnode n hn]
    exact ⟨by simp [Node.leaf], .nil, by simp [Node.leaf]⟩
  · rw [hnode n hn]
    exact hm
  · simp [single, Node.leaf, Node.listingAll, Node.listing]

/-- A match goes over trees that lie inside it, and so makes an orderly node of them. -/
theorem orderly_above {m : Completed} {inner kept : List Node} (hf : f.Tidy) (h : f.MadeOf ms)
    (htrees : f.trees = inner ++ kept) (inside : ∀ t ∈ inner, m.start ≤ t.start ∧ t.stop ≤ m.stop) :
    (above m inner).Orderly where
  inside c hc := inside c (List.mem_reverse.1 hc)
  aligned := by
    have hapart := hf.apart
    rw [htrees] at hapart
    exact aligned_reverse (List.pairwise_append.1 hapart).1
  named c hc := by
    have hmem : c ∈ f.trees := by
      rw [htrees]
      exact List.mem_append_left _ (List.mem_reverse.1 hc)
    exact h.named c (mem_nodes_of_mem_trees hmem)

theorem MadeOf.add (h : f.MadeOf ms) (hf : f.Tidy) {m : Completed} (hm : m.name ≠ none) :
    (f.add m).MadeOf (ms ++ [m]) := by
  have hplaced := hf.placed m
  generalize f.add m = f' at hplaced ⊢
  cases hplaced with
  | shutOut => exact ⟨h.orderly, h.named, h.listed.trans (List.sublist_append_left ms [m])⟩
  | put htrees inside left hs =>
    have ht := trees_of_spanning hs
    refine ⟨fun n hn => ?_, fun n hn => ?_, ?_⟩
    · rcases (mem_nodes_put htrees ht).1 hn with rfl | hn
      · exact orderly_above hf h htrees inside
      · exact h.orderly n hn
    · rcases (mem_nodes_put htrees ht).1 hn with rfl | hn
      · exact hm
      · exact h.named n hn
    · rw [listingAll_put htrees ht]
      exact h.listed.append_right [m]

/-- The forest of matches that go forward is tidy, and made of them. -/
theorem exists_grown (hne : ms ≠ []) (hms : ∀ m ∈ ms, m.name ≠ none ∧ m.start ≤ m.stop) :
    ∃ f, grown ms = some f ∧ f.Tidy ∧ f.MadeOf ms :=
  grown_induction (Q := fun m => m.name ≠ none ∧ m.start ≤ m.stop) (fun _ hm => hm.2)
    (fun _ hm => madeOf_single hm.1) (fun _ _ _ _ hf hm h => h.add hf hm.1) ms hne hms

/-- The root of a forest spans its trees. -/
theorem MadeOf.orderly_root (h : f.MadeOf ms) (hf : f.Tidy) : f.root.Orderly where
  inside c hc := by
    have hmem : c ∈ f.trees := List.mem_reverse.1 hc
    exact ⟨hf.start_le hmem, hf.stop_le hmem⟩
  aligned := aligned_reverse hf.apart
  named c hc := h.named c (mem_nodes_of_mem_trees (List.mem_reverse.1 hc))

end Forest

/-- Matches that have names and go forward grow into a tree as soon as there is one of them. Every node
of it holds its children inside it, side by side and named; a root without a name has two children at
least; and the nodes with names, each behind those inside it, are some of the matches, in their
order. -/
theorem ofCompleted?_structure {ms : List Completed}
    (hms : ∀ m ∈ ms, m.name ≠ none ∧ m.start ≤ m.stop) :
    (Node.ofCompleted? ms = none ↔ ms = []) ∧
    ∀ root, Node.ofCompleted? ms = some root →
      (∀ n ∈ root.preorder, n.Orderly) ∧ (root.name = none → 2 ≤ root.children.length) ∧
      (root.listing.filter (·.name.isSome)).Sublist ms := by
  constructor
  · cases ms <;> simp [Node.ofCompleted?]
  intro root hroot
  have hne : ms ≠ [] := by
    rintro rfl
    exact absurd hroot (by simp [Node.ofCompleted?])
  obtain ⟨f, hf, htidy, hmade⟩ := Forest.exists_grown hne hms
  rw [Forest.ofCompleted?_eq] at hroot
  rw [show ms.foldl Forest.next none = some f from hf, Option.map_some, Option.some.injEq] at hroot
  have hnamed : ∀ t ∈ f.trees, t.name ≠ none := fun t ht =>
    hmade.named t (Forest.mem_nodes_of_mem_trees ht)
  rcases htidy.unwrap_root hnamed with ⟨t, ht, hunwrap⟩ | ⟨htwo, hunwrap⟩
  · -- one tree, which is the root
    rw [hunwrap] at hroot
    subst hroot
    have hlisted := hmade.listed
    rw [ht] at hlisted
    refine ⟨fun n hn => hmade.orderly n (Forest.mem_nodes.2 ⟨t, by simp [ht], hn⟩), ?_, ?_⟩
    · intro hnone
      exact absurd hnone (hnamed t (by simp [ht]))
    · simp only [List.reverse_singleton, Node.listingAll, List.append_nil] at hlisted
      exact List.filter_sublist.trans hlisted
  · -- several trees under a root without a name
    rw [hunwrap] at hroot
    subst hroot
    refine ⟨fun n hn => ?_, fun _ => ?_, ?_⟩
    · rcases List.mem_cons.1 hn with rfl | hn
      · exact hmade.orderly_root htidy
      · exact hmade.orderly n hn
    · simpa [Forest.root] using htwo
    · have hlast : f.root.listing.filter (·.name.isSome) =
          (Node.listingAll f.trees.reverse).filter (·.name.isSome) := by
        rw [Forest.root, Node.listing, List.filter_append]
        simp
      rw [hlast]
      exact List.filter_sublist.trans hmade.listed

/-! ## Matches that do not fit together

The second match reaches over the end of the first, two others come when the text behind them is taken,
one is empty, and one comes twice. -/

def misfits : List Completed :=
  [⟨some "a", -2, 0⟩, ⟨some "b", -1, 1⟩, ⟨some "e", 0, 0⟩, ⟨some "c", 0, 3⟩, ⟨some "d", 1, 2⟩,
    ⟨some "c", 0, 3⟩, ⟨some "f", 3, 3⟩, ⟨some "g", -1, 3⟩, ⟨some "g", 0, 5⟩]

def misfitTree : Node :=
  ⟨none, -2, 5, [⟨some "a", -2, 0, []⟩,
    ⟨some "g", 0, 5, [⟨some "e", 0, 0, []⟩, ⟨some "c", 0, 3, [⟨some "c", 0, 3, []⟩]⟩,
      ⟨some "f", 3, 3, []⟩]⟩]⟩

theorem ofCompleted?_structure_misfits :
    (∀ m ∈ misfits, m.name ≠ none ∧ m.start ≤ m.stop) ∧
    Node.ofCompleted? misfits = some misfitTree ∧
    (∀ n ∈ misfitTree.preorder, n.Orderly) ∧ 2 ≤ misfitTree.children.length ∧
    (misfitTree.listing.filter (·.name.isSome)).Sublist misfits := by
  have hms : ∀ m ∈ misfits, m.name ≠ none ∧ m.start ≤ m.stop := by decide
  have htree : Node.ofCompleted? misfits = some misfitTree := rfl
  obtain ⟨horderly, htwo, hlisted⟩ := (ofCompleted?_structure hms).2 misfitTree htree
  exact ⟨hms, htree, horderly, htwo rfl, hlisted⟩

end Packrat
