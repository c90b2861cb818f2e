import Mathlib.Data.List.Perm.Basic
import Packrat.Proofs.Tree.Placement

/-!
# `Packrat/Proofs/Tree/Discarding.lean` — which matches leave no trace

Of the five ways to put a match the last one may find no place for it, and then the match is dropped.
When that happens can be read off the match and the trees that stand side by side at that moment, with
no word about the ways: a match is dropped if it ends before the trees do, or begins in the middle of one
of them (`Tidy.add_eq_self_iff`). Any other match is a node more, and the nodes that were there are there
still, each with all that is below it (`Tidy.exists_perm_nodes`).

That a match is not dropped is seen by counting: it makes the forest larger, so the forest cannot be
what it was.
-/

set_option autoImplicit false

namespace Packrat

namespace Node

/-- The nodes of trees do not depend on the order of the trees. -/
theorem perm_preorderAll {ns ms : List Node} (h : ns.Perm ms) :
    (preorderAll ns).Perm (preorderAll ms) := by
  induction h with
  | nil => exact .nil
  | cons n _ ih => exact ih.append_left n.preorder
  | swap n m ns =>
    simp only [preorderAll, ← List.append_assoc]
    exact List.perm_append_comm.append_right _
  | trans _ _ ih ih' => exact ih.trans ih'

theorem preorderAll_append (ns ms : List Node) :
    preorderAll (ns ++ ms) = preorderAll ns ++ preorderAll ms := by
  induction ns with
  | nil => rfl
  | cons n ns ih => rw [List.cons_append, preorderAll, preorderAll, ih, List.append_assoc]

end Node

namespace Forest

variable {f f' : Forest} {m : Completed} {inner kept : List Node}

/-- A match that is put is a node over trees that stay as they are. -/
theorem perm_nodes_put (htrees : f.trees = inner ++ kept) (ht : f'.trees = above m inner :: kept) :
    f'.nodes.Perm (above m inner :: f.nodes) := by
  have hbefore : f.nodes.Perm (Node.preorderAll inner ++ Node.preorderAll kept) := by
    rw [nodes, htrees, ← Node.preorderAll_append]
    exact Node.perm_preorderAll (List.reverse_perm _)
  have hinner : (above m inner).preorder.Perm (above m inner :: Node.preorderAll inner) :=
    (Node.perm_preorderAll (List.reverse_perm inner)).cons _
  calc f'.nodes
      _ = Node.preorderAll (above m inner :: kept).reverse := by rw [nodes, ht]
      List.Perm _ (Node.preorderAll (above m inner :: kept)) :=
        Node.perm_preorderAll (List.reverse_perm _)
      _ = (above m inner).preorder ++ Node.preorderAll kept := rfl
      List.Perm _ ((above m inner :: Node.preorderAll inner) ++ Node.preorderAll kept) :=
        hinner.append_right _
      List.Perm _ (above m inner :: f.nodes) := (hbefore.symm).cons _

/-- The current node is all that there is to a forest. -/
theorem root_injective : Function.Injective root := by
  rintro ⟨start, stop, trees⟩ ⟨start', stop', trees'⟩ h
  simpa [root] using h

theorem shutOut_iff_root :
    f.ShutOut m ↔
      m.stop < f.root.stop ∨ ∃ t ∈ f.root.children, t.start < m.start ∧ m.start < t.stop := by
  simp only [ShutOut, root, List.mem_reverse]

namespace Tidy

/-- A match that is not shut out is a node more in the forest, and no node is gone. -/
theorem exists_perm_nodes (h : f.Tidy) (hnot : ¬ f.ShutOut m) :
    ∃ n, n.completed = m ∧ (f.add m).nodes.Perm (n :: f.nodes) := by
  have hplaced := h.placed m
  generalize f.add m = f' at hplaced ⊢
  cases hplaced with
  | shutOut hout => exact absurd hout hnot
  | put htrees _ _ hs => exact ⟨_, rfl, perm_nodes_put htrees (trees_of_spanning hs)⟩

/-- A match that is shut out changes nothing, and any other does. -/
theorem add_eq_self_iff (h : f.Tidy) (hm : m.start ≤ m.stop) : f.add m = f ↔ f.ShutOut m := by
  constructor
  · intro heq
    by_contra hnot
    obtain ⟨n, -, hperm⟩ := h.exists_perm_nodes hnot
    rw [heq] at hperm
    exact absurd hperm.length_eq (by simp)
  · exact (h.placed m).eq_of_shutOut h hm

end Tidy

theorem exists_tidy_grown {ms : List Completed} (hne : ms ≠ [])
    (hms : ∀ m ∈ ms, m.start ≤ m.stop) : ∃ f, grown ms = some f ∧ f.Tidy := by
  obtain ⟨f, hf, htidy, -⟩ := grown_induction (P := fun _ _ => True) (fun _ hm => hm)
    (fun _ _ => trivial) (fun _ _ _ _ _ _ _ => trivial) ms hne hms
  exact ⟨f, hf, htidy⟩

end Forest

/-- Behind other matches a match leaves what they have grown into as it is if and only if it ends before
the current node does, or begins strictly inside one of the children of that node. Otherwise it is one
node more among those below the current node, and these stay the nodes that they are. -/
theorem match_discarded_iff {before : List Completed} {m : Completed} (hne : before ≠ [])
    (hms : ∀ x ∈ before ++ [m], x.start ≤ x.stop) :
    ∃ f f', Forest.grown before = some f ∧ Forest.grown (before ++ [m]) = some f' ∧
      (f'.root = f.root ↔
        m.stop < f.root.stop ∨ ∃ t ∈ f.root.children, t.start < m.start ∧ m.start < t.stop) ∧
      (f'.root ≠ f.root → ∃ n, n.completed = m ∧ f'.nodes.Perm (n :: f.nodes)) := by
  obtain ⟨f, hf, htidy⟩ := Forest.exists_tidy_grown hne fun x hx => hms x (by simp [hx])
  have hm : m.start ≤ m.stop := hms m (by simp)
  have hnext : Forest.grown (before ++ [m]) = some (f.add m) := by
    rw [Forest.grown_append_singleton, hf]
    rfl
  have hsame : (f.add m).root = f.root ↔ f.ShutOut m :=
    Forest.root_injective.eq_iff.trans (htidy.add_eq_self_iff hm)
  refine ⟨f, f.add m, hf, hnext, hsame.trans Forest.shutOut_iff_root, fun hdiff => ?_⟩
  exact htidy.exists_perm_nodes (mt hsame.2 hdiff)

/-! ## Three words with a gap

`c` begins behind a gap. A match that begins inside `b` is dropped although it reaches to the end, and a
match over `b` and `c` is put. -/

def threeWords : List Completed := [⟨some "a", 0, 2⟩, ⟨some "b", 2, 5⟩, ⟨some "c", 7, 9⟩]

theorem match_discarded_iff_threeWords :
    (∀ x ∈ threeWords ++ [⟨some "d", 3, 9⟩], x.start ≤ x.stop) ∧
    Forest.grown (threeWords ++ [⟨some "d", 3, 9⟩]) = Forest.grown threeWords ∧
    (∀ x ∈ threeWords ++ [⟨some "e", 2, 9⟩], x.start ≤ x.stop) ∧
    ∃ f f' n, Forest.grown threeWords = some f ∧
      Forest.grown (threeWords ++ [⟨some "e", 2, 9⟩]) = some f' ∧
      n.completed = ⟨some "e", 2, 9⟩ ∧ f'.nodes.Perm (n :: f.nodes) := by
  have hdropped : ∀ x ∈ threeWords ++ [⟨some "d", 3, 9⟩], x.start ≤ x.stop := by decide
  have hput : ∀ x ∈ threeWords ++ [⟨some "e", 2, 9⟩], x.start ≤ x.stop := by decide
  refine ⟨hdropped, ?_, hput, ?_⟩
  · obtain ⟨f, f', hf, hf', hiff, -⟩ := match_discarded_iff (by decide) hdropped
    cases hf
    rw [hf', Forest.root_injective (hiff.2 (by decide))]
    rfl
  · obtain ⟨f, f', hf, hf', hiff, hnode⟩ := match_discarded_iff (by decide) hput
    cases hf
    obtain ⟨n, hn, hperm⟩ := hnode (mt hiff.1 (by decide))
    exact ⟨_, f', n, rfl, hf', hn, hperm⟩

end Packrat
