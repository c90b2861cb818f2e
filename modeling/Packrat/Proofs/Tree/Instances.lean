import Packrat.Proofs.Tree.Root

/-!
# `Packrat/Proofs/Tree/Instances.lean` — nodes and the alternatives behind them

A node of a tree should stand for an alternative of its rule: the children are what the references of
the alternative stand over, no more and no less (`Node.Instance`). The forest cannot see to that, since
it knows the stretch of a match and not the alternative that made it. A match that was given up may lie
in such a way that it is taken for a child, or for the rule over its neighbour.

What can be said is where it goes wrong. A node is never touched again once it stands, so the nodes are
instances just if every match that finds a place makes an instance there and then (`instances_iff`).
Which matches find a place is said without trees by `Completed.kept`; and if these are the listing of a
tree, the tree that the run gives is this one.
-/

set_option autoImplicit false

namespace Packrat

variable {g : Grammar} {text : Text}

/-! ## Instances of rules -/

/-- The terms split the stretch from `p` to `q` into pieces from left to right, one for each term.
Literals and patterns match their pieces, and the pieces of the references are `refs`, in order. -/
inductive Pieces (text : Text) : List Term → Nat → Nat → List Completed → Prop
  | nil {p : Nat} : Pieces text [] p p []
  | literal {s : CodePoints} {ts : List Term} {p m q : Nat} {refs : List Completed} (hpm : p ≤ m)
      (hm : m ≤ text.size) (hs : .ofString (text.slice p m) = s) (rest : Pieces text ts m q refs) :
      Pieces text (.literal s :: ts) p q refs
  | pattern {r : Regex} {ts : List Term} {p m q : Nat} {refs : List Completed}
      (hr : r.matchEnd? text p = some m) (rest : Pieces text ts m q refs) :
      Pieces text (.pattern r :: ts) p q refs
  | reference {name : String} {ts : List Term} {p m q : Nat} {refs : List Completed} (hpm : p ≤ m)
      (rest : Pieces text ts m q refs) :
      Pieces text (.reference name :: ts) p q (⟨some name, p, m⟩ :: refs)

/-- An alternative of the rule of the node splits its stretch, with its children as the pieces of the
references. -/
def Node.Instance (g : Grammar) (text : Text) (n : Node) : Prop :=
  ∃ r, n.name = some r.name ∧ g.rule? r.name = some r ∧ ∃ a ∈ r.alternatives, ∃ p q : Nat,
    n.start = p ∧ n.stop = q ∧ Pieces text a.terms p q (n.children.map Node.completed)

/-! ## What holds of all nodes -/

namespace Completed

/-- The forest of the matches `before` shuts the match out. -/
def ShutOutAfter (before : List Completed) (m : Completed) : Prop :=
  ∃ f, Forest.grown before = some f ∧ f.ShutOut m

/-- Put behind the matches `before`, the match is the last tree. -/
def Becomes (before : List Completed) (m : Completed) (n : Node) : Prop :=
  ∃ f rest, Forest.grown (before ++ [m]) = some f ∧ f.trees = n :: rest

/-- Every match of the list is shut out when it comes, or becomes a node of which `P` holds. -/
def Make (P : Node → Prop) (ms : List Completed) : Prop :=
  ∀ before m after, ms = before ++ m :: after →
    ShutOutAfter before m ∨ ∃ n, Becomes before m n ∧ P n

theorem make_append_singleton {P : Node → Prop} {ms : List Completed} {m : Completed} :
    Make P (ms ++ [m]) ↔ Make P ms ∧ (ShutOutAfter ms m ∨ ∃ n, Becomes ms m n ∧ P n) := by
  constructor
  · intro h
    refine ⟨fun before x after heq => h before x (after ++ [m]) (by simp [heq]), ?_⟩
    exact h ms m [] rfl
  · rintro ⟨h, hm⟩ before x after heq
    rcases List.eq_nil_or_concat' after with rfl | ⟨after, y, rfl⟩
    · obtain ⟨rfl, hx⟩ := List.append_inj' heq rfl
      cases hx
      exact hm
    · rw [← List.cons_append, ← List.append_assoc] at heq
      exact h before x after (List.append_inj' heq rfl).1

end Completed

open Completed

namespace Forest

section

variable {ms : List Completed} {f : Forest} {P : Node → Prop}

theorem make_single {m : Completed} : (∀ n ∈ (single m).nodes, P n) ↔ Make P [m] := by
  have hnode : ∀ n, n ∈ (single m).nodes ↔ n = .leaf m := by
    intro n
    simp [nodes, single, Node.leaf, Node.preorderAll, Node.preorder]
  have hbecomes : ∀ n, Becomes [] m n ↔ n = .leaf m := by
    intro n
    simp [Becomes, grown, next, single, eq_comm]
  have hnil : Make P [] := by
    intro before x after heq
    simp at heq
  have hnot : ¬ ShutOutAfter [] m := by
    rintro ⟨f, hf, -⟩
    exact absurd hf (by simp [grown])
  rw [show [m] = [] ++ [m] from rfl, make_append_singleton]
  simp only [hnode, hbecomes, forall_eq, exists_eq_left, hnil, hnot, true_and, false_or]

/-- A match that is put adds itself to the nodes, and leaves the others alone. -/
theorem make_add {m : Completed} (hf : grown ms = some f) (htidy : f.Tidy) (hm : m.start ≤ m.stop)
    (h : (∀ n ∈ f.nodes, P n) ↔ Make P ms) :
    (∀ n ∈ (f.add m).nodes, P n) ↔ Make P (ms ++ [m]) := by
  have hgrown : grown (ms ++ [m]) = some (f.add m) := by
    rw [grown_append_singleton, hf]
    rfl
  have hout : ShutOutAfter ms m ↔ f.ShutOut m := by
    constructor
    · rintro ⟨f', hf', hout⟩
      cases hf.symm.trans hf'
      exact hout
    · exact fun hout => ⟨f, hf, hout⟩
  rw [make_append_singleton, hout, ← h]
  have hplaced := htidy.placed m
  generalize f.add m = f' at hgrown hplaced ⊢
  cases hplaced with
  | shutOut hshut => exact (and_iff_left (Or.inl hshut)).symm
  | @put inner kept _ htrees inside left hs =>
    have hnot := Placed.not_shutOut_of_put htidy hm htrees inside left
    have ht := trees_of_spanning hs
    have hbecomes : ∀ n, Becomes ms m n ↔ n = above m inner := by
      intro n
      constructor
      · rintro ⟨f'', rest, hf'', hrest⟩
        cases hgrown.symm.trans hf''
        exact (List.cons.inj (hrest.symm.trans ht)).1
      · rintro rfl
        exact ⟨f', kept, hgrown, ht⟩
    simp only [mem_nodes_put htrees ht, hbecomes, hnot, false_or, exists_eq_left, forall_eq_or_imp]
    exact and_comm

/-- The nodes of the forest all have a property just if every match becomes one that has it. -/
theorem forall_nodes_iff (hne : ms ≠ []) (hms : ∀ m ∈ ms, m.start ≤ m.stop) (P : Node → Prop) :
    ∃ f, grown ms = some f ∧ f.Tidy ∧ ((∀ n ∈ f.nodes, P n) ↔ Make P ms) :=
  grown_induction (P := fun ms f => (∀ n ∈ f.nodes, P n) ↔ Make P ms) (fun _ hm => hm)
    (fun _ _ => make_single) (fun _ _ _ hf htidy hm h => make_add hf htidy hm h) ms hne hms

end

end Forest

/-! ## The matches that find a place -/

namespace Completed

/-- The matches `ks` that were kept before, and `m` behind them unless it ends before one of them does or
begins in the middle of one. -/
def keep (ks : List Completed) (m : Completed) : List Completed :=
  if ∃ k ∈ ks, m.stop < k.stop ∨ k.start < m.start ∧ m.start < k.stop then ks else ks ++ [m]

/-- The matches that find a place in the tree. -/
def kept (ms : List Completed) : List Completed := ms.foldl keep []

theorem kept_append_singleton (ms : List Completed) (m : Completed) :
    kept (ms ++ [m]) = keep (kept ms) m := List.foldl_concat _ _ _ _

end Completed

namespace Forest

/-- The forest is that of the matches `ks`, and each of them stands in it. -/
structure Keeps (ks : List Completed) (f : Forest) : Prop where
  grown : grown ks = some f
  listed : Node.listingAll f.trees.reverse = ks
  covered : ∀ k ∈ ks, ∃ t ∈ f.trees, t.start ≤ k.start ∧ k.stop ≤ t.stop

section

variable {ms ks : List Completed} {f : Forest} {m : Completed}

theorem Keeps.completed_mem (h : f.Keeps ks) {t : Node} (ht : t ∈ f.trees) : t.completed ∈ ks := by
  rw [← h.listed]
  exact Node.completed_mem_listingAll (List.mem_reverse.2 ht)

/-- What the forest shuts out can be read off the matches that it keeps. -/
theorem Keeps.shutOut_iff (h : f.Keeps ks) (hf : f.Tidy) :
    f.ShutOut m ↔ ∃ k ∈ ks, m.stop < k.stop ∨ k.start < m.start ∧ m.start < k.stop := by
  constructor
  · rintro (hlt | ⟨t, ht, hstart, hstop⟩)
    · obtain ⟨last, before, htrees, hend⟩ := hf.exists_last
      refine ⟨_, h.completed_mem (t := last) (by simp [htrees]), Or.inl ?_⟩
      rwa [Node.stop_completed, ← hend]
    · exact ⟨_, h.completed_mem ht, Or.inr ⟨hstart, hstop⟩⟩
  · rintro ⟨k, hk, hlt⟩
    obtain ⟨t, ht, hstart, hstop⟩ := h.covered k hk
    have hend := hf.stop_le ht
    rcases hlt with hlt | ⟨hlt, hgt⟩
    · exact Or.inl (by omega)
    · exact Or.inr ⟨t, ht, by omega, by omega⟩

theorem keeps_single (m : Completed) : Keeps (kept [m]) (single m) where
  grown := by simp [kept, keep, Forest.grown, next]
  listed := by simp [kept, keep, single, Node.leaf, Node.listingAll, Node.listing]
  covered := by simp [kept, keep, single, Node.leaf]

theorem Keeps.add (h : f.Keeps (kept ms)) (hf : f.Tidy) (hm : m.start ≤ m.stop) :
    (f.add m).Keeps (kept (ms ++ [m])) := by
  have hout := h.shutOut_iff hf (m := m)
  have hplaced := hf.placed m
  have hgrown : Forest.grown (kept ms ++ [m]) = some (f.add m) := by
    rw [grown_append_singleton, h.grown]
    rfl
  rw [kept_append_singleton, keep]
  generalize f.add m = f' at hgrown hplaced ⊢
  cases hplaced with
  | shutOut hshut =>
    rw [if_pos (hout.1 hshut)]
    exact h
  | put htrees inside left hs =>
    have ht := trees_of_spanning hs
    rw [if_neg fun hex => Placed.not_shutOut_of_put hf hm htrees inside left (hout.2 hex)]
    refine ⟨hgrown, by rw [listingAll_put htrees ht, h.listed], fun k hk => ?_⟩
    rw [ht]
    rcases List.mem_append.1 hk with hk | hk
    · obtain ⟨t, hmem, hstart, hstop⟩ := h.covered k hk
      rw [htrees] at hmem
      rcases List.mem_append.1 hmem with hmem | hmem
      · -- the tree over it has gone under the match
        have hin := inside t hmem
        exact ⟨_, List.mem_cons_self, Int.le_trans hin.1 hstart, Int.le_trans hstop hin.2⟩
      · exact ⟨t, List.mem_cons_of_mem _ hmem, hstart, hstop⟩
    · cases List.mem_singleton.1 hk
      exact ⟨_, List.mem_cons_self, Int.le_refl _, Int.le_refl _⟩

theorem exists_keeps (hne : ms ≠ []) (hms : ∀ m ∈ ms, m.start ≤ m.stop) :
    ∃ f, Forest.grown ms = some f ∧ f.Tidy ∧ f.Keeps (kept ms) :=
  grown_induction (P := fun ms f => f.Keeps (kept ms)) (fun _ hm => hm) (fun m _ => keeps_single m)
    (fun _ _ _ _ hf hm h => h.add hf hm) ms hne hms

end

/-- A forest that grows from the listing of a tree is that tree. -/
theorem grown_listing {d : Node} (hd : d.WellNested) :
    Forest.grown d.listing = some ⟨d.start, d.stop, [d]⟩ :=
  foldl_next_listing d [] hd ⟨by simp, .nil⟩ (by simp)

end Forest

/-- Where the matches that find a place are the listing of a tree, this is the tree of all the
matches. -/
theorem Node.ofCompleted?_of_kept {ms : List Completed} (hms : ∀ m ∈ ms, m.start ≤ m.stop) {d : Node}
    (hd : d.WellNested) (h : kept ms = d.listing) : Node.ofCompleted? ms = some d := by
  have hne : ms ≠ [] := by
    rintro rfl
    obtain ⟨name, start, stop, children⟩ := d
    exact absurd h (by simp [kept, Node.listing])
  obtain ⟨f, hf, -, hkeeps⟩ := Forest.exists_keeps hne hms
  have hgrown := hkeeps.grown
  rw [h, Forest.grown_listing hd, Option.some.injEq] at hgrown
  rw [Forest.ofCompleted?_eq, ← Forest.grown, hf, ← hgrown, Option.map_some, Forest.root,
    List.reverse_singleton, Node.unwrap, if_pos ⟨rfl, rfl⟩, Node.unwrap_of_named hd.named]

/-! ## The trees of a run -/

/-- The named nodes of the root are the nodes of the forest. -/
theorem Forest.mem_root {ms : List Completed} {f : Forest} (hf : f.Tidy) (h : f.MadeOf ms) {n : Node} :
    n ∈ f.root.unwrap.preorder ∧ n.name ≠ none ↔ n ∈ f.nodes := by
  have hnamed : ∀ t ∈ f.trees, t.name ≠ none := fun t ht => h.named t (mem_nodes_of_mem_trees ht)
  rcases hf.unwrap_root hnamed with ⟨t, ht, hunwrap⟩ | ⟨-, hunwrap⟩
  · have hnodes : n ∈ f.nodes ↔ n ∈ t.preorder := by simp [mem_nodes, ht]
    rw [hunwrap, hnodes]
    exact and_iff_left_of_imp fun hn => h.named n (hnodes.2 hn)
  · rw [hunwrap, root, Node.preorder, List.mem_cons]
    constructor
    · rintro ⟨rfl | hn, hname⟩
      · exact absurd rfl hname
      · exact hn
    · exact fun hn => ⟨Or.inr hn, h.named n hn⟩

/-- Where the start rule matches the whole text, all named nodes of the tree are instances of their
rules just if every recorded match is shut out when it comes, or becomes an instance. And where the
matches that find a place list a tree without empty nodes, the tree is this one. -/
theorem instances_iff {lib : Regex.Library} {s : RuleSet} (hs : s.compile lib = .ok g)
    {start : Option String} {limit : Int} {c : Cursor text} (h : g.parse text start limit = .ok c) :
    ∃ r, g.startRule start = .ok r ∧ (c.Whole r → ∃ root, c.tree? = some root ∧
      ((∀ n ∈ root.preorder, n.name ≠ none → n.Instance g text) ↔
        Make (Node.Instance g text) c.completed) ∧
      ∀ d : Node, d.WellNested → kept c.completed = d.listing → root = d) := by
  obtain ⟨r, hr, hset, -⟩ := Grammar.settled_of_parse (RuleSet.owned_of_compile hs) h
  refine ⟨r, hr, fun hw => ?_⟩
  have hwithin := Cursor.within_completed hset.toSound
  have hforward : ∀ m ∈ c.completed, m.start ≤ m.stop := fun m hm => (hwithin m hm).forward
  have hne : c.completed ≠ [] :=
    List.ne_nil_of_mem (List.mem_map.2 ⟨_, Array.mem_toList_iff.2 hw.1, rfl⟩)
  obtain ⟨f, hf, htidy, hiff⟩ := Forest.forall_nodes_iff hne hforward (Node.Instance g text)
  obtain ⟨f', hf', -, hmade⟩ := Forest.exists_grown hne fun m hm =>
    ⟨(hwithin m hm).named, (hwithin m hm).forward⟩
  cases hf.symm.trans hf'
  have htree : c.tree? = some f.root.unwrap := by
    rw [Cursor.tree?_eq, Forest.ofCompleted?_eq, ← Forest.grown, hf, Option.map_some]
  refine ⟨_, htree, ?_, fun d hd hkept => ?_⟩
  · simp only [← hiff, ← Forest.mem_root htidy hmade, and_imp]
  · rw [Cursor.tree?_eq, Node.ofCompleted?_of_kept hforward hd hkept, Option.some.injEq] at htree
    exact htree.symm

/-- The tree of `1+1`. -/
def onePlusOne : Node :=
  ⟨some "sum", 0, 3, [⟨some "sum", 0, 1, [⟨some "item", 0, 1, []⟩]⟩, ⟨some "item", 2, 3, []⟩]⟩

theorem instance_item {p : Nat} {start stop : Int} {text : Text} (hstart : start = p)
    (hstop : stop = p + 1) (hp : p + 1 ≤ text.size) (h : text.slice p (p + 1 : Nat) = "1") :
    (Node.mk (some "item") start stop []).Instance sumGrammar text :=
  ⟨itemRule, rfl, rfl, ⟨"item", [.literal "1"]⟩, by simp [itemRule], p, p + 1, hstart, by simp [hstop],
    .literal (by omega) hp (by rw [h]) .nil⟩

theorem instances_sum :
    sums.compile .standard = .ok sumGrammar ∧
    ∃ c, sumGrammar.parse #['1', '+', '1'] none 5 = .ok c ∧ c.Whole sumRule ∧
      c.tree? = some onePlusOne ∧
      (∀ n ∈ onePlusOne.preorder, n.name ≠ none → n.Instance sumGrammar #['1', '+', '1']) ∧
      Make (Node.Instance sumGrammar #['1', '+', '1']) c.completed := by
  obtain ⟨c, hc, hw, hlist⟩ := exists_parse_sum
  obtain ⟨r, hr, htree⟩ := instances_iff (compile_sums .standard) hc
  cases (show Except.ok sumRule = .ok r from hr)
  obtain ⟨root, hroot, hiff, hlisted⟩ := htree hw
  have hitem : (Node.mk (some "item") 2 3 []).WellNested := .node (by simp) (by decide) (by simp) .nil
    (by simp)
  have hone : (Node.mk (some "item") 0 1 []).WellNested := .node (by simp) (by decide) (by simp) .nil
    (by simp)
  have hsum : (Node.mk (some "sum") 0 1 [⟨some "item", 0, 1, []⟩]).WellNested :=
    .node (by simp) (by decide) (by simp) (.singleton _) (by simpa using hone)
  have hnested : onePlusOne.WellNested := by
    refine .node (by simp [onePlusOne]) (by decide) (by simp [onePlusOne]) ?_ ?_
    · exact .cons_cons (by decide) (.singleton _)
    · simpa [onePlusOne] using ⟨hsum, hitem⟩
  have hkept : kept c.completed = onePlusOne.listing := by
    rw [hlist]
    rfl
  cases hlisted onePlusOne hnested hkept
  have hinstances : ∀ n ∈ onePlusOne.preorder, n.name ≠ none →
      n.Instance sumGrammar #['1', '+', '1'] := by
    intro n hn _
    simp only [onePlusOne, Node.preorder, Node.preorderAll, List.mem_cons, List.mem_append,
      List.not_mem_nil, or_false] at hn
    rcases hn with rfl | (rfl | rfl) | rfl
    · refine ⟨sumRule, rfl, rfl, ⟨"sum", _⟩, List.mem_cons_self, 0, 3, rfl, rfl, ?_⟩
      exact .reference (m := 1) (by omega)
        (.literal (m := 2) (by omega) (by decide) rfl (.reference (m := 3) (by omega) .nil))
    · refine ⟨sumRule, rfl, rfl, ⟨"sum", [.reference "item"]⟩, by simp [sumRule], 0, 1, rfl, rfl, ?_⟩
      exact .reference (by omega) .nil
    · exact instance_item (p := 0) rfl rfl (by decide) rfl
    · exact instance_item (p := 2) rfl rfl (by decide) rfl
  exact ⟨rfl, c, hc, hw, hroot, hinstances, hiff.1 hinstances⟩

/-! ## A match that was given up, as a child -/

/-- The first alternative of `s` tries `a`, which matches, and gives up behind it. -/
def falseStart : RuleSet :=
  ⟨[("s", [[.reference "a", .literal "x"], [.reference "b"]]), ("a", [[.literal "y"]]),
    ("b", [[.literal "y"]])], some "s"⟩

def falseStartRule : Rule :=
  ⟨"s", [⟨"s", [.reference "a", .literal "x"]⟩, ⟨"s", [.reference "b"]⟩]⟩

def falseStartGrammar : Grammar :=
  ⟨[falseStartRule, ⟨"a", [⟨"a", [.literal "y"]⟩]⟩, ⟨"b", [⟨"b", [.literal "y"]⟩]⟩], some "s"⟩

/-- On `y` the node of `b` has the match of `a` as its child, though `b` refers to no rule. -/
theorem node_not_instance :
    falseStart.compile .standard = .ok falseStartGrammar ∧
    falseStartGrammar.startRule none = .ok falseStartRule ∧
    ∃ c, falseStartGrammar.parse #['y'] none 200 = .ok c ∧ c.Whole falseStartRule ∧
      ∃ root, c.tree? = some root ∧ ∃ n ∈ root.preorder, n.name ≠ none ∧
        ¬ n.Instance falseStartGrammar #['y'] := by
  have hend : (falseStartGrammar.parse #['y'] none 200).toOption.map (fun c => c.memo.log) =
      some #[⟨"a", 0, 1⟩, ⟨"b", 0, 1⟩, ⟨"s", 0, 1⟩] := by decide +kernel
  obtain ⟨c, hc, hlog⟩ := exists_of_toOption_map hend
  refine ⟨rfl, rfl, c, hc, ?_, ⟨some "s", 0, 1, [⟨some "b", 0, 1, [⟨some "a", 0, 1, []⟩]⟩]⟩, ?_,
    ⟨some "b", 0, 1, [⟨some "a", 0, 1, []⟩]⟩, by simp [Node.preorder, Node.preorderAll], by simp, ?_⟩
  · rw [Cursor.Whole, hlog]
    simp [falseStartRule]
  · rw [Cursor.tree?, hlog]
    rfl
  · rintro ⟨r, hname, hr, alt, halt, p, q, -, -, hpieces⟩
    rw [← Option.some.inj hname] at hr
    cases (show some (Rule.mk "b" [⟨"b", [.literal "y"]⟩]) = some r from hr)
    cases List.mem_singleton.1 halt
    cases hpieces with
    | literal _ _ _ rest => cases rest

end Packrat
