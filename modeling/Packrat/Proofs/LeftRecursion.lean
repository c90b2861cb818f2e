import Packrat.Proofs.Regex.Greedy
import Packrat.Proofs.Run.Writing
import Packrat.Proofs.Tree.Instances

/-!
# `Packrat/Proofs/LeftRecursion.lean` — left recursion nests to the left

A rule that begins with itself fails on its first reference, which is to the rule under way, and finds
its first thing by the other alternative. That is the seed: in the next round the reference is answered
with it, and the alternative goes on behind it over a separator and one thing more. So each round adds
one thing to the match (`grow_leftRule`), and none of them goes deeper than the things themselves do.

What a round writes is the node over the match so far and the new thing; the log is the listing of a
tree that leans to the left (`Node.listing_leftNested`). This is about any rule of this form over
anything that writes trees (`Plants`), among them another rule of this form: the sums of products are
two such rules, one over the other.
-/

set_option autoImplicit false

namespace Packrat

variable {text : Text} {g : Grammar}

/-! ## Trees that lean to the left -/

namespace Node

/-- The trees one under the other: the innermost node is over the first of them, and each other node
is over the node before it and the next tree. -/
def leftNested (name : String) (s : Series Node) : Node :=
  s.others.foldl (fun left n => ⟨some name, left.start, n.stop, [left, n]⟩)
    ⟨some name, s.first.start, s.first.stop, [s.first]⟩

variable {name : String}

theorem start_foldl (ts : List Node) (left : Node) :
    (ts.foldl (fun left n => ⟨some name, left.start, n.stop, [left, n]⟩) left).start =
      left.start := by
  induction ts generalizing left with
  | nil => rfl
  | cons t ts ih => exact ih _

theorem leftNested_single (t : Node) :
    leftNested name ⟨t, []⟩ = ⟨some name, t.start, t.stop, [t]⟩ := rfl

theorem leftNested_concat (t : Node) (ts : List Node) (n : Node) :
    leftNested name ⟨t, ts ++ [n]⟩ =
      ⟨some name, t.start, n.stop, [leftNested name ⟨t, ts⟩, n]⟩ := by
  have hstart : (leftNested name ⟨t, ts⟩).start = t.start := start_foldl ts _
  rw [leftNested, List.foldl_append]
  exact congrArg (fun i => Node.mk (some name) i n.stop [leftNested name ⟨t, ts⟩, n]) hstart

/-- What the nodes from `start` on over the further trees `ts` write. -/
def extensions (name : String) (start : Int) (ts : List Node) : List Completed :=
  ts.flatMap fun t => t.listing ++ [⟨some name, start, t.stop⟩]

theorem listing_leftNested (t : Node) (ts : List Node) :
    (leftNested name ⟨t, ts⟩).listing =
      t.listing ++ ⟨some name, t.start, t.stop⟩ :: extensions name t.start ts := by
  induction ts using List.reverseRecOn with
  | nil => simp [leftNested_single, listing, listingAll, extensions]
  | append_singleton ts n ih =>
    rw [leftNested_concat, listing, listingAll, ih]
    simp [listingAll, extensions]

end Node

/-- A tree is read back from its listing. -/
theorem Node.ofCompleted?_listing {d : Node} (hd : d.WellNested) :
    Node.ofCompleted? d.listing = some d := by
  rw [Forest.ofCompleted?_eq, ← Forest.grown, Forest.grown_listing hd, Option.map_some, Forest.root,
    List.reverse_singleton, Node.unwrap, if_pos ⟨rfl, rfl⟩, Node.unwrap_of_named hd.named]

/-! ## A rule that begins with itself -/

/-- A rule for things of the rule `item`, one or more, with separators between them. -/
def leftRule (name : String) (sep : CodePoints) (item : String) : Rule :=
  ⟨name, [⟨name, [.reference name, .literal sep, .reference item]⟩, ⟨name, [.reference item]⟩]⟩

/-- A reference to the rule `name` that begins at `p` writes the tree `t`, which ends at `q`. -/
structure Plants (text : Text) (f : Follow text) (names : List String) (name : String) (p q : Nat)
    (t : Node) : Prop where
  start : t.start = p
  stop : t.stop = q
  lt : p < q
  wellNested : t.WellNested
  writes : Writes text names name p q t.listing (f name)

/-- References to `item` write the trees, one behind the other from `q` to `e` with a separator in
front of each, and behind them stands no separator. -/
inductive Trail (text : Text) (f : Follow text) (names : List String) (sep : CodePoints)
    (item : String) : Nat → List Node → Nat → Prop
  | nil {q : Nat} (hsep : text.startsAt sep q = false) : Trail text f names sep item q [] q
  | cons {q m e : Nat} {t : Node} {ts : List Node} (hsep : text.startsAt sep q = true)
      (ht : Plants text f names item (q + sep.length) m t)
      (rest : Trail text f names sep item m ts e) :
      Trail text f names sep item q (t :: ts) e

theorem Trail.le {f : Follow text} {names : List String} {sep : CodePoints} {item : String}
    {q e : Nat} {ts : List Node} (h : Trail text f names sep item q ts e) : q ≤ e := by
  induction h with
  | nil _ => exact Nat.le_refl _
  | cons _ ht _ ih =>
    have := ht.lt
    omega

/-- The trees nest well. -/
theorem Trail.wellNested_foldl {f : Follow text} {names : List String} {sep : CodePoints}
    {item : String} {q e : Nat} {ts : List Node} (h : Trail text f names sep item q ts e)
    (name : String) :
    ∀ left : Node, left.WellNested → left.stop = q →
      (ts.foldl (fun left n => ⟨some name, left.start, n.stop, [left, n]⟩) left).WellNested ∧
      (ts.foldl (fun left n => ⟨some name, left.start, n.stop, [left, n]⟩) left).stop = e := by
  induction h with
  | nil _ => exact fun left hw hs => ⟨hw, hs⟩
  | @cons q m e t ts _ ht _ ih =>
    intro left hw hs
    have hstart := ht.start
    have hstop := ht.stop
    have hlt := ht.lt
    have hleft := hw.nonempty
    refine ih ⟨some name, left.start, t.stop, [left, t]⟩ (.node (by simp) ?_ ?_ ?_ ?_) hstop
    · show left.start < t.stop
      omega
    · intro c hc
      rcases List.mem_cons.1 hc with rfl | hc
      · exact ⟨Int.le_refl _, show c.stop ≤ t.stop by omega⟩
      · cases List.mem_singleton.1 hc
        exact ⟨show left.start ≤ t.start by omega, Int.le_refl _⟩
    · exact .cons_cons (show left.stop ≤ t.start by omega) (.singleton _)
    · intro c hc
      rcases List.mem_cons.1 hc with rfl | hc
      · exact hw
      · cases List.mem_singleton.1 hc
        exact ht.wellNested

/-- The memo behind a round that has matched `name` from `start` up to `q`; the first thing there, of
the rule `item`, ends at `q₀`. -/
structure Memo.Seeded (names : List String) (name item : String) (start q₀ q : Nat)
    (L : List Completed) (m : Memo) : Prop where
  reads : m.Reads L
  seed : m.Answers name start q
  first : m.Answers item start q₀
  recorded : ⟨some name, start, q₀⟩ ∈ L
  untouched : m.Untouched names q

section

variable {n : Nat} {names : List String} {name item : String} {sep : CodePoints} {L : List Completed}
  {c : Cursor text} {q₀ q m : Nat} {t : Node}

/-- The seed is not extended where no separator stands behind it. -/
theorem leftRule_not_extended (item : String) (hread : c.memo.Reads L)
    (ha : c.memo.Answers name c.pos q) (hq : q < text.size + 1)
    (hsep : text.startsAt sep q = false) :
    (Alternative.mk name [.reference name, .literal sep, .reference item]).run (resolve g n) c =
      .failed c := by
  rw [Alternative.run, runTerms_matched _ (resolve_of_answers hread ha hq n),
    runTerms_literal_failed _ hsep]
  rfl

/-- Behind a separator, the seed is extended by the next thing. -/
theorem leftRule_extended (hread : c.memo.Reads L) (ha : c.memo.Answers name c.pos q)
    (hq : q < text.size + 1) (hsep : text.startsAt sep q = true)
    (ht : Plants text (resolve g n) names item (q + sep.length) m t)
    (hu : c.memo.Untouched names (q + sep.length)) :
    ∃ d, (Alternative.mk name [.reference name, .literal sep, .reference item]).run (resolve g n) c =
        .matched d ∧
      c.Wrote [c.spot name] name m L (t.listing ++ [⟨some name, c.pos.val, m⟩]) d := by
  obtain ⟨hm, hlit⟩ := runTerms_literal (f := resolve g n) (c := c.backTo ⟨q, hq⟩)
    [.reference item] hsep
  obtain ⟨d, hrun, hw⟩ := ht.writes (c.backTo ⟨q + sep.length, hm⟩) L rfl hread hu
  have hterms : runTerms (resolve g n) [.reference name, .literal sep, .reference item] c =
      .matched d := by
    rw [runTerms_matched _ (resolve_of_answers hread ha hq n), hlit]
    exact runTerms_matched [] hrun
  obtain ⟨d', hrun', -, hw'⟩ := Alternative.wrote_run (a := ⟨name, _⟩) (c := c) t.listing hterms
    hw.pos hw.reads hw.keeps hw.before (hread.begun _ (hread.coherent.mem_of_longest ha))
    fun e he => by
      have hlt := ht.lt
      have he' : (q : Int) = e := Option.some.inj (ha.symm.trans he)
      omega
  exact ⟨d', hrun', hw'⟩

/-- The first thing is the seed. -/
theorem leftRule_seeded (hne : item ≠ name) (hread : c.memo.Reads L)
    (hs : c.memo.isStarted (c.spot name) = true) (hl : c.memo.longest? (c.spot name) = none)
    (ht : Plants text (resolve g n) names item c.pos m t)
    (hu : c.memo.Untouched names c.pos) :
    ∃ d, (Alternative.mk name [.reference item]).run (resolve g n) c = .matched d ∧
      d.memo.Answers item c.pos m ∧
      c.Wrote [c.spot name] name m L (t.listing ++ [⟨some name, c.pos.val, m⟩]) d := by
  obtain ⟨d, hrun, hw⟩ := ht.writes c L rfl hread hu
  have hterms : runTerms (resolve g n) [.reference item] c = .matched d := runTerms_matched [] hrun
  obtain ⟨d', hrun', hkeep, hw'⟩ := Alternative.wrote_run (a := ⟨name, _⟩) t.listing hterms hw.pos
    hw.reads hw.keeps hw.before hs fun e he => absurd (hl.symm.trans he) (by simp)
  exact ⟨d', hrun', hw.reads.answers_of_keepsBut hkeep (by simp [Cursor.spot, hne]) hw.answers, hw'⟩

/-! ### Rounds -/

variable {start : Fin (text.size + 1)}

/-- The first round finds the seed. -/
theorem leftRule_first_round (sep : CodePoints) (hne : item ≠ name) (hread : c.memo.Reads L)
    (hc : c.pos = start)
    (hs : c.memo.isStarted (c.spot name) = true) (hl : c.memo.longest? (c.spot name) = none)
    (ht : Plants text (resolve g n) names item start q t)
    (hu : c.memo.Untouched names start) :
    ∃ d, runRound (resolve g n) start (leftRule name sep item).alternatives none c =
        .ended (some d.pos) d ∧
      d.memo.Seeded names name item start q q (L ++ (t.listing ++ [⟨some name, start.val, q⟩])) ∧
      c.Wrote [c.spot name] name q L (t.listing ++ [⟨some name, start.val, q⟩]) d := by
  subst hc
  have hlt := ht.lt
  obtain ⟨d, hrun, hfirst, hw⟩ := leftRule_seeded hne hread hs hl ht hu
  have hfail : (Alternative.mk name [.reference name, .literal sep, .reference item]).run
      (resolve g n) c = .failed c := by
    rw [Alternative.run, runTerms_failed _ (resolve_of_underWay hread hs hl n)]
    rfl
  have hround : runRound (resolve g n) c.pos (leftRule name sep item).alternatives none c =
      .ended (some d.pos) d := by
    have hle : c.pos ≤ d.pos := by
      rw [Fin.le_def, hw.pos]
      omega
    exact runRound_of_failed hfail hrun rfl hle
  exact ⟨d, hround, ⟨hw.reads, hw.answers, hfirst, by simp, hu.after hw.before (by omega)⟩, hw⟩

/-- As long as there is a separator behind the seed, a round extends it. -/
theorem leftRule_next_round (h : c.memo.Seeded names name item start q₀ q L) (hlt : start.val < q₀)
    (hle : q₀ ≤ q) (hq : q < text.size + 1) (hsep : text.startsAt sep q = true)
    (ht : Plants text (resolve g n) names item (q + sep.length) m t)
    (hne : item ≠ name) :
    ∃ (hm : m < text.size + 1) (d : Cursor text),
      runRound (resolve g n) start (leftRule name sep item).alternatives none c =
        .ended (some ⟨m, hm⟩) d ∧
      d.memo.Seeded names name item start q₀ m (L ++ (t.listing ++ [⟨some name, start.val, m⟩])) ∧
      (c.backTo start).Wrote [⟨name, start.val⟩] name m L (t.listing ++ [⟨some name, start.val, m⟩])
        (d.backTo ⟨m, hm⟩) := by
  have htlt := ht.lt
  obtain ⟨d, hrun, hw⟩ := leftRule_extended (c := c.backTo start) h.reads h.seed hq hsep ht
    (h.untouched.mono (fun _ hn => hn) (by omega))
  have hm : m < text.size + 1 := hw.pos ▸ d.pos.isLt
  have hpos : d.pos = ⟨m, hm⟩ := Fin.ext hw.pos
  have hfirst : d.memo.Answers item start q₀ :=
    h.reads.answers_of_keepsBut hw.keeps (by simp [Cursor.spot, hne]) h.first
  have hq₀ : q₀ < text.size + 1 := by omega
  have hmem := List.mem_append_left (t.listing ++ [⟨some name, (start.val : Int), (m : Int)⟩])
    h.recorded
  have hagain := Alternative.run_answered (g := g) (n := n) (c := d.backTo start) hw.reads hfirst hq₀
    hmem
  refine ⟨hm, (d.backTo start).backTo ⟨q₀, hq₀⟩, ?_, ⟨hw.reads, hw.answers, hfirst, hmem, ?_⟩, ?_⟩
  · exact runRound_of_longer hrun hpos hagain (Fin.le_def.2 (show start.val ≤ m by omega))
      (Fin.le_def.2 (show q₀ ≤ m by omega))
  · exact h.untouched.after hw.before (by omega)
  · exact ⟨rfl, hw.reads, hw.keeps, hw.answers, hw.before⟩

/-- Where there is none, a round finds nothing new. -/
theorem leftRule_last_round (h : c.memo.Seeded names name item start q₀ q L) (hle : q₀ ≤ q)
    (hq : q < text.size + 1) (hlt : start.val < q₀) (hsep : text.startsAt sep q = false) :
    runRound (resolve g n) start (leftRule name sep item).alternatives none c =
      .ended (some ⟨q₀, by omega⟩) (c.backTo ⟨q₀, by omega⟩) := by
  have hfail := leftRule_not_extended (g := g) (n := n) (c := c.backTo start) item h.reads
    h.seed hq hsep
  have hagain := Alternative.run_answered (g := g) (n := n) (c := c.backTo start) h.reads h.first
    (show q₀ < text.size + 1 by omega) h.recorded
  exact runRound_of_failed hfail hagain rfl (Fin.le_def.2 (Nat.le_of_lt hlt))

/-- From the seed on, the rounds write the nodes over one more tree each, up to the last. -/
theorem grow_leftRule {e : Nat} {ts : List Node} (hne : item ≠ name)
    (htrail : Trail text (resolve g n) names sep item q ts e) :
    ∀ {L : List Completed} {c : Cursor text} (best : Fin (text.size + 1)), best.val = q →
      c.memo.Seeded names name item start q₀ q L → start.val < q₀ → q₀ ≤ q →
      ∃ d, grow (resolve g n) (leftRule name sep item) start best c = .matched d ∧
        (c.backTo start).Wrote [⟨name, start.val⟩] name e L (Node.extensions name start.val ts)
          d := by
  induction htrail with
  | @nil q hsep =>
    intro L c best hbest h hlt hle
    subst hbest
    have hround := leftRule_last_round (g := g) (n := n) h hle best.isLt hlt hsep
    refine ⟨_, grow_of_not_lt hround (Fin.not_lt.2 (Fin.le_def.2 hle)), rfl, ?_, .refl _ _, h.seed,
      .of_eq (fun _ => rfl) _⟩
    rw [Node.extensions, List.flatMap_nil, List.append_nil]
    exact h.reads
  | @cons q m e t ts hsep ht hrest ih =>
    intro L c best hbest h hlt hle
    subst hbest
    have htlt := ht.lt
    obtain ⟨hm, d, hround, hseeded, hw⟩ := leftRule_next_round h hlt hle best.isLt hsep ht hne
    obtain ⟨d', hgrow, hw'⟩ := ih ⟨m, hm⟩ rfl hseeded hlt (by omega)
    refine ⟨d', ?_, ?_⟩
    · rw [grow_of_lt hround (Fin.lt_def.2 (show best.val < m by omega)), hgrow]
    · rw [Node.extensions, List.flatMap_cons, ht.stop, ← Node.extensions]
      exact hw.then hw' hrest.le

/-- A rule that begins with itself writes the tree that leans to the left. -/
theorem writes_leftRule {p e : Nat} {ts : List Node} (hne : item ≠ name) (hname : name ∉ names)
    (ht : Plants text (resolve g n) names item p q t)
    (htrail : Trail text (resolve g n) names sep item q ts e) :
    Writes text (name :: names) name p e (Node.leftNested name ⟨t, ts⟩).listing
      ((leftRule name sep item).run (resolve g n)) := by
  intro c L hp hread hu
  subst hp
  have hlt := ht.lt
  have hle := htrail.le
  have hnew : c.memo.isStarted (c.spot name) = false :=
    hu name List.mem_cons_self _ (Int.le_refl _)
  obtain ⟨d, hround, hseeded, hw⟩ := leftRule_first_round (c := c.saveStarted (c.spot name)) sep
    hne (hread.saveStarted _) rfl ((Memo.isStarted_saveStarted _ _ _).2 (.inl rfl))
    (hread.longest_of_new hnew) ht
    ((hu.mono (fun _ hn => List.mem_cons_of_mem _ hn) (Nat.le_refl _)).saveStarted hname)
  obtain ⟨d', hgrow, hw'⟩ := grow_leftRule hne htrail d.pos hw.pos hseeded hlt (Nat.le_refl q)
  have hlt' : c.pos < d.pos := by
    rw [Fin.lt_def, hw.pos]
    exact hlt
  refine ⟨d', ?_, .of_rule hnew (by omega) ?_⟩
  · rw [Rule.run]
    exact (grow_of_lt hround hlt').trans hgrow
  · have hwrote := hw.then hw' hle
    rw [Node.listing_leftNested, ht.start, ht.stop, List.append_cons]
    exact hwrote

/-- A reference to such a rule writes the tree. -/
theorem plants_leftRule {p e : Nat} {ts : List Node} (hne : item ≠ name) (hname : name ∉ names)
    (hr : g.rule? name = some (leftRule name sep item))
    (ht : Plants text (resolve g n) names item p q t)
    (htrail : Trail text (resolve g n) names sep item q ts e) :
    Plants text (resolve g (n + 1)) (name :: names) name p e (Node.leftNested name ⟨t, ts⟩) := by
  have hseed : Node.WellNested ⟨some name, t.start, t.stop, [t]⟩ :=
    .node (by simp) ht.wellNested.nonempty (by simp) (.singleton _) (by simpa using ht.wellNested)
  obtain ⟨hwell, hstop⟩ := htrail.wellNested_foldl name _ hseed ht.stop
  exact ⟨(Node.start_foldl ts _).trans ht.start, hstop, Nat.lt_of_lt_of_le ht.lt htrail.le, hwell,
    (writes_leftRule hne hname ht htrail).resolve hr List.mem_cons_self⟩

end

/-! ## Texts that the rule matches -/

/-- The trees of the elements where they stand, the first of them behind a separator at `q`. -/
def Series.treesBehind {α : Type} (sep : String) (f : α → List Char) (node : Nat → α → Node) :
    Nat → List α → List Node
  | _, [] => []
  | q, x :: xs => node (q + sep.length) x :: treesBehind sep f node (q + sep.length + (f x).length) xs

/-- The trees of the elements where they stand in the text joined from them, which begins at `p`. -/
def Series.trees {α : Type} (sep : String) (f : α → List Char) (node : Nat → α → Node) (p : Nat)
    (s : Series α) : Series Node :=
  ⟨node p s.first, treesBehind sep f node (p + (f s.first).length) s.others⟩

section

variable {α : Type} {f : α → List Char} {node : Nat → α → Node} (sep : String)
  (stop : List Char → Prop) {F : Follow text} {names : List String} {item : String}
  {rest : List Char}

/-- Where elements may be followed by a separator, or by what `stop` says, a text joined from them is a
trail. -/
theorem trail_of_drop (hsep : ∀ cs, stop (sep.toList ++ cs))
    (helem : ∀ x p rest, text.toList.drop p = f x ++ rest → stop rest →
      Plants text F names item p (p + (f x).length) (node p x))
    (hrest : stop rest) (hend : ¬ sep.toList <+: rest) : ∀ (xs : List α) (q : Nat),
      text.toList.drop q = Series.joinedBehind sep f xs ++ rest →
      Trail text F names sep item q (Series.treesBehind sep f node q xs)
        (q + (Series.joinedBehind sep f xs).length)
  | [], q, h => by
    refine .nil ?_
    rw [Bool.eq_false_iff, Ne, Text.startsAt_ofString, h]
    exact hend
  | x :: xs, q, h => by
    rw [Series.joinedBehind_cons, List.append_assoc, List.append_assoc] at h
    have hstart : text.startsAt sep q = true := by
      rw [Text.startsAt_ofString, h]
      exact List.prefix_append _ _
    have hx := Text.drop_add h
    rw [String.length_toList] at hx
    have hstop : stop (Series.joinedBehind sep f xs ++ rest) := by
      cases xs with
      | nil => exact hrest
      | cons y ys =>
        rw [Series.joinedBehind_cons, List.append_assoc]
        exact hsep _
    have htrail := trail_of_drop hsep helem hrest hend xs _ (Text.drop_add hx)
    have hlen : q + (Series.joinedBehind sep f (x :: xs)).length =
        q + sep.length + (f x).length + (Series.joinedBehind sep f xs).length := by
      rw [Series.joinedBehind_cons, List.length_append, List.length_append, String.length_toList]
      omega
    rw [hlen]
    refine .cons hstart ?_ htrail
    rw [CodePoints.length_ofString]
    exact helem x _ _ hx hstop

/-- A text joined from elements begins with the tree of the first, and goes on with a trail. -/
theorem Series.plants_and_trail (hsep : ∀ cs, stop (sep.toList ++ cs))
    (helem : ∀ x p rest, text.toList.drop p = f x ++ rest → stop rest →
      Plants text F names item p (p + (f x).length) (node p x))
    (hrest : stop rest) (hend : ¬ sep.toList <+: rest) (s : Series α) {p : Nat}
    (h : text.toList.drop p = s.joined sep f ++ rest) :
    Plants text F names item p (p + (f s.first).length) (s.trees sep f node p).first ∧
      Trail text F names sep item (p + (f s.first).length) (s.trees sep f node p).others
        (p + (s.joined sep f).length) := by
  rw [joined, List.append_assoc] at h
  have hstop : stop (joinedBehind sep f s.others ++ rest) := by
    cases s.others with
    | nil => exact hrest
    | cons y ys =>
      rw [joinedBehind_cons, List.append_assoc]
      exact hsep _
  have htrail := trail_of_drop sep stop hsep helem hrest hend s.others _ (Text.drop_add h)
  rw [joined, List.length_append, ← Nat.add_assoc]
  exact ⟨helem _ _ _ h hstop, htrail⟩

end

/-! ## Sums of products -/

/-- One or more ASCII digits. -/
abbrev Digits := Series {c : Char // '0' ≤ c ∧ c ≤ '9'}

def digitsText (d : Digits) : List Char := d.toList.map (·.val)

/-- Numbers with `*` between them. -/
def productText (t : Series Digits) : List Char := t.joined "*" digitsText

/-- Products with `+` between them. -/
def sumText (e : Series (Series Digits)) : List Char := e.joined "+" productText

/-- The node of a number at `p`. -/
def numberNode (p : Nat) (d : Digits) : Node :=
  ⟨some "number", p, (p + (digitsText d).length : Nat), []⟩

/-- The node of a product at `p`: the node over its first factor has that for its child, and the node
over more of them has the node over all but the last, and the last. -/
def termNode (p : Nat) (t : Series Digits) : Node :=
  .leftNested "term" (t.trees "*" digitsText numberNode p)

/-- The node of a sum at `p`, over its products in the same way. -/
def expNode (p : Nat) (e : Series (Series Digits)) : Node :=
  .leftNested "exp" (e.trees "+" productText termNode p)

def arith : RuleSet :=
  ⟨[("number", [[.pattern "\\d+" ""]]),
    ("term", [[.reference "term", .literal "*", .reference "number"], [.reference "number"]]),
    ("exp", [[.reference "exp", .literal "+", .reference "term"], [.reference "term"]])],
    some "number"⟩

/-- The grammar of sums of products, with the regular expression that matches a number. -/
def arithGrammar (number : Regex) : Grammar :=
  ⟨[tokenRule "number" number, leftRule "term" "*" "number", leftRule "exp" "+" "term"],
    some "number"⟩

/-- ASCII digits are matched as far as they go. Behind them nothing stands, or a character in front of
the digits in ASCII. -/
def Regex.MatchesDigits (r : Regex) : Prop :=
  ∀ {text : Text} {d : Digits} {p : Nat} {rest : List Char},
    text.toList.drop p = digitsText d ++ rest → (∀ c ∈ rest.head?, c < '0') →
      r.matchEnd? text p = some (p + (digitsText d).length)

theorem compile_arith {lib : Regex.Library} {number : Regex} (h : lib.read "\\d+" {} = .ok number) :
    arith.compile lib = .ok (arithGrammar number) := by
  simp only [arith, RuleSet.compile, List.mapM_cons, compileRule_token "number" (by decide) h]
  rfl

/-! ### The three rules -/

section

variable {number : Regex} (hnumber : number.MatchesDigits)

include hnumber

theorem plants_number (n : Nat) (d : Digits) (p : Nat) (rest : List Char)
    (h : text.toList.drop p = digitsText d ++ rest) (hrest : ∀ c ∈ rest.head?, c < '0') :
    Plants text (resolve (arithGrammar number) (n + 1)) ["number"] "number" p
      (p + (digitsText d).length) (numberNode p d) := by
  have hlt : p < p + (digitsText d).length := by simp [digitsText, Series.toList]
  have hwell : (numberNode p d).WellNested :=
    Node.wellNested_leaf "number" (Int.ofNat_lt.2 hlt)
  exact ⟨rfl, rfl, hlt, hwell,
    (writes_tokenRule _ "number" (hnumber h hrest) hlt).resolve rfl List.mem_cons_self⟩

theorem plants_term (n : Nat) (t : Series Digits) (p : Nat) (rest : List Char)
    (h : text.toList.drop p = productText t ++ rest) (hrest : ∀ c ∈ rest.head?, c = '+') :
    Plants text (resolve (arithGrammar number) (n + 2)) ["term", "number"] "term" p
      (p + (productText t).length) (termNode p t) := by
  have hend : ¬ "*".toList <+: rest := by
    rintro ⟨behind, rfl⟩
    exact absurd (hrest '*' rfl) (by decide)
  obtain ⟨hfirst, htrail⟩ := t.plants_and_trail "*" (fun rest => ∀ c ∈ rest.head?, c < '0')
    (by simp) (plants_number hnumber n) (fun c hc => by rw [hrest c hc]; decide) hend h
  exact plants_leftRule (by decide) (by decide) rfl hfirst htrail

theorem writes_exp (n : Nat) (e : Series (Series Digits)) :
    (expNode 0 e).WellNested ∧
    Writes (sumText e).toArray ["exp", "term", "number"] "exp" 0 (sumText e).length
      (expNode 0 e).listing
      ((leftRule "exp" "+" "term").run (resolve (arithGrammar number) (n + 2))) := by
  have hdrop : (sumText e).toArray.toList.drop 0 = sumText e ++ [] := by simp
  obtain ⟨hfirst, htrail⟩ := e.plants_and_trail "+" (fun rest => ∀ c ∈ rest.head?, c = '+')
    (by simp) (plants_term hnumber n) (by simp) (by simp) hdrop
  rw [show 0 + (e.joined "+" productText).length = (sumText e).length from Nat.zero_add _] at htrail
  exact ⟨(plants_leftRule (by decide) (by decide) rfl hfirst htrail).wellNested,
    writes_leftRule (by decide) (by decide) hfirst htrail⟩

end

/-- Over a sum of products the rule that begins with itself finds them all, two levels deep whatever
their number, and the tree leans to the left: the node over more than one product has the node over
all but the last of them for a child, and the last; and so have the nodes of the products over their
factors. -/
theorem arithmetic_leans_left {lib : Regex.Library} {number : Regex}
    (hread : lib.read "\\d+" {} = .ok number) (hnumber : number.MatchesDigits)
    (e : Series (Series Digits)) {limit : Int} (hlimit : 2 ≤ limit) :
    arith.compile lib = .ok (arithGrammar number) ∧
    ∃ c, (arithGrammar number).parse (sumText e).toArray (some "exp") limit = .ok c ∧
      c.matched = true ∧ c.pos.val = (sumText e).length ∧ c.tree? = some (expNode 0 e) := by
  obtain ⟨n, hn⟩ : ∃ n, limit.toNat = n + 2 := ⟨limit.toNat - 2, by omega⟩
  obtain ⟨hnested, hwrites⟩ := writes_exp hnumber n e
  rw [← hn] at hwrites
  have hr : (arithGrammar number).startRule (some "exp") = .ok (leftRule "exp" "+" "term") := rfl
  obtain ⟨c, hc, hpos, hlog⟩ := Grammar.parse_of_writes hr hwrites
  refine ⟨compile_arith hread, c, hc, Cursor.matched_of_pos hpos, hpos, ?_⟩
  rw [Cursor.tree?_eq, hlog]
  exact Node.ofCompleted?_listing hnested

/-- What the standard library reads for a number. -/
def digitsPattern : Regex.Parsed :=
  ⟨"\\d+", .repeated .greedy 1 none (.set true [.named .digit false true] false), false, []⟩

theorem read_digits : Regex.Library.standard.read "\\d+" {} = .ok digitsPattern.toRegex :=
  Regex.Library.read_standard (by decide +kernel)

theorem accepts_digit (v : Regex.Scene) (n : Nat) (hn : n ≤ 57) :
    Regex.accepts v true [.named .digit false true] false n = decide (48 ≤ n) := by
  have hdigit : CharClass.digit.contains false n = decide (48 ≤ n) := by
    rw [CharClass.contains, CharClass.ranges, decimalDigits, Ranges.contains]
    by_cases h : n < 48
    · simp [h]
    · simp [h, hn, Nat.not_lt.1 h]
  simp [Regex.accepts, Regex.Member.contains, hdigit]

theorem matchesDigits_digitsPattern : digitsPattern.toRegex.MatchesDigits := by
  intro text d p rest h hrest
  have hexpr : digitsPattern.expr =
      .repeated .greedy 1 none (.set true [.named .digit false true] false) := rfl
  refine Regex.Parsed.matchEnd?_repeated hexpr (by simp [digitsText, Series.toList]) h
    (fun v c hc => ?_) fun v c hc => ?_
  · obtain ⟨⟨c, hlo, hhi⟩, -, rfl⟩ := List.mem_map.1 hc
    exact (accepts_digit v c.toNat hhi).trans (decide_eq_true hlo)
  · have hlt : c.toNat < 48 := hrest c hc
    rw [accepts_digit v _ (by omega)]
    exact decide_eq_false (Nat.not_le.2 hlt)

/-- The sum `12+3*4`. -/
def twelveAndMore : Series (Series Digits) :=
  ⟨⟨⟨⟨'1', by decide⟩, [⟨'2', by decide⟩]⟩, []⟩,
    [⟨⟨⟨'3', by decide⟩, []⟩, [⟨⟨'4', by decide⟩, []⟩]⟩]⟩

theorem twelveAndMore_leans_left :
    Regex.Library.standard.read "\\d+" {} = .ok digitsPattern.toRegex ∧
    digitsPattern.toRegex.MatchesDigits ∧ (2 : Int) ≤ 2 ∧
    sumText twelveAndMore = "12+3*4".toList ∧
    ∃ c, (arithGrammar digitsPattern.toRegex).parse (sumText twelveAndMore).toArray (some "exp") 2 =
        .ok c ∧
      c.matched = true ∧ c.tree? = some
        ⟨some "exp", 0, 6, [⟨some "exp", 0, 2, [⟨some "term", 0, 2, [⟨some "number", 0, 2, []⟩]⟩]⟩,
          ⟨some "term", 3, 6, [⟨some "term", 3, 4, [⟨some "number", 3, 4, []⟩]⟩,
            ⟨some "number", 5, 6, []⟩]⟩]⟩ := by
  obtain ⟨-, c, hc, hmatched, -, htree⟩ :=
    arithmetic_leans_left read_digits matchesDigits_digitsPattern twelveAndMore (Int.le_refl 2)
  exact ⟨read_digits, matchesDigits_digitsPattern, Int.le_refl 2, by decide, c, hc, hmatched, htree⟩

end Packrat
