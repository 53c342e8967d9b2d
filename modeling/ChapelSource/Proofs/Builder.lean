import Mathlib
import ChapelSource.SymbolTable
import ChapelSource.Proofs.Construction

/-!
# Runs of a builder

Nothing that a builder does later changes a node that it has made: its names keep their handles in
the pool, and its operands their places. Since a node is an operand at most once, the nodes that are
no operands yet share nothing, and together their trees hold every node once.

* `Builder.Made`, **`Builder.made_run`**: what a builder keeps after some constructions.
* `Builder.node?_eq`: a node is read back as its construction over its operands.
* `tree`, `unused`: the places of the nodes of a tree, and the nodes that are no operands yet.
* **`flatMap_tree_unused`**: the trees of the unused nodes hold every node once.
* `Node.Ordered`, `Builder.exists_node`: a node that was made is the same at any later time, and the
  numbers in its tree are those of the places.
* **`Builder.run_keeps`**, `Builder.run_keeps_sum`: the nodes of a run, at any later time.
-/

namespace ChapelSource

open StringPool

/-! ## What a builder keeps -/

namespace Builder

variable {τ : Type} [StringPool τ]

theorem run_concat (cs : List (Construction String Nat)) (c : Construction String Nat) :
    (run (cs ++ [c]) : Builder τ) = (run cs).make c := List.foldl_concat ..

/-- What a builder keeps after some constructions: a node for each, whose names any later pool gives
back, and exactly their names in the pool. -/
structure Made (b : Builder τ) (cs : List (Construction String Nat)) : Prop where
  nextId_eq : b.nextId = cs.length
  length_nodes : b.nodes.length = cs.length
  holds : Holds b.pool (cs.flatMap Construction.names)
  exists_stored : ∀ {k : Nat} {c : Construction String Nat}, cs[k]? = some c →
    ∃ stored : Construction Nat Nat, b.nodes[k]? = some ⟨.sourceless ⟨k⟩, stored⟩ ∧
      ∀ u : τ, Consistent u → Within b.pool u → stored.mapNamesM (resolve? u) = some c

section

variable [LawfulStringPool τ]

theorem made_fresh : Made (fresh : Builder τ) [] where
  nextId_eq := rfl
  length_nodes := rfl
  holds := holds_empty
  exists_stored h := nomatch h

theorem Made.make {b : Builder τ} {cs : List (Construction String Nat)} (h : Made b cs)
    (c : Construction String Nat) : Made (b.make c) (cs ++ [c]) := by
  obtain ⟨stored, hrun, hback⟩ := c.exists_mapNamesM_enter b.pool
  have hmake : b.make c = ⟨b.nextId + 1, internAll b.pool c.names,
      b.nodes ++ [⟨.sourceless ⟨b.nextId⟩, stored⟩]⟩ := by
    rw [Builder.make, hrun]
  rw [hmake]
  constructor
  · rw [h.nextId_eq, List.length_append, List.length_singleton]
  · rw [List.length_append, List.length_append, h.length_nodes, List.length_singleton,
      List.length_singleton]
  · rw [List.flatMap_append, List.flatMap_singleton]
    exact h.holds.internAll c.names
  · intro k d hd
    rcases Nat.lt_or_ge k cs.length with hlt | hge
    · rw [List.getElem?_append_left hlt] at hd
      obtain ⟨stored', hstored, hback'⟩ := h.exists_stored hd
      refine ⟨stored', ?_, fun u hu hwithin => ?_⟩
      · rwa [List.getElem?_append_left (h.length_nodes.symm ▸ hlt)]
      · exact hback' u hu ((within_internAll _ _).trans hwithin)
    · -- the last construction is the one that was added
      obtain rfl : k = cs.length := by
        have := (List.getElem?_eq_some_iff.1 hd).1
        rw [List.length_append, List.length_singleton] at this
        omega
      rw [List.getElem?_concat_length, Option.some.injEq] at hd
      subst hd
      refine ⟨stored, ?_, hback⟩
      rw [← h.length_nodes, List.getElem?_concat_length, h.nextId_eq, h.length_nodes]

/-- **After some constructions a builder keeps a node for each, and exactly their names.** -/
theorem made_run (cs : List (Construction String Nat)) : Made (run cs : Builder τ) cs := by
  induction cs using List.reverseRecOn with
  | nil => exact made_fresh
  | append_singleton cs c ih =>
    rw [run_concat]
    exact ih.make c

end

/-- A node is read back as its construction over its operands, which are kept before it. -/
theorem Made.node?_eq {b : Builder τ} {cs : List (Construction String Nat)} (h : Made b cs)
    {k : Nat} {c : Construction String Nat} (hc : cs[k]? = some c)
    (hearlier : ∀ i ∈ c.operands, i < k) :
    b.node? k = (c.mapOperandsM b.node?).map fun d => .mk (.sourceless ⟨k⟩) d.form := by
  obtain ⟨stored, hstored, hback⟩ := h.exists_stored hc
  have hguard : c.mapOperandsM (fun operand => if operand < k then b.node? operand else none) =
      c.mapOperandsM b.node? :=
    Construction.mapOperandsM_congr fun i hi => if_pos (hearlier i hi)
  rw [node?, hstored, Option.bind_eq_bind, Option.bind_some,
    hback b.pool h.holds.consistent (Within.refl _), Option.bind_eq_bind, Option.bind_some, hguard]
  cases c.mapOperandsM b.node? <;> rfl

end Builder

/-! ## Trees that share nothing -/

namespace Construction

variable {cs : List (Construction String Nat)}

/-- The places of the nodes of a tree, from its root on. -/
def tree (cs : List (Construction String Nat)) (k : Nat) : List Nat :=
  k :: (cs[k]?.elim [] operands).flatMap fun i => if i < k then tree cs i else []
termination_by k

/-- The places that are operands of the first `j` constructions. -/
def used (cs : List (Construction String Nat)) (j : Nat) : List Nat := (cs.take j).flatMap operands

/-- The places of the first `j` constructions that are no operands of them. -/
def unused (cs : List (Construction String Nat)) (j : Nat) : List Nat :=
  (List.range j).filter fun i => i ∉ used cs j

theorem used_succ {j : Nat} (hj : j < cs.length) :
    used cs (j + 1) = used cs j ++ cs[j].operands := by
  rw [used, used, ← List.take_append_getElem hj, List.flatMap_append, List.flatMap_singleton]

namespace UsesOnce

variable (h : UsesOnce cs)

include h

theorem tree_eq {k : Nat} (hk : k < cs.length) :
    tree cs k = k :: cs[k].operands.flatMap (tree cs) := by
  rw [tree, List.getElem?_eq_getElem hk, Option.elim_some]
  congr 1
  exact List.flatMap_congr fun i hi => if_pos (h.lt k hk i hi)

theorem le_of_mem_tree {k : Nat} (hk : k < cs.length) : ∀ i ∈ tree cs k, i ≤ k := by
  induction k using Nat.strongRecOn with
  | ind k ih =>
    rw [h.tree_eq hk]
    intro i hi
    rcases List.mem_cons.1 hi with rfl | hi
    · exact Nat.le_refl _
    · obtain ⟨j, hj, hi⟩ := List.mem_flatMap.1 hi
      have hlt := h.lt k hk j hj
      exact Nat.le_trans (ih j hlt (by omega) i hi) (Nat.le_of_lt hlt)

theorem lt_of_mem_below {k : Nat} (hk : k < cs.length) :
    ∀ i ∈ cs[k].operands.flatMap (tree cs), i < k := by
  intro i hi
  obtain ⟨j, hj, hi⟩ := List.mem_flatMap.1 hi
  have hlt := h.lt k hk j hj
  exact Nat.lt_of_le_of_lt (h.le_of_mem_tree (by omega) i hi) hlt

theorem lt_of_mem_used {i j : Nat} (hj : j ≤ cs.length) (hi : i ∈ used cs j) : i < j := by
  induction j with
  | zero =>
    rw [used, List.take_zero, List.flatMap_nil] at hi
    exact absurd hi List.not_mem_nil
  | succ j ih =>
    rw [used_succ hj, List.mem_append] at hi
    rcases hi with hi | hi
    · exact Nat.lt_succ_of_lt (ih (by omega) hi)
    · exact Nat.lt_succ_of_lt (h.lt j hj i hi)

/-- A construction takes its operands from the unused nodes, and its node is a new one. -/
theorem unused_succ {j : Nat} (hj : j < cs.length) :
    unused cs (j + 1) = (unused cs j).filter (fun i => i ∉ cs[j].operands) ++ [j] := by
  have hnew : j ∉ used cs (j + 1) := by
    rw [used_succ hj, List.mem_append]
    rintro (hi | hi)
    · exact Nat.lt_irrefl _ (h.lt_of_mem_used (Nat.le_of_lt hj) hi)
    · exact Nat.lt_irrefl _ (h.lt j hj j hi)
  rw [unused, List.range_succ, List.filter_append, List.filter_cons_of_pos (by simpa using hnew),
    List.filter_nil, unused, List.filter_filter, used_succ hj]
  congr 1
  exact List.filter_congr fun i _ => by simp [Bool.and_comm]

theorem nodup_used (j : Nat) : (used cs j).Nodup := by
  have hsplit := h.nodup
  rw [← List.take_append_drop j cs, List.flatMap_append, List.nodup_append] at hsplit
  exact hsplit.1

/-- The unused nodes are the operands of the next construction and those that stay unused. -/
theorem unused_perm {j : Nat} (hj : j < cs.length) :
    ((unused cs j).filter (fun i => i ∉ cs[j].operands) ++ cs[j].operands).Perm (unused cs j) := by
  obtain ⟨-, hoperands, hdisjoint⟩ := List.nodup_append.1 (used_succ hj ▸ h.nodup_used (j + 1))
  have hunused : (unused cs j).Nodup := List.nodup_range.filter _
  have hmem : ∀ i ∈ cs[j].operands, i ∈ unused cs j := by
    intro i hi
    rw [unused, List.mem_filter, List.mem_range, decide_eq_true_iff]
    exact ⟨h.lt j hj i hi, fun hused => hdisjoint i hused i hi rfl⟩
  have hnodup : ((unused cs j).filter (fun i => i ∉ cs[j].operands) ++ cs[j].operands).Nodup := by
    refine List.nodup_append.2 ⟨hunused.filter _, hoperands, ?_⟩
    rintro i hi _ hi' rfl
    exact of_decide_eq_true (List.mem_filter.1 hi).2 hi'
  refine (List.perm_ext_iff_of_nodup hnodup hunused).2 fun i => ?_
  rw [List.mem_append, List.mem_filter, decide_eq_true_iff]
  by_cases hi : i ∈ cs[j].operands
  · exact ⟨fun _ => hmem i hi, fun _ => .inr hi⟩
  · exact ⟨fun hor => (hor.resolve_right hi).1, fun hmem => .inl ⟨hmem, hi⟩⟩

/-- **The trees of the unused nodes hold every node once.** -/
theorem flatMap_tree_unused {j : Nat} (hj : j ≤ cs.length) :
    ((unused cs j).flatMap (tree cs)).Perm (List.range j) := by
  induction j with
  | zero => exact .refl _
  | succ j ih =>
    have hroots := ((h.unused_perm hj).flatMap_right (tree cs)).trans (ih (Nat.le_of_lt hj))
    rw [List.flatMap_append] at hroots
    rw [h.unused_succ hj, List.flatMap_append, List.flatMap_singleton, h.tree_eq hj,
      List.range_succ]
    exact (List.perm_middle.trans (hroots.cons j)).trans (List.perm_append_singleton j _).symm

theorem nodup_tree {k : Nat} (hk : k < cs.length) : (tree cs k).Nodup := by
  have hnodup := (h.flatMap_tree_unused (j := k + 1) hk).nodup_iff.2 List.nodup_range
  rw [h.unused_succ hk, List.flatMap_append, List.flatMap_singleton, List.nodup_append] at hnodup
  exact hnodup.2.1

end UsesOnce

end Construction

/-! ## The nodes of a run -/

/-- In a tree the number of a node is larger than those below it. -/
def Node.Ordered (n : Node) : Prop :=
  ∀ m ∈ n.subtrees, ∀ d ∈ m.descendants, d.id.index < m.id.index

theorem Node.ordered_of_children {n : Node} (h : ∀ c ∈ n.children, c.Ordered)
    (hroot : ∀ d ∈ n.descendants, d.id.index < n.id.index) : n.Ordered := by
  intro m hm
  rw [subtrees_eq, List.mem_cons] at hm
  rcases hm with rfl | hm
  · exact hroot
  · obtain ⟨c, hc, hm⟩ := List.mem_flatMap.1 hm
    exact h c hc m hm

section

variable {τ : Type} [StringPool τ] [LawfulStringPool τ]

/-- The numbers of the nodes at some places. -/
def ids (places : List Nat) : List NodeId := places.map NodeId.mk

/-- Nodes that are found one by one have the numbers of their places, one after the other. -/
theorem map_id_of_found {g : Nat → Option Node} {cs : List (Construction String Nat)}
    {places : List Nat} {ns : List Node} (hfound : Construction.Found g places ns)
    (h : ∀ i ∈ places, ∀ n, g i = some n → n.subtrees.map Node.id = ids (Construction.tree cs i)) :
    (ns.flatMap Node.subtrees).map Node.id = ids (places.flatMap (Construction.tree cs)) := by
  induction hfound with
  | nil => rfl
  | @cons i n places ns hi _ ih =>
    obtain ⟨hfirst, hrest⟩ := List.forall_mem_cons.1 h
    rw [List.flatMap_cons, List.map_append, hfirst n hi, ih hrest, List.flatMap_cons, ids, ids, ids,
      List.map_append]

theorem Construction.Found.map_some {g : Nat → Option Node} {places : List Nat} {ns : List Node}
    (h : Found g places ns) : ns.map some = places.map g := by
  induction h with
  | nil => rfl
  | cons hi _ ih => rw [List.map_cons, List.map_cons, hi, ih]

/-- A node that was made is the same at any later time, and so are its operands. -/
theorem Builder.exists_node {cs : List (Construction String Nat)} (h : Construction.UsesOnce cs)
    {k : Nat} (hk : k < cs.length) : ∃ n : Node,
      n.subtrees.map Node.id = ids (Construction.tree cs k) ∧ n.Ordered ∧
      n.info = .sourceless ⟨k⟩ ∧ ∀ j, k < j → j ≤ cs.length →
        (run (cs.take j) : Builder τ).node? k = some n ∧
        n.children.map some = cs[k].operands.map (run (cs.take j) : Builder τ).node? ∧
        ∃ d, cs[k].mapOperandsM (run (cs.take j) : Builder τ).node? = some d ∧ n.form = d.form := by
  induction k using Nat.strongRecOn with
  | ind k ih =>
    have hoperand : ∀ i ∈ cs[k].operands, ∃ n : Node,
        n.subtrees.map Node.id = ids (Construction.tree cs i) ∧ n.Ordered ∧
        ∀ j, k < j → j ≤ cs.length → (run (cs.take j) : Builder τ).node? i = some n := by
      intro i hi
      have hlt := h.lt k hk i hi
      obtain ⟨n, hids, hordered, -, hlater⟩ := ih i hlt (by omega)
      exact ⟨n, hids, hordered, fun j hj hle => (hlater j (by omega) hle).1⟩
    -- the operands right after the construction are those at any later time
    obtain ⟨d, hd, hfound⟩ := Construction.exists_mapOperandsM (c := cs[k])
      (g := (run (cs.take (k + 1)) : Builder τ).node?) fun i hi => by
        obtain ⟨n, -, -, hlater⟩ := hoperand i hi
        exact ⟨n, hlater (k + 1) (Nat.lt_succ_self k) hk⟩
    have hsame : ∀ j, k < j → j ≤ cs.length → ∀ i ∈ cs[k].operands,
        (run (cs.take j) : Builder τ).node? i = (run (cs.take (k + 1)) : Builder τ).node? i := by
      intro j hj hle i hi
      obtain ⟨n, -, -, hn⟩ := hoperand i hi
      rw [hn j hj hle, hn (k + 1) (Nat.lt_succ_self k) hk]
    have hlater : ∀ j, k < j → j ≤ cs.length →
        cs[k].mapOperandsM (run (cs.take j) : Builder τ).node? = some d := by
      intro j hj hle
      rw [← hd]
      exact Construction.mapOperandsM_congr (hsame j hj hle)
    let n : Node := .mk (.sourceless ⟨k⟩) d.form
    have hchildren : n.children = d.operands := d.children_form
    have hbelow : n.descendants.map Node.id =
        ids (cs[k].operands.flatMap (Construction.tree cs)) := by
      rw [Node.descendants, Form.descendants, ← Node.children, hchildren]
      refine map_id_of_found hfound fun i hi m hm => ?_
      obtain ⟨m', hids, -, hlater⟩ := hoperand i hi
      rw [hlater (k + 1) (Nat.lt_succ_self k) hk, Option.some.injEq] at hm
      exact hm ▸ hids
    refine ⟨n, ?_, ?_, rfl, fun j hj hle => ⟨?_, ?_, d, hlater j hj hle, rfl⟩⟩
    · rw [Node.subtrees_eq, List.map_cons, hbelow, h.tree_eq hk]
      rfl
    · refine Node.ordered_of_children (fun c hc => ?_) fun m hm => ?_
      · have hsome : some c ∈ cs[k].operands.map (run (cs.take (k + 1)) : Builder τ).node? := by
          rw [← hfound.map_some, ← hchildren]
          exact List.mem_map_of_mem hc
        obtain ⟨i, hi, hc⟩ := List.mem_map.1 hsome
        obtain ⟨m, -, hordered, hlater⟩ := hoperand i hi
        rw [hlater (k + 1) (Nat.lt_succ_self k) hk, Option.some.injEq] at hc
        exact hc ▸ hordered
      · have hid : m.id ∈ ids (cs[k].operands.flatMap (Construction.tree cs)) :=
          hbelow ▸ List.mem_map_of_mem hm
        obtain ⟨i, hi, hid⟩ := List.mem_map.1 hid
        rw [← hid]
        exact h.lt_of_mem_below hk i hi
    · have hc : (cs.take j)[k]? = some cs[k] := by
        rw [List.getElem?_take_of_lt hj, List.getElem?_eq_getElem hk]
      rw [(made_run (cs.take j)).node?_eq hc (h.lt k hk), hlater j hj hle, Option.map_some]
    · rw [hchildren, hfound.map_some]
      exact List.map_congr_left fun i hi => (hsame j hj hle i hi).symm

/-- **Nodes that were made keep their identity and their meaning.** In a run of fewer than
`0xffffffff` constructions in which each node is an operand at most once, the node of construction
`k` has number `k` and the empty span at the start of the text. The numbers of all nodes of its tree
are different and valid, and the number of a node is larger than those below it. At any later time
the node is read back as the same construct, its children are its operands as they are read back
then, and its text is the same. At any time the pool holds exactly the names of the constructions so
far, each counted once. -/
theorem Builder.run_keeps (cs : List (Construction String Nat)) (h : Construction.UsesOnce cs)
    (hlength : cs.length < 0xffffffff) :
    (∀ (k : Nat) (hk : k < cs.length), ∃ n : Node,
      n.id = ⟨k⟩ ∧ n.span.start = 0 ∧ n.span.stop = 0 ∧
      (n.subtrees.map Node.id).Nodup ∧
      (∀ m ∈ n.subtrees, m.id.isValid = true ∧ m.id.index < 0xffffffff ∧
        ∀ d ∈ m.descendants, d.id.index < m.id.index) ∧
      ∀ j, k < j → j ≤ cs.length →
        (run (cs.take j) : Builder τ).node? k = some n ∧
        n.children.map some = cs[k].operands.map (run (cs.take j) : Builder τ).node? ∧
        (∃ d, cs[k].mapOperandsM (run (cs.take j) : Builder τ).node? = some d ∧
          n.form = d.form) ∧
        ∀ o, (run (cs.take j) : Builder τ).print? o k = some (n.print o)) ∧
    ∀ j ≤ cs.length,
      (∀ s, (lookup? (run (cs.take j) : Builder τ).pool s).isSome = true ↔
        s ∈ (cs.take j).flatMap Construction.names) ∧
      size (run (cs.take j) : Builder τ).pool =
        ((cs.take j).flatMap Construction.names).toFinset.card := by
  constructor
  · intro k hk
    obtain ⟨n, hids, hordered, hinfo, hlater⟩ := @exists_node τ _ _ cs h k hk
    refine ⟨n, congrArg NodeInfo.id hinfo, ?_, ?_, ?_, fun m hm => ?_, fun j hj hle => ?_⟩
    · exact congrArg (fun i : NodeInfo => i.span.start) hinfo
    · exact congrArg (fun i : NodeInfo => i.span.stop) hinfo
    · rw [hids]
      exact (h.nodup_tree hk).map fun _ _ heq => congrArg NodeId.index heq
    · have hid : m.id ∈ ids (Construction.tree cs k) := hids ▸ List.mem_map_of_mem hm
      obtain ⟨i, hi, hid⟩ := List.mem_map.1 hid
      have hindex : m.id.index < 0xffffffff := by
        have hle := h.le_of_mem_tree hk i hi
        rw [← hid]
        show i < 0xffffffff
        omega
      refine ⟨?_, hindex, hordered m hm⟩
      rw [NodeId.isValid, bne_iff_ne]
      exact fun heq => Nat.ne_of_lt hindex (congrArg NodeId.index heq)
    · obtain ⟨hnode, hchildren, hform⟩ := hlater j hj hle
      exact ⟨hnode, hchildren, hform, fun o => by rw [print?, hnode, Option.map_some]⟩
  · intro j _
    have hmade : Made (run (cs.take j) : Builder τ) (cs.take j) := made_run _
    exact ⟨fun s => hmade.holds.isSome_lookup?_iff, hmade.holds.size_eq⟩

/-- The sum of a run has its text right after it was made and after it has become an actual, and the
pool holds the four names of the run, but not the byte of the literal. -/
theorem Builder.run_keeps_sum :
    let cs : List (Construction String Nat) := [.identifier "x", .numericLiteral .int "1",
      .binary "+" 0 1, .identifier "f", .quotedLiteral .string [33],
      .fnCall 3 [(none, 2), (some "x", 4)] false, .returnStmt (some 5)]
    Construction.UsesOnce cs ∧ cs.length < 0xffffffff ∧
      (run (cs.take 3) : Builder SymbolTable).print? {} 2 = some (.ok "x + 1") ∧
      (run cs : Builder SymbolTable).print? {} 2 = some (.ok "x + 1") ∧
      (run cs : Builder SymbolTable).print? {} 6 = some (.ok "return f(x + 1, x = \"!\")") ∧
      (∃ n : Node, (run cs : Builder SymbolTable).node? 6 = some n ∧
        (n.subtrees.map Node.id).Nodup ∧ ∀ d ∈ n.descendants, d.id.index < 6) ∧
      size (run cs : Builder SymbolTable).pool = 4 := by
  intro cs
  have hused : Construction.UsesOnce cs := ⟨by decide, by decide⟩
  have hlength : cs.length < 0xffffffff := by decide
  obtain ⟨hnodes, hpool⟩ := @run_keeps SymbolTable _ _ cs hused hlength
  obtain ⟨sum, -, -, -, -, -, hsum⟩ := hnodes 2 (by decide)
  have hfirst : (run (cs.take 3) : Builder SymbolTable).print? {} 2 = some (.ok "x + 1") := by cbv
  have htext : sum.print {} = .ok "x + 1" :=
    Option.some.inj (((hsum 3 (by decide) (by decide)).2.2.2 {}).symm.trans hfirst)
  have hlater : (run cs : Builder SymbolTable).print? {} 2 = some (.ok "x + 1") :=
    htext ▸ (hsum 7 (by decide) (by decide)).2.2.2 {}
  have hlast : (run cs : Builder SymbolTable).print? {} 6 =
      some (.ok "return f(x + 1, x = \"!\")") := by cbv
  obtain ⟨n, hid, -, -, hnodup, hsubtrees, hn⟩ := hnodes 6 (by decide)
  have hbelow := (hsubtrees n n.self_mem_subtrees).2.2
  rw [hid] at hbelow
  exact ⟨hused, hlength, hfirst, hlater, hlast,
    ⟨n, (hn 7 (by decide) (by decide)).1, hnodup, hbelow⟩, (hpool 7 (by decide)).2⟩

end

end ChapelSource
