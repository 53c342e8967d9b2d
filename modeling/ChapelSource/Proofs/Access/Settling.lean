import ChapelSource.Proofs.Access.Text

/-!
# Expressions that share a text

The tree of the chain that is read from a text is settled: its leading words apply to all of the
members and calls after them. So an expression whose receiver or callee is an operand after a leading
word has the text of another expression.

* `Chain.chain_tree`: the tree of a chain is read as the chain.
* `AccessTree.settle_eq_iff`: the trees that settling keeps.
* **`Node.IsAccess.print_eq_iff`**: the trees that share a text.
* `AccessTree.print_eq_iff_call`: two trees that do not.
* **`AccessTree.member_of_new_eq`**: two trees that do.
-/

namespace ChapelSource

/-! ## The tree of a chain -/

theorem Suffixes.append_done : ∀ s : Suffixes, s.append .done = s
  | .done => rfl
  | .dot field rest => by rw [append, append_done rest]
  | .call actuals rest => by rw [append, append_done rest]

theorem Suffixes.append_assoc : ∀ s r q : Suffixes,
    (s.append r).append q = s.append (r.append q)
  | .done, _, _ => rfl
  | .dot field rest, r, q => by rw [append, append, append, append_assoc rest r q]
  | .call actuals rest, r, q => by rw [append, append, append, append_assoc rest r q]

theorem Suffixes.onto_append : ∀ (s r : Suffixes) (t : AccessTree),
    (s.append r).onto t = r.onto (s.onto t)
  | .done, _, _ => rfl
  | .dot field rest, r, t => by rw [append, onto, onto, onto_append rest r]
  | .call actuals rest, r, t => by rw [append, onto, onto, onto_append rest r]

theorem Chain.extend_done : ∀ c : Chain, c.extend .done = c
  | .led leader rest => by rw [extend, extend_done rest]
  | .name w suffixes => by rw [extend, Suffixes.append_done]

theorem Chain.extend_extend (s r : Suffixes) : ∀ c : Chain,
    (c.extend s).extend r = c.extend (s.append r)
  | .led leader rest => by rw [extend, extend, extend, extend_extend s r rest]
  | .name w suffixes => by rw [extend, extend, extend, Suffixes.append_assoc]

mutual

theorem Chain.chain_tree : ∀ c : Chain, c.tree.chain = c
  | .led leader rest => by rw [Chain.tree, AccessTree.chain, Chain.chain_tree rest]
  | .name w suffixes => by
    rw [Chain.tree, Suffixes.chain_onto suffixes, AccessTree.chain, Chain.extend, Suffixes.append]

theorem Suffixes.chain_onto : ∀ (s : Suffixes) (t : AccessTree),
    (s.onto t).chain = t.chain.extend s
  | .done, t => by rw [Suffixes.onto, Chain.extend_done]
  | .dot field rest, t => by
    rw [Suffixes.onto, Suffixes.chain_onto rest, AccessTree.chain, Chain.extend_extend,
      Suffixes.append, Suffixes.append]
  | .call actuals rest, t => by
    rw [Suffixes.onto, Suffixes.chain_onto rest, AccessTree.chain, Chain.chains_trees actuals,
      Chain.extend_extend, Suffixes.append, Suffixes.append]

theorem Chain.chains_trees : ∀ cs : List Chain, AccessTree.chains (Chain.trees cs) = cs
  | [] => rfl
  | c :: cs => by
    rw [Chain.trees, AccessTree.chains, Chain.chain_tree c, Chain.chains_trees cs]

end

mutual

theorem Chain.settled_tree : ∀ c : Chain, c.tree.Settled
  | .led leader rest => by
    rw [Chain.tree, AccessTree.Settled]
    exact Chain.settled_tree rest
  | .name w suffixes => by
    rw [Chain.tree]
    exact Suffixes.settled_onto suffixes rfl trivial

theorem Suffixes.settled_onto : ∀ (s : Suffixes) {t : AccessTree}, t.isLed = false → t.Settled →
    (s.onto t).Settled
  | .done, _, _, h => h
  | .dot _ rest, _, hled, h => Suffixes.settled_onto rest rfl ⟨hled, h⟩
  | .call actuals rest, _, hled, h =>
    Suffixes.settled_onto rest rfl ⟨hled, h, Chain.allSettled_trees actuals⟩

theorem Chain.allSettled_trees : ∀ cs : List Chain, AccessTree.AllSettled (Chain.trees cs)
  | [] => trivial
  | c :: cs => ⟨Chain.settled_tree c, Chain.allSettled_trees cs⟩

end

namespace AccessTree

/-- A settled tree to which no leading word applies is read from its name on. -/
theorem Settled.exists_chain : ∀ {t : AccessTree}, t.Settled → t.isLed = false →
    ∃ w s, t.chain = .name w s
  | name w, _, _ => ⟨w, .done, rfl⟩
  | dot receiver field, h, _ => by
    obtain ⟨w, s, hchain⟩ := Settled.exists_chain h.2 h.1
    exact ⟨w, _, by rw [chain, hchain, Chain.extend]⟩
  | call callee actuals, h, _ => by
    obtain ⟨w, s, hchain⟩ := Settled.exists_chain h.2.1 h.1
    exact ⟨w, _, by rw [chain, hchain, Chain.extend]⟩

/-- What follows a settled tree to which no leading word applies is applied to its tree. -/
theorem Settled.tree_extend {t : AccessTree} (h : t.Settled) (hled : t.isLed = false)
    (more : Suffixes) : (t.chain.extend more).tree = more.onto t.settle := by
  obtain ⟨w, s, hchain⟩ := h.exists_chain hled
  rw [settle, hchain, Chain.extend, Chain.tree, Chain.tree, Suffixes.onto_append]

mutual

theorem Settled.settle_eq : ∀ {t : AccessTree}, t.Settled → t.settle = t
  | name w, _ => rfl
  | dot receiver field, h => by
    rw [settle, chain, Settled.tree_extend h.2 h.1, Settled.settle_eq h.2, Suffixes.onto,
      Suffixes.onto]
  | call callee actuals, h => by
    rw [settle, chain, Settled.tree_extend h.2.1 h.1, Settled.settle_eq h.2.1, Suffixes.onto,
      Suffixes.onto, AllSettled.trees_chains h.2.2]
  | led leader operand, h => by
    have hoperand : operand.chain.tree = operand := Settled.settle_eq h
    rw [settle, chain, Chain.tree, hoperand]

theorem AllSettled.trees_chains : ∀ {ts : List AccessTree}, AllSettled ts →
    Chain.trees (chains ts) = ts
  | [], _ => rfl
  | t :: ts, h => by
    have ht : t.chain.tree = t := Settled.settle_eq h.1
    rw [chains, Chain.trees, ht, AllSettled.trees_chains h.2]

end

theorem settled_settle (t : AccessTree) : t.settle.Settled := t.chain.settled_tree

theorem settle_eq_iff {t : AccessTree} : t.settle = t ↔ t.Settled :=
  ⟨fun h => h ▸ t.settled_settle, Settled.settle_eq⟩

theorem chain_eq_iff {t u : AccessTree} : t.chain = u.chain ↔ t.settle = u.settle := by
  refine ⟨fun h => by rw [settle, settle, h], fun h => ?_⟩
  rw [← t.chain.chain_tree, ← u.chain.chain_tree]
  exact congrArg chain h

end AccessTree

/-! ## The trees that share a text -/

namespace Node

/-- **Two access trees share their text exactly if they settle alike**, and settling keeps exactly the
trees in which no leading word stands inside a receiver or a callee. -/
theorem IsAccess.print_eq_iff {n m : Node} {t u : AccessTree} (hn : n.IsAccess t)
    (hm : m.IsAccess u) (o : PrintOptions) :
    ∃ text, n.print o = .ok text ∧ (m.print o = .ok text ↔ t.settle = u.settle) ∧
      (t.settle = t ↔ t.Settled) := by
  refine ⟨_, hn.print_eq o, ?_, AccessTree.settle_eq_iff⟩
  rw [hm.print_eq, ← AccessTree.chain_eq_iff]
  constructor
  · intro h
    have hchars : t.chain.chars ++ [] = u.chain.chars ++ [] := by
      rw [List.append_nil, List.append_nil, String.ofList_injective (Except.ok.inj h)]
    exact (Chain.append_inj endsAccess_nil endsAccess_nil hchars).1
  · intro h
    rw [h]

end Node

namespace AccessTree

/-- The trees of `C.f()` and `new C.f`. -/
theorem print_eq_iff_call :
    let c := name ⟨.single 'C' (by decide), by decide⟩
    let f : AccessName := ⟨.single 'f' (by decide), by decide⟩
    let t := call (dot c f) []
    let u := led .newObject (dot c f)
    (t.toNode (.sourceless ⟨0⟩)).IsAccess t ∧ (u.toNode (.sourceless ⟨0⟩)).IsAccess u ∧
      ∃ text, (t.toNode (.sourceless ⟨0⟩)).print {} = .ok text ∧
        ((u.toNode (.sourceless ⟨0⟩)).print {} = .ok text ↔ t.settle = u.settle) ∧
        (t.settle = t ↔ t.Settled) := by
  intro c f t u
  have ht := isAccess_toNode (.sourceless ⟨0⟩) t
  have hu := isAccess_toNode (.sourceless ⟨0⟩) u
  exact ⟨ht, hu, ht.print_eq_iff hu {}⟩

/-- **A member of `new C` shares its text with `new` applied to a member of `C`.** -/
theorem member_of_new_eq :
    let c := name ⟨.single 'C' (by decide), by decide⟩
    let f : AccessName := ⟨.single 'f' (by decide), by decide⟩
    let t := dot (led .newObject c) f
    let u := led .newObject (dot c f)
    (t.toNode (.sourceless ⟨0⟩)).print {} = (u.toNode (.sourceless ⟨0⟩)).print {} ∧ t ≠ u := by
  intro c f t u
  refine ⟨?_, fun h => nomatch h⟩
  rw [(isAccess_toNode _ t).print_eq, (isAccess_toNode _ u).print_eq]
  rfl

end AccessTree

end ChapelSource
