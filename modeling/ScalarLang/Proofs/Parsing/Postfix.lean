import ScalarLang.Proofs.Parsing.Contents
/-!
# Postfix forms

The postfix form of a tree, whose calls have as many arguments as their
functions have parameters, loses nothing (`Phrase.nodes_injective`): read
from its end, each node tells how many operands stand before it.
-/

namespace ScalarLang

variable {σ : Type}

/-- The node a postfix form ends with. -/
def Phrase.root : Phrase σ → Node σ
  | .literal v => .directive (.push v)
  | .variable name => .directive (.load name)
  | .unary op _ => .directive (.unary op)
  | .binary op _ _ => .directive (.binary op)
  | .call f _ => .call f

/-- The nodes before it: the postfix forms of the operands. -/
def Phrase.operandNodes : Phrase σ → List (Node σ)
  | .literal _ | .variable _ => []
  | .unary _ p => p.nodes
  | .binary _ p q => p.nodes ++ q.nodes
  | .call _ ps => Phrase.allNodes ps

theorem Phrase.nodes_eq (p : Phrase σ) : p.nodes = p.operandNodes ++ [p.root] := by
  cases p <;> simp [nodes, operandNodes, root]

/-- Postfix forms that end alike have one root, and operands that end
alike. -/
theorem Phrase.root_eq_of_append {p q : Phrase σ} {xs ys : List (Node σ)}
    (h : xs ++ p.nodes = ys ++ q.nodes) :
    p.root = q.root ∧ xs ++ p.operandNodes = ys ++ q.operandNodes := by
  rw [p.nodes_eq, q.nodes_eq, ← List.append_assoc, ← List.append_assoc] at h
  obtain ⟨hoperands, hroot⟩ := List.append_inj' h rfl
  exact ⟨by injection hroot, hoperands⟩

mutual

/-- **A postfix form is recognised from its end**, whatever stands before
it. -/
theorem Phrase.append_nodes_inj {F G : NativeFunction σ → Prop} {N M : String → Prop} :
    ∀ {p q : Phrase σ} {xs ys : List (Node σ)}, p.Over F N → q.Over G M →
      xs ++ p.nodes = ys ++ q.nodes → xs = ys ∧ p = q
  | .literal v, q, xs, ys, _, _, h => by
    obtain ⟨hroot, hxs⟩ := root_eq_of_append h
    -- the root leaves one constructor for `q`, here and in the other cases
    cases q <;> cases hroot
    exact ⟨by simpa [operandNodes] using hxs, rfl⟩
  | .variable name, q, xs, ys, _, _, h => by
    obtain ⟨hroot, hxs⟩ := root_eq_of_append h
    cases q <;> cases hroot
    exact ⟨by simpa [operandNodes] using hxs, rfl⟩
  | .unary op p, q, xs, ys, hp, hq, h => by
    obtain ⟨hroot, hxs⟩ := root_eq_of_append h
    cases q <;> cases hroot
    rename_i q
    obtain ⟨rfl, rfl⟩ := append_nodes_inj (p := p) (q := q) hp hq hxs
    exact ⟨rfl, rfl⟩
  | .binary op p p', q, xs, ys, hp, hq, h => by
    obtain ⟨hroot, hxs⟩ := root_eq_of_append h
    cases q <;> cases hroot
    -- the right operand ends first, and then the left one ends what is before it
    simp only [operandNodes, ← List.append_assoc] at hxs
    obtain ⟨hleft, rfl⟩ := append_nodes_inj hp.2 hq.2 hxs
    obtain ⟨rfl, rfl⟩ := append_nodes_inj hp.1 hq.1 hleft
    exact ⟨rfl, rfl⟩
  | .call f ps, q, xs, ys, hp, hq, h => by
    obtain ⟨hroot, hxs⟩ := root_eq_of_append h
    cases q <;> cases hroot
    obtain ⟨rfl, rfl⟩ := append_allNodes_inj hp.2.2 hq.2.2 (hp.2.1.trans hq.2.1.symm) hxs
    exact ⟨rfl, rfl⟩

/-- And so are postfix forms of which the number is known. -/
theorem Phrase.append_allNodes_inj {F G : NativeFunction σ → Prop} {N M : String → Prop} :
    ∀ {ps qs : List (Phrase σ)} {xs ys : List (Node σ)}, Phrase.AllOver F N ps →
      Phrase.AllOver G M qs → ps.length = qs.length →
      xs ++ Phrase.allNodes ps = ys ++ Phrase.allNodes qs → xs = ys ∧ ps = qs
  | [], [], xs, ys, _, _, _, h => ⟨by simpa [allNodes] using h, rfl⟩
  | [], _ :: _, _, _, _, _, hlen, _ => by simp at hlen
  | _ :: _, [], _, _, _, _, hlen, _ => by simp at hlen
  | p :: ps, q :: qs, xs, ys, hp, hq, hlen, h => by
    simp only [allNodes, ← List.append_assoc] at h
    obtain ⟨hfirst, rfl⟩ := append_allNodes_inj hp.2 hq.2 (by simpa using hlen) h
    obtain ⟨rfl, rfl⟩ := append_nodes_inj hp.1 hq.1 hfirst
    exact ⟨rfl, rfl⟩

end

/-- **The postfix form determines the tree.** -/
theorem Phrase.nodes_injective {F G : NativeFunction σ → Prop} {N M : String → Prop}
    {p q : Phrase σ} (hp : p.Over F N) (hq : q.Over G M) (h : p.nodes = q.nodes) : p = q := by
  have happend : [] ++ p.nodes = [] ++ q.nodes := h
  exact (append_nodes_inj hp hq happend).2

end ScalarLang
