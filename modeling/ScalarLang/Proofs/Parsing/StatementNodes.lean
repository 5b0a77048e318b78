import ScalarLang.Proofs.Parsing.Postfix
/-!
# Nodes of statements

The nodes of statements lose nothing (`Statement.allNodes_injective`). The
last node of a statement is of a sort that no phrase has among its nodes,
so the first such node tells where the first statement ends; what stands
before it is the postfix form of the statement's phrase.
-/

namespace ScalarLang

variable {σ : Type}

/-- Nodes with which statements end: branches, and directives that take a
value away. -/
def Node.EndsStatement : Node σ → Prop
  | .directive .return | .directive (.store _) | .branch _ _ _ => True
  | .directive _ | .call _ => False

mutual

/-- No node of a phrase ends a statement. -/
theorem Phrase.not_endsStatement : ∀ {p : Phrase σ} {n : Node σ}, n ∈ p.nodes → ¬ n.EndsStatement
  | .literal v, n, h => by
    obtain rfl := List.mem_singleton.mp h
    exact id
  | .variable name, n, h => by
    obtain rfl := List.mem_singleton.mp h
    exact id
  | .unary op p, n, h => by
    rcases List.mem_append.mp h with h | h
    · exact Phrase.not_endsStatement h
    · obtain rfl := List.mem_singleton.mp h
      exact id
  | .binary op p q, n, h => by
    rcases List.mem_append.mp h with h | h
    · rcases List.mem_append.mp h with h | h
      · exact Phrase.not_endsStatement h
      · exact Phrase.not_endsStatement h
    · obtain rfl := List.mem_singleton.mp h
      exact id
  | .call f ps, n, h => by
    rcases List.mem_append.mp h with h | h
    · exact Phrase.not_endsStatement_of_mem_allNodes h
    · obtain rfl := List.mem_singleton.mp h
      exact id

/-- And no node of a list of them. -/
theorem Phrase.not_endsStatement_of_mem_allNodes : ∀ {ps : List (Phrase σ)} {n : Node σ},
    n ∈ Phrase.allNodes ps → ¬ n.EndsStatement
  | [], n, h => by simp [allNodes] at h
  | p :: ps, n, h => by
    rcases List.mem_append.mp h with h | h
    · exact Phrase.not_endsStatement h
    · exact Phrase.not_endsStatement_of_mem_allNodes h

end

/-- Lists that agree are cut alike before the first element of a sort. -/
theorem cut_before_first {α : Type} {P : α → Prop} {a b : α} (ha : P a) (hb : P b) :
    ∀ {xs ys us vs : List α}, (∀ x ∈ xs, ¬ P x) → (∀ y ∈ ys, ¬ P y) →
      xs ++ a :: us = ys ++ b :: vs → xs = ys ∧ a = b ∧ us = vs
  | [], [], _, _, _, _, h => ⟨rfl, List.cons.inj h⟩
  | [], y :: ys, _, _, _, hys, h => by
    obtain ⟨rfl, -⟩ := List.cons.inj h
    exact absurd ha (hys a List.mem_cons_self)
  | x :: xs, [], _, _, hxs, _, h => by
    obtain ⟨rfl, -⟩ := List.cons.inj h
    exact absurd hb (hxs x List.mem_cons_self)
  | x :: xs, y :: ys, us, vs, hxs, hys, h => by
    obtain ⟨rfl, htail⟩ := List.cons.inj h
    obtain ⟨rfl, hrest⟩ := cut_before_first ha hb
      (fun z hz => hxs z (List.mem_cons_of_mem _ hz))
      (fun z hz => hys z (List.mem_cons_of_mem _ hz)) htail
    exact ⟨rfl, hrest⟩

namespace Statement

/-- The nodes of the phrase whose value a statement takes away. -/
def valueNodes : Statement σ → List (Node σ)
  | .conditional _ _ _ => []
  | .return p | .assign _ p => p.nodes

/-- The node a statement ends with. -/
def last : Statement σ → Node σ
  | .conditional condition success failure =>
    .branch condition.nodes (allNodes success) (failure.map allNodes)
  | .return _ => .directive .return
  | .assign name _ => .directive (.store name)

theorem nodes_eq (s : Statement σ) : s.nodes = s.valueNodes ++ [s.last] := by
  match s with
  | .conditional _ _ none => rfl
  | .conditional _ _ (some _) => rfl
  | .return _ => rfl
  | .assign _ _ => rfl

theorem endsStatement_last (s : Statement σ) : s.last.EndsStatement := by
  cases s <;> exact trivial

theorem not_endsStatement_of_mem_valueNodes {s : Statement σ} :
    ∀ n ∈ s.valueNodes, ¬ n.EndsStatement := by
  intro n hn
  cases s with
  | conditional => simp [valueNodes] at hn
  | «return» p => exact Phrase.not_endsStatement (p := p) hn
  | assign name p => exact Phrase.not_endsStatement (p := p) hn

/-- Nodes that start with those of two statements are cut alike after
them. -/
theorem last_eq_of_append {s s' : Statement σ} {xs ys : List (Node σ)}
    (h : s.nodes ++ xs = s'.nodes ++ ys) :
    s.valueNodes = s'.valueNodes ∧ s.last = s'.last ∧ xs = ys := by
  rw [nodes_eq, nodes_eq, List.append_assoc, List.append_assoc] at h
  exact cut_before_first s.endsStatement_last s'.endsStatement_last
    not_endsStatement_of_mem_valueNodes not_endsStatement_of_mem_valueNodes h

/-- A conditional is made of what its phrase and its blocks are. -/
theorem over_conditional {F : NativeFunction σ → Prop} {N : String → Prop}
    {condition : Phrase σ} {success : List (Statement σ)}
    {failure : Option (List (Statement σ))} :
    (conditional condition success failure).Over F N ↔
      condition.Over F N ∧ AllOver F N success ∧ ∀ block ∈ failure, AllOver F N block := by
  cases failure <;> simp [Over]

mutual

/-- **A statement is recognised from its nodes**, whatever follows them. -/
theorem nodes_append_inj {F G : NativeFunction σ → Prop} {N M : String → Prop} :
    ∀ {s s' : Statement σ} {xs ys : List (Node σ)}, s.Over F N → s'.Over G M →
      s.nodes ++ xs = s'.nodes ++ ys → s = s' ∧ xs = ys
  | .return p, s', xs, ys, hs, hs', h => by
    obtain ⟨hvalue, hlast, hrest⟩ := last_eq_of_append h
    -- the last node leaves one constructor for `s'`, here and in the other cases
    cases s' <;> cases hlast
    exact ⟨congrArg _ (Phrase.nodes_injective hs hs' hvalue), hrest⟩
  | .assign name p, s', xs, ys, hs, hs', h => by
    obtain ⟨hvalue, hlast, hrest⟩ := last_eq_of_append h
    cases s' <;> cases hlast
    exact ⟨congrArg _ (Phrase.nodes_injective hs.2 hs'.2 hvalue), hrest⟩
  | .conditional condition success failure, s', xs, ys, hs, hs', h => by
    obtain ⟨-, hlast, hrest⟩ := last_eq_of_append h
    cases s' with
    | conditional condition' success' failure' =>
      obtain ⟨hp, hss, hfs⟩ := over_conditional.mp hs
      obtain ⟨hp', hss', hfs'⟩ := over_conditional.mp hs'
      injection hlast with hcondition hsuccess hfailure
      obtain rfl := Phrase.nodes_injective hp hp' hcondition
      obtain rfl := allNodes_injective hss hss' hsuccess
      refine ⟨?_, hrest⟩
      match failure, failure', hfs, hfs', hfailure with
      | none, none, _, _, _ => rfl
      | none, some _, _, _, hfailure => cases hfailure
      | some _, none, _, _, hfailure => cases hfailure
      | some _, some _, hfs, hfs', hfailure =>
        obtain rfl := allNodes_injective (hfs _ rfl) (hfs' _ rfl) (Option.some.inj hfailure)
        rfl
    | «return» => cases hlast
    | assign => cases hlast

/-- **The nodes of statements determine them.** -/
theorem allNodes_injective {F G : NativeFunction σ → Prop} {N M : String → Prop} :
    ∀ {ss ss' : List (Statement σ)}, AllOver F N ss → AllOver G M ss' →
      allNodes ss = allNodes ss' → ss = ss'
  | [], [], _, _, _ => rfl
  | [], s :: ss, _, _, h => by simp [allNodes, nodes_eq] at h
  | s :: ss, [], _, _, h => by simp [allNodes, nodes_eq] at h
  | s :: ss, s' :: ss', hs, hs', h => by
    obtain ⟨rfl, hrest⟩ := nodes_append_inj hs.1 hs'.1 h
    obtain rfl := allNodes_injective hs.2 hs'.2 hrest
    rfl

end

end Statement

end ScalarLang
