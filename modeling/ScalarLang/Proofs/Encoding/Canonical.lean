import ScalarLang.Expression
import ScalarLang.Proofs.Encoding.SelfDelimiting
/-!
# The canonical encoding is exact

Two nodes have one encoding if and only if they are the same program, and
nothing that follows an encoding can be mistaken for a part of it. The
recursion is that of the trees: a block announces the number of its
nodes, so its nodes can be read off one after the other, and a branch is
three blocks, of which the last may be missing.

Comparison forgets the case of the names of functions and what the
functions do, and the encoding writes neither.
-/

namespace ScalarLang

variable {σ : Type}

namespace NativeFunction

/-- Functions are the same if their folded names and their numbers of
parameters are. -/
theorem same_iff {f g : NativeFunction σ} :
    f.same g = true ↔ Text.foldCase f.name = Text.foldCase g.name ∧ f.arity = g.arity := by
  simp [same, Text.sameFolded_iff, and_comm]

end NativeFunction

/-- Only branches are the same as a branch: those of which the blocks are
the same, and of which the last is missing on both sides or on neither. -/
theorem Node.same_branch {condition success : List (Node σ)} {failure : Option (List (Node σ))}
    {m : Node σ} (h : (branch condition success failure).same m = true) :
    ∃ condition' success' failure', m = branch condition' success' failure' ∧
      sameAll condition condition' = true ∧ sameAll success success' = true ∧
      Option.Rel (sameAll · · = true) failure failure' := by
  cases m with
  | branch condition' success' failure' =>
    refine ⟨condition', success', failure', rfl, ?_⟩
    cases failure with
    | none =>
      cases failure' with
      | none =>
        simp only [same, Bool.and_eq_true] at h
        exact ⟨h.1, h.2, .none⟩
      | some _ => simp [same] at h
    | some _ =>
      cases failure' with
      | none => simp [same] at h
      | some _ =>
        simp only [same, Bool.and_eq_true] at h
        exact ⟨h.1.1, h.1.2, .some h.2⟩
  | directive => cases failure <;> simp [same] at h
  | call => cases failure <;> simp [same] at h

namespace Encoding

/-- A block that may be missing, with its presence byte in front. -/
def optionalBlock : Option (List (Node σ)) → List UInt8
  | none => flag false
  | some ns => flag true ++ block ns

/-- A branch is three blocks, of which the last may be missing. -/
theorem node_branch (condition success : List (Node σ)) (failure : Option (List (Node σ))) :
    node (.branch condition success failure)
      = 1 :: (block condition ++ (block success ++ optionalBlock failure)) := by
  cases failure <;> simp [node, block, optionalBlock]

/-- The first byte of a node, which tells the three sorts apart. -/
def tag : Node σ → UInt8
  | .directive _ => 0
  | .branch _ _ _ => 1
  | .call _ => 2

theorem tag_eq {n m : Node σ} {xs ys : List UInt8} (h : node n ++ xs = node m ++ ys) :
    tag n = tag m := by
  have hfirst (n : Node σ) (xs : List UInt8) : (node n ++ xs).head? = some (tag n) := by
    cases n with
    | branch => rw [node_branch]; rfl
    | directive => rfl
    | call => rfl
  have htags : some (tag n) = some (tag m) := by rw [← hfirst n xs, h, hfirst m ys]
  simpa using htags

/-! ## From encodings to programs -/

mutual

/-- **Nodes are read off the front** of any bytes, up to comparison. -/
theorem node_append_inj : ∀ {n m : Node σ} {xs ys : List UInt8},
    node n ++ xs = node m ++ ys → n.same m = true ∧ xs = ys
  | .directive d, m, xs, ys, h => by
    cases m with
    | directive e =>
      simp only [node, List.cons_append, List.cons.injEq, true_and] at h
      obtain ⟨rfl, hrest⟩ := selfDelimiting_directive h
      exact ⟨by simp [Node.same], hrest⟩
    | branch => exact absurd (tag_eq h) (by simp [tag])
    | call => exact absurd (tag_eq h) (by simp [tag])
  | .call f, m, xs, ys, h => by
    cases m with
    | call g =>
      simp only [node, List.cons_append, List.cons.injEq, true_and, List.append_assoc] at h
      obtain ⟨hname, h⟩ := selfDelimiting_text h
      obtain ⟨harity, hrest⟩ := Varint.selfDelimiting_encode h
      exact ⟨NativeFunction.same_iff.mpr ⟨hname, harity⟩, hrest⟩
    | directive => exact absurd (tag_eq h) (by simp [tag])
    | branch => exact absurd (tag_eq h) (by simp [tag])
  | .branch condition success failure, m, xs, ys, h => by
    cases m with
    | branch condition' success' failure' =>
      simp only [node_branch, block, List.cons_append, List.cons.injEq, true_and,
        List.append_assoc] at h
      obtain ⟨hlength, h⟩ := Varint.selfDelimiting_encode h
      obtain ⟨hcondition, h⟩ := nodes_append_inj hlength h
      obtain ⟨hlength, h⟩ := Varint.selfDelimiting_encode h
      obtain ⟨hsuccess, h⟩ := nodes_append_inj hlength h
      -- the presence bytes agree, so the last block is there on both sides or on neither
      match failure, failure', h with
      | none, none, h =>
        exact ⟨by simp [Node.same, hcondition, hsuccess], List.append_cancel_left h⟩
      | none, some _, h => simp [optionalBlock, flag] at h
      | some _, none, h => simp [optionalBlock, flag] at h
      | some _, some _, h =>
        simp only [optionalBlock, block, List.append_assoc] at h
        obtain ⟨hlength, h⟩ := Varint.selfDelimiting_encode (List.append_cancel_left h)
        obtain ⟨hfailure, hrest⟩ := nodes_append_inj hlength h
        exact ⟨by simp [Node.same, hcondition, hsuccess, hfailure], hrest⟩
    | directive => exact absurd (tag_eq h) (by simp [tag])
    | call => exact absurd (tag_eq h) (by simp [tag])

/-- And so are lists of them, of which the length is known. -/
theorem nodes_append_inj : ∀ {ns ms : List (Node σ)} {xs ys : List UInt8},
    ns.length = ms.length → nodes ns ++ xs = nodes ms ++ ys →
      Node.sameAll ns ms = true ∧ xs = ys
  | [], [], _, _, _, h => ⟨rfl, h⟩
  | [], _ :: _, _, _, hlength, _ => by simp at hlength
  | _ :: _, [], _, _, hlength, _ => by simp at hlength
  | n :: ns, m :: ms, xs, ys, hlength, h => by
    simp only [nodes, List.append_assoc] at h
    obtain ⟨hn, h⟩ := node_append_inj h
    obtain ⟨hns, hrest⟩ := nodes_append_inj (by simpa using hlength) h
    exact ⟨by simp [Node.sameAll, hn, hns], hrest⟩

end

theorem selfDelimiting_node : SelfDelimiting (node (σ := σ)) (·.same · = true) :=
  fun _ _ _ _ h => node_append_inj h

/-! ## From programs to encodings -/

mutual

/-- **The same programs have one encoding.** -/
theorem node_eq_of_same : ∀ {n m : Node σ}, n.same m = true → node n = node m
  | .directive d, m, h => by
    cases m with
    | directive e =>
      obtain rfl : d = e := by simpa [Node.same] using h
      rfl
    | branch => simp [Node.same] at h
    | call => simp [Node.same] at h
  | .call f, m, h => by
    cases m with
    | call g =>
      obtain ⟨hname, harity⟩ := NativeFunction.same_iff.mp h
      simp only [node, hname, harity]
    | directive => simp [Node.same] at h
    | branch => simp [Node.same] at h
  | .branch condition success failure, m, h => by
    obtain ⟨condition', success', failure', rfl, hcondition, hsuccess, hfailure⟩ :=
      Node.same_branch h
    obtain ⟨hclength, hcnodes⟩ := nodes_eq_of_sameAll hcondition
    obtain ⟨hslength, hsnodes⟩ := nodes_eq_of_sameAll hsuccess
    simp only [node_branch, block, hclength, hcnodes, hslength, hsnodes]
    match failure, failure', hfailure with
    | none, none, _ => rfl
    | some _, some _, .some hfailure =>
      obtain ⟨hflength, hfnodes⟩ := nodes_eq_of_sameAll hfailure
      simp only [optionalBlock, block, hflength, hfnodes]

/-- The same blocks have as many nodes and one encoding. -/
theorem nodes_eq_of_sameAll : ∀ {ns ms : List (Node σ)}, Node.sameAll ns ms = true →
    ns.length = ms.length ∧ nodes ns = nodes ms
  | [], [], _ => ⟨rfl, rfl⟩
  | [], _ :: _, h => by simp [Node.sameAll] at h
  | _ :: _, [], h => by simp [Node.sameAll] at h
  | n :: ns, m :: ms, h => by
    simp only [Node.sameAll, Bool.and_eq_true] at h
    obtain ⟨hlength, hns⟩ := nodes_eq_of_sameAll h.2
    exact ⟨by simp [hlength], by simp only [nodes, node_eq_of_same h.1, hns]⟩

end

/-- Roots are encoded alike if and only if they are the same program. -/
theorem root_eq_iff {b c : Branch σ} : root b = root c ↔ b.same c = true := by
  have hroot : root b = root c ↔ node b.toNode = node c.toNode := by
    rw [node_toNode, node_toNode, List.cons_inj_right]
  rw [hroot]
  exact ⟨selfDelimiting_node.same_of_eq, node_eq_of_same⟩

end Encoding

/-! ## Expressions -/

namespace Expression

/-- **Expressions compare** as values if both are literals, and as programs
if neither is. -/
def SameCode (e f : Expression σ) : Prop :=
  (∃ v w, e.literal? = some v ∧ f.literal? = some w ∧ v.identical w = .boolean true) ∨
    ∃ b c, e.root? = some b ∧ f.root? = some c ∧ b.same c = true

/-- The canonical bytes of expressions are read off the front of any
bytes. -/
theorem selfDelimiting_canonicalBytes :
    SelfDelimiting (canonicalBytes (σ := σ)) SameCode := by
  rintro ⟨code, _⟩ ⟨code', _⟩ xs ys h
  match code, code', h with
  | .literal v, .literal w, h =>
    simp only [canonicalBytes, List.cons_append, List.cons.injEq, true_and] at h
    obtain ⟨rfl, hrest⟩ := Encoding.selfDelimiting_value h
    exact ⟨.inl ⟨v, v, rfl, rfl, by simp [Value.identical]⟩, hrest⟩
  | .literal _, .program _, h => simp [canonicalBytes] at h
  | .program _, .literal _, h => simp [canonicalBytes] at h
  | .program b, .program c, h =>
    -- a program has the bytes of its root as a node
    have hnodes : Encoding.node b.toNode ++ xs = Encoding.node c.toNode ++ ys := by
      simpa only [canonicalBytes, Encoding.node_toNode] using h
    obtain ⟨hsame, hrest⟩ := Encoding.node_append_inj hnodes
    exact ⟨.inr ⟨b, c, rfl, rfl, hsame⟩, hrest⟩

theorem code_of_literal? {e : Expression σ} {v : Value} (h : e.literal? = some v) :
    e.code = .literal v := by
  cases hcode : e.code with
  | literal w => simpa [literal?, hcode] using h
  | program root => simp [literal?, hcode] at h

theorem code_of_root? {e : Expression σ} {root : Branch σ} (h : e.root? = some root) :
    e.code = .program root := by
  cases hcode : e.code with
  | literal v => simp [root?, hcode] at h
  | program b => simpa [root?, hcode] using h

/-- Expressions that compare have one encoding. -/
theorem canonicalBytes_eq_of_sameCode {e f : Expression σ} (h : e.SameCode f) :
    e.canonicalBytes = f.canonicalBytes := by
  rcases h with ⟨v, w, hv, hw, hsame⟩ | ⟨b, c, hb, hc, hsame⟩
  · obtain rfl : v = w := by simpa [Value.identical] using hsame
    simp only [canonicalBytes, code_of_literal? hv, code_of_literal? hw]
  · have hroot : Encoding.root b = Encoding.root c := Encoding.root_eq_iff.mpr hsame
    simp only [canonicalBytes, code_of_root? hb, code_of_root? hc, hroot]

/-- **The canonical encoding is exact and prefix-free.** Expressions have
one encoding if and only if they are literals of identical values or
programs that are the same, and one encoding begins another only if it is
the other. -/
theorem canonicalBytes_exact (e f : Expression σ) :
    (e.canonicalBytes = f.canonicalBytes ↔
      (∃ v w, e.literal? = some v ∧ f.literal? = some w ∧ v.identical w = .boolean true) ∨
        ∃ b c, e.root? = some b ∧ f.root? = some c ∧ b.same c = true) ∧
    (e.canonicalBytes <+: f.canonicalBytes ↔ e.canonicalBytes = f.canonicalBytes) := by
  refine ⟨⟨selfDelimiting_canonicalBytes.same_of_eq, canonicalBytes_eq_of_sameCode⟩,
    ⟨selfDelimiting_canonicalBytes.eq_of_isPrefix, fun h => ?_⟩⟩
  exact h ▸ List.prefix_rfl

end Expression

end ScalarLang
