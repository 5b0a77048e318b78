import Mathlib.Data.Finset.Card
import ScalarLang.Proofs.Execution.Relayout
import ScalarLang.Proofs.State.Serving
/-!
# Canonical instances

A table is told instances one after the other and keeps the first one of
each digest. So what a table answers is read off its history, the list of
all instances that were interned: an instance is canonical if it is the
first of its digest there. Histories only get longer, and what comes first
stays first, so an instance that is handed out once is handed out from
then on.
-/

namespace ScalarLang

namespace InternTable

variable {σ : Type}

/-- What can be asked of a table. -/
inductive Call (σ : Type) where
  | intern (i : Instance σ)
  | find (digest : Digest)
  | contains (digest : Digest)
  | size

/-- What a call gives back. -/
inductive Answer (σ : Type) where
  | canonical (i : Instance σ)
  | found (i : Option (Instance σ))
  | known (known : Bool)
  | size (n : Nat)

/-- What a call gives back, and the table it leaves. -/
def serve (t : InternTable σ) : Call σ → Answer σ × InternTable σ
  | .intern i => (.canonical (t.intern i).1, (t.intern i).2)
  | .find digest => (.found (t.find? digest), t)
  | .contains digest => (.known (t.contains digest), t)
  | .size => (.size t.size, t)

/-! ## Histories -/

/-- The first instance of a digest in a history. -/
def first (past : List (Instance σ)) (digest : Digest) : Option (Instance σ) :=
  past.find? fun i => i.expr.digest = digest

/-- The digests in a history. -/
def digests (past : List (Instance σ)) : List Digest := past.map fun i => i.expr.digest

/-- What a call means for a history, and the history it leaves: an instance
is answered by the first one of its digest, which is itself if there is
none before. -/
def serveHistory (past : List (Instance σ)) : Call σ → Answer σ × List (Instance σ)
  | .intern i => (.canonical ((first past i.expr.digest).getD i), past ++ [i])
  | .find digest => (.found (first past digest), past)
  | .contains digest => (.known (digest ∈ digests past), past)
  | .size => (.size (digests past).toFinset.card, past)

/-- **A table recalls a history**: it has one entry for each digest in the
history, which is the first instance of that digest. -/
structure Recalls (t : InternTable σ) (past : List (Instance σ)) : Prop where
  digest_eq : ∀ e ∈ t.entries, e.2.expr.digest = e.1
  distinct : (t.entries.map Prod.fst).Nodup
  find?_eq : ∀ digest, t.find? digest = first past digest

variable {past : List (Instance σ)} {t : InternTable σ} {i canonical : Instance σ}
  {digest : Digest}

theorem first_isSome_iff : (first past digest).isSome ↔ digest ∈ digests past := by
  simp [first, digests]

theorem digest_of_first (h : first past digest = some i) : i.expr.digest = digest := by
  simpa using List.find?_some h

theorem first_append_singleton (past : List (Instance σ)) (i : Instance σ) (digest : Digest) :
    first (past ++ [i]) digest
      = (first past digest).or (if i.expr.digest = digest then some i else none) := by
  simp only [first, List.find?_append, List.find?_singleton, decide_eq_true_eq]

theorem find?_isSome_iff (t : InternTable σ) (digest : Digest) :
    (t.find? digest).isSome ↔ digest ∈ t.entries.map Prod.fst := by
  rw [find?, List.lookup_isSome_iff, List.mem_map]
  simp only [beq_iff_eq, eq_comm (a := digest)]

namespace Recalls

theorem empty : (InternTable.empty : InternTable σ).Recalls [] :=
  ⟨by simp [InternTable.empty], by simp [InternTable.empty], fun _ => rfl⟩

/-- What is interned joins the history. -/
theorem intern (h : t.Recalls past) (i : Instance σ) : (t.intern i).2.Recalls (past ++ [i]) := by
  have hfind (digest : Digest) : (t.intern i).2.find? digest = first (past ++ [i]) digest := by
    rw [find?_of_intern, first_append_singleton, h.find?_eq]
  cases hknown : t.find? i.expr.digest with
  | some canonical =>
    rw [intern_of_find?_eq_some hknown] at hfind ⊢
    exact ⟨h.digest_eq, h.distinct, hfind⟩
  | none =>
    have hnew : i.expr.digest ∉ t.entries.map Prod.fst := by
      rw [← find?_isSome_iff, hknown]
      simp
    rw [intern_of_find?_eq_none hknown] at hfind ⊢
    refine ⟨List.forall_mem_cons.mpr ⟨rfl, h.digest_eq⟩, ?_, hfind⟩
    simpa using ⟨by simpa using hnew, h.distinct⟩

/-- A table counts the digests in the history it recalls. -/
theorem size_eq (h : t.Recalls past) : t.size = (digests past).toFinset.card := by
  have hkeys : (t.entries.map Prod.fst).toFinset = (digests past).toFinset := by
    ext digest
    rw [List.mem_toFinset, List.mem_toFinset, ← find?_isSome_iff, h.find?_eq, first_isSome_iff]
  rw [← hkeys, List.toFinset_card_of_nodup h.distinct, List.length_map, size]

/-- **A table answers for the history it recalls.** -/
theorem serve (h : t.Recalls past) (c : Call σ) :
    (t.serve c).1 = (serveHistory past c).1 ∧ (t.serve c).2.Recalls (serveHistory past c).2 := by
  cases c with
  | intern i =>
    have hcanonical : (t.intern i).1 = (first past i.expr.digest).getD i := by
      rw [intern_fst, h.find?_eq]
    exact ⟨congrArg Answer.canonical hcanonical, h.intern i⟩
  | find digest => exact ⟨congrArg Answer.found (h.find?_eq digest), h⟩
  | contains digest =>
    have hcontains : t.contains digest = decide (digest ∈ digests past) := by
      rw [contains, h.find?_eq, Bool.eq_iff_iff, first_isSome_iff, decide_eq_true_eq]
    exact ⟨congrArg Answer.known hcontains, h⟩
  | size => exact ⟨congrArg Answer.size h.size_eq, h⟩

end Recalls

/-! ## Tables to start with -/

/-- The tables that calls are made to from the start: one without entries,
and the one that the constants of a workspace are in. -/
inductive Start (σ : Type) where
  | empty
  | constants (host : σ)

/-- The table to start with. -/
def Start.table : Start σ → InternTable σ
  | empty => .empty
  | constants host => (Workspace.start host).shared

/-- Literals as instances with consecutive numbers. -/
def literals (n : Nat) (vs : List Value) : List (Instance σ) :=
  (vs.zipIdx n).map fun v => ⟨v.2, .literal v.1⟩

/-- What has been interned at the start. -/
def Start.history : Start σ → List (Instance σ)
  | empty => []
  | constants _ => literals 0 Workspace.sharedConstants

/-- Sharing literals interns them. -/
theorem recalls_literals (vs : List Value) {w : Workspace σ} (h : w.shared.Recalls past) :
    (vs.foldl (fun w v => ((w.instantiate (.literal v)).2.share
      (w.instantiate (.literal v)).1).2) w).shared.Recalls (past ++ literals w.nextId vs) := by
  induction vs generalizing w past with
  | nil => simpa [literals] using h
  | cons v vs ih =>
    have hrest := ih (w := ((w.instantiate (.literal v)).2.share (w.instantiate (.literal v)).1).2)
      (h.intern ⟨w.nextId, .literal v⟩)
    simpa [literals, Workspace.share, Workspace.instantiate] using hrest

/-- The constants of a workspace are what its table recalls. -/
theorem recalls_start (host : σ) :
    (Workspace.start host).shared.Recalls (literals 0 Workspace.sharedConstants) := by
  have hrecalls := recalls_literals Workspace.sharedConstants (w := ⟨host, 0, .empty⟩) .empty
  rw [List.nil_append] at hrecalls
  have hstart : Workspace.start host
      = Workspace.sharedConstants.foldl (fun w v => ((w.instantiate (.literal v)).2.share
        (w.instantiate (.literal v)).1).2) ⟨host, 0, .empty⟩ := by
    unfold Workspace.start
    rfl
  rw [hstart]
  exact hrecalls

/-- A table that is chosen by the start recalls its history. The table of the
constants is a parameter, so that it is not computed where it is chosen. -/
theorem recalls_chosen (constants : σ → InternTable σ)
    (h : ∀ host, (constants host).Recalls (literals 0 Workspace.sharedConstants)) (start : Start σ) :
    (match start with
      | .empty => InternTable.empty
      | .constants host => constants host).Recalls start.history := by
  cases start with
  | empty => exact .empty
  | constants host => exact h host

theorem Start.recalls (start : Start σ) : start.table.Recalls start.history :=
  recalls_chosen (fun host => (Workspace.start host).shared) recalls_start start

/-! ## Runs -/

/-- A table keeps what it has, whatever is asked of it. -/
theorem within_serveAll (t : InternTable σ) (calls : List (Call σ)) :
    t.Within (serveAll serve t calls).2 := by
  refine serveAll_preserves (P := t.Within) (fun u c h => ?_) (.refl t) calls
  cases c with
  | intern i => exact fun digest j hj => within_intern u i digest j (h digest j hj)
  | _ => exact h

/-- What is handed out is the first instance of its digest. -/
theorem first_intern (h : t.Recalls past) (i : Instance σ) :
    first (past ++ [i]) i.expr.digest = some (t.intern i).1 := by
  rw [← (h.intern i).find?_eq, find?_intern]

/-- What is handed out once is handed out for itself from then on. -/
theorem intern_handedOut (h : t.Recalls past) (i : Instance σ) (later : List (Call σ)) :
    (serveAll serve (t.intern i).2 later).2.intern (t.intern i).1
      = ((t.intern i).1, (serveAll serve (t.intern i).2 later).2) := by
  have hdigest : (t.intern i).1.expr.digest = i.expr.digest := digest_of_first (first_intern h i)
  refine intern_of_find?_eq_some (within_serveAll _ later _ _ ?_)
  rw [hdigest, find?_intern]

/-- **Canonical instances are the first ones, for good.** After any calls to
a table that starts out empty or with the constants, all answers are read
off the history of interned instances, which the table recalls. An
instance that is interned next is answered by the first one of its digest,
which leaves all entries as they are; whatever is called for later, they
stay, and the instance that was handed out is handed out for itself. -/
theorem serveAll_table (start : Start σ) (calls : List (Call σ)) :
    let served := serveAll serve start.table calls
    let recalled := serveAll serveHistory start.history calls
    served.1 = recalled.1 ∧
    served.2.Recalls recalled.2 ∧
    (∀ digest, (served.2.find? digest).isSome ↔ digest ∈ digests recalled.2) ∧
    served.2.size = (digests recalled.2).toFinset.card ∧
    ∀ (next : Instance σ) (later : List (Call σ)),
      let handedOut := (served.2.intern next).1
      let grown := (served.2.intern next).2
      let final := (serveAll serve grown later).2
      handedOut.expr.digest = next.expr.digest ∧
      first (recalled.2 ++ [next]) next.expr.digest = some handedOut ∧
      served.2.Within grown ∧ grown.Within final ∧
      final.intern handedOut = (handedOut, final) := by
  obtain ⟨hanswers, hrecalls⟩ :=
    serveAll_of_related (fun _ _ h => Recalls.serve h) start.recalls calls
  refine ⟨hanswers, hrecalls, fun digest => ?_, hrecalls.size_eq, fun next later => ?_⟩
  · rw [hrecalls.find?_eq, first_isSome_iff]
  · have hfirst := first_intern hrecalls next
    exact ⟨digest_of_first hfirst, hfirst, within_intern _ next, within_serveAll _ later,
      intern_handedOut hrecalls next later⟩

end InternTable

end ScalarLang
