import ScalarLang.Expression
/-!
# Interning

Equal expressions may be replaced by one instance of them. A table keeps
the first instance it was given for each digest and hands that one out
for every later instance with the same digest.
-/

namespace ScalarLang

/-- An expression as an individual: two instances are one if their numbers
are the same, whatever their expressions. -/
structure Instance (σ : Type) where
  id : Nat
  expr : Expression σ

/-- The canonical instances, by digest. -/
structure InternTable (σ : Type) where
  entries : List (Digest × Instance σ)

namespace InternTable

variable {σ : Type}

def empty : InternTable σ := ⟨[]⟩

/-- The canonical instance of a digest. -/
def find? (t : InternTable σ) (digest : Digest) : Option (Instance σ) := t.entries.lookup digest

def contains (t : InternTable σ) (digest : Digest) : Bool := (t.find? digest).isSome

/-- How many expressions have a canonical instance. -/
def size (t : InternTable σ) : Nat := t.entries.length

def isEmpty (t : InternTable σ) : Bool := t.entries.isEmpty

/-- The canonical instance for an instance, which becomes canonical itself
if there is none for its digest. -/
def intern (t : InternTable σ) (i : Instance σ) : Instance σ × InternTable σ :=
  let digest := i.expr.digest
  match t.find? digest with
  | some canonical => (canonical, t)
  | none => (i, ⟨(digest, i) :: t.entries⟩)

end InternTable

/-! ## Workspaces -/

/-- Where expressions are compiled: the state of the embedding program, the
number of the next instance, and the table of shared instances. -/
structure Workspace (σ : Type) where
  host : σ
  nextId : Nat
  shared : InternTable σ

namespace Workspace

variable {σ : Type}

/-- Makes an expression an instance of its own. -/
def instantiate (w : Workspace σ) (e : Expression σ) : Instance σ × Workspace σ :=
  (⟨w.nextId, e⟩, { w with nextId := w.nextId + 1 })

/-- The canonical instance among the shared ones. -/
def share (w : Workspace σ) (i : Instance σ) : Instance σ × Workspace σ :=
  let (canonical, shared) := w.shared.intern i
  (canonical, { w with shared })

/-- The literals that are shared from the start. -/
def sharedConstants : List Value :=
  [.boolean true, .boolean false, .integer 0, .integer 1, .float .zero, .float .one,
   .float .infinity, .float .nan]

/-- A workspace in which nothing but the constants is shared. -/
def start (host : σ) : Workspace σ :=
  sharedConstants.foldl (fun w v => ((w.instantiate (.literal v)).2.share
    (w.instantiate (.literal v)).1).2) ⟨host, 0, .empty⟩

end Workspace

end ScalarLang
