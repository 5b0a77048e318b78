import ScalarLang.Function.Math
/-!
# Resolvers

A resolver tells a compiler which names are functions. Names are looked
up without regard to case. A resolver is consistent if it contains
exactly the names that it resolves.
-/

namespace ScalarLang

/-- A supply of functions by name. -/
structure Resolver (σ : Type) where
  resolve? : String → Option (NativeFunction σ)
  contains : String → Bool

namespace Resolver

variable {σ : Type}

/-- The resolver contains exactly the names that it resolves. -/
def Consistent (r : Resolver σ) : Prop := ∀ name, r.contains name = (r.resolve? name).isSome

/-- No functions at all. -/
def empty : Resolver σ where
  resolve? _ := none
  contains _ := false

/-- The mathematical functions. -/
def math : Resolver σ where
  resolve? name := (MathFunction.ofName? name).map fun f => f.toNative σ
  contains name := (MathFunction.ofName? name).isSome

end Resolver

/-! ## Tables -/

/-- A table of functions, no two of the same name up to case. -/
structure FunctionTable (σ : Type) where
  functions : List (NativeFunction σ)
  distinct : functions.Pairwise fun f g => Text.foldCase f.name ≠ Text.foldCase g.name

namespace FunctionTable

variable {σ : Type}

def empty : FunctionTable σ := ⟨[], .nil⟩

/-- The function of a name, in whatever case it is written. -/
def find? (t : FunctionTable σ) (name : String) : Option (NativeFunction σ) :=
  t.functions.find? fun f => Text.sameFolded f.name name

/-- Adds a function in place of one of its name. -/
def insert (t : FunctionTable σ) (f : NativeFunction σ) : FunctionTable σ where
  functions := f :: t.functions.filter fun g => !Text.sameFolded g.name f.name
  distinct := by
    refine List.pairwise_cons.mpr ⟨fun g hg => ?_, t.distinct.filter _⟩
    have hne := (List.mem_filter.mp hg).2
    simp only [Text.sameFolded, Bool.not_eq_true', beq_eq_false_iff_ne] at hne
    exact fun h => hne h.symm

/-- The table that results from adding functions one after the other. -/
def ofList (fs : List (NativeFunction σ)) : FunctionTable σ := fs.foldl insert empty

/-- The mathematical functions as a table. -/
def math : FunctionTable σ := ofList (MathFunction.all.map fun f => f.toNative σ)

def size (t : FunctionTable σ) : Nat := t.functions.length

def isEmpty (t : FunctionTable σ) : Bool := t.functions.isEmpty

/-- The table as a supply of functions. -/
def toResolver (t : FunctionTable σ) : Resolver σ where
  resolve? := t.find?
  contains name := (t.find? name).isSome

end FunctionTable

/-! ## Chains -/

/-- Resolvers that are asked one after the other. -/
structure ResolverChain (σ : Type) where
  resolvers : List (Resolver σ)

namespace ResolverChain

variable {σ : Type}

def empty : ResolverChain σ := ⟨[]⟩

/-- Adds a resolver that is asked after the others. -/
def add (c : ResolverChain σ) (r : Resolver σ) : ResolverChain σ := ⟨c.resolvers ++ [r]⟩

/-- The chain that results from adding resolvers one after the other. -/
def ofList (rs : List (Resolver σ)) : ResolverChain σ := rs.foldl add empty

/-- The first resolver that contains a name resolves it. -/
def toResolver (c : ResolverChain σ) : Resolver σ where
  resolve? name := (c.resolvers.find? (·.contains name)).bind (·.resolve? name)
  contains name := c.resolvers.any (·.contains name)

/-- The length of a chain as text. -/
def describe (c : ResolverChain σ) : String :=
  "MultiResolver \x7b len: " ++ toString c.resolvers.length ++ " \x7d"

end ResolverChain

end ScalarLang
