import ScalarLang.Function.Resolver
/-!
# Native functions honour their arity

The compiler counts the arguments of a call by the arity that a function
declares, and the code it emits stays balanced if the function then takes
as many values and leaves one. Closures do, and so do the functions that
come with the language, although what one of them takes is written apart
from what it declares (`MathFunction.takes_body`).
-/

namespace ScalarLang

variable {σ : Type}

/-- **A reply in place of the arguments**: above the values that lie below
them stands the result and nothing else, or, where there is none, nothing,
and the reason is reported in the name of the function. -/
inductive Reply.InPlace (name : String) (below : List Value) :
    Except String Value × σ → Reply σ → Prop
  | ok {v : Value} {stack : Stack} {host : σ} (hstack : stack.toList = below ++ [v]) :
    InPlace name below (.ok v, host) ⟨none, stack, host⟩
  | error {message : String} {stack : Stack} {host : σ} (hstack : stack.toList = below) :
    InPlace name below (.error message, host) ⟨some (.native name message), stack, host⟩

namespace NativeFunction

/-- **A function honours its arity**: with enough values on the stack, those on
top, as many as it declares and in the order of their pushes, are its
arguments, and `result` tells from them and from the state of the embedding
program what stands in their place. Neither the values below nor the
variables have a part in it. With fewer values nothing happens. -/
structure HonoursArity (f : NativeFunction σ)
    (result : Vector Value f.arity → σ → Except String Value × σ) : Prop where
  enough (vars : String → Option Value) (s : Stack) (host : σ) (h : f.arity ≤ s.size) :
    ∃ below args, s.toList = below ++ args.toList ∧
      (f.call vars s host).InPlace f.name below (result args host)
  few (vars : String → Option Value) (s : Stack) (host : σ) (h : s.size < f.arity) :
    f.call vars s host = ⟨some (.stackUnderflow (.call f.name)), s, host⟩

/-- A function that is called as a closure is honours its arity. -/
theorem honoursArity_of_call {f : NativeFunction σ}
    {result : Vector Value f.arity → σ → Except String Value × σ}
    (h : ∀ vars s host, f.call vars s host
      = Closure.call ⟨f.name, f.arity, f.foldable, result⟩ s host) :
    f.HonoursArity result where
  enough vars s host hsize := by
    rw [h, Closure.call]
    cases htake : s.popArgs? f.arity with
    | none =>
      rw [Stack.popArgs?_eq_none_iff, Stack.length_toList] at htake
      omega
    | some taken =>
      obtain ⟨args, below⟩ := taken
      refine ⟨below.toList, args, Stack.popArgs?_eq_some htake, ?_⟩
      dsimp only
      rcases result args host with ⟨_ | v, host'⟩
      · exact .error rfl
      · exact .ok (below.toList_push v)
  few vars s host hsize := by
    have htake : s.popArgs? f.arity = none := by
      rwa [Stack.popArgs?_eq_none_iff, Stack.length_toList]
    rw [h, Closure.call, htake]

end NativeFunction

/-- A closure honours its arity. -/
theorem Closure.honoursArity (f : Closure σ) : f.toNative.HonoursArity f.apply :=
  NativeFunction.honoursArity_of_call fun _ _ _ => rfl

/-- A function of values as a closure that has no use for the state. -/
def ValueFunction.toClosure (f : ValueFunction) (σ : Type) : Closure σ :=
  ⟨f.name, f.arity, f.foldable, fun args host => (f.apply args, host)⟩

/-- As a native function it is that closure. -/
theorem ValueFunction.toNative_eq_toClosure (f : ValueFunction) :
    f.toNative σ = (f.toClosure σ).toNative := by
  have hcall : (f.toNative σ).call = (f.toClosure σ).toNative.call := by
    funext vars s host
    simp only [toNative, toClosure, Closure.toNative, Closure.call]
    cases s.popArgs? f.arity with
    | none => rfl
    | some taken =>
      dsimp only
      cases f.apply taken.1 <;> rfl
  exact congrArg (NativeFunction.mk f.name f.arity f.foldable) hcall

/-- And it honours its arity as closures do. -/
theorem ValueFunction.honoursArity (f : ValueFunction) :
    (f.toNative σ).HonoursArity fun args host => (f.apply args, host) :=
  NativeFunction.honoursArity_of_call fun vars s host =>
    congrArg (fun g => g.call vars s host) f.toNative_eq_toClosure

/-- A mathematical function takes as many values as it declares, and never
fails. -/
theorem MathFunction.honoursArity (f : MathFunction) :
    (f.toNative σ).HonoursArity fun args host => (.ok (f.apply args), host) := by
  refine NativeFunction.honoursArity_of_call fun vars s host => ?_
  simp only [toNative, Closure.call, s.popArgs?_cast f.takes_body]
  cases s.popArgs? f.body.takes <;> rfl

/-- **Native functions honour their arity**: the functions that come with the
language, which never fail, functions of values, and closures, which may
fail and may have effects. -/
theorem native_functions_honour_arity (σ : Type) :
    (∀ f : MathFunction,
      (f.toNative σ).HonoursArity fun args host => (.ok (f.apply args), host)) ∧
    (∀ f : ValueFunction,
      (f.toNative σ).HonoursArity fun args host => (f.apply args, host)) ∧
    ∀ f : Closure σ, f.toNative.HonoursArity f.apply :=
  ⟨MathFunction.honoursArity, ValueFunction.honoursArity, Closure.honoursArity⟩

end ScalarLang
