import Mathlib.Data.List.Induction
import ScalarLang.Grammar.Layout
/-!
# Names are looked up without regard to case

There are three ways to look up a function: a search through a fixed
list, a table, and a chain of resolvers, of which one that contains the
name is then asked for the function. The compiler asks whether a name is
a function in one place and for the function in another, so the two
answers have to fit. They do for every resolver that can be put together
(`Resolver.Built`), by induction on how it is: a chain only passes on
what its delegates say, and the first of them that answers is heard.
-/

namespace ScalarLang

variable {σ : Type}

namespace Resolver

/-- **The resolvers there are to build**: none at all, the mathematical
functions, a table after any history of insertions, and a chain after any
history of additions, whose delegates are built in turn. -/
inductive Built : Resolver σ → Prop
  | empty : Built empty
  | math : Built math
  | table (inserted : List (NativeFunction σ)) : Built (FunctionTable.ofList inserted).toResolver
  | chain {delegates : List (Resolver σ)} (h : ∀ r ∈ delegates, r.Built) :
    Built (ResolverChain.ofList delegates).toResolver

/-- **A lawful resolver** contains what it resolves, makes no difference between
the cases in which a name is written, and gives a name a function that goes
by it. -/
structure Lawful (r : Resolver σ) : Prop where
  consistent : r.Consistent
  ignoresCase : r.IgnoresCase
  name_of_resolve {name : String} {f : NativeFunction σ} (h : r.resolve? name = some f) :
    Text.foldCase f.name = Text.foldCase name

/-- Of a consistent resolver it is enough to know what it resolves. -/
theorem Consistent.ignoresCase {r : Resolver σ} (hr : r.Consistent)
    (hresolve : ∀ name name', Text.foldCase name = Text.foldCase name' →
      r.resolve? name = r.resolve? name') : r.IgnoresCase := by
  intro name name' h
  have heq := hresolve name name' h
  exact ⟨heq, by rw [hr name, hr name', heq]⟩

end Resolver

/-! ## The mathematical functions -/

theorem MathFunction.ofName?_congr {name other : String}
    (h : Text.foldCase name = Text.foldCase other) :
    MathFunction.ofName? name = MathFunction.ofName? other := by
  simp only [MathFunction.ofName?, Text.sameFolded_congr h]

/-- The function that is found goes by the name. -/
theorem MathFunction.name_of_ofName? {name : String} {f : MathFunction}
    (h : MathFunction.ofName? name = some f) : Text.foldCase f.name = Text.foldCase name := by
  rw [ofName?] at h
  have hfound := List.find?_some h
  exact Text.sameFolded_iff.mp hfound

/-- The mathematical functions are resolved where they are contained. -/
theorem Resolver.consistent_math : (math : Resolver σ).Consistent := fun _ => by
  simp [math]

/-- They have their names in any case. -/
theorem Resolver.ignoresCase_math : (math : Resolver σ).IgnoresCase :=
  consistent_math.ignoresCase fun _ _ h => by simp only [math, MathFunction.ofName?_congr h]

theorem Resolver.lawful_math : (math : Resolver σ).Lawful where
  consistent := consistent_math
  ignoresCase := ignoresCase_math
  name_of_resolve h := by
    obtain ⟨f, hf, rfl⟩ := Option.map_eq_some_iff.mp h
    exact MathFunction.name_of_ofName? hf

/-! ## Tables -/

namespace FunctionTable

/-- **A table finds what was inserted last**: the new function under its
name, and under every other name what was found before. -/
theorem find?_insert (t : FunctionTable σ) (f : NativeFunction σ) (name : String) :
    (t.insert f).find? name
      = if Text.sameFolded f.name name then some f else t.find? name := by
  simp only [find?, insert, List.find?_cons]
  split
  next h => rw [if_pos h]
  next h =>
    rw [if_neg (by simp [h]), List.find?_filter]
    -- an entry that the insertion takes out does not go by the name
    refine congrArg (t.functions.find? ·) (funext fun g => ?_)
    by_cases hg : Text.sameFolded g.name name
    · have hne : Text.sameFolded g.name f.name = false := by
        rw [Text.sameFolded_iff] at hg
        rw [Bool.eq_false_iff] at h ⊢
        exact fun hf => h (Text.sameFolded_iff.mpr ((Text.sameFolded_iff.mp hf).symm.trans hg))
      simp [hne]
    · simp [hg]

/-- After a history of insertions, a name finds the latest function that
was inserted under it. -/
theorem find?_ofList (inserted : List (NativeFunction σ)) (name : String) :
    (ofList inserted).find? name
      = inserted.reverse.find? fun f => Text.sameFolded f.name name := by
  induction inserted using List.reverseRecOn with
  | nil => rfl
  | append_singleton earlier f ih =>
    have hlast : ofList (earlier ++ [f]) = (ofList earlier).insert f := by
      simp [ofList, List.foldl_append]
    rw [hlast, find?_insert, ih, List.reverse_append, List.reverse_singleton,
      List.singleton_append, List.find?_cons]
    cases Text.sameFolded f.name name <;> rfl

theorem consistent_toResolver (t : FunctionTable σ) : t.toResolver.Consistent := fun _ => rfl

theorem lawful_toResolver (t : FunctionTable σ) : t.toResolver.Lawful where
  consistent := t.consistent_toResolver
  ignoresCase := t.consistent_toResolver.ignoresCase fun _ _ h => by
    simp only [toResolver, find?, Text.sameFolded_congr h]
  name_of_resolve h := by
    simp only [toResolver, find?] at h
    have hfound := List.find?_some h
    exact Text.sameFolded_iff.mp hfound

end FunctionTable

/-! ## Chains -/

namespace ResolverChain

@[simp] theorem resolvers_ofList (delegates : List (Resolver σ)) :
    (ofList delegates).resolvers = delegates := by
  induction delegates using List.reverseRecOn with
  | nil => rfl
  | append_singleton earlier r ih =>
    have hlast : ofList (earlier ++ [r]) = (ofList earlier).add r := by
      simp [ofList, List.foldl_append]
    rw [hlast, add, ih]

/-- **The first delegate that has the function answers.** The chain looks
for one that contains the name and then has it resolve the name; of
consistent delegates that is the first that resolves it. -/
theorem resolve?_toResolver (c : ResolverChain σ) (h : ∀ r ∈ c.resolvers, r.Consistent)
    (name : String) :
    c.toResolver.resolve? name = c.resolvers.findSome? fun r => r.resolve? name := by
  obtain ⟨rs⟩ := c
  change (rs.find? fun r => r.contains name).bind (fun r => r.resolve? name) = _
  induction rs with
  | nil => rfl
  | cons r rs ih =>
    have hr : r.contains name = (r.resolve? name).isSome := h r List.mem_cons_self name
    have ih := ih fun q hq => h q (List.mem_cons_of_mem r hq)
    rw [List.find?_cons, List.findSome?_cons, hr]
    cases hres : r.resolve? name with
    | none => exact ih
    | some f => exact hres

theorem consistent_toResolver (c : ResolverChain σ) (h : ∀ r ∈ c.resolvers, r.Consistent) :
    c.toResolver.Consistent := by
  intro name
  rw [c.resolve?_toResolver h, List.isSome_findSome?]
  change c.resolvers.any (fun r => r.contains name) = _
  rw [Bool.eq_iff_iff, List.any_eq_true, List.any_eq_true]
  exact exists_congr fun r => and_congr_right fun hr => by rw [h r hr]

theorem ignoresCase_toResolver (c : ResolverChain σ) (h : ∀ r ∈ c.resolvers, r.Consistent)
    (hcase : ∀ r ∈ c.resolvers, r.IgnoresCase) : c.toResolver.IgnoresCase := by
  refine (c.consistent_toResolver h).ignoresCase fun name name' hname => ?_
  have hanswers : (c.resolvers.map fun r => r.resolve? name)
      = c.resolvers.map fun r => r.resolve? name' :=
    List.map_congr_left fun r hr => (hcase r hr name name' hname).1
  have hfirst (n : String) :
      c.toResolver.resolve? n = (c.resolvers.map fun r => r.resolve? n).findSome? id := by
    rw [c.resolve?_toResolver h, List.findSome?_map]
    rfl
  rw [hfirst, hfirst, hanswers]

/-- A chain of lawful resolvers is lawful. -/
theorem lawful_toResolver (c : ResolverChain σ) (h : ∀ r ∈ c.resolvers, r.Lawful) :
    c.toResolver.Lawful where
  consistent := c.consistent_toResolver fun r hr => (h r hr).consistent
  ignoresCase := c.ignoresCase_toResolver (fun r hr => (h r hr).consistent)
    fun r hr => (h r hr).ignoresCase
  name_of_resolve hf := by
    rw [c.resolve?_toResolver fun r hr => (h r hr).consistent] at hf
    obtain ⟨r, hr, hf⟩ := List.exists_of_findSome?_eq_some hf
    exact (h r hr).name_of_resolve hf

end ResolverChain

/-! ## Every resolver -/

/-- Every resolver that can be put together is lawful. -/
theorem Resolver.Built.lawful {r : Resolver σ} (h : r.Built) : r.Lawful := by
  induction h with
  | empty => exact ⟨fun _ => rfl, fun _ _ _ => ⟨rfl, rfl⟩, fun h => nomatch h⟩
  | math => exact Resolver.lawful_math
  | table inserted => exact (FunctionTable.ofList inserted).lawful_toResolver
  | chain _ ih => exact ResolverChain.lawful_toResolver _ (by simpa using ih)

/-- **Resolvers are consistent and ignore case**, however they are put
together. A table finds the latest function inserted under a name, and a
chain what the first delegate has that has anything, in the order in which
the delegates were added. -/
theorem resolvers_ignore_case (σ : Type) :
    (∀ r : Resolver σ, r.Built → r.Lawful) ∧
    (∀ (inserted : List (NativeFunction σ)) (name : String),
      (FunctionTable.ofList inserted).toResolver.resolve? name
        = inserted.reverse.find? fun f => Text.sameFolded f.name name) ∧
    ∀ delegates : List (Resolver σ), (∀ r ∈ delegates, r.Built) → ∀ name : String,
      (ResolverChain.ofList delegates).toResolver.resolve? name
        = delegates.findSome? fun r => r.resolve? name := by
  refine ⟨fun r hr => hr.lawful, FunctionTable.find?_ofList, fun delegates h name => ?_⟩
  rw [ResolverChain.resolve?_toResolver, ResolverChain.resolvers_ofList]
  rw [ResolverChain.resolvers_ofList]
  exact fun r hr => (h r hr).lawful.consistent

/-- A chain within a chain, of a resolver without functions, a table in which
`Min` has replaced `min`, and the mathematical functions: in any case, `min`
is the replacement, and `clamp` is the one that comes with the language. -/
theorem resolvers_ignore_case_nested :
    ∃ inner outer : List (Resolver Unit), (∀ r ∈ inner, r.Built) ∧ (∀ r ∈ outer, r.Built) ∧
      (ResolverChain.ofList outer).toResolver.Lawful ∧
      ((ResolverChain.ofList outer).toResolver.resolve? "mIN").map (·.name) = some "Min" ∧
      ((ResolverChain.ofList outer).toResolver.resolve? "CLAMP").map (·.arity) = some 3 := by
  obtain ⟨hlawful, -, hchain⟩ := resolvers_ignore_case Unit
  let table : List (NativeFunction Unit) :=
    [MathFunction.min.toNative Unit, { MathFunction.max.toNative Unit with name := "Min" }]
  let inner : List (Resolver Unit) := [.empty, (FunctionTable.ofList table).toResolver]
  let outer : List (Resolver Unit) := [(ResolverChain.ofList inner).toResolver, .math]
  have hinner : ∀ r ∈ inner, r.Built := by
    simp [inner, Resolver.Built.empty, Resolver.Built.table]
  have houter : ∀ r ∈ outer, r.Built := by
    simp [outer, Resolver.Built.math, Resolver.Built.chain hinner]
  refine ⟨inner, outer, hinner, houter, hlawful _ (.chain houter), ?_, ?_⟩
  · rw [hchain outer houter]
    decide
  · rw [hchain outer houter]
    decide

end ScalarLang
