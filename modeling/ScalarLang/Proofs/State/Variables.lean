import Mathlib.Data.Set.Card
import ScalarLang.Proofs.Execution.Assignments
import ScalarLang.Proofs.State.NameOrder
/-!
# Variables as a map

However variables came to be what they are, by settings, removals, whole
lists of entries and evaluations, they are the map that the same
operations make of a function from names to values: the operations that
look something up answer for that function, and variables are equal if
their functions are. The entries are in the order of the bytes of their
names, so there is one list of them for each map.
-/

namespace ScalarLang

namespace Variables

/-- What assignments one after the other make of a map: the last one to a
name stays, and other names keep what they have. -/
def assigned (f : String → Option Value) (es : List (String × Value)) : String → Option Value :=
  es.foldl (fun f e => Function.update f e.1 (some e.2)) f

/-- **The variables that come about by operations**, with the map that comes
about by the same operations. -/
inductive Built : Variables → (String → Option Value) → Prop
  | empty : Built .empty fun _ => none
  | set {c : Variables} {f : String → Option Value} (h : Built c f) (name : String) (v : Value) :
    Built (c.set name v) (Function.update f name (some v))
  | remove {c : Variables} {f : String → Option Value} (h : Built c f) (name : String) :
    Built (c.remove name).2 (Function.update f name none)
  | extend {c : Variables} {f : String → Option Value} (h : Built c f)
    (es : List (String × Value)) : Built (c.extend es) (assigned f es)
  | clear {c : Variables} {f : String → Option Value} (h : Built c f) :
    Built c.clear fun _ => none
  /-- Entries are collected from a list. -/
  | collect (es : List (String × Value)) : Built (ofList es) (assigned (fun _ => none) es)
  /-- An expression is evaluated, which takes out what was returned earlier
  and carries out assignments. -/
  | evaluate {σ : Type} {c : Variables} {f : String → Option Value} (h : Built c f)
    (e : Expression σ) (stack : Stack) (host : σ) :
    Built (e.evaluate ⟨stack, c, host⟩).2.vars
      (assigned (Function.update f returnName none) (e.assignments ⟨stack, c, host⟩))

/-- **Variables represent a map** if their entries are those of the map in the
order of their names, and whatever is looked up is looked up in the map. -/
structure Represents (c : Variables) (f : String → Option Value) : Prop where
  ascending : (c.entries.map fun e => nameBytes e.1).Pairwise (· < ·)
  mem_entries : ∀ name v, (name, v) ∈ c.entries ↔ f name = some v
  size_eq : (c.size : ℕ∞) = {name | (f name).isSome}.encard
  get?_eq : ∀ name, c.get? name = f name
  contains_eq : ∀ name, c.contains name = (f name).isSome
  removed_eq : ∀ name, (c.remove name).1 = f name

variable {c d : Variables} {f g : String → Option Value}

theorem get?_extend (c : Variables) (es : List (String × Value)) :
    (c.extend es).get? = assigned c.get? es := by
  induction es generalizing c with
  | nil => rfl
  | cons e es ih =>
    have hset : (c.set e.1 e.2).get? = Function.update c.get? e.1 (some e.2) := by
      funext name
      rw [get?_set, Function.update_apply]
    change ((c.set e.1 e.2).extend es).get? = _
    rw [ih, hset]
    rfl

theorem get?_remove (c : Variables) (name : String) :
    (c.remove name).2.get? = Function.update c.get? name none := by
  funext other
  rw [Function.update_apply]
  exact c.get?_erase name other

/-- What is looked up in variables that come about by operations is what the
operations make of the map. -/
theorem Built.get?_eq (h : Built c f) : c.get? = f := by
  have hempty : Variables.empty.get? = fun _ => none := funext get?_empty
  induction h with
  | empty => exact hempty
  | set _ name v ih => exact (get?_extend _ [(name, v)]).trans (congrArg (assigned · _) ih)
  | remove _ name ih => rw [get?_remove, ih]
  | extend _ es ih => rw [get?_extend, ih]
  | clear => exact hempty
  | collect es => rw [ofList, get?_extend, hempty]
  | @evaluate σ c f _ e stack host ih =>
    rw [Expression.vars_evaluate, get?_extend]
    exact congrArg (assigned · _) ((c.get?_remove returnName).trans (by rw [ih]))

/-- The names that are defined are those of the entries. -/
theorem encard_defined (c : Variables) :
    {name | (c.get? name).isSome}.encard = c.size := by
  have hnames : {name | (c.get? name).isSome}
      = ((c.entries.map Prod.fst).toFinset : Set String) := by
    ext name
    simp [Option.isSome_iff_exists, get?_eq_some_iff]
  rw [hnames, Set.encard_coe_eq_coe_finsetCard, List.toFinset_card_of_nodup c.nodup_names,
    List.length_map, size]

/-- All variables represent what is looked up in them. -/
theorem represents_get? (c : Variables) : c.Represents c.get? where
  ascending := List.pairwise_map.mpr (c.sorted.imp nameBytes_lt_iff.mpr)
  mem_entries _ _ := get?_eq_some_iff.symm
  size_eq := c.encard_defined.symm
  get?_eq _ := rfl
  contains_eq := c.contains_eq
  removed_eq _ := rfl

/-- **Variables are a finite map**, whatever operations they come about by, and
those that come about by other operations are equal to them if and only if
these make the same map. -/
theorem Built.represents (h : Built c f) :
    c.Represents f ∧ ∀ {d g}, Built d g → (c = d ↔ f = g) := by
  refine ⟨h.get?_eq ▸ c.represents_get?, fun {d g} hd => ?_⟩
  rw [← h.get?_eq, ← hd.get?_eq]
  exact ⟨congrArg get?, fun heq => eq_of_get?_eq (congrFun heq)⟩

/-- Two variables that are set one after the other, or of which one is
collected along with a third one that is removed, and the other is assigned
by a program. -/
theorem represents_reordered :
    let program : Expression Unit :=
      .ofBranch (.unconditional [.directive (.push (.integer 1)), .directive (.store "x")])
    let collected := (ofList [("z", .integer 0), ("y", .integer 2)]).remove "z"
    let c := (empty.set "y" (.integer 2)).set "x" (.integer 1)
    let d := (program.evaluate ⟨.empty, collected.2, ()⟩).2.vars
    let f := Function.update (Function.update (fun _ => none) "y" (some (.integer 2))) "x"
      (some (.integer 1))
    Built c f ∧ Built d f ∧ c.Represents f ∧ c = d := by
  intro program collected c d f
  have hc : Built c f := (Built.empty.set "y" (.integer 2)).set "x" (.integer 1)
  have hd : Built d _ :=
    ((Built.collect [("z", .integer 0), ("y", .integer 2)]).remove "z").evaluate program .empty ()
  have hassignments : program.assignments ⟨.empty, collected.2, ()⟩ = [("x", .integer 1)] := rfl
  have hsame : assigned (Function.update (Function.update
      (assigned (fun _ => none) [("z", .integer 0), ("y", .integer 2)]) "z" none) returnName none)
      [("x", .integer 1)] = f := by
    funext name
    simp only [f, assigned, List.foldl_cons, List.foldl_nil, Function.update_apply, returnName]
    grind
  rw [hassignments, hsame] at hd
  exact ⟨hc, hd, hc.represents.1, (hc.represents.2 hd).mpr rfl⟩

end Variables

end ScalarLang
