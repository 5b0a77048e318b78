import ScalarLang.Proofs.Execution.Interchange
import ScalarLang.Proofs.Execution.Simulation
import ScalarLang.Proofs.Function.Arity
import ScalarLang.Proofs.State.Stack
/-!
# Warm-up

A stack keeps its slots, so an evaluation that is repeated on the same
stack does not need more of them. Two runs of one program are compared, of
which the second starts with more slots (`Stack.GrowsAlike`): at every
moment the second stack has as many slots as the first one, or as many as
it started with if these are more. With the slots that the first run has
ended with, the second one therefore ends with the same.

That holds because slots are doubled: the numbers of slots that the two
runs can come to are the same powers of two times the slots at the start,
and a stack that is full while another one is not has at most half of the
other's slots. The calls have to yield the same in both runs.
-/

namespace ScalarLang

variable {σ : Type}

/-! ## Stacks that grow alike -/

namespace Stack

theorem capacity_of_pop? {s t : Stack} {v : Value} (h : s.pop? = some (v, t)) :
    t.capacity = s.capacity := by
  obtain ⟨w, -, heq⟩ := Option.map_eq_some_iff.mp h
  cases heq
  rfl

theorem capacity_of_popArgs? {s t : Stack} {n : Nat} {args : Vector Value n}
    (h : s.popArgs? n = some (args, t)) : t.capacity = s.capacity := by
  unfold popArgs? at h
  split at h
  · cases h
    rfl
  · cases h

/-- The stacks hold the same values. The slots of the first one are `first`,
doubled a number of times; the second one has as many, or `first` doubled
`k` times if that is more. -/
structure GrowsAlike (first k : Nat) (s s' : Stack) : Prop where
  values : s.toList = s'.toList
  doubled : ∃ i, s.capacity = first * 2 ^ i
  capacity : s'.capacity = max s.capacity (first * 2 ^ k)

namespace GrowsAlike

variable {first k : Nat} {s s' t t' : Stack}

/-- At the start the second stack has the slots of the first one, doubled. -/
theorem start (hvalues : s.toList = s'.toList) (hs : s.capacity = first)
    (hs' : s'.capacity = first * 2 ^ k) : GrowsAlike first k s s' where
  values := hvalues
  doubled := ⟨0, by rw [hs, Nat.pow_zero, Nat.mul_one]⟩
  capacity := by
    have hle := Nat.le_mul_of_pos_right first (Nat.pow_pos (n := k) Nat.zero_lt_two)
    rw [hs, hs', Nat.max_eq_right hle]

/-- Other values in the same slots. -/
theorem restack (h : GrowsAlike first k s s') (hvalues : t.toList = t'.toList)
    (ht : t.capacity = s.capacity) (ht' : t'.capacity = s'.capacity) :
    GrowsAlike first k t t' where
  values := hvalues
  doubled := ht ▸ h.doubled
  capacity := by rw [ht, ht', h.capacity]

/-- **Stacks that grow alike do so with a push.** Where the first one is full
and the second is not, the second has at least twice the slots. -/
theorem push (h : GrowsAlike first k s s') (v : Value) :
    GrowsAlike first k (s.push v) (s'.push v) := by
  obtain ⟨hvalues, ⟨i, hi⟩, hcapacity⟩ := h
  have hsize : s'.size = s.size := by rw [← length_toList, ← length_toList, hvalues]
  have hle : s.size ≤ s.capacity := s.size_le
  have hnext : 2 * s.capacity = first * 2 ^ (i + 1) := by
    rw [hi, Nat.pow_succ']
    ac_rfl
  refine ⟨by simp [hvalues], ?_, ?_⟩
  · rw [capacity_push]
    split
    · exact ⟨i, hi⟩
    · exact ⟨i + 1, hnext⟩
  · rw [capacity_push, capacity_push, hsize, hcapacity]
    by_cases hfree : s.size < s.capacity
    · rw [if_pos hfree, if_pos (by omega)]
    · rw [if_neg hfree]
      rcases Nat.lt_or_ge i k with hik | hik
      · have hpos : 0 < s.capacity := s.slots_pos
        have htwice : 2 * s.capacity ≤ first * 2 ^ k :=
          hnext ▸ Nat.mul_le_mul_left _ (Nat.pow_le_pow_right (by decide) hik)
        rw [if_pos (by omega)]
        omega
      · have hmore : first * 2 ^ k ≤ s.capacity :=
          hi ▸ Nat.mul_le_mul_left _ (Nat.pow_le_pow_right (by decide) hik)
        rw [if_neg (by omega)]
        omega

end GrowsAlike

end Stack

/-! ## Functions of their arguments -/

/-- What a closure yields depends on its arguments and not on the state of the
embedding program. -/
def Closure.Deterministic (f : Closure σ) : Prop :=
  ∀ args host host', (f.apply args host).1 = (f.apply args host').1

/-- The functions that come with the language, functions of values, and
closures that yield the same for the same arguments. -/
inductive NativeFunction.Deterministic : NativeFunction σ → Prop
  | math (f : MathFunction) : Deterministic (f.toNative σ)
  | values (f : ValueFunction) : Deterministic (f.toNative σ)
  | closure {f : Closure σ} (hf : f.Deterministic) : Deterministic f.toNative

/-- All of them are closures. -/
theorem NativeFunction.Deterministic.exists_closure {f : NativeFunction σ}
    (hf : f.Deterministic) : ∃ g : Closure σ, g.Deterministic ∧ f = g.toNative := by
  have values (f : ValueFunction) :
      ∃ g : Closure σ, g.Deterministic ∧ f.toNative σ = g.toNative :=
    ⟨f.toClosure σ, fun _ _ _ => rfl, f.toNative_eq_toClosure⟩
  cases hf with
  | math f =>
    rw [f.toNative_eq]
    exact values f.toValueFunction
  | values f => exact values f
  | closure hf => exact ⟨_, hf, rfl⟩

/-! ## Runs on stacks that grow alike -/

/-- Machines have stacks that grow alike and the same variables. -/
structure Machine.GrowsAlike (first k : Nat) (m m' : Machine σ) : Prop where
  stack : m.stack.GrowsAlike first k m'.stack
  vars : m.vars = m'.vars

variable {first k : Nat} {m m' : Machine σ}

/-- Calls of a closure put the same on both stacks. -/
theorem Closure.Deterministic.execute {f : Closure σ} (hf : f.Deterministic)
    (h : m.GrowsAlike first k m') :
    Machine.EndRelated (Machine.GrowsAlike first k) (f.toNative.execute m)
      (f.toNative.execute m') := by
  simp only [NativeFunction.execute, Closure.toNative, Closure.call]
  rcases Stack.popArgs?_of_toList_eq h.stack.values f.arity with
    ⟨hnone, hnone'⟩ | ⟨args, t, t', hpop, hpop', hvalues⟩
  · rw [hnone, hnone']
    exact ⟨rfl, h.stack, h.vars⟩
  · rw [hpop, hpop']
    have ht := h.stack.restack hvalues (Stack.capacity_of_popArgs? hpop)
      (Stack.capacity_of_popArgs? hpop')
    have hvalue := hf args m.host m'.host
    dsimp only
    generalize f.apply args m.host = applied, f.apply args m'.host = applied' at hvalue
    obtain ⟨value, host⟩ := applied
    obtain ⟨value', host'⟩ := applied'
    obtain rfl : value = value' := hvalue
    cases value with
    | error message => exact ⟨rfl, ht, h.vars⟩
    | ok v => exact ⟨rfl, ht.push v, h.vars⟩

/-- **Runs keep stacks that grow alike.** -/
theorem Machine.simulation_growsAlike : Machine.Simulation (Machine.GrowsAlike (σ := σ) first k)
    NativeFunction.Deterministic (fun _ => True) fun _ => True where
  push v h := ⟨h.stack.push v, h.vars⟩
  pop h := by
    rcases Stack.pop?_of_toList_eq h.stack.values with
      ⟨hnone, hnone'⟩ | ⟨v, t, t', hpop, hpop', hvalues⟩
    · rw [hnone, hnone']
      exact .none
    · rw [hpop, hpop']
      exact .some ⟨h.stack.restack hvalues (Stack.capacity_of_pop? hpop)
        (Stack.capacity_of_pop? hpop'), h.vars⟩
  load h _ := by rw [h.vars]
  assign v h _ := ⟨h.stack, by simp [Machine.assign, h.vars]⟩
  call h hf := by
    obtain ⟨g, hg, rfl⟩ := hf.exists_closure
    exact hg.execute h

namespace Expression

/-- Evaluations on machines that grow alike end on such machines. -/
theorem evaluate_growsAlike {e : Expression σ} (he : e.CallsOnly NativeFunction.Deterministic)
    (h : m.cleared.GrowsAlike first k m'.cleared) :
    (e.evaluate m).2.stack.GrowsAlike first k (e.evaluate m').2.stack :=
  (Machine.simulation_growsAlike.evaluate
    (fun h => by simp [Machine.result, h.stack.values, h.vars])
    (fun root hroot => (he root hroot).uses) h).2.1.stack

/-- **After one evaluation the stack has slots enough.** The same evaluation on
the stack that it has left, from the same variables and whatever the state
of the embedding program is by then, ends with as many slots. -/
theorem capacity_evaluate_again (e : Expression σ)
    (he : e.CallsOnly NativeFunction.Deterministic) (m : Machine σ) (host : σ) :
    (e.evaluate ⟨(e.evaluate m).2.stack, m.vars, host⟩).2.stack.capacity
      = (e.evaluate m).2.stack.capacity := by
  -- the first run beside itself tells how often its slots are doubled
  have hself : (e.evaluate m).2.stack.GrowsAlike m.stack.capacity 0 (e.evaluate m).2.stack :=
    evaluate_growsAlike he ⟨.start rfl rfl (Nat.mul_one _).symm, rfl⟩
  obtain ⟨k, hk⟩ := hself.doubled
  have hagain : (e.evaluate m).2.stack.GrowsAlike m.stack.capacity k
      (e.evaluate ⟨(e.evaluate m).2.stack, m.vars, host⟩).2.stack :=
    evaluate_growsAlike he ⟨.start rfl rfl hk, rfl⟩
  rw [hagain.capacity, ← hk, Nat.max_self]

/-- `refuse(1, max(2, 3))`, on a stack with one slot. The closure counts its
calls and refuses them, so the evaluation fails, but the slots have been
doubled twice by then. -/
theorem capacity_evaluate_again_refused :
    let max : NativeFunction Nat := MathFunction.max.toNative Nat
    let refuse : Closure Nat := ⟨"refuse", 2, false, fun _ n => (.error "refused", n + 1)⟩
    let number (n : Int64) : Node Nat := .directive (.push (.integer n))
    let e : Expression Nat := .ofBranch (.unconditional
      [number 1, number 2, number 3, .call max, .call refuse.toNative])
    let m : Machine Nat := ⟨.withCapacity 1, .empty, 0⟩
    (e.evaluate m).1.toOption = none ∧ (e.evaluate m).2.host = 1 ∧
      (e.evaluate m).2.stack.capacity = 4 ∧
      (e.evaluate ⟨(e.evaluate m).2.stack, m.vars, 1⟩).2.stack.capacity = 4 := by
  intro max refuse number e m
  have he : e.CallsOnly NativeFunction.Deterministic := by
    rintro root ⟨⟩
    exact ⟨⟨trivial, trivial⟩, ⟨trivial, trivial, trivial, .math .max,
      .closure fun _ _ _ => rfl, trivial⟩, trivial⟩
  have hfirst : (e.evaluate m).1.toOption = none ∧ (e.evaluate m).2.host = 1 ∧
      (e.evaluate m).2.stack.capacity = 4 := by decide +kernel
  exact ⟨hfirst.1, hfirst.2.1, hfirst.2.2, (capacity_evaluate_again e he m 1).trans hfirst.2.2⟩

end Expression

end ScalarLang
