import ScalarLang.Value.Basic
/-!
# The evaluation stack

A stack lives in an array of slots, of which the first `size` hold its
values. Taking values off leaves the slots behind, so a stack that is
used again does not grow again; when no slot is free their number
doubles. What a stack holds is `toList`, from the bottom up, and every
operation is described by what it does to that list: the values in the
free slots are never seen.
-/

namespace ScalarLang

/-- A stack of values. -/
structure Stack where
  slots : Array Value
  size : Nat
  size_le : size ≤ slots.size
  slots_pos : 0 < slots.size

namespace Stack

/-- How many values the slots can hold. -/
def capacity (s : Stack) : Nat := s.slots.size

/-- The values on the stack, from the bottom up. -/
def toList (s : Stack) : List Value := s.slots.toList.take s.size

/-- An empty stack with the given number of slots, and at least one. -/
def withCapacity (capacity : Nat) : Stack where
  slots := Array.replicate (max capacity 1) default
  size := 0
  size_le := Nat.zero_le _
  slots_pos := by
    rw [Array.size_replicate]
    omega

/-- The number of slots of a stack for which none is asked for. -/
def defaultCapacity : Nat := 8

/-- An empty stack. -/
def empty : Stack := withCapacity defaultCapacity

/-- Twice as many slots. -/
def grow (s : Stack) : Stack where
  slots := s.slots ++ Array.replicate s.slots.size default
  size := s.size
  size_le := by
    have := s.size_le
    rw [Array.size_append, Array.size_replicate]
    omega
  slots_pos := by
    have := s.slots_pos
    rw [Array.size_append, Array.size_replicate]
    omega

/-- A stack that has grown has a free slot. -/
theorem size_lt_grow (s : Stack) : s.grow.size < s.grow.slots.size := by
  have hle := s.size_le
  have hpos := s.slots_pos
  simp only [grow, Array.size_append, Array.size_replicate]
  omega

/-- Puts a value into the first free slot. -/
def store (s : Stack) (v : Value) (h : s.size < s.slots.size) : Stack where
  slots := s.slots.set s.size v h
  size := s.size + 1
  size_le := by
    rw [Array.size_set]
    exact h
  slots_pos := by
    rw [Array.size_set]
    exact s.slots_pos

/-- Puts a value on top, doubling the slots if all are taken. -/
def push (s : Stack) (v : Value) : Stack :=
  if h : s.size < s.slots.size then s.store v h else s.grow.store v s.size_lt_grow

/-- The value on top. -/
def peek? (s : Stack) : Option Value :=
  if s.size = 0 then none else s.slots[s.size - 1]?

/-- Keeps the lowest `n` values. -/
def shrink (s : Stack) (n : Nat) (h : n ≤ s.size) : Stack :=
  { s with size := n, size_le := Nat.le_trans h s.size_le }

/-- Takes the value off the top. -/
def pop? (s : Stack) : Option (Value × Stack) :=
  s.peek?.map fun v => (v, s.shrink (s.size - 1) (Nat.sub_le ..))

/-- Takes `n` values off the top, given in the order in which they were
pushed; nothing if there are fewer. -/
def popArgs? (s : Stack) (n : Nat) : Option (Vector Value n × Stack) :=
  if h : n ≤ s.size then
    have hle := s.size_le
    some (⟨s.slots.extract (s.size - n) s.size, by simp; omega⟩,
      s.shrink (s.size - n) (Nat.sub_le ..))
  else none

/-- Takes all values off. -/
def clear (s : Stack) : Stack := s.shrink 0 (Nat.zero_le _)

def isEmpty (s : Stack) : Bool := s.size == 0

/-! ## What the operations do to the values -/

@[simp] theorem length_toList (s : Stack) : s.toList.length = s.size := by
  have := s.size_le
  simp only [toList, List.length_take, Array.length_toList]
  omega

@[simp] theorem toList_withCapacity (n : Nat) : (withCapacity n).toList = [] := rfl

@[simp] theorem toList_empty : empty.toList = [] := rfl

@[simp] theorem toList_clear (s : Stack) : s.clear.toList = [] := rfl

theorem toList_grow (s : Stack) : s.grow.toList = s.toList := by
  have := s.size_le
  simp only [toList, grow, Array.toList_append]
  exact List.take_append_of_le_length (by simpa using this)

theorem toList_store (s : Stack) (v : Value) (h : s.size < s.slots.size) :
    (s.store v h).toList = s.toList ++ [v] := by
  have hlen : s.size < s.slots.toList.length := by simpa using h
  simp only [toList, store, Array.toList_set]
  rw [List.take_add_one, List.getElem?_set_self hlen, List.take_set_of_le (Nat.le_refl _)]
  rfl

/-- **A push appends.** -/
@[simp] theorem toList_push (s : Stack) (v : Value) : (s.push v).toList = s.toList ++ [v] := by
  unfold push
  split
  · exact s.toList_store v _
  · rw [toList_store, toList_grow]

theorem toList_shrink (s : Stack) (n : Nat) (h : n ≤ s.size) :
    (s.shrink n h).toList = s.toList.take n := by
  simp only [toList, shrink, List.take_take]
  rw [Nat.min_eq_left h]

/-- The value on top is the last one. -/
@[simp] theorem peek?_eq_getLast? (s : Stack) : s.peek? = s.toList.getLast? := by
  have hle := s.size_le
  unfold peek?
  split
  · rename_i h
    simp [toList, h]
  · rename_i h
    rw [List.getLast?_eq_getElem?, length_toList]
    simp only [toList]
    rw [List.getElem?_take_of_lt (by omega)]
    simp

/-- **A pop takes the last value.** -/
theorem pop?_eq_some {s t : Stack} {v : Value} (h : s.pop? = some (v, t)) :
    s.toList = t.toList ++ [v] := by
  simp only [pop?, peek?_eq_getLast?, Option.map_eq_some_iff, Prod.mk.injEq] at h
  obtain ⟨w, hw, rfl, rfl⟩ := h
  obtain ⟨l, hl⟩ := List.getLast?_eq_some_iff.mp hw
  have hs : s.size = l.length + 1 := by
    rw [← length_toList, hl]
    simp
  rw [toList_shrink, hl, hs]
  simp

/-- The value on top is there to be taken. -/
theorem pop?_of_toList {s : Stack} {below : List Value} {v : Value}
    (h : s.toList = below ++ [v]) : ∃ t, s.pop? = some (v, t) ∧ t.toList = below := by
  refine ⟨s.shrink (s.size - 1) (Nat.sub_le ..), by simp [pop?, h], ?_⟩
  have hsize : s.size = below.length + 1 := by
    rw [← length_toList, h]
    simp
  rw [toList_shrink, h, hsize]
  simp

/-- A pop fails on an empty stack alone. -/
theorem pop?_eq_none_iff {s : Stack} : s.pop? = none ↔ s.toList = [] := by
  simp [pop?]

/-- **The arguments are the last values**, in the order of their pushes. -/
theorem popArgs?_eq_some {s t : Stack} {n : Nat} {args : Vector Value n}
    (h : s.popArgs? n = some (args, t)) : s.toList = t.toList ++ args.toList := by
  unfold popArgs? at h
  split at h
  · rename_i hn
    simp only [Option.some.injEq, Prod.mk.injEq] at h
    obtain ⟨rfl, rfl⟩ := h
    rw [toList_shrink]
    have hargs : (s.slots.extract (s.size - n) s.size).toList = s.toList.drop (s.size - n) := by
      simp [toList, List.extract_eq_take_drop, List.drop_take]
    change s.toList = _ ++ (s.slots.extract (s.size - n) s.size).toList
    rw [hargs, List.take_append_drop]
  · simp at h

/-- Arguments are missing only where there are too few values. -/
theorem popArgs?_eq_none_iff {s : Stack} {n : Nat} :
    s.popArgs? n = none ↔ s.toList.length < n := by
  simp [popArgs?]

/-- Equal numbers of arguments are the same arguments. -/
theorem popArgs?_cast {n k : Nat} (h : n = k) (s : Stack) :
    s.popArgs? k = (s.popArgs? n).map fun popped => (popped.1.cast h, popped.2) := by
  subst h
  cases s.popArgs? n <;> rfl

/-- As many arguments as there are values on top are there to be taken. -/
theorem popArgs?_of_toList {s : Stack} {n : Nat} {below args : List Value}
    (h : s.toList = below ++ args) (hn : args.length = n) :
    ∃ taken t, s.popArgs? n = some (taken, t) ∧ taken.toList = args ∧ t.toList = below := by
  cases htake : s.popArgs? n with
  | none =>
    rw [popArgs?_eq_none_iff, h, List.length_append] at htake
    omega
  | some taken =>
    have hparts := popArgs?_eq_some htake
    rw [h] at hparts
    obtain ⟨hbelow, hargs⟩ := List.append_inj' hparts (by simp [hn])
    exact ⟨taken.1, taken.2, rfl, hargs.symm, hbelow.symm⟩

/-! ## Stacks that hold the same values -/

/-- The value on top is the same, or missing from both. -/
theorem pop?_of_toList_eq {s s' : Stack} (h : s.toList = s'.toList) :
    (s.pop? = none ∧ s'.pop? = none) ∨
      ∃ v t t', s.pop? = some (v, t) ∧ s'.pop? = some (v, t') ∧ t.toList = t'.toList := by
  cases hpop : s.pop? with
  | none => exact .inl ⟨rfl, pop?_eq_none_iff.mpr (h ▸ pop?_eq_none_iff.mp hpop)⟩
  | some popped =>
    obtain ⟨v, t⟩ := popped
    obtain ⟨t', hpop', ht⟩ := pop?_of_toList (h ▸ pop?_eq_some hpop)
    exact .inr ⟨v, t, t', rfl, hpop', ht.symm⟩

/-- And so are arguments. -/
theorem popArgs?_of_toList_eq {s s' : Stack} (h : s.toList = s'.toList) (n : Nat) :
    (s.popArgs? n = none ∧ s'.popArgs? n = none) ∨
      ∃ args t t', s.popArgs? n = some (args, t) ∧ s'.popArgs? n = some (args, t') ∧
        t.toList = t'.toList := by
  cases hpop : s.popArgs? n with
  | none => exact .inl ⟨rfl, popArgs?_eq_none_iff.mpr (h ▸ popArgs?_eq_none_iff.mp hpop)⟩
  | some taken =>
    obtain ⟨args, t⟩ := taken
    obtain ⟨args', t', hpop', hargs, ht⟩ :=
      popArgs?_of_toList (h ▸ popArgs?_eq_some hpop) args.length_toList
    obtain rfl : args' = args := Vector.toList_inj.mp hargs
    exact .inr ⟨args', t, t', rfl, hpop', ht.symm⟩

end Stack

end ScalarLang
