import Mathlib.Algebra.Group.Nat.Defs
import ScalarLang.Stack
import ScalarLang.Proofs.State.Serving
/-!
# Stacks as lists

Whoever uses a stack cannot tell it from a list of values: after any
requests the answers are those of the list that the same requests make.
What the list does not show is how a stack answers. Every request reads
and writes slots that there are, and the number of slots is the first one
asked for, doubled as often as the longest the list has been makes
necessary: the values left behind in free slots are overwritten, and
slots are never given back.
-/

namespace ScalarLang

namespace Stack

/-- What can be asked of a stack. -/
inductive Request where
  | push (v : Value)
  | pop
  | peek
  | popArgs (n : Nat)
  | clear
  | size
  | values

/-- What a request gives back. -/
inductive Answer where
  | done
  | value (v : Option Value)
  | arguments (vs : Option (List Value))
  | size (n : Nat)
  | values (vs : List Value)
  deriving DecidableEq

/-- What a request gives back, and the stack it leaves. -/
def serve (s : Stack) : Request → Answer × Stack
  | .push v => (.done, s.push v)
  | .pop =>
    match s.pop? with
    | some (v, t) => (.value (some v), t)
    | none => (.value none, s)
  | .peek => (.value s.peek?, s)
  | .popArgs n =>
    match s.popArgs? n with
    | some (args, t) => (.arguments (some args.toList), t)
    | none => (.arguments none, s)
  | .clear => (.done, s.clear)
  | .size => (.size s.size, s)
  | .values => (.values s.toList, s)

/-! ## What a list would answer -/

/-- What a request means for a list of values whose last one is on top, and
the list it leaves. -/
def serveList (l : List Value) : Request → Answer × List Value
  | .push v => (.done, l ++ [v])
  | .pop => (.value l.getLast?, l.dropLast)
  | .peek => (.value l.getLast?, l)
  | .popArgs n =>
    if n ≤ l.length then (.arguments (l.drop (l.length - n)), l.take (l.length - n))
    else (.arguments none, l)
  | .clear => (.done, [])
  | .size => (.size l.length, l)
  | .values => (.values l, l)

/-- The greatest length that a list has before, between and after
requests. -/
def greatestLength (l : List Value) : List Request → Nat
  | [] => l.length
  | r :: rs => max l.length (greatestLength (serveList l r).2 rs)

theorem length_le_greatestLength (l : List Value) (rs : List Request) :
    l.length ≤ greatestLength l rs := by
  cases rs with
  | nil => exact Nat.le_refl _
  | cons r rs => exact Nat.le_max_left ..

/-- **A request to a stack is one to a list.** -/
theorem serve_toList (s : Stack) (r : Request) :
    (s.serve r).1 = (serveList s.toList r).1 ∧
      (s.serve r).2.toList = (serveList s.toList r).2 := by
  cases r with
  | pop =>
    cases htake : s.pop? with
    | none =>
      have hnil := pop?_eq_none_iff.mp htake
      simp [serve, serveList, htake, hnil]
    | some taken =>
      have hlist := pop?_eq_some htake
      simp [serve, serveList, htake, hlist]
  | popArgs n =>
    cases htake : s.popArgs? n with
    | none =>
      have hshort : s.size < n := by simpa using popArgs?_eq_none_iff.mp htake
      simp [serve, serveList, htake, Nat.not_le.mpr hshort]
    | some taken =>
      have hlist := popArgs?_eq_some htake
      simp [serve, serveList, htake, hlist]
  | _ => simp [serve, serveList]

/-! ## Slots -/

/-- The values that an answer consists of. -/
def Answer.held : Answer → List Value
  | done | size _ => []
  | value v => v.toList
  | arguments vs => vs.getD []
  | values vs => vs

/-- The value that a request brings along. -/
def Request.brought : Request → List Value
  | push v => [v]
  | _ => []

/-- How many values a request looks at, from the top. -/
def depth (s : Stack) : Request → Nat
  | .push _ | .clear | .size => 0
  | .pop | .peek => min 1 s.size
  | .popArgs n => if n ≤ s.size then n else 0
  | .values => s.size

/-- The slots that a request reads. -/
def reads (s : Stack) (r : Request) : List Nat := List.range' (s.size - s.depth r) (s.depth r)

/-- The slots that a request writes. -/
def writes (s : Stack) : Request → List Nat
  | .push _ => [s.size]
  | _ => []

/-- A request keeps to the slots that there are: those it is said to read
and to write exist once it is done, the values it gives back are those of
the former, the value it brings along is put into the latter, and nothing
else changes in the slots. -/
structure KeepsToSlots (s : Stack) (r : Request) : Prop where
  within : ∀ i ∈ s.reads r ++ s.writes r, i < (s.serve r).2.capacity
  read : (s.reads r).map (s.slots[·]?) = (s.serve r).1.held.map some
  written : (s.writes r).map ((s.serve r).2.slots[·]?) = r.brought.map some
  others : ∀ i < s.capacity, i ∉ s.writes r → (s.serve r).2.slots[i]? = s.slots[i]?

theorem depth_le_size (s : Stack) (r : Request) : s.depth r ≤ s.size := by
  cases r <;> grind [depth]

/-- The answers consist of the values looked at. -/
theorem held_serve (s : Stack) (r : Request) :
    (s.serve r).1.held = s.toList.drop (s.size - s.depth r) := by
  have htop : s.toList.getLast?.toList = s.toList.drop (s.size - min 1 s.size) := by
    rw [← length_toList]
    rcases List.eq_nil_or_concat s.toList with hl | ⟨below, v, hl⟩ <;> simp [hl]
  rw [(s.serve_toList r).1]
  cases r with
  | pop => exact htop
  | peek => exact htop
  | popArgs n => by_cases hn : n ≤ s.size <;> simp [serveList, Answer.held, depth, hn]
  | _ => simp [serveList, Answer.held, depth]

/-- The top of the values is in the top of the slots in use. -/
theorem map_slots_range' (s : Stack) {n : Nat} (hn : n ≤ s.size) :
    (List.range' (s.size - n) n).map (s.slots[·]?) = (s.toList.drop (s.size - n)).map some := by
  have hle := s.size_le
  refine List.ext_getElem? fun i => ?_
  by_cases hi : i < n
  · have hin : s.size - n + i < s.size := by omega
    have hslot : s.size - n + i < s.slots.size := by omega
    simp [toList, hi, hin, hslot]
  · have hout : s.size ≤ s.size - n + i := by omega
    simp [hi, hout]

/-- What a push does to the slots. -/
theorem getElem?_slots_push (s : Stack) (v : Value) {i : Nat} (hi : i < s.capacity ∨ i = s.size) :
    (s.push v).slots[i]? = if i = s.size then some v else s.slots[i]? := by
  unfold push
  split
  · simp [store, Array.getElem?_set, eq_comm]
  · simp only [store, Array.getElem?_set, eq_comm (b := i)]
    split
    · rename_i hnew
      exact (if_pos hnew).symm
    · rename_i hold
      have hi : i < s.slots.size := hi.resolve_right hold
      exact (Array.getElem?_append_left hi).trans (if_neg hold).symm

/-- A request that writes nothing leaves the slots as they are. -/
theorem slots_serve {s : Stack} {r : Request} (h : s.writes r = []) :
    (s.serve r).2.slots = s.slots := by
  cases r with
  | push v => simp [writes] at h
  | pop => cases hpeek : s.peek? <;> simp only [serve, pop?, hpeek, Option.map, shrink]
  | popArgs n => by_cases hn : n ≤ s.size <;> simp [serve, popArgs?, hn, shrink]
  | _ => rfl

/-- A request that writes nothing puts nothing on the stack. -/
theorem size_serve_le {s : Stack} {r : Request} (h : s.writes r = []) :
    (s.serve r).2.size ≤ s.size := by
  rw [← length_toList, (s.serve_toList r).2]
  cases r with
  | push v => simp [writes] at h
  | popArgs n => by_cases hn : n ≤ s.size <;> simp [serveList, hn]
  | _ => simp [serveList]

/-- A request writes a slot if it is a push, and none otherwise. -/
theorem push_or_writes_eq_nil (s : Stack) (r : Request) :
    (∃ v, r = .push v) ∨ (s.writes r = [] ∧ r.brought = []) := by
  cases r <;> simp [writes, Request.brought]

/-- **Every request keeps to the slots that there are.** -/
theorem keepsToSlots (s : Stack) (r : Request) : s.KeepsToSlots r := by
  have hle : s.size ≤ s.capacity := s.size_le
  have hdepth := s.depth_le_size r
  have hread : (s.reads r).map (s.slots[·]?) = (s.serve r).1.held.map some := by
    rw [held_serve]
    exact s.map_slots_range' hdepth
  have hreads (i : Nat) (hi : i ∈ s.reads r) : i < s.capacity := by
    simp only [reads, List.mem_range'_1] at hi
    omega
  obtain ⟨v, rfl⟩ | ⟨hwrites, hbrought⟩ := s.push_or_writes_eq_nil r
  · have hnew : (s.push v).slots[s.size]? = some v := by
      simp [s.getElem?_slots_push v (.inr rfl)]
    refine ⟨fun i hi => ?_, hread, by simpa [serve, writes, Request.brought] using hnew,
      fun i hi hne => ?_⟩
    · obtain rfl : i = s.size := by simpa [reads, depth, writes] using hi
      exact (Array.getElem?_eq_some_iff.mp hnew).1
    · have hother : i ≠ s.size := by simpa [writes] using hne
      simp [serve, s.getElem?_slots_push v (.inl hi), hother]
  · have hslots := slots_serve hwrites
    refine ⟨fun i hi => ?_, hread, by simp [hwrites, hbrought], fun i _ _ => by rw [hslots]⟩
    rw [hwrites, List.append_nil] at hi
    rw [capacity, hslots]
    exact hreads i hi

/-! ## Capacity -/

/-- A push doubles the slots if all of them are in use. -/
theorem capacity_push (s : Stack) (v : Value) :
    (s.push v).capacity = if s.size < s.capacity then s.capacity else 2 * s.capacity := by
  unfold push capacity
  split
  · simp [store]
  · simp only [store, grow, Array.size_set, Array.size_append, Array.size_replicate]
    omega

/-- The slots of a stack are the first ones, doubled as often as is
necessary for the greatest size so far, and no more often. -/
structure HasDoubled (first greatest : Nat) (s : Stack) : Prop where
  size_le : s.size ≤ greatest
  capacity_eq : ∃ k, s.capacity = first * 2 ^ k ∧ ∀ j, greatest ≤ first * 2 ^ j ↔ k ≤ j

/-- A push keeps to that: it doubles the slots exactly when they are as
many as the greatest size so far. -/
theorem HasDoubled.push {first greatest : Nat} {s : Stack} (h : HasDoubled first greatest s)
    (hfirst : 0 < first) (v : Value) :
    HasDoubled first (max greatest (s.push v).size) (s.push v) := by
  obtain ⟨hsize, k, hcapacity, hleast⟩ := h
  have hpush : (s.push v).size = s.size + 1 := by
    simp [← length_toList]
  refine ⟨Nat.le_max_right .., ?_⟩
  rw [capacity_push, hpush]
  have hle : s.size ≤ s.capacity := s.size_le
  by_cases hfree : s.size < s.capacity
  · refine ⟨k, by rw [if_pos hfree, hcapacity], fun j => ?_⟩
    rw [Nat.max_le, hleast]
    refine ⟨And.left, fun hj => ⟨hj, ?_⟩⟩
    calc s.size + 1 ≤ first * 2 ^ k := hcapacity ▸ hfree
      _ ≤ first * 2 ^ j := Nat.mul_le_mul_left _ (Nat.pow_le_pow_right (by decide) hj)
  · have hfull : s.size = first * 2 ^ k := by omega
    have hgreatest : greatest ≤ first * 2 ^ k := (hleast k).mpr (Nat.le_refl k)
    refine ⟨k + 1, by rw [if_neg hfree, hcapacity, Nat.pow_succ']; ac_rfl, fun j => ?_⟩
    have hlonger : first * 2 ^ k < first * 2 ^ j ↔ k < j := by
      rw [Nat.mul_lt_mul_left hfirst, Nat.pow_lt_pow_iff_right (by omega)]
    rw [Nat.max_eq_right (by omega), hfull]
    exact hlonger

/-- Every request does. -/
theorem HasDoubled.serve {first greatest : Nat} {s : Stack} (h : HasDoubled first greatest s)
    (hfirst : 0 < first) (r : Request) :
    HasDoubled first (max greatest (s.serve r).2.size) (s.serve r).2 := by
  obtain ⟨v, rfl⟩ | ⟨hwrites, -⟩ := s.push_or_writes_eq_nil r
  · exact h.push hfirst v
  · have hsize : (s.serve r).2.size ≤ greatest := Nat.le_trans (size_serve_le hwrites) h.size_le
    have hcapacity : (s.serve r).2.capacity = s.capacity := by
      rw [capacity, slots_serve hwrites, capacity]
    rw [Nat.max_eq_left hsize]
    exact ⟨hsize, hcapacity ▸ h.capacity_eq⟩

/-- And so do requests made one after the other. -/
theorem HasDoubled.serveAll {first greatest : Nat} {s : Stack} (h : HasDoubled first greatest s)
    (hfirst : 0 < first) (rs : List Request) :
    HasDoubled first (max greatest (greatestLength s.toList rs))
      (ScalarLang.serveAll Stack.serve s rs).2 := by
  induction rs generalizing greatest s with
  | nil =>
    rw [greatestLength, length_toList, Nat.max_eq_left h.size_le]
    exact h
  | cons r rs ih =>
    have hlist := (s.serve_toList r).2
    have hgreatest : max greatest (greatestLength s.toList (r :: rs))
        = max (max greatest (s.serve r).2.size)
          (greatestLength (s.serve r).2.toList rs) := by
      have hsize := h.size_le
      have hnext := length_le_greatestLength (s.serve r).2.toList rs
      rw [length_toList] at hnext
      rw [greatestLength, length_toList, ← hlist]
      omega
    rw [hgreatest]
    exact ih (h.serve hfirst r)

/-! ## Runs -/

/-- **A stack is a list, whatever is asked of it.** After any requests to a
stack for which any number of slots was asked, all answers are those of a
list, the stack holds what the list does, the next request keeps to the
slots that there are, and these are the first ones doubled as often as is
necessary for the greatest length that the list has had, and no more
often. -/
theorem serveAll_withCapacity (capacity : Nat) (requests : List Request) :
    let served := serveAll serve (withCapacity capacity) requests
    served.1 = (serveAll serveList [] requests).1 ∧
    served.2.toList = (serveAll serveList [] requests).2 ∧
    (∀ next, served.2.KeepsToSlots next) ∧
    ∃ k, served.2.capacity = max capacity 1 * 2 ^ k ∧
      ∀ j, greatestLength [] requests ≤ max capacity 1 * 2 ^ j ↔ k ≤ j := by
  have hserve (s : Stack) (l : List Value) (h : s.toList = l) (r : Request) :
      (s.serve r).1 = (serveList l r).1 ∧ (s.serve r).2.toList = (serveList l r).2 :=
    h ▸ s.serve_toList r
  obtain ⟨hanswers, hlist⟩ :=
    serveAll_of_related hserve (toList_withCapacity capacity) requests
  have hstart : HasDoubled (max capacity 1) 0 (withCapacity capacity) :=
    ⟨Nat.le_refl 0, 0, by simp [Stack.capacity, withCapacity], by simp⟩
  have hdoubled := hstart.serveAll (by omega) requests
  rw [toList_withCapacity, Nat.zero_max] at hdoubled
  exact ⟨hanswers, hlist, keepsToSlots _, hdoubled.capacity_eq⟩

/-- A stack for which no slots are asked for has one. -/
example :
    let served := serveAll serve (withCapacity 0)
      [.push (.integer 1), .push (.integer 2), .popArgs 3, .popArgs 2, .pop]
    served.1 = [.done, .done, .arguments none, .arguments (some [.integer 1, .integer 2]),
      .value none] ∧ served.2.capacity = 2 := by
  decide

end Stack

end ScalarLang
