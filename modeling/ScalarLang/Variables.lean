import ScalarLang.Text.Quoted
import ScalarLang.Value.Basic
/-!
# Variables

The variables of an evaluation are a finite map from names to values,
kept as a list of entries in the ascending order of their names, in which
a name is looked up by halving. Every operation is described by what it
does to the map (`get?_set`, `get?_erase`), and since the order is part of
the type, equal maps are equal lists (`eq_of_get?_eq`).
-/

namespace ScalarLang

/-- A finite map from names to values, in the order of the names. -/
structure Variables where
  entries : List (String × Value)
  sorted : entries.Pairwise fun a b => a.1 < b.1

namespace Variables

instance : DecidableEq Variables := fun c d =>
  if h : c.entries = d.entries then
    isTrue (by cases c; cases d; cases h; rfl)
  else isFalse fun e => h (congrArg entries e)

/-- The variable that receives what a `return` statement returns. The
name is not an identifier, so no source text can mention it. -/
def returnName : String := "#return"

def empty : Variables := ⟨[], .nil⟩

def size (c : Variables) : Nat := c.entries.length

def isEmpty (c : Variables) : Bool := c.entries.isEmpty

/-! ## Search -/

/-- Where the entry of a name is among others, or where it belongs. -/
inductive Place where
  | found (i : Nat)
  | absent (i : Nat)

/-- Looks for a name among the entries from `lo` on and before `hi`, by
comparing it with the name in the middle. -/
def bisect (es : List (String × Value)) (name : String) (lo hi : Nat) (h : hi ≤ es.length) :
    Place :=
  if hlt : lo < hi then
    let mid := lo + (hi - lo) / 2
    have hmid : mid < es.length := by omega
    if es[mid].1 < name then bisect es name (mid + 1) hi h
    else if name < es[mid].1 then bisect es name lo mid (Nat.le_of_lt hmid)
    else .found mid
  else .absent lo
termination_by hi - lo

/-- The place of a name. -/
def place (c : Variables) (name : String) : Place :=
  bisect c.entries name 0 c.entries.length (Nat.le_refl _)

/-- The value of a variable, if it is defined. -/
def get? (c : Variables) (name : String) : Option Value :=
  match c.place name with
  | .found i => c.entries[i]?.map Prod.snd
  | .absent _ => none

def contains (c : Variables) (name : String) : Bool :=
  match c.place name with
  | .found _ => true
  | .absent _ => false

/-- What the place of a name is: the entries before it have smaller names,
and those after it greater ones. -/
inductive Place.Of (name : String) : List (String × Value) → Place → Prop
  | found {xs ys : List (String × Value)} {v : Value} (below : ∀ a ∈ xs, a.1 < name)
    (above : ∀ a ∈ ys, name < a.1) : Of name (xs ++ (name, v) :: ys) (.found xs.length)
  | absent {xs ys : List (String × Value)} (below : ∀ a ∈ xs, a.1 < name)
    (above : ∀ a ∈ ys, name < a.1) : Of name (xs ++ ys) (.absent xs.length)

/-- The entries before and after one of sorted entries. -/
theorem smaller_greater {es : List (String × Value)} (hes : es.Pairwise fun a b => a.1 < b.1)
    {i : Nat} (hi : i < es.length) :
    (∀ a ∈ es.take i, a.1 < es[i].1) ∧ ∀ a ∈ es.drop (i + 1), es[i].1 < a.1 := by
  rw [← List.take_append_drop i es, List.drop_eq_getElem_cons hi, List.pairwise_append,
    List.pairwise_cons] at hes
  exact ⟨fun a ha => hes.2.2 a ha _ List.mem_cons_self, hes.2.1.1⟩

/-- The search finds the place among sorted entries, if it is not before `lo`
and not after `hi`. -/
theorem of_bisect {es : List (String × Value)} (hes : es.Pairwise fun a b => a.1 < b.1)
    {name : String} {lo hi : Nat} (h : hi ≤ es.length) (hle : lo ≤ hi)
    (hbelow : ∀ a ∈ es.take lo, a.1 < name) (habove : ∀ a ∈ es.drop hi, name < a.1) :
    (bisect es name lo hi h).Of name es := by
  fun_induction bisect es name lo hi h with
  | case1 lo hi h hlt mid hmid hless ih =>
    obtain ⟨hsmaller, -⟩ := smaller_greater hes hmid
    refine ih (by omega) (fun a ha => ?_) habove
    rw [List.take_succ_eq_append_getElem hmid] at ha
    rcases List.mem_append.mp ha with ha | ha
    · exact String.lt_trans (hsmaller a ha) hless
    · rwa [List.mem_singleton.mp ha]
  | case2 lo hi h hlt mid hmid _ hgreater ih =>
    obtain ⟨-, hlater⟩ := smaller_greater hes hmid
    refine ih (by omega) hbelow fun a ha => ?_
    rw [List.drop_eq_getElem_cons hmid] at ha
    rcases List.mem_cons.mp ha with rfl | ha
    · exact hgreater
    · exact String.lt_trans hgreater (hlater a ha)
  | case3 lo hi h hlt mid hmid hnless hngreater =>
    obtain ⟨hsmaller, hlater⟩ := smaller_greater hes hmid
    obtain rfl : es[mid].1 = name := by grind
    have hplace := Place.Of.found (v := es[mid].2) hsmaller hlater
    rwa [List.length_take_of_le (Nat.le_of_lt hmid), List.getElem_cons_drop,
      List.take_append_drop] at hplace
  | case4 lo hi h hge =>
    obtain rfl : lo = hi := by omega
    have hplace := Place.Of.absent hbelow habove
    rwa [List.length_take_of_le h, List.take_append_drop] at hplace

theorem place_of (c : Variables) (name : String) : (c.place name).Of name c.entries :=
  of_bisect c.sorted (Nat.le_refl _) (Nat.zero_le _) (by simp) (by simp)

/-! ## Updates -/

/-- The entries with the one of a name put in its place. -/
def Place.put (name : String) (v : Value) (es : List (String × Value)) :
    Place → List (String × Value)
  | found i => es.set i (name, v)
  | absent i => es.take i ++ (name, v) :: es.drop i

/-- The entries without the one at a place. -/
def Place.remove (es : List (String × Value)) : Place → List (String × Value)
  | found i => es.eraseIdx i
  | absent _ => es

namespace Place

variable {name other : String} {u v w : Value} {xs ys es : List (String × Value)} {p : Place}

theorem put_found :
    (found xs.length).put name v (xs ++ (name, u) :: ys) = xs ++ (name, v) :: ys := by
  simp [put]

theorem put_absent : (absent xs.length).put name v (xs ++ ys) = xs ++ (name, v) :: ys := by
  simp [put]

theorem remove_found : (found xs.length).remove (xs ++ (name, u) :: ys) = xs ++ ys := by
  simp [remove, List.eraseIdx_append_of_length_le]

theorem Of.mem_put (h : p.Of name es) :
    (other, w) ∈ p.put name v es ↔ if other = name then w = v else (other, w) ∈ es := by
  cases h with
  | found below above =>
    rw [put_found]
    grind
  | absent below above =>
    rw [put_absent]
    grind

theorem Of.mem_remove (h : p.Of name es) :
    (other, w) ∈ p.remove es ↔ other ≠ name ∧ (other, w) ∈ es := by
  cases h with
  | found below above =>
    rw [remove_found]
    grind
  | absent below above =>
    rw [remove]
    grind

theorem Of.sorted_put (h : p.Of name es) (hes : es.Pairwise fun a b => a.1 < b.1) :
    (p.put name v es).Pairwise fun a b => a.1 < b.1 := by
  have haround {xs ys : List (String × Value)} (hxs : xs.Pairwise fun a b => a.1 < b.1)
      (hys : ys.Pairwise fun a b => a.1 < b.1) (below : ∀ a ∈ xs, a.1 < name)
      (above : ∀ a ∈ ys, name < a.1) :
      (xs ++ (name, v) :: ys).Pairwise fun a b => a.1 < b.1 := by
    refine List.pairwise_append.mpr ⟨hxs, List.pairwise_cons.mpr ⟨above, hys⟩, fun a ha => ?_⟩
    exact List.forall_mem_cons.mpr
      ⟨below a ha, fun b hb => String.lt_trans (below a ha) (above b hb)⟩
  cases h with
  | found below above =>
    obtain ⟨hxs, hys, -⟩ := List.pairwise_append.mp hes
    rw [put_found]
    exact haround hxs (List.pairwise_cons.mp hys).2 below above
  | absent below above =>
    obtain ⟨hxs, hys, -⟩ := List.pairwise_append.mp hes
    rw [put_absent]
    exact haround hxs hys below above

theorem sorted_remove (hes : es.Pairwise fun a b => a.1 < b.1) :
    (p.remove es).Pairwise fun a b => a.1 < b.1 := by
  cases p with
  | found i => exact hes.sublist (List.eraseIdx_sublist es i)
  | absent i => exact hes

end Place

/-- Defines a variable or changes its value. -/
def set (c : Variables) (name : String) (v : Value) : Variables :=
  ⟨(c.place name).put name v c.entries, (c.place_of name).sorted_put c.sorted⟩

/-- Takes a variable out and gives its value. -/
def remove (c : Variables) (name : String) : Option Value × Variables :=
  (c.get? name, ⟨(c.place name).remove c.entries, Place.sorted_remove c.sorted⟩)

/-- Takes a variable out. -/
def erase (c : Variables) (name : String) : Variables := (c.remove name).2

/-- Takes all variables out. -/
def clear (_ : Variables) : Variables := empty

/-- Sets variables one after the other, so that of two settings of one
name the last one stays. -/
def extend (c : Variables) (es : List (String × Value)) : Variables :=
  es.foldl (fun c e => c.set e.1 e.2) c

/-- The variables that result from setting the given ones. -/
def ofList (es : List (String × Value)) : Variables := empty.extend es

/-- What the last executed `return` statement returned, if one was. -/
def returnValue? (c : Variables) : Option Value := c.get? returnName

/-! ## The map -/

/-- **The entries are the variables and their values.** -/
theorem get?_eq_some_iff {c : Variables} {name : String} {v : Value} :
    c.get? name = some v ↔ (name, v) ∈ c.entries := by
  have hplace := c.place_of name
  unfold get?
  generalize c.place name = p at hplace
  generalize c.entries = es at hplace
  cases hplace with
  | found below above =>
    simp only [List.getElem?_append_right (Nat.le_refl _)]
    grind
  | absent below above => grind

/-- What is defined is found. -/
@[simp] theorem contains_eq (c : Variables) (name : String) :
    c.contains name = (c.get? name).isSome := by
  have hplace := c.place_of name
  unfold contains get?
  generalize c.place name = p at hplace
  generalize c.entries = es at hplace
  cases hplace with
  | found below above => simp
  | absent below above => rfl

/-- **Setting changes one variable.** -/
@[simp] theorem get?_set (c : Variables) (name : String) (v : Value) (other : String) :
    (c.set name v).get? other = if other = name then some v else c.get? other := by
  ext w
  rw [get?_eq_some_iff]
  refine (c.place_of name).mem_put.trans ?_
  rw [← get?_eq_some_iff]
  grind

/-- Names are put in order as they come. -/
example :
    ((ofList [("m", .integer 1), ("x", .integer 1), ("c", .integer 1)]).set "c"
      (.boolean true)).entries = [("c", .boolean true), ("m", .integer 1), ("x", .integer 1)] := by
  decide +kernel

@[simp] theorem get?_empty (name : String) : empty.get? name = none := by
  simp [Option.eq_none_iff_forall_ne_some, get?_eq_some_iff, empty]

/-- **Erasing takes out one variable.** -/
@[simp] theorem get?_erase (c : Variables) (name other : String) :
    (c.erase name).get? other = if other = name then none else c.get? other := by
  ext w
  rw [get?_eq_some_iff]
  refine (c.place_of name).mem_remove.trans ?_
  rw [← get?_eq_some_iff]
  grind

/-- Every name is that of one entry. -/
theorem nodup_names (c : Variables) : (c.entries.map Prod.fst).Nodup := by
  refine List.pairwise_map.mpr (c.sorted.imp fun hlt heq => ?_)
  exact String.lt_irrefl _ (heq ▸ hlt)

/-- **Variables with the same values are equal.** -/
theorem eq_of_get?_eq {c d : Variables} (h : ∀ name, c.get? name = d.get? name) : c = d := by
  have hmem (a : String × Value) : a ∈ c.entries ↔ a ∈ d.entries := by
    rw [← get?_eq_some_iff, ← get?_eq_some_iff, h]
  have hnodup (c : Variables) : c.entries.Nodup :=
    List.Pairwise.of_map Prod.fst (fun _ _ hne heq => hne (congrArg Prod.fst heq)) c.nodup_names
  have hentries : c.entries = d.entries := by
    refine List.Perm.eq_of_pairwise (fun a b _ _ hab hba => ?_) c.sorted d.sorted
      ((List.perm_ext_iff_of_nodup (hnodup c) (hnodup d)).mpr hmem)
    exact absurd (String.lt_trans hab hba) (String.lt_irrefl _)
  cases c
  cases d
  cases hentries
  rfl

/-! ## Text -/

/-- What is said of a variable that is asked for and is not there. -/
def undefinedMessage (name : String) : String := "Variable `" ++ name ++ "` is not defined"

/-- The variables as text, names quoted. -/
def describe (c : Variables) : String :=
  "\x7b" ++ ", ".intercalate (c.entries.map fun e => Text.quoted e.1 ++ ": " ++ e.2.describe)
    ++ "\x7d"

end Variables

end ScalarLang
