/-!
Contract: finite sets of integers in canonical form.

Owns:
- `IntSet`, a strictly ascending list, so that equal members mean equal sets
  (`IntSet.ext_of_mem`);
- the set operations that domains, values and constraint primitives need, each
  with the membership law that says what it contains.

Does not own: any meaning of a set inside a constraint.
-/

namespace ConstraintCompiler

/-- A finite set of integers, listed in strictly ascending order. -/
structure IntSet where
  elements : List Int
  ascending : elements.Pairwise (· < ·)
deriving DecidableEq

namespace IntSet

instance : Membership Int IntSet where
  mem set element := element ∈ set.elements

instance (element : Int) (set : IntSet) : Decidable (element ∈ set) :=
  inferInstanceAs (Decidable (element ∈ set.elements))

theorem mem_elements {set : IntSet} {element : Int} :
    element ∈ set.elements ↔ element ∈ set := Iff.rfl

def empty : IntSet := ⟨[], .nil⟩

instance : EmptyCollection IntSet := ⟨empty⟩

instance : Inhabited IntSet := ⟨empty⟩

@[simp] theorem elements_empty : (∅ : IntSet).elements = [] := rfl

@[simp] theorem not_mem_empty (element : Int) : element ∉ (∅ : IntSet) := by
  simp [← mem_elements]

def size (set : IntSet) : Nat := set.elements.length

/-- Place an element in an ascending list; an element already listed stays single. -/
def insertAscending (element : Int) : List Int → List Int
  | [] => [element]
  | head :: tail =>
      if element < head then element :: head :: tail
      else if element = head then head :: tail
      else head :: insertAscending element tail

@[simp] theorem mem_insertAscending (element other : Int) (members : List Int) :
    other ∈ insertAscending element members ↔ other = element ∨ other ∈ members := by
  induction members with
  | nil => simp [insertAscending]
  | cons head tail inductionHypothesis =>
      unfold insertAscending
      split
      · simp
      · split
        · simp_all
        · simp only [List.mem_cons, inductionHypothesis]
          grind

theorem insertAscending_pairwise (element : Int) {members : List Int}
    (ascending : members.Pairwise (· < ·)) :
    (insertAscending element members).Pairwise (· < ·) := by
  induction members with
  | nil => simp [insertAscending]
  | cons head tail inductionHypothesis =>
      have ⟨headLess, tailAscending⟩ := List.pairwise_cons.mp ascending
      unfold insertAscending
      split
      · rename_i elementLess
        refine List.pairwise_cons.mpr ⟨?_, ascending⟩
        intro other member
        rcases List.mem_cons.mp member with rfl | member
        · exact elementLess
        · exact Int.lt_trans elementLess (headLess other member)
      · split
        · exact ascending
        · refine List.pairwise_cons.mpr ⟨?_, inductionHypothesis tailAscending⟩
          intro other member
          rcases (mem_insertAscending element other tail).mp member with rfl | member
          · omega
          · exact headLess other member

def insert (element : Int) (set : IntSet) : IntSet :=
  ⟨insertAscending element set.elements, insertAscending_pairwise element set.ascending⟩

@[simp] theorem mem_insert (element other : Int) (set : IntSet) :
    other ∈ set.insert element ↔ other = element ∨ other ∈ set :=
  mem_insertAscending element other set.elements

/-- The set of the listed integers, in any order and with any repetitions. -/
def ofList (members : List Int) : IntSet := members.foldr insert ∅

@[simp] theorem mem_ofList (members : List Int) (element : Int) :
    element ∈ ofList members ↔ element ∈ members := by
  induction members with
  | nil => simp [ofList]
  | cons head tail inductionHypothesis =>
      rw [ofList, List.foldr_cons, mem_insert, ← ofList, inductionHypothesis, List.mem_cons]

/-- All integers from `low` to `high`, both included. -/
def interval (low high : Int) : IntSet where
  elements := (List.range (high + 1 - low).toNat).map fun (step : Nat) => low + step
  ascending := List.pairwise_map.mpr
    (List.pairwise_lt_range.imp fun {first second} less => by omega)

@[simp] theorem mem_interval (low high element : Int) :
    element ∈ interval low high ↔ low ≤ element ∧ element ≤ high := by
  simp only [← mem_elements, interval, List.mem_map, List.mem_range]
  constructor
  · rintro ⟨step, bound, rfl⟩
    omega
  · intro bounds
    exact ⟨(element - low).toNat, by omega, by omega⟩

theorem size_interval (low high : Int) :
    (interval low high).size = (high + 1 - low).toNat := by
  simp [size, interval]

def filter (keep : Int → Bool) (set : IntSet) : IntSet :=
  ⟨set.elements.filter keep, set.ascending.filter keep⟩

@[simp] theorem mem_filter (keep : Int → Bool) (set : IntSet) (element : Int) :
    element ∈ set.filter keep ↔ element ∈ set ∧ keep element = true :=
  List.mem_filter

def union (left right : IntSet) : IntSet := left.elements.foldr insert right

@[simp] theorem mem_union (left right : IntSet) (element : Int) :
    element ∈ left.union right ↔ element ∈ left ∨ element ∈ right := by
  have fold : ∀ members : List Int,
      element ∈ members.foldr insert right ↔ element ∈ members ∨ element ∈ right := by
    intro members
    induction members with
    | nil => simp
    | cons head tail inductionHypothesis => simp [inductionHypothesis, or_assoc]
  exact fold left.elements

def intersection (left right : IntSet) : IntSet := left.filter fun element => element ∈ right

@[simp] theorem mem_intersection (left right : IntSet) (element : Int) :
    element ∈ left.intersection right ↔ element ∈ left ∧ element ∈ right := by
  simp [intersection]

def difference (left right : IntSet) : IntSet := left.filter fun element => element ∉ right

@[simp] theorem mem_difference (left right : IntSet) (element : Int) :
    element ∈ left.difference right ↔ element ∈ left ∧ element ∉ right := by
  simp [difference]

def isSubset (left right : IntSet) : Bool := left.elements.all fun element => element ∈ right

theorem isSubset_iff (left right : IntSet) :
    left.isSubset right = true ↔ ∀ element, element ∈ left → element ∈ right := by
  simp [isSubset, mem_elements]

def isDisjoint (left right : IntSet) : Bool := left.elements.all fun element => element ∉ right

theorem isDisjoint_iff (left right : IntSet) :
    left.isDisjoint right = true ↔ ∀ element, element ∈ left → element ∉ right := by
  simp [isDisjoint, mem_elements]

private theorem ascending_eq_of_mem :
    ∀ {left right : List Int}, left.Pairwise (· < ·) → right.Pairwise (· < ·) →
      (∀ element, element ∈ left ↔ element ∈ right) → left = right
  | [], [], _, _, _ => rfl
  | [], head :: _, _, _, same => by simpa using same head
  | head :: _, [], _, _, same => by simpa using same head
  | head :: tail, other :: rest, leftAscending, rightAscending, same => by
      have ⟨headLess, tailAscending⟩ := List.pairwise_cons.mp leftAscending
      have ⟨otherLess, restAscending⟩ := List.pairwise_cons.mp rightAscending
      have heads : head = other := by
        have headMember := (same head).mp (by simp)
        have otherMember := (same other).mpr (by simp)
        rcases List.mem_cons.mp headMember with equal | headMember
        · exact equal
        rcases List.mem_cons.mp otherMember with equal | otherMember
        · exact equal.symm
        have := otherLess head headMember
        have := headLess other otherMember
        omega
      subst heads
      have tails : tail = rest := by
        refine ascending_eq_of_mem tailAscending restAscending fun element => ?_
        constructor
        · intro member
          have less := headLess element member
          rcases List.mem_cons.mp ((same element).mp (by simp [member])) with equal | inRest
          · omega
          · exact inRest
        · intro member
          have less := otherLess element member
          rcases List.mem_cons.mp ((same element).mpr (by simp [member])) with equal | inTail
          · omega
          · exact inTail
      rw [tails]

/-- A set is determined by its members, because its list is canonical. -/
theorem ext_of_mem {left right : IntSet}
    (same : ∀ element, element ∈ left ↔ element ∈ right) : left = right := by
  obtain ⟨leftElements, leftAscending⟩ := left
  obtain ⟨rightElements, rightAscending⟩ := right
  have := ascending_eq_of_mem leftAscending rightAscending same
  subst this
  rfl

end IntSet

end ConstraintCompiler
