import ConstraintCompiler.Error

/-!
Contract: the rules by which expressions are joined.

Owns:
- one function per way of building an expression, each of which takes the label of the composite
  it makes and checks the shapes of its operands, left before right;
- the two-sided expressions that only a declaration can finish, `SetOperation`, `SelectedSets`
  and `SetElements`, whose shapes are checked once and for all.

Does not own: labels. A model hands them out, one per composite.
-/

namespace ConstraintCompiler

def Expression.expect (expression : Expression) (shape : Shape) (demand : Demand) :
    Except Error Unit :=
  if expression.shape = shape then .ok () else .error (.kindMismatch demand expression.shape)

theorem Expression.expect_eq_ok {expression : Expression} {shape : Shape} {demand : Demand} :
    expression.expect shape demand = .ok () ↔ expression.shape = shape := by
  unfold expect
  split <;> simp_all

namespace VariableArray

/-- Array of the given variables, all of which must have the kind; the first that has not is
named. -/
def ofList (kind : Kind) (elements : List Variable) : Except Error VariableArray :=
  match found : elements.find? fun v => v.kind != kind with
  | some v => .error (.kindMismatch .uniformItems (.scalar v.kind))
  | none =>
      .ok ⟨kind, elements, fun v member => by simpa using List.find?_eq_none.mp found v member⟩

def expect (items : VariableArray) (kind : Kind) (demand : Demand) : Except Error Unit :=
  if items.kind = kind then .ok () else .error (.kindMismatch demand items.shape)

end VariableArray

namespace Expression

def logic (operator : LogicOperator) (left right : Expression) (label : Label) :
    Except Error Expression := do
  left.expect (.scalar .bool) (.logicSide operator)
  right.expect (.scalar .bool) (.logicSide operator)
  return .composite label (.logic operator) [left, right] .bool

/-- All items of an array of truth values joined by one connective, either of the two that join
any number. -/
def logicOver (operator : LogicOperator) (items : VariableArray) (label : Label) :
    Except Error Expression := do
  items.expect .bool (.logicItems operator)
  return .composite label (.logic operator) (items.elements.map .variable) .bool

def all (items : VariableArray) (label : Label) : Except Error Expression :=
  logicOver .and items label

def any (items : VariableArray) (label : Label) : Except Error Expression :=
  logicOver .or items label

def aggregate (function : Aggregate) (items : VariableArray) (label : Label) :
    Except Error Expression := do
  items.expect .int (.aggregateItems function)
  return .composite label (.aggregate function) [.array items] .int

/-- Number of items of an array of integers that equal a given one. -/
def count (items : VariableArray) (item : Expression) (label : Label) :
    Except Error Expression := do
  items.expect .int .countItems
  item.expect (.scalar .int) .countItem
  return .composite label .count [.array items, item] .int

/-- Item at a position of an array of truth values or integers, or of constant integers. -/
def element (items index : Expression) (label : Label) : Except Error Expression :=
  match items with
  | .array held =>
      if held.kind = .set then .error (.kindMismatch .indexableItems held.shape)
      else do
        index.expect (.scalar .int) .elementIndex
        return .composite label .element [items, index] held.kind
  | .constant (.ints _) => do
      index.expect (.scalar .int) .elementIndex
      return .composite label .element [items, index] .int
  | _ => .error (.kindMismatch .indexable items.shape)

end Expression

/-- Members of an array of sets that are picked out by a set of positions. -/
structure SelectedSets where
  sets : VariableArray
  selector : Expression
  sets_kind : sets.kind = .set
  selector_shape : selector.shape = .scalar .set

namespace SelectedSets

def select (sets : VariableArray) (selector : Expression) : Except Error SelectedSets :=
  if setsKind : sets.kind = .set then
    if selectorShape : selector.shape = .scalar .set then
      .ok ⟨sets, selector, setsKind, selectorShape⟩
    else .error (.kindMismatch .selector selector.shape)
  else .error (.kindMismatch .selectableSets sets.shape)

def combine (selected : SelectedSets) (function : Selection) (label : Label) : Expression :=
  .composite label (.selection function) [.array selected.sets, selected.selector] .set

end SelectedSets

/-- Two sets under a binary operation, waiting for the set it is compared with. -/
structure SetOperation where
  operator : SetOperator
  left : Expression
  right : Expression
  left_shape : left.shape = .scalar .set
  right_shape : right.shape = .scalar .set

namespace SetOperation

def apply (operator : SetOperator) (left right : Expression) : Except Error SetOperation :=
  if leftShape : left.shape = .scalar .set then
    if rightShape : right.shape = .scalar .set then
      .ok ⟨operator, left, right, leftShape, rightShape⟩
    else .error (.kindMismatch .setOperationSide right.shape)
  else .error (.kindMismatch .setOperationSide left.shape)

end SetOperation

/-- The elements of a set, waiting for a relation that each of them should satisfy. -/
structure SetElements where
  set : Expression
  set_shape : set.shape = .scalar .set

namespace SetElements

def of (set : Expression) : Except Error SetElements :=
  if setShape : set.shape = .scalar .set then .ok ⟨set, setShape⟩
  else .error (.kindMismatch .elementsOf set.shape)

end SetElements

end ConstraintCompiler
