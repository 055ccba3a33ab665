import ConstraintCompiler.Declaration

/-!
Contract: which declarations are admissible, and the one posting that each of them ends in.

Owns:
- `Plan`, a checked declaration: primitive, subjects and annotations of its final posting;
- `Declaration.plan`, which checks the shapes of the operands, then what the primitive supports,
  then the options, and reports the first thing that is wrong.

Does not own: the resolution of expressions to arguments, which needs a model. Nothing that can be
refused is left for it.
-/

namespace ConstraintCompiler

/-- A checked declaration. The subjects are resolved in the order listed. A swapped plan passes
them on in the opposite order, as a channel does whose array side was written on the right. -/
structure Plan where
  primitive : Primitive
  subjects : List Expression
  swapped : Bool := false
  constants : List Argument := []
  relation : Option Relation := none
  negated : Bool := false
  strength : Strength
  target : Option Expression := none
  priority : Option Priority

namespace Options

def rejectOffset (options : Options) (fault : OptionFault) : Except Error Unit :=
  if options.offset.isSome then .error (.invalidOption fault) else .ok ()

/-- A target is a truth value, and not a constant one. -/
def checkTarget (options : Options) : Except Error Unit :=
  match options.target with
  | none => .ok ()
  | some target =>
      if target.shape ≠ .scalar .bool then
        .error (.invalidOption (.targetShape target.shape))
      else match target with
        | .constant _ => .error (.invalidOption .constantTarget)
        | _ => .ok ()

end Options

namespace Expression

def rejectConstantArray (expression : Expression) : Except Error Unit :=
  if expression.isConstantArray then
    .error (.unsupportedCapability expression.shape .constraints)
  else .ok ()

end Expression

/-- Form of the channel between two shapes, and whether the sides are swapped in its arguments. -/
def channelForm? : Shape → Shape → Option (ChannelForm × Bool)
  | .array .bool, .scalar .int => some (.boolInt, false)
  | .scalar .int, .array .bool => some (.boolInt, true)
  | .array .bool, .scalar .set => some (.boolSet, false)
  | .scalar .set, .array .bool => some (.boolSet, true)
  | .array .int, .array .int => some (.intInt, false)
  | .array .int, .array .set => some (.intSet, false)
  | .array .set, .array .int => some (.intSet, true)
  | _, _ => none

namespace Declaration

section

variable (declaration : Declaration)

def checkSupport (primitive : Primitive) : Except Error Unit :=
  if declaration.negated && !primitive.supportsNegation then
    .error (.unsupportedNegation primitive)
  else if declaration.options.target.isSome && !primitive.supportsReification then
    .error (.unsupportedReification primitive)
  else .ok ()

def annotated (primitive : Primitive) (subjects : List Expression)
    (constants : List Argument) (relation : Option Relation) : Plan where
  primitive
  subjects
  constants
  relation
  negated := declaration.negated
  strength := declaration.options.resolvedStrength
  target := declaration.options.target
  priority := declaration.options.priority

def planComparison (primitive : Primitive) (sides : List Expression) (relation : Relation) :
    Except Error Plan := do
  declaration.options.rejectOffset .offset
  declaration.options.checkTarget
  return declaration.annotated primitive sides [] (some relation)

def planArray (primitive : Primitive) (subject : Expression) (constants : List Argument) :
    Except Error Plan := do
  declaration.checkSupport primitive
  declaration.options.rejectOffset .offset
  declaration.options.checkTarget
  return declaration.annotated primitive [subject] constants none

/-- The left side of a relation must be a single value, the relation must fit its kind, and the
right side must have the same kind. -/
def checkRelation (left : Expression) (relation : Relation) (right : Expression) :
    Except Error Unit :=
  match left.shape with
  | .array kind => .error (.kindMismatch .relationSubject (.array kind))
  | .scalar kind =>
      if relation.fits kind then right.expect (.scalar kind) .sameShape
      else
        let demand := if relation.isArithmetic then Demand.integerSides else .setSides
        .error (.kindMismatch demand (.scalar kind))

/-- A table is stated of an array of integers or truth values, with one entry per item in each
row. -/
def checkTable (subject : Expression) (rows : List (List Int)) : Except Error Unit :=
  match subject with
  | .array items =>
      if items.kind = .set then .error (.kindMismatch .tableItems items.shape)
      else match rows.find? fun row => row.length != items.length with
        | some row => .error (.invalidOption (.rowLength row.length items.length))
        | none => .ok ()
  | .constant (.ints _) => subject.rejectConstantArray
  | _ => .error (.kindMismatch .tableItems subject.shape)

/-- Constant arguments of a channel. Only the channel to an integer takes an offset, which is zero
if not given. -/
def channelConstants : ChannelForm → Except Error (List Argument)
  | .boolInt => .ok [.int (declaration.options.offset.getD 0)]
  | _ => do
      declaration.options.rejectOffset .offset
      return []

/-- Plan of a channel. It carries no negation and no target. -/
def planChannel (left right : Expression) : Except Error Plan :=
  match channelForm? left.shape right.shape with
  | none => .error (.kindMismatch .channelSides right.shape)
  | some (form, swapped) => do
      left.rejectConstantArray
      right.rejectConstantArray
      declaration.checkSupport (.channel form)
      return {
        primitive := .channel form
        subjects := [left, right]
        swapped
        constants := ← declaration.channelConstants form
        strength := declaration.options.resolvedStrength
        priority := declaration.options.priority }

def planSetOperation (operation : SetOperation) (comparison : SetComparison)
    (result : Expression) : Except Error Plan := do
  declaration.checkSupport (.setOperation operation.operator)
  declaration.options.rejectOffset .setOperationOffset
  result.expect (.scalar .set) .setOperationTarget
  return {
    primitive := .setOperation operation.operator
    subjects := [operation.left, operation.right, result]
    relation := some comparison.relation
    strength := declaration.options.resolvedStrength
    priority := declaration.options.priority }

/-- Elements of a set are compared with a single integer, by a relation of integers. -/
def checkElements (relation : Relation) (bound : Expression) : Except Error Unit :=
  if relation.isArithmetic then bound.expect (.scalar .int) .elementsBound
  else .error (.invalidOption (.notArithmetic relation))

end

/-- Plan of a declaration, or the first thing that is wrong with it. -/
def plan (declaration : Declaration) : Except Error Plan :=
  match declaration.statement with
  | .relate left relation right => do
      checkRelation left relation right
      declaration.planComparison .relation [left, right] relation
  | .truth subject expected => do
      subject.expect (.scalar .bool) (.truthSubject expected)
      declaration.planComparison .relation [subject, .constant (.bool expected)] .eq
  | .distinct subject => do
      subject.expect (.array .int) .distinctItems
      subject.rejectConstantArray
      declaration.planArray .distinct subject []
  | .sorted subject => do
      subject.expect (.array .int) .sortedItems
      subject.rejectConstantArray
      declaration.planArray .sorted subject []
  | .table subject rows => do
      checkTable subject rows
      declaration.planArray .table subject [.tuples rows]
  | .channel left right => declaration.planChannel left right
  | .setOperation operation comparison result =>
      declaration.planSetOperation operation comparison result
  | .setElements elements relation bound => do
      checkElements relation bound
      declaration.planComparison .setElements [elements.set, bound] relation

end Declaration

end ConstraintCompiler
