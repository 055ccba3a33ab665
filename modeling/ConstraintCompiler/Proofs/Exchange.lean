import ConstraintCompiler.Proofs.Continuation

/-!
Contract: a relation stated from either of its sides.

Owns:
- `Relation.mirror`, the relation that holds of two values in the opposite order;
- `fusion?_swap`, which composite of an equality is tied to the other side when the sides are
  exchanged;
- `Plan.Meets.exchange`, that what a plan asks of a solution is asked by the plan with its sides
  exchanged as well;
- `Session.sides_exchange`: from the same state a relation and its mirror with the sides exchanged
  are both accepted or both refused, and have the same solutions over every assignment of the user's
  variables.

Does not own: denied equalities without a target, for which the order matters.
-/

namespace ConstraintCompiler

namespace Relation

/-- The relation that holds of two values exactly when the given one holds of them in the opposite
order. -/
def mirror : Relation → Relation
  | .lt => .gt
  | .gt => .lt
  | .le => .ge
  | .ge => .le
  | .subset => .superset
  | .superset => .subset
  | .eq => .eq
  | .ne => .ne
  | .disjoint => .disjoint

@[simp] theorem mirror_mirror (relation : Relation) : relation.mirror.mirror = relation := by
  cases relation <;> rfl

@[simp] theorem mirror_eq_eq {relation : Relation} : relation.mirror = .eq ↔ relation = .eq := by
  cases relation <;> simp [mirror]

theorem fits_mirror (relation : Relation) (kind : Kind) :
    relation.mirror.fits kind = relation.fits kind := by
  cases relation <;> cases kind <;> rfl

theorem between?_mirror (relation : Relation) (left right : Value) :
    relation.mirror.between? right left = relation.between? left right := by
  have disjoint : ∀ first second : IntSet, second.isDisjoint first = first.isDisjoint second := by
    intro first second
    rw [Bool.eq_iff_iff, IntSet.isDisjoint_iff, IntSet.isDisjoint_iff]
    exact ⟨fun apart element inFirst inSecond => apart element inSecond inFirst,
      fun apart element inSecond inFirst => apart element inFirst inSecond⟩
  cases left <;> cases right <;> cases relation <;>
    simp [between?, mirror, isArithmetic, comparesSets, compare, compareSets, disjoint,
      Bool.beq_comm, bne]

end Relation

def Declaration.relating (left : Expression) (relation : Relation) (right : Expression)
    (negated : Bool) (options : Options) : Declaration where
  statement := .relate left relation right
  negated
  options

/-! ### Fusion -/

/-- When the sides of an equality are exchanged, the same composite is tied to the same other side,
or the two change their parts. -/
theorem fusion?_swap {model : Model} {left right other : Expression} {composite : Composite}
    (fusion : fusion? model left right = some (composite, other)) :
    fusion? model right left = some (composite, other) ∨
      ∃ facing : Composite, other = facing.expression ∧
        fusion? model right left = some (facing, composite.expression) := by
  unfold fusion? at fusion ⊢
  cases leftFound : left.composite? with
  | none =>
      cases rightFound : right.composite? with
      | none => simp [leftFound, rightFound] at fusion
      | some _ => exact .inl (by simpa only [leftFound, rightFound] using fusion)
  | some first =>
      cases rightFound : right.composite? with
      | none => exact .inl (by simpa only [leftFound, rightFound] using fusion)
      | some second =>
          have leftSide := Expression.eq_expression_of_composite? leftFound
          have rightSide := Expression.eq_expression_of_composite? rightFound
          simp only [leftFound, rightFound] at fusion ⊢
          by_cases same : first.label = second.label
          · simp [same] at fusion
          · rw [if_neg same] at fusion
            rw [if_neg (Ne.symm same)]
            by_cases firstUndefined : first.isUndefined model = true
            · rw [if_pos firstUndefined] at fusion
              cases fusion
              by_cases secondUndefined : second.isUndefined model = true
              · exact .inr ⟨second, rightSide, by rw [if_pos secondUndefined, leftSide]⟩
              · exact .inl (by rw [if_neg secondUndefined, if_pos firstUndefined])
            · rw [if_neg firstUndefined] at fusion
              by_cases secondUndefined : second.isUndefined model = true
              · rw [if_pos secondUndefined] at fusion ⊢
                exact .inl fusion
              · rw [if_neg secondUndefined] at fusion
                cases fusion

theorem fusion?_swap_none {model : Model} {left right : Expression}
    (separate : fusion? model left right = none) : fusion? model right left = none := by
  cases fusion : fusion? model right left with
  | none => rfl
  | some found =>
      rcases fusion?_swap fusion with same | ⟨facing, _, swapped⟩
      · exact absurd (separate.symm.trans same) nofun
      · exact absurd (separate.symm.trans swapped) nofun

/-! ### Plans -/

namespace Plan

/-- The plan with its subjects in the opposite order, under the mirrored relation. -/
def exchanged (plan : Plan) : Plan :=
  { plan with
    subjects := plan.subjects.reverse
    relation := plan.relation.map Relation.mirror }

theorem mem_expressions_exchanged {plan : Plan} {expression : Expression} :
    expression ∈ plan.exchanged.expressions ↔ expression ∈ plan.expressions := by
  simp [expressions, exchanged]

theorem exchanged_exchanged (plan : Plan) : plan.exchanged.exchanged = plan := by
  obtain ⟨_, subjects, _, _, relation, _, _, _, _⟩ := plan
  cases relation <;> simp [exchanged]

theorem equality?_exchanged {plan : Plan} {left right : Expression}
    (equality : plan.equality? = some (left, right)) :
    plan.exchanged.equality? = some (right, left) := by
  obtain ⟨primitive, relation, target, subjects⟩ := equality?_eq_some equality
  simp [equality?, exchanged, primitive, relation, target, subjects, Relation.mirror]

section Forms

variable {plan : Plan} {model : Model} {assignment : Assignment}

theorem meets_of_fusion {left right other : Expression} {composite : Composite}
    (equality : plan.equality? = some (left, right))
    (fusion : fusion? model left right = some (composite, other)) :
    plan.Meets model assignment ↔
      (∀ expression ∈ other :: composite.operands, expression.IsDefined assignment) ∧
        ∀ part ∈ other.needed ++ composite.connective.neededOperands composite.operands,
          part.FitsAdded model.settings assignment := by
  rw [meets_iff, resolved_of_fusion equality fusion, needed_of_fusion equality fusion]

theorem meets_of_no_fusion (separate : ∀ left right, plan.equality? = some (left, right) →
      fusion? model left right = none) :
    plan.Meets model assignment ↔
      ∀ expression ∈ plan.expressions, expression.IsDefined assignment ∧
        ∀ part ∈ expression.needed, part.FitsAdded model.settings assignment := by
  rw [meets_iff, resolved_of_no_fusion separate, needed_of_no_fusion separate]
  simp only [Expression.mem_neededEach]
  constructor
  · rintro ⟨defined, fits⟩ expression member
    exact ⟨defined expression member, fun part needs => fits part ⟨expression, member, needs⟩⟩
  · intro each
    refine ⟨fun expression member => (each expression member).1, ?_⟩
    rintro part ⟨expression, member, needs⟩
    exact (each expression member).2 part needs

end Forms

/-- Of two composites with one value, the one that is resolved can change places with the one whose
operands are: it has the value that the other's variable would have. -/
private theorem exchange_parts {session : Session} (wellBuilt : session.IsWellBuilt)
    {composite facing : Composite} (atHand : session.AtHand facing.expression)
    {settings : Model.Settings} {assignment : Assignment} {value : Value}
    (found : composite.expression.value? assignment = some value)
    (facingFound : facing.expression.value? assignment = some value)
    (fits : ∀ part ∈ facing.expression.needed ++
      composite.connective.neededOperands composite.operands, part.FitsAdded settings assignment) :
    (∀ expression ∈ composite.expression :: facing.operands, expression.IsDefined assignment) ∧
      ∀ part ∈ composite.expression.needed ++
        facing.connective.neededOperands facing.operands, part.FitsAdded settings assignment := by
  have facingNeeds : facing.expression.needed = facing.expression ::
      facing.connective.neededOperands facing.operands := Expression.needed_composite ..
  have compositeNeeds : composite.expression.needed = composite.expression ::
      composite.connective.neededOperands composite.operands := Expression.needed_composite ..
  rw [facingNeeds] at fits
  rw [compositeNeeds]
  constructor
  · intro expression member
    rcases List.mem_cons.mp member with rfl | operand
    · exact ⟨value, found⟩
    · have facingDefined : facing.expression.IsDefined assignment := ⟨value, facingFound⟩
      exact facingDefined.within wellBuilt (.operand operand (.self _)) atHand
  · intro part member
    rcases List.mem_append.mp member with inComposite | inFacing
    · rcases List.mem_cons.mp inComposite with rfl | inner
      · intro other otherFound
        cases found.symm.trans otherFound
        exact fits facing.expression (by simp) value facingFound
      · exact fits part (List.mem_append_right _ inner)
    · exact fits part (List.mem_append_left _ (List.mem_cons_of_mem _ inFacing))

/-- The sides of a plan can be exchanged, if both sides of an equality that may be fused have one
value. -/
theorem Meets.exchange {session : Session} (wellBuilt : session.IsWellBuilt) {plan : Plan}
    (atHand : ∀ expression ∈ plan.expressions, session.AtHand expression) {assignment : Assignment}
    (common : ∀ left right, plan.equality? = some (left, right) →
      ∃ value, left.value? assignment = some value ∧ right.value? assignment = some value)
    (meets : plan.Meets session.model assignment) :
    plan.exchanged.Meets session.model assignment := by
  rcases plan.fuses_or_not session.model with
    ⟨left, right, composite, other, equality, fusion⟩ | separate
  · have exchanged := equality?_exchanged equality
    have parts := (meets_of_fusion equality fusion).mp meets
    rcases fusion?_swap fusion with same | ⟨facing, rfl, swapped⟩
    · exact (meets_of_fusion exchanged same).mpr parts
    · have facingAtHand := atHand _ (mem_expressions_of_fusion equality fusion).2
      obtain ⟨value, leftFound, rightFound⟩ := common left right equality
      rw [meets_of_fusion exchanged swapped]
      rcases fusion?_faces fusion with ⟨rfl, rfl⟩ | ⟨rfl, rfl⟩
      · exact exchange_parts wellBuilt facingAtHand leftFound rightFound parts.2
      · exact exchange_parts wellBuilt facingAtHand rightFound leftFound parts.2
  · have separateExchanged : ∀ left right, plan.exchanged.equality? = some (left, right) →
        fusion? session.model left right = none := by
      intro left right equality
      have original := equality?_exchanged equality
      rw [exchanged_exchanged] at original
      exact fusion?_swap_none (separate right left original)
    have each := (meets_of_no_fusion separate).mp meets
    rw [meets_of_no_fusion separateExchanged]
    exact fun expression member => each expression (mem_expressions_exchanged.mp member)

end Plan

/-! ### Declarations -/

namespace Declaration

variable {left right : Expression} {relation : Relation} {negated : Bool} {options : Options}

/-- Both sides are single values of one kind, which has the relation; there is no offset, and the
target, if any, can be one. -/
structure Relatable (left : Expression) (relation : Relation) (right : Expression)
    (options : Options) : Prop where
  shapes : ∃ kind, left.shape = .scalar kind ∧ relation.fits kind = true ∧
    right.shape = .scalar kind
  offset : options.offset = none
  targets : ∀ target ∈ options.target, target.IsTarget

theorem Relatable.mirror (relatable : Relatable left relation right options) :
    Relatable right relation.mirror left options := by
  obtain ⟨⟨kind, leftShape, fits, rightShape⟩, offset, targets⟩ := relatable
  refine ⟨⟨kind, rightShape, ?_, leftShape⟩, offset, targets⟩
  rw [Relation.fits_mirror, fits]

theorem plan_relating_eq_ok {plan : Plan} :
    (relating left relation right negated options).plan = .ok plan ↔
      Relatable left relation right options ∧
        plan = (relating left relation right negated options).annotated .relation [left, right] []
          (some relation) := by
  constructor
  · intro planned
    obtain ⟨_, checked, comparison⟩ := except_bind_eq_ok.mp planned
    obtain ⟨_, offset, comparison⟩ := except_bind_eq_ok.mp comparison
    obtain ⟨_, target, result⟩ := except_bind_eq_ok.mp comparison
    cases result
    exact ⟨⟨checkRelation_eq_ok.mp checked, Options.rejectOffset_eq_ok.mp offset,
      Options.checkTarget_eq_ok.mp target⟩, rfl⟩
  · rintro ⟨⟨⟨kind, leftShape, fits, rightShape⟩, offset, targets⟩, rfl⟩
    exact plan_relate offset targets rfl leftShape fits rightShape

/-- Where a relation has a plan, its mirror has the plan with the sides exchanged. -/
theorem plan_relating_mirror {plan : Plan}
    (planned : (relating left relation right negated options).plan = .ok plan) :
    (relating right relation.mirror left negated options).plan = .ok plan.exchanged := by
  obtain ⟨relatable, rfl⟩ := plan_relating_eq_ok.mp planned
  exact plan_relating_eq_ok.mpr ⟨relatable.mirror, rfl⟩

theorem plan_relating_of_not (unrelatable : ¬Relatable left relation right options) :
    ∃ error, (relating left relation right negated options).plan = .error error := by
  cases planned : (relating left relation right negated options).plan with
  | error error => exact ⟨error, rfl⟩
  | ok plan => exact absurd (plan_relating_eq_ok.mp planned).1 unrelatable

theorem isTrue_relating_mirror (assignment : Assignment) :
    (relating right relation.mirror left negated options).isTrue assignment =
      (relating left relation right negated options).isTrue assignment := by
  have holds : (Statement.relate right relation.mirror left).holds? assignment
      (options.offset.getD 0) =
        (Statement.relate left relation right).holds? assignment (options.offset.getD 0) := by
    rw [Statement.holds?, Statement.holds?]
    cases left.value? assignment <;> cases right.value? assignment <;>
      simp [Relation.between?_mirror]
  simp only [isTrue, assertion, relating, holds]

theorem Planned.exists_common_value {declaration : Declaration} {plan : Plan}
    (planned : declaration.Planned plan) (equality : plan.equality? = some (left, right))
    (positive : declaration.negated = false) {assignment : Assignment}
    (holds : declaration.isTrue assignment = true) :
    ∃ value, left.value? assignment = some value ∧ right.value? assignment = some value := by
  obtain ⟨primitive, relation, target, subjects⟩ := Plan.equality?_eq_some equality
  have becomes := planned.becomes
  rw [primitive, relation, subjects] at becomes
  rw [planned.target_eq] at target
  simp only [isTrue, target, assertion, positive, Bool.xor_false] at holds
  exact becomes.holds_equality_iff.mp holds

end Declaration

namespace Session

section Exchange

variable {settings : Model.Settings} {actions : List Action} {left right : Expression}
  {relation : Relation} {negated : Bool} {options : Options}

theorem admits_exchange (admits : (start settings).Admits
      (actions ++ [.declare (.relating left relation right negated options)])) :
    (start settings).Admits
      (actions ++ [.declare (.relating right relation.mirror left negated options)]) := by
  obtain ⟨before, permits, _⟩ := admits_append.mp admits
  refine admits_append.mpr ⟨before, fun expression member => permits expression ?_, trivial⟩
  have sides : expression ∈ [right, left] ++ options.target.toList := member
  show expression ∈ [left, right] ++ options.target.toList
  simp only [List.mem_append, List.mem_cons, List.not_mem_nil, or_false] at sides ⊢
  exact sides.imp_left Or.symm

private theorem exists_realizes_exchange {plan : Plan}
    (planned : (Declaration.relating left relation right negated options).plan = .ok plan)
    (exchangeable : relation = .eq → negated = false ∨ options.target ≠ none)
    (admits : (start settings).Admits
      (actions ++ [.declare (.relating left relation right negated options)])) {users : Assignment}
    (solvable : ∃ solution, (flushedRun settings
      (actions ++ [.declare (.relating left relation right negated options)])).Realizes users
        solution) :
    ∃ solution, (flushedRun settings
      (actions ++ [.declare (.relating right relation.mirror left negated options)])).Realizes users
        solution := by
  have checked := Declaration.plan_eq_ok planned
  have plannedMirror := Declaration.plan_relating_mirror planned
  have admitsMirror := admits_exchange admits
  have continues := flushedRun_continues planned admits
  rw [flushedRun_realizes_iff planned admits] at solvable
  rw [flushedRun_realizes_iff plannedMirror admitsMirror]
  obtain ⟨solution, realizes, holds, meets⟩ := solvable
  have common : ∀ first second, plan.equality? = some (first, second) →
      ∃ value, first.value? solution = some value ∧ second.value? solution = some value := by
    intro first second equality
    obtain ⟨_, isEquality, target, _⟩ := Plan.equality?_eq_some equality
    obtain ⟨_, rfl⟩ := Declaration.plan_relating_eq_ok.mp planned
    have positive :=
      (exchangeable (Option.some.inj isEquality)).resolve_right (not_not_intro target)
    exact checked.exists_common_value equality positive holds
  refine ⟨solution, realizes, ?_, ?_⟩
  · rw [Declaration.isTrue_relating_mirror]
    exact holds
  · exact meets.exchange continues.compiled.wellBuilt (checked.atHand continues.atHand) common

/-- After any admitted run, a relation between two sides and its mirror between the sides exchanged,
of either polarity and with the same options, are both accepted, or, where the sides or the options
do not allow the relation, are both refused and leave the state as it was. In either case they leave
the user the same variables, and over every assignment of these both have a solution or none has. A
denied equality without a target is excepted. -/
theorem sides_exchange
    (exchangeable : relation = .eq → negated = false ∨ options.target ≠ none)
    (admits : (start settings).Admits
      (actions ++ [.declare (.relating left relation right negated options)])) :
    let before := flushedRun settings actions
    let forward := flushedRun settings
      (actions ++ [.declare (.relating left relation right negated options)])
    let backward := flushedRun settings
      (actions ++ [.declare (.relating right relation.mirror left negated options)])
    (Declaration.Relatable left relation right options →
        forward.declared =
            before.declared ++ [.relating left relation right negated options] ∧
          backward.declared =
            before.declared ++ [.relating right relation.mirror left negated options]) ∧
      (¬Declaration.Relatable left relation right options →
        forward = before ∧ backward = before) ∧
      (∀ id, id < forward.model.problem.size ∧ ¬forward.IsAdded id ↔
        id < backward.model.problem.size ∧ ¬backward.IsAdded id) ∧
      ∀ users : Assignment,
        (∃ solution, forward.Realizes users solution) ↔
          ∃ solution, backward.Realizes users solution := by
  intro before forward backward
  have admitsMirror := admits_exchange admits
  by_cases relatable : Declaration.Relatable left relation right options
  · have planned : (Declaration.relating left relation right negated options).plan = .ok _ :=
      Declaration.plan_relating_eq_ok.mpr ⟨relatable, rfl⟩
    have plannedMirror := Declaration.plan_relating_mirror planned
    have forwardContinues := flushedRun_continues planned admits
    have backwardContinues := flushedRun_continues plannedMirror admitsMirror
    refine ⟨fun _ => ⟨forwardContinues.declared, backwardContinues.declared⟩,
      fun unrelatable => absurd relatable unrelatable, fun id => ?_, fun users => ⟨?_, ?_⟩⟩
    · exact forwardContinues.users_iff.trans backwardContinues.users_iff.symm
    · exact exists_realizes_exchange planned exchangeable admits
    · intro solvable
      have exchanged := exists_realizes_exchange plannedMirror
        (fun equal => exchangeable (Relation.mirror_eq_eq.mp equal)) admitsMirror solvable
      rw [Relation.mirror_mirror] at exchanged
      exact exchanged
  · have unrelatableMirror : ¬Declaration.Relatable right relation.mirror left options := by
      intro mirrored
      have original := mirrored.mirror
      rw [Relation.mirror_mirror] at original
      exact relatable original
    obtain ⟨error, refused⟩ := Declaration.plan_relating_of_not relatable
    obtain ⟨fault, refusedMirror⟩ := Declaration.plan_relating_of_not unrelatableMirror
    have forwardSame : forward = before := flushedRun_declare_error refused
    have backwardSame : backward = before := flushedRun_declare_error refusedMirror
    rw [forwardSame, backwardSame]
    exact ⟨fun related => absurd related relatable, fun _ => ⟨rfl, rfl⟩, fun _ => Iff.rfl,
      fun _ => Iff.rfl⟩

end Exchange

def bothFlags : Expression :=
  .composite 0 (.logic .and) [.variable ⟨0, .bool⟩, .variable ⟨1, .bool⟩] .bool

def bothOrThird : Expression :=
  .composite 1 (.logic .or) [bothFlags, .variable ⟨2, .bool⟩] .bool

def buildsBothOrThird : List Action :=
  [ .allocateArray 3 .bool,
    .build (.logic .and (.variable ⟨0, .bool⟩) (.variable ⟨1, .bool⟩)),
    .build (.logic .or bothFlags (.variable ⟨2, .bool⟩)) ]

theorem admits_buildsBothOrThird :
    (start {}).Admits
      (buildsBothOrThird ++ [.declare (.relating bothFlags .eq bothOrThird false {})]) := by
  refine ⟨nofun, ?_, ?_, ?_, trivial⟩
  all_goals
    intro expression member
    rcases List.mem_pair.mp member with rfl | rfl <;> rfl

/-- A conjunction and a disjunction that contains it are made equal. From the one side the
disjunction gets a variable, and the conjunction on the way to it; from the other side only the
conjunction does. -/
theorem bothFlags_exchange :
    let forward := flushedRun {}
      (buildsBothOrThird ++ [.declare (.relating bothFlags .eq bothOrThird false {})])
    let backward := flushedRun {}
      (buildsBothOrThird ++ [.declare (.relating bothOrThird .eq bothFlags false {})])
    (start {}).Admits
        (buildsBothOrThird ++ [.declare (.relating bothFlags .eq bothOrThird false {})]) ∧
      forward.model.problem.size = 5 ∧ backward.model.problem.size = 4 ∧
      ∀ users : Assignment,
        (∃ solution, forward.Realizes users solution) ↔
          ∃ solution, backward.Realizes users solution := by
  obtain ⟨_, _, _, solutions⟩ := sides_exchange (fun _ => .inl rfl) admits_buildsBothOrThird
  exact ⟨admits_buildsBothOrThird, rfl, rfl, solutions⟩

end Session

end ConstraintCompiler
