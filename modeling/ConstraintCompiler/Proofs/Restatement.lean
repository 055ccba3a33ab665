import ConstraintCompiler.Proofs.Layout

/-!
Contract: how often the definition of a composite is stated.

Owns:
- `Session.Restates`, that an action fuses a composite that has no variable yet with the variable of
  another one, in the posting that defines the variable;
- `Session.conclusion?_eq_some_iff`, that a declaration ends in the posting of a definition exactly
  when it restates it;
- `Session.definition_stays_first`: the variable of a composite is for ever the composite's alone,
  its definition stands in front of every other use of it, and is stated once, and once more at
  every moment at which it is restated.
-/

namespace ConstraintCompiler

theorem Statement.Becomes.primitive_ne {offset : Int} {statement : Statement}
    {primitive : Primitive} {subjects : List Expression} {swapped : Bool}
    {constants : List Argument} {relation : Option Relation}
    (becomes : statement.Becomes offset primitive subjects swapped constants relation)
    (connective : Connective) : primitive ≠ .defining connective := by
  cases becomes <;> exact nofun

namespace Session

/-- The action is a declaration that ties a composite straight to the variable, in the posting. The
composite is not the one under the label, and has no variable when the action meets the session. -/
inductive Restates (session : Session) (label : Label) (v : Variable) (posting : Posting) :
    Action → Prop where
  | fused {declaration : Declaration} {plan : Plan} {left right other : Expression}
      {composite : Composite} (planned : declaration.plan = .ok plan)
      (equality : plan.equality? = some (left, right))
      (fusion : fusion? session.model left right = some (composite, other))
      (another : composite.label ≠ label)
      (undefined : composite.isUndefined session.model = true)
      (result : (other.resolve session.model).1 = .var v)
      (same : posting = plan.fusedPosting composite.connective
        (composite.resolveOperands (other.resolve session.model).2).1 (.var v)) :
      Restates session label v posting (.declare declaration)

/-- A declaration that fuses a composite ends in one posting for both sides. -/
theorem conclusion?_of_fusion {session : Session} {declaration : Declaration} {plan : Plan}
    {left right other : Expression} {composite : Composite}
    (planned : declaration.plan = .ok plan) (equality : plan.equality? = some (left, right))
    (fusion : fusion? session.model left right = some (composite, other)) :
    session.conclusion? (.declare declaration) =
      some (plan.fusedPosting composite.connective
        (composite.resolveOperands (other.resolve session.model).2).1
        (other.resolve session.model).1) := by
  obtain ⟨journal, after⟩ := Plan.perform_of_fusion equality fusion
  rw [conclusion?_of_plan planned, step_declare_ok planned, after, Model.stated_post,
    List.getLast?_concat]

/-- A declaration that fuses nothing ends in the posting of its plan. -/
theorem conclusion?_of_no_fusion {session : Session} {declaration : Declaration} {plan : Plan}
    (planned : declaration.plan = .ok plan)
    (separate : ∀ left right, plan.equality? = some (left, right) →
      fusion? session.model left right = none) :
    ∃ arguments target,
      session.conclusion? (.declare declaration) = some (plan.posting arguments target) := by
  rw [conclusion?_of_plan planned, step_declare_ok planned, Plan.perform_of_no_fusion separate]
  cases found : plan.target with
  | none =>
      obtain ⟨journal, after⟩ := Plan.state_of_no_target found session.model
      rw [after, Model.stated_post, List.getLast?_concat]
      exact ⟨_, _, rfl⟩
  | some target =>
      obtain ⟨journal, after⟩ := Plan.state_of_target found session.model
      rw [after, Model.stated_post, List.getLast?_concat]
      exact ⟨_, _, rfl⟩

/-- A composite's variable that is known at some moment of a run is the composite's then. -/
theorem defined_of_known {settings : Model.Settings} {before rest : List Action}
    (admits : (start settings).Admits (before ++ rest)) {label : Label} {v : Variable}
    (defined : (label, v) ∈ ((start settings).run (before ++ rest)).model.definitions)
    (known : v.id < ((start settings).run before).model.problem.size) :
    (label, v) ∈ ((start settings).run before).model.definitions := by
  obtain ⟨admitsBefore, admitsRest⟩ := admits_append.mp admits
  have compiled := (compiled_start settings).run admits
  have divides := (compiled_start settings).run_divides (divides_start settings) admits
  have dividesBefore :=
    (compiled_start settings).run_divides (divides_start settings) admitsBefore
  have grows := ((compiled_start settings).run admitsBefore).run_grows admitsRest
  rw [← run_append] at grows
  rw [List.nil_append] at divides dividesBefore
  have listed := dividesBefore.mem_iff.mpr (List.mem_range.mpr known)
  rcases List.mem_append.mp listed with inUsers | inDefinitions
  · obtain ⟨w, allocated, same⟩ := List.mem_map.mp inUsers
    refine absurd same (divides.id_ne ?_ defined)
    rw [allocated_append]
    exact List.mem_append_left _ allocated
  · obtain ⟨⟨other, w⟩, member, same⟩ := List.mem_map.mp inDefinitions
    have later := grows.definitions _ member
    cases compiled.entry_unique later defined same
    have sameVariable := (compiled.definition?_iff.mpr later).symm.trans
      (compiled.definition?_iff.mpr defined)
    cases sameVariable
    exact member

/-- A fusion keeps the variables that resolving the other side leaves behind. -/
theorem Compiled.kept_of_fusion {session : Session} (compiled : session.Compiled)
    {declaration : Declaration} (permits : session.Permits (.declare declaration)) {plan : Plan}
    {left right other : Expression} {composite : Composite}
    (planned : declaration.plan = .ok plan) (equality : plan.equality? = some (left, right))
    (fusion : fusion? session.model left right = some (composite, other)) :
    ∀ entry ∈ (other.resolve session.model).2.definitions,
      entry ∈ (session.step (.declare declaration)).model.definitions := by
  obtain ⟨journal, after⟩ := Plan.perform_of_fusion equality fusion
  have atHand := (Declaration.plan_eq_ok planned).atHand permits composite.expression
    (Plan.mem_expressions_of_fusion equality fusion).1
  obtain ⟨elaborates, _⟩ := Expression.resolveOperands_needed composite
    (fun operand member => (atHand.isListed compiled.wellBuilt).operand member)
    (other.resolve session.model).2
  rw [step_declare_ok planned, after]
  exact elaborates.grown

/-- A composite that is fused with the variable of another one has a label of its own. -/
theorem label_ne_of_fusion {settings : Model.Settings} {before rest : List Action}
    {declaration : Declaration}
    (admits : (start settings).Admits (before ++ .declare declaration :: rest)) {label : Label}
    {v : Variable}
    (defined : (label, v) ∈
      ((start settings).run (before ++ .declare declaration :: rest)).model.definitions)
    {plan : Plan} {left right other : Expression} {composite : Composite}
    (planned : declaration.plan = .ok plan) (equality : plan.equality? = some (left, right))
    (fusion : fusion? ((start settings).run before).model left right = some (composite, other))
    (result : (other.resolve ((start settings).run before).model).1 = .var v) :
    composite.label ≠ label := by
  obtain ⟨admitsBefore, permits, admitsRest⟩ := admits_append.mp admits
  have met := (compiled_start settings).run admitsBefore
  have compiled := (compiled_start settings).run admits
  obtain ⟨_, undefined, separate⟩ := fusion?_eq_some fusion
  have atHand := (Declaration.plan_eq_ok planned).atHand permits other
    (Plan.mem_expressions_of_fusion equality fusion).2
  obtain ⟨_, represents⟩ := Expression.resolve_spec (atHand.isListed met.wellBuilt)
    ((start settings).run before).model
  rw [result] at represents
  generalize same : Argument.var v = argument at represents
  cases represents with
  | «variable» =>
      cases same
      have own := defined_of_known admits defined (Problem.Knows.id_lt atHand)
      rintro rfl
      rw [Composite.isUndefined, met.definition?_iff.mpr own] at undefined
      cases undefined
  | @composite second connective operands kind _ secondDefined =>
      cases same
      have whole : (start settings).run (before ++ .declare declaration :: rest) =
          (((start settings).run before).step (.declare declaration)).run rest := run_append _ _ _
      have kept := ((met.step permits).run_grows admitsRest).definitions _
        (met.kept_of_fusion permits planned equality fusion _ secondDefined)
      rw [← whole] at kept
      cases compiled.entry_unique kept defined rfl
      exact separate _ rfl
  | array => cases same
  | constant literal => cases literal <;> cases same

/-- At each moment of a run, a declaration ends in the posting of a definition exactly when it
restates it. -/
theorem conclusion?_eq_some_iff {settings : Model.Settings} {actions : List Action}
    (admits : (start settings).Admits actions) {label : Label} {v : Variable}
    (defined : (label, v) ∈ ((start settings).run actions).model.definitions)
    {connective : Connective} {arguments : List Argument} {met : Session} {action : Action}
    (moment : (met, action) ∈ (start settings).moments actions) :
    met.conclusion? action = some (connective.posting arguments (.var v)) ↔
      met.Restates label v (connective.posting arguments (.var v)) action := by
  obtain ⟨before, rest, rfl, rfl⟩ := exists_of_mem_moments moment
  constructor
  · intro concludes
    cases action with
    | declare declaration =>
        cases planned : declaration.plan with
        | error error => cases (conclusion?_of_error planned).symm.trans concludes
        | ok plan =>
            rcases plan.fuses_or_not ((start settings).run before).model with
              ⟨left, right, composite, other, equality, fusion⟩ | separate
            · have same := Option.some.inj
                ((conclusion?_of_fusion planned equality fusion).symm.trans concludes)
              have given := congrArg Posting.arguments same
              have result := (List.append_inj' given rfl).2
              rw [List.singleton_inj] at result
              rw [result] at same
              exact .fused planned equality fusion
                (label_ne_of_fusion admits defined planned equality fusion result)
                (fusion?_eq_some fusion).2.1 result same.symm
            · obtain ⟨others, target, concluded⟩ := conclusion?_of_no_fusion planned separate
              have same := Option.some.inj (concluded.symm.trans concludes)
              exact absurd (congrArg Posting.primitive same)
                ((Declaration.plan_eq_ok planned).becomes.primitive_ne connective)
    | allocate | allocateArray | fresh | build | resolve | flush => cases concludes
  · rintro ⟨planned, equality, fusion, _, _, result, same⟩
    rw [conclusion?_of_fusion planned equality fusion, result, same]

/-- A composite that has a variable at some moment of an admitted run keeps it. The user did not
allocate it, and no other composite has it. The composite's definition is the first posting that
mentions it, and reads older variables only. It is stated once, and once more at every moment at
which a declaration ends in it, which is when another composite without a variable is fused with the
variable. Every variable is the user's or that of one composite, and every posting defines one
composite or ends one declaration. -/
theorem definition_stays_first (settings : Model.Settings) (actions more : List Action)
    (admits : (start settings).Admits (actions ++ more)) :
    let earlier := (start settings).run actions
    let later := (start settings).run (actions ++ more)
    let users := (start settings).allocated (actions ++ more)
    let moments := (start settings).moments (actions ++ more)
    (∀ label v, earlier.model.definition? label = some v →
        later.model.definition? label = some v ∧
          (∀ w ∈ users, w.id ≠ v.id) ∧
          (∀ other w, later.model.definition? other = some w → other ≠ label → w.id ≠ v.id) ∧
          ∃ connective operands kind arguments before after,
            later.Introduces label v connective operands kind arguments ∧
              later.model.stated = before ++ connective.posting arguments (.var v) :: after ∧
              (∀ posting ∈ before, ∀ w ∈ posting.mentions, w.id < v.id) ∧
              (∀ argument ∈ arguments, ∀ w ∈ argument.mentions, w.id < v.id) ∧
              later.model.stated.count (connective.posting arguments (.var v)) =
                1 + moments.countP (fun moment =>
                  moment.1.conclusion? moment.2 == some (connective.posting arguments (.var v))) ∧
              ∀ moment ∈ moments,
                moment.1.conclusion? moment.2 = some (connective.posting arguments (.var v)) ↔
                  moment.1.Restates label v (connective.posting arguments (.var v)) moment.2) ∧
      (later.model.definitions.map Prod.fst).Nodup ∧
      later.model.problem.size = users.length + later.model.definitions.length ∧
      later.model.stated.length = later.model.definitions.length + later.declared.length := by
  obtain ⟨admitsActions, admitsMore⟩ := admits_append.mp admits
  have earlierCompiled := (compiled_start settings).run admitsActions
  have compiled := (compiled_start settings).run admits
  have laidOut := (laidOut_start settings).run (compiled_start settings) admits
  have divides := (compiled_start settings).run_divides (divides_start settings) admits
  have grows := earlierCompiled.run_grows admitsMore
  rw [← run_append] at grows
  rw [List.nil_append] at divides laidOut
  intro earlier later users moments
  refine ⟨fun label v defined => ?_, ?_, divides.size_eq, ?_⟩
  · have member : (label, v) ∈ later.model.definitions :=
      grows.definitions _ (earlierCompiled.definition?_iff.mp defined)
    refine ⟨compiled.definition?_iff.mpr member, fun w allocated => divides.id_ne allocated member,
      ?_, ?_⟩
    · intro other w otherDefined different same
      exact different (compiled.entry_unique (compiled.definition?_iff.mp otherDefined) member same)
    · obtain ⟨connective, operands, kind, arguments, before, after, introduces, stated, first,
        reads, count⟩ := laidOut.layout.split member
      refine ⟨connective, operands, kind, arguments, before, after, introduces, stated, first,
        reads, ?_, fun moment met => conclusion?_eq_some_iff admits member met⟩
      rw [count, conclusions, List.count_filterMap]
  · exact List.pairwise_map.mpr (compiled.separate.imp fun apart => apart.1)
  · rw [laidOut.length_declared]
    exact laidOut.layout.length_eq

def conjunctionOfPair (label : Label) : Expression :=
  .composite label (.logic .and) [.variable ⟨0, .bool⟩, .variable ⟨1, .bool⟩] .bool

/-- The first conjunction gets a variable, because it is compared by an inequality. -/
def definesConjunction : List Action :=
  [ .allocateArray 2 .bool,
    .build (.logic .and (.variable ⟨0, .bool⟩) (.variable ⟨1, .bool⟩)),
    .build (.logic .and (.variable ⟨0, .bool⟩) (.variable ⟨1, .bool⟩)),
    .declare { statement := .relate (conjunctionOfPair 0) .ne (.constant (.bool true)) } ]

def equatesConjunctions : Action :=
  .declare
    { statement := .relate (conjunctionOfPair 1) .eq (conjunctionOfPair 0)
      options := { strength := some .default } }

theorem admits_equatesConjunctions :
    (start {}).Admits (definesConjunction ++ [equatesConjunctions]) := by
  refine ⟨nofun, ?_, ?_, ?_, ?_, trivial⟩
  all_goals intro expression member
  · rcases List.mem_pair.mp member with rfl | rfl <;> rfl
  · rcases List.mem_pair.mp member with rfl | rfl <;> rfl
  · rcases List.mem_pair.mp member with rfl | rfl <;> trivial
  · rcases List.mem_pair.mp member with rfl | rfl <;> rfl

theorem conjunction_stays_first :
    (start {}).Admits (definesConjunction ++ [equatesConjunctions]) ∧
      ((start {}).run definesConjunction).model.definition? 0 = some ⟨2, .bool⟩ ∧
      ((start {}).run (definesConjunction ++ [equatesConjunctions])).model.definition? 0 =
        some ⟨2, .bool⟩ := by
  refine ⟨admits_equatesConjunctions, rfl, ?_⟩
  exact ((definition_stays_first {} definesConjunction [equatesConjunctions]
    admits_equatesConjunctions).1 0 ⟨2, .bool⟩ rfl).1

/-- The definition of the first conjunction is stated twice, because the equality with the second
one ends in the same posting. -/
theorem conjunction_defined_twice :
    (start {}).Admits (definesConjunction ++ [equatesConjunctions]) ∧
      ((start {}).run (definesConjunction ++ [equatesConjunctions])).model.definition? 0 =
        some ⟨2, .bool⟩ ∧
      ((start {}).run (definesConjunction ++ [equatesConjunctions])).model.stated.count
        ((Connective.logic .and).posting [.var ⟨0, .bool⟩, .var ⟨1, .bool⟩] (.var ⟨2, .bool⟩)) =
          2 :=
  ⟨admits_equatesConjunctions, rfl, by decide⟩

end Session

end ConstraintCompiler
