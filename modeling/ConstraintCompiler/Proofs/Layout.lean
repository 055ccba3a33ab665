import ConstraintCompiler.Proofs.Completion
import ConstraintCompiler.Proofs.Growth
import Mathlib.Data.List.Perm.Basic

/-!
Contract: the order in which a session states its postings.

Owns:
- `Session.moments`, the actions of a run with what they meet, and `Session.conclusions`, the
  postings in which its declarations end, one each;
- `Session.Layout`, that the stated postings are definitions of composites and ends of declarations,
  and that a definition mentions only variables older than its own, as does everything before it;
- `Session.allocated`, the variables that a run allocates for its user, which together with those of
  composites are all there are.

Does not own: which declarations end in the posting of a definition.
-/

namespace ConstraintCompiler

theorem Connective.mem_mentions_posting (connective : Connective) (arguments : List Argument)
    (v : Variable) : v ∈ (connective.posting arguments (.var v)).mentions := by
  refine List.mem_append_left _ (List.mem_flatMap.mpr ⟨.var v, ?_, List.mem_singleton_self v⟩)
  exact List.mem_append_right _ (List.mem_singleton_self _)

namespace Session

/-! ### The ends of declarations -/

/-- The posting in which an action ends, if it is a declaration that is accepted. -/
def conclusion? (session : Session) : Action → Option Posting
  | .declare declaration =>
      match (Model.declare declaration session.model).1 with
      | .ok () => (session.step (.declare declaration)).model.stated.getLast?
      | .error _ => none
  | .allocate _ | .allocateArray _ _ | .fresh _ | .build _ | .resolve _ | .flush => none

/-- The actions of a run, each with the session that it meets. -/
def moments : Session → List Action → List (Session × Action)
  | _, [] => []
  | session, action :: rest => (session, action) :: (session.step action).moments rest

def conclusions (session : Session) (actions : List Action) : List Posting :=
  (session.moments actions).filterMap fun moment => moment.1.conclusion? moment.2

theorem conclusions_cons (session : Session) (action : Action) (rest : List Action) :
    session.conclusions (action :: rest) =
      (session.conclusion? action).toList ++ (session.step action).conclusions rest := by
  rw [conclusions, moments, List.filterMap_cons]
  cases session.conclusion? action <;> rfl

theorem exists_of_mem_moments {session met : Session} {action : Action} {actions : List Action}
    (member : (met, action) ∈ session.moments actions) :
    ∃ before after, actions = before ++ action :: after ∧ met = session.run before := by
  induction actions generalizing session with
  | nil => cases member
  | cons first rest inductionHypothesis =>
      rcases List.mem_cons.mp member with here | later
      · cases here
        exact ⟨[], rest, rfl, rfl⟩
      · obtain ⟨before, after, rfl, rfl⟩ := inductionHypothesis later
        exact ⟨first :: before, after, rfl, rfl⟩

theorem conclusion?_of_plan {session : Session} {declaration : Declaration} {plan : Plan}
    (planned : declaration.plan = .ok plan) :
    session.conclusion? (.declare declaration) =
      (session.step (.declare declaration)).model.stated.getLast? := by
  rw [conclusion?, Model.declare_of_plan planned]

theorem conclusion?_of_error {session : Session} {declaration : Declaration} {error : Error}
    (refused : declaration.plan = .error error) :
    session.conclusion? (.declare declaration) = none := by
  rw [conclusion?, Model.declare_of_error refused]

/-! ### The order of postings -/

/-- The composites were defined, and the declarations ended, in the order of the postings. Whatever
is stated before a definition, and whatever the definition reads, is older than what it defines. -/
inductive Layout (session : Session) :
    List (Label × Variable) → List Posting → List Posting → Prop where
  | nil : Layout session [] [] []
  | definition {definitions : List (Label × Variable)} {conclusions postings : List Posting}
      {label : Label} {v : Variable} {connective : Connective} {operands : List Expression}
      {kind : Kind} {arguments : List Argument}
      (earlier : Layout session definitions conclusions postings)
      (introduces : session.Introduces label v connective operands kind arguments)
      (unused : ∀ posting ∈ postings, ∀ w ∈ posting.mentions, w.id < v.id)
      (older : ∀ argument ∈ arguments, ∀ w ∈ argument.mentions, w.id < v.id) :
      Layout session ((label, v) :: definitions) conclusions
        (postings ++ [connective.posting arguments (.var v)])
  | conclusion {definitions : List (Label × Variable)} {conclusions postings : List Posting}
      (earlier : Layout session definitions conclusions postings) (posting : Posting) :
      Layout session definitions (conclusions ++ [posting]) (postings ++ [posting])

/-- Everything that the session has stated is laid out, and each accepted declaration has ended in
one of the postings. -/
structure IsLaidOut (session : Session) (conclusions : List Posting) : Prop where
  layout : session.Layout session.model.definitions conclusions session.model.stated
  length_declared : session.declared.length = conclusions.length

theorem Layout.mono {before after : Session} (grows : before.Grows after)
    {definitions : List (Label × Variable)} {conclusions postings : List Posting}
    (layout : before.Layout definitions conclusions postings) :
    after.Layout definitions conclusions postings := by
  induction layout with
  | nil => exact .nil
  | definition _ introduces unused older inductionHypothesis =>
      exact .definition inductionHypothesis (grows.introduces introduces) unused older
  | conclusion _ posting inductionHypothesis => exact .conclusion inductionHypothesis posting

/-- A session that grows without stating, defining or accepting anything stays laid out. -/
theorem IsLaidOut.quiet {before after : Session} {conclusions : List Posting}
    (laidOut : before.IsLaidOut conclusions) (grows : before.Grows after)
    (definitions : after.model.definitions = before.model.definitions)
    (declared : after.declared = before.declared)
    (stated : after.model.stated = before.model.stated) : after.IsLaidOut conclusions := by
  refine ⟨?_, declared ▸ laidOut.length_declared⟩
  rw [definitions, stated]
  exact laidOut.layout.mono grows

/-! ### What is stated reads known variables -/

namespace Compiled

variable {session : Session} (compiled : session.Compiled)

include compiled

theorem mentions_lt : ∀ posting ∈ session.model.stated, ∀ v ∈ posting.mentions,
    v.id < session.model.problem.size := by
  intro posting stated v mentioned
  have accepted := Problem.objection?_eq_none_iff.mp (compiled.accepts posting stated)
  exact Problem.Knows.id_lt (accepted.1 v mentioned)

theorem operands_lt {connective : Connective} {operands : List Expression} {kind : Kind}
    {arguments : List Argument} (joins : connective.Joins operands kind)
    (atHand : ∀ operand ∈ operands, session.AtHand operand)
    (represents : session.model.RepresentsOperands connective operands arguments) :
    ∀ argument ∈ arguments, ∀ v ∈ argument.mentions, v.id < session.model.problem.size := by
  intro argument member v mentioned
  apply Problem.Knows.id_lt
  unfold Model.RepresentsOperands at represents
  split at represents
  · rename_i flattens
    cases joins with
    | logic truths =>
        exact (compiled.fits_of_merges represents atHand truths argument member).knows v mentioned
    | _ => cases flattens
  · obtain ⟨operand, operandMember, head⟩ := exists_of_mem_forall₂ represents.flip member
    exact (compiled.fits_of_represents head (atHand operand operandMember)).knows v mentioned

end Compiled

/-! ### Steps keep the layout -/

section Step

variable {session : Session} {conclusions : List Posting} (compiled : session.Compiled)
  (laidOut : session.IsLaidOut conclusions)

include compiled laidOut

theorem IsLaidOut.elaborating {scope : Expression → Prop} {after : Model}
    (elaborates : session.model.Elaborates scope after)
    (inScope : ∀ expression, expression.label? ≠ none → scope expression →
      Expression.OccursIn session.subjects expression) :
    IsLaidOut { session with model := after } conclusions := by
  induction elaborates with
  | refl => exact laidOut
  | @define model label connective operands kind arguments before inner undefined represents
      inductionHypothesis =>
      have middle := compiled.elaborating before inScope
      have defines := Model.Elaborates.define (.refl model) inner undefined represents
      have grows : Grows { session with model } _ := defines.grows
      have built : session.built[label]? = some (.composite label connective operands kind) :=
        middle.atHand_of_occurs (inScope (.composite label connective operands kind) nofun inner)
      have atHand : AtHand { session with model } (.composite label connective operands kind) :=
        built
      obtain ⟨joins, operandsAtHand⟩ := atHand.joins middle.wellBuilt
      have introduces : Introduces { session with
          model := (Model.define label connective arguments kind model).2 } label
          (model.problem.nextVariable kind) connective operands kind arguments :=
        ⟨built, rfl, Problem.domain?_allocate_nextVariable _ _ kind, represents.mono defines.grown⟩
      have next := Layout.definition (inductionHypothesis.layout.mono grows) introduces
        middle.mentions_lt (middle.operands_lt joins operandsAtHand represents)
      refine ⟨?_, laidOut.length_declared⟩
      rw [Model.stated_define]
      exact next

/-- A permitted action keeps a session laid out, with the posting in which it ends. -/
theorem IsLaidOut.step {action : Action} (permits : session.Permits action) :
    (session.step action).IsLaidOut (conclusions ++ (session.conclusion? action).toList) := by
  have grows := compiled.step_grows permits
  cases action with
  | allocate domain | allocateArray count domain | fresh kind =>
      rw [conclusion?, Option.toList_none, List.append_nil]
      exact laidOut.quiet grows rfl rfl rfl
  | build composition =>
      rw [conclusion?, Option.toList_none, List.append_nil]
      cases built : composition.build session.model.nextLabel with
      | error error =>
          rw [step_build_error built]
          exact laidOut
      | ok expression =>
          rw [step_build_ok built] at grows ⊢
          exact laidOut.quiet grows rfl rfl rfl
  | resolve expression =>
      rw [conclusion?, Option.toList_none, List.append_nil]
      have named : Compiled { session with resolved := session.resolved ++ [expression] } :=
        compiled.resolving permits
      have namedLaidOut := laidOut.quiet (Grows.naming session [expression]) rfl rfl rfl
      obtain ⟨elaborates, _⟩ := Expression.resolve_spec
        ((permits expression (List.mem_singleton_self _)).isListed compiled.wellBuilt) session.model
      exact namedLaidOut.elaborating named elaborates fun part _ within =>
        ⟨expression, List.mem_append_left _
          (List.mem_append_right _ (List.mem_singleton_self _)), within⟩
  | declare declaration =>
      cases planned : declaration.plan with
      | error error =>
          rw [step_declare_error planned, conclusion?_of_error planned, Option.toList_none,
            List.append_nil]
          exact laidOut
      | ok plan =>
          obtain ⟨middle, posting, journal, elaborates, _, after⟩ :=
            compiled.step_declare planned permits
          have named : Compiled { session with
              resolved := session.resolved ++ declaration.expressions } :=
            compiled.resolving permits
          have namedLaidOut :=
            laidOut.quiet (Grows.naming session declaration.expressions) rfl rfl rfl
          have elaborated := namedLaidOut.elaborating named elaborates fun part _ occurs =>
            occurs.subset fun _ member => List.mem_append_left _ (List.mem_append_right _ member)
          have subjects : Session.resolved { session with
              model := middle
              resolved := session.resolved ++ declaration.expressions } =
                session.resolved ++ declaration.expressions := rfl
          have accepting := Grows.accepting posting journal subjects
          have next := Layout.conclusion (elaborated.layout.mono accepting) posting
          rw [conclusion?_of_plan planned, after, Model.stated_post, List.getLast?_concat]
          refine ⟨?_, ?_⟩
          · rw [Model.stated_post]
            exact next
          · rw [List.length_append, laidOut.length_declared, List.length_append]
            rfl
  | flush =>
      rw [conclusion?, Option.toList_none, List.append_nil]
      obtain ⟨executed, journal, flushed⟩ := compiled.step_flush
      rw [flushed] at grows ⊢
      exact laidOut.quiet grows rfl rfl (List.append_nil _)

end Step

theorem laidOut_start (settings : Model.Settings) : (start settings).IsLaidOut [] := ⟨.nil, rfl⟩

/-- Admitted actions keep a session laid out, with the postings in which they end. -/
theorem IsLaidOut.run {session : Session} {conclusions : List Posting}
    (compiled : session.Compiled) (laidOut : session.IsLaidOut conclusions) {actions : List Action}
    (admits : session.Admits actions) :
    (session.run actions).IsLaidOut (conclusions ++ session.conclusions actions) := by
  induction actions generalizing session conclusions with
  | nil =>
      rw [Session.conclusions, moments, List.filterMap_nil, List.append_nil]
      exact laidOut
  | cons action rest inductionHypothesis =>
      rw [conclusions_cons, ← List.append_assoc]
      exact inductionHypothesis (compiled.step admits.1) (laidOut.step compiled admits.1) admits.2

/-! ### The place of a definition -/

namespace Layout

variable {session : Session} {definitions : List (Label × Variable)}
  {conclusions postings : List Posting}
  (layout : session.Layout definitions conclusions postings)

include layout

theorem length_eq : postings.length = definitions.length + conclusions.length := by
  induction layout with
  | nil => rfl
  | definition _ _ _ _ inductionHypothesis =>
      simp only [List.length_append, List.length_cons, List.length_nil, inductionHypothesis]
      omega
  | conclusion _ _ inductionHypothesis =>
      simp only [List.length_append, List.length_cons, List.length_nil, inductionHypothesis]
      omega

theorem conclusions_subset : ∀ posting ∈ conclusions, posting ∈ postings := by
  induction layout with
  | nil => exact fun _ member => member
  | definition _ _ _ _ inductionHypothesis =>
      exact fun posting member => List.mem_append_left _ (inductionHypothesis posting member)
  | conclusion _ _ inductionHypothesis =>
      exact fun posting member =>
        List.mem_append.mpr ((List.mem_append.mp member).imp_left (inductionHypothesis posting))

/-- A composite's definition is the first posting that mentions its variable, and reads older
variables only. It is stated again by the declarations that end in it, and by nothing else. -/
theorem split {label : Label} {v : Variable} (defined : (label, v) ∈ definitions) :
    ∃ connective operands kind arguments before after,
      session.Introduces label v connective operands kind arguments ∧
        postings = before ++ connective.posting arguments (.var v) :: after ∧
        (∀ posting ∈ before, ∀ w ∈ posting.mentions, w.id < v.id) ∧
        (∀ argument ∈ arguments, ∀ w ∈ argument.mentions, w.id < v.id) ∧
        postings.count (connective.posting arguments (.var v)) =
          1 + conclusions.count (connective.posting arguments (.var v)) := by
  induction layout with
  | nil => cases defined
  | @definition definitions conclusions postings newest w newConnective newOperands newKind
      newArguments earlier introduces unused older inductionHypothesis =>
      rcases List.mem_cons.mp defined with new | old
      · cases new
        have absent : newConnective.posting newArguments (.var v) ∉ postings := fun member =>
          Nat.lt_irrefl _ (unused _ member v (newConnective.mem_mentions_posting newArguments v))
        have notConcluded : newConnective.posting newArguments (.var v) ∉ conclusions :=
          fun member => absent (earlier.conclusions_subset _ member)
        refine ⟨newConnective, newOperands, newKind, newArguments, postings, [], introduces, rfl,
          unused, older, ?_⟩
        rw [List.count_append, List.count_singleton_self, List.count_eq_zero.mpr absent,
          List.count_eq_zero.mpr notConcluded]
      · obtain ⟨connective, operands, kind, arguments, before, after, found, rfl, first, reads,
          count⟩ := inductionHypothesis old
        have mentioned := Connective.mem_mentions_posting connective arguments v
        have younger : v.id < w.id :=
          unused _ (List.mem_append_right _ (List.mem_cons_self ..)) v mentioned
        have different : newConnective.posting newArguments (.var w) ≠
            connective.posting arguments (.var v) := by
          intro same
          have given : newArguments ++ [.var w] = arguments ++ [.var v] :=
            congrArg Posting.arguments same
          cases (List.append_inj' given rfl).2
          exact Nat.lt_irrefl _ younger
        refine ⟨connective, operands, kind, arguments, before,
          after ++ [newConnective.posting newArguments (.var w)], found,
          List.append_assoc before _ _, first, reads, ?_⟩
        rw [List.count_append, List.count_singleton, beq_false_of_ne different, count]
        rfl
  | @conclusion definitions conclusions postings earlier posting inductionHypothesis =>
      obtain ⟨connective, operands, kind, arguments, before, after, found, stated, first, reads,
        count⟩ := inductionHypothesis defined
      refine ⟨connective, operands, kind, arguments, before, after ++ [posting], found, ?_, first,
        reads, ?_⟩
      · rw [stated, List.append_assoc]
        rfl
      · rw [List.count_append, List.count_append, count, Nat.add_assoc]

end Layout

/-! ### Variables of the user -/

def allocates (session : Session) : Action → List Variable
  | .allocate domain => [(Model.allocate domain session.model).1]
  | .allocateArray count domain => (Model.allocateArray count domain session.model).1.elements
  | .fresh kind => [(Model.fresh kind session.model).1]
  | .build _ | .resolve _ | .declare _ | .flush => []

def allocated : Session → List Action → List Variable
  | _, [] => []
  | session, action :: rest => session.allocates action ++ (session.step action).allocated rest

theorem allocated_append (session : Session) (first second : List Action) :
    session.allocated (first ++ second) =
      session.allocated first ++ (session.run first).allocated second := by
  induction first generalizing session with
  | nil => rfl
  | cons action rest inductionHypothesis =>
      rw [List.cons_append, allocated, inductionHypothesis, allocated, List.append_assoc]
      rfl

end Session

/-- The user's variables and those of composites are all that the model has, each once. -/
def Model.Divides (model : Model) (users : List Variable) : Prop :=
  (users.map Variable.id ++ model.definitions.map fun entry => entry.2.id).Perm
    (List.range model.problem.size)

namespace Model.Divides

variable {model : Model} {users : List Variable} (divides : model.Divides users)

include divides

theorem size_eq : model.problem.size = users.length + model.definitions.length := by
  simpa using divides.length_eq.symm

/-- The user did not allocate the variables of composites. -/
theorem id_ne {w : Variable} (member : w ∈ users) {label : Label} {v : Variable}
    (defined : (label, v) ∈ model.definitions) : w.id ≠ v.id := by
  have nodup := divides.nodup_iff.mpr List.nodup_range
  exact (List.nodup_append.mp nodup).2.2 w.id (List.mem_map_of_mem member) v.id
    (List.mem_map_of_mem defined)

end Model.Divides

private theorem perm_append_block {users added : List Nat} {size : Nat}
    (perm : (users ++ added).Perm (List.range size)) (block : List Nat) :
    (users ++ (block ++ added)).Perm (List.range size ++ block) := by
  have moved : (users ++ (block ++ added)).Perm (users ++ (added ++ block)) :=
    List.perm_append_comm.append_left users
  refine moved.trans ?_
  rw [← List.append_assoc]
  exact perm.append_right block

/-- Variables that are given to composites are divided off. -/
theorem Model.Elaborates.divides {scope : Expression → Prop} {first second : Model}
    {users : List Variable} (elaborates : first.Elaborates scope second)
    (divides : first.Divides users) : second.Divides users := by
  induction elaborates with
  | refl => exact divides
  | @define model label connective _ kind arguments _ _ _ _ inductionHypothesis =>
      rw [Model.Divides, define_definitions, define_problem, Problem.size_allocate,
        List.range_succ, List.map_cons]
      exact perm_append_block inductionHypothesis [model.problem.size]

namespace Session

private theorem divides_block {session : Session} {users block : List Variable} {after : Model}
    (divides : session.model.Divides users)
    (definitions : after.definitions = session.model.definitions)
    (range : List.range after.problem.size =
      List.range session.model.problem.size ++ block.map Variable.id) :
    after.Divides (users ++ block) := by
  rw [Model.Divides, definitions, range, List.map_append, List.append_assoc]
  exact perm_append_block divides _

/-- A permitted action keeps the division, with the variables that it allocates for the user. -/
theorem Compiled.step_divides {session : Session} (compiled : session.Compiled)
    {users : List Variable} (divides : session.model.Divides users) {action : Action}
    (permits : session.Permits action) :
    (session.step action).model.Divides (users ++ session.allocates action) := by
  cases action with
  | allocate domain =>
      refine divides_block divides rfl ?_
      show List.range (session.model.problem.allocate domain).size = _
      rw [Problem.size_allocate, List.range_succ]
      rfl
  | allocateArray count domain =>
      refine divides_block divides rfl ?_
      show List.range (session.model.problem.domains ++ List.replicate count domain).length =
        List.range session.model.problem.domains.length ++
          ((List.range count).map fun offset =>
            (⟨session.model.problem.domains.length + offset, domain.kind⟩ : Variable)).map
              Variable.id
      rw [List.length_append, List.length_replicate, List.range_add, List.map_map]
      rfl
  | fresh kind =>
      refine divides_block divides rfl ?_
      show List.range (session.model.problem.allocate _).size = _
      rw [Problem.size_allocate, List.range_succ]
      rfl
  | build composition =>
      rw [allocates, List.append_nil]
      cases built : composition.build session.model.nextLabel with
      | error error =>
          rw [step_build_error built]
          exact divides
      | ok expression =>
          rw [step_build_ok built]
          exact divides
  | resolve expression =>
      rw [allocates, List.append_nil]
      have atHand := permits expression (List.mem_singleton_self _)
      obtain ⟨elaborates, _⟩ :=
        Expression.resolve_spec (atHand.isListed compiled.wellBuilt) session.model
      exact elaborates.divides divides
  | declare declaration =>
      rw [allocates, List.append_nil]
      cases planned : declaration.plan with
      | error error =>
          rw [step_declare_error planned]
          exact divides
      | ok plan =>
          obtain ⟨middle, posting, journal, elaborates, _, after⟩ :=
            compiled.step_declare planned permits
          rw [after]
          exact elaborates.divides divides
  | flush =>
      rw [allocates, List.append_nil]
      obtain ⟨executed, journal, flushed⟩ := compiled.step_flush
      rw [flushed]
      exact divides

/-- Admitted actions keep the division, with the variables that they allocate for the user. -/
theorem Compiled.run_divides {session : Session} (compiled : session.Compiled)
    {users : List Variable} (divides : session.model.Divides users) {actions : List Action}
    (admits : session.Admits actions) :
    (session.run actions).model.Divides (users ++ session.allocated actions) := by
  induction actions generalizing session users with
  | nil =>
      rw [allocated, List.append_nil]
      exact divides
  | cons action rest inductionHypothesis =>
      rw [allocated, ← List.append_assoc]
      exact inductionHypothesis (compiled.step admits.1) (compiled.step_divides divides admits.1)
        admits.2

theorem divides_start (settings : Model.Settings) : (start settings).model.Divides [] := .refl []

end Session

end ConstraintCompiler
