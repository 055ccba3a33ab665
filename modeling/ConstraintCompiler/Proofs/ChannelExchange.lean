import ConstraintCompiler.Proofs.Channels
import ConstraintCompiler.Proofs.Runs

/-!
Contract: a channel stated from either of its sides.

Owns:
- `Declaration.Channelable`, when a channel between two sides is accepted, which does not depend on
  their order;
- `Expression.resolveEach_swap`, that two sides of which one is an array are resolved alike in
  either order;
- `Plan.verdict_channeling_swap`, that the postings of both orders say the same;
- `Model.channel_symmetric`: in every model, both orders are accepted or both refused; if accepted,
  they resolve the same, and end in postings of one form with one verdict under every assignment.

Does not own: what a channel states.
-/

namespace ConstraintCompiler

/-! ### Forms -/

/-- Whether the sides are swapped in the arguments when they are written in the opposite order. Two
arrays of integers are never swapped. -/
def ChannelForm.turn (form : ChannelForm) (swapped : Bool) : Bool :=
  match form with
  | .intInt => swapped
  | .boolInt | .boolSet | .intSet => !swapped

theorem channelForm?_swap {left right : Shape} {form : ChannelForm} {swapped : Bool}
    (found : channelForm? left right = some (form, swapped)) :
    channelForm? right left = some (form, form.turn swapped) := by
  unfold channelForm? at found
  split at found
  all_goals
    cases found
    try rfl

theorem not_swapped_of_intInt {left right : Shape} {swapped : Bool}
    (found : channelForm? left right = some (.intInt, swapped)) : swapped = false := by
  unfold channelForm? at found
  split at found
  all_goals
    cases found
    try rfl

theorem isArray_of_channelForm? {left right : Shape} {form : ChannelForm} {swapped : Bool}
    (found : channelForm? left right = some (form, swapped)) :
    left.isArray = true ∨ right.isArray = true := by
  unfold channelForm? at found
  split at found
  all_goals
    cases found
    try simp [Shape.isArray]

/-! ### Acceptance -/

namespace Declaration

def channeling (left right : Expression) (negated : Bool) (options : Options) : Declaration where
  statement := .channel left right
  negated
  options

variable {left right : Expression} {negated : Bool} {options : Options}

/-- The shapes of the sides have a channel, neither side is constant throughout, nothing is denied
or reified, and an offset is given to the channel between flags and an integer only. -/
structure Channelable (left right : Expression) (negated : Bool) (options : Options) : Prop where
  shapes : ∃ form swapped, channelForm? left.shape right.shape = some (form, swapped) ∧
    (form ≠ .boolInt → options.offset = none)
  unfixed : left.isConstantArray = false ∧ right.isConstantArray = false
  positive : negated = false
  plain : options.target = none

theorem Channelable.symm (channelable : Channelable left right negated options) :
    Channelable right left negated options := by
  obtain ⟨⟨form, swapped, found, offset⟩, unfixed, positive, plain⟩ := channelable
  exact ⟨⟨form, form.turn swapped, channelForm?_swap found, offset⟩, unfixed.symm, positive, plain⟩

theorem channelConstants_eq_ok {declaration : Declaration} {form : ChannelForm}
    {constants : List Argument} :
    declaration.channelConstants form = .ok constants ↔
      (form ≠ .boolInt → declaration.options.offset = none) ∧
        constants = form.constants (declaration.options.offset.getD 0) := by
  cases form with
  | boolInt => simp [channelConstants, ChannelForm.constants, eq_comm]
  | boolSet | intInt | intSet =>
      simp only [channelConstants, except_bind_eq_ok]
      constructor
      · rintro ⟨_, noOffset, result⟩
        cases result
        exact ⟨fun _ => Options.rejectOffset_eq_ok.mp noOffset, rfl⟩
      · rintro ⟨noOffset, rfl⟩
        exact ⟨(), Options.rejectOffset_eq_ok.mpr (noOffset (by decide)), rfl⟩

end Declaration

def Plan.channeling (form : ChannelForm) (swapped : Bool) (left right : Expression)
    (options : Options) : Plan where
  primitive := .channel form
  subjects := [left, right]
  swapped
  constants := form.constants (options.offset.getD 0)
  strength := options.resolvedStrength
  priority := options.priority

namespace Declaration

variable {left right : Expression} {negated : Bool} {options : Options}

theorem plan_channeling (channelable : Channelable left right negated options)
    {form : ChannelForm} {swapped : Bool}
    (found : channelForm? left.shape right.shape = some (form, swapped)) :
    (channeling left right negated options).plan =
      .ok (Plan.channeling form swapped left right options) := by
  obtain ⟨⟨_, _, sameFound, offset⟩, ⟨leftUnfixed, rightUnfixed⟩, rfl, plain⟩ := channelable
  cases sameFound.symm.trans found
  have supported : (channeling left right false options).checkSupport (.channel form) = .ok () :=
    checkSupport_eq_ok.mpr ⟨nofun, fun reified => absurd plain reified⟩
  have constants : (channeling left right false options).channelConstants form =
      .ok (form.constants (options.offset.getD 0)) := channelConstants_eq_ok.mpr ⟨offset, rfl⟩
  change planChannel _ left right = _
  rw [planChannel, found]
  simp only [Expression.rejectConstantArray_eq_ok.mpr leftUnfixed,
    Expression.rejectConstantArray_eq_ok.mpr rightUnfixed, supported, constants]
  rfl

theorem channelable_of_plan {plan : Plan}
    (planned : (channeling left right negated options).plan = .ok plan) :
    Channelable left right negated options := by
  change planChannel _ left right = _ at planned
  unfold planChannel at planned
  split at planned
  · contradiction
  · rename_i form swapped found
    simp only [except_bind_eq_ok] at planned
    obtain ⟨_, leftUnfixed, _, rightUnfixed, _, supported, _, constants, _⟩ := planned
    obtain ⟨positive, plain⟩ := checkSupport_eq_ok.mp supported
    refine ⟨⟨form, swapped, found, (channelConstants_eq_ok.mp constants).1⟩,
      ⟨Expression.rejectConstantArray_eq_ok.mp leftUnfixed,
        Expression.rejectConstantArray_eq_ok.mp rightUnfixed⟩, ?_, ?_⟩
    · exact Bool.eq_false_iff.mpr fun denied => nomatch positive denied
    · by_contra reified
      exact nomatch plain reified

end Declaration

/-! ### Resolution -/

namespace Expression

/-- An array is resolved to the same argument in every model, which it leaves alone. -/
theorem exists_resolve_of_isArray {expression : Expression}
    (array : expression.shape.isArray = true) :
    ∃ argument, ∀ model, expression.resolve model = (argument, model) := by
  cases expression with
  | array items => exact ⟨.vars items.elements, fun _ => rfl⟩
  | constant literal => exact ⟨literal.argument, fun _ => rfl⟩
  | _ => cases array

/-- Of two sides one of which is an array, the other is resolved from the same model in either
order. -/
theorem resolveEach_swap {left right : Expression}
    (array : left.shape.isArray = true ∨ right.shape.isArray = true) (model : Model) :
    resolveEach [right, left] model =
      ((resolveEach [left, right] model).1.reverse, (resolveEach [left, right] model).2) := by
  simp only [resolveEach_cons]
  rcases array with array | array
  · obtain ⟨argument, resolve⟩ := exists_resolve_of_isArray array
    simp only [resolve]
    rfl
  · obtain ⟨argument, resolve⟩ := exists_resolve_of_isArray array
    simp only [resolve]
    rfl

theorem length_resolveEach_pair (left right : Expression) (model : Model) :
    ∃ first second, (resolveEach [left, right] model).1 = [first, second] := by
  simp only [resolveEach_cons]
  exact ⟨_, _, rfl⟩

end Expression

/-! ### Verdicts -/

theorem Channel.intInt_comm (left right : List Int) : intInt left right = intInt right left := by
  rw [Bool.eq_iff_iff, intInt_iff, intInt_iff]
  exact ⟨fun names second first => (names first second).symm,
    fun names first second => (names second first).symm⟩

theorem Posting.condition?_intInt_swap {posting mirrored : Posting} {assignment : Assignment}
    (primitive : posting.primitive = .channel .intInt)
    (mirroredPrimitive : mirrored.primitive = .channel .intInt)
    (first : mirrored.intsAt? assignment 0 = posting.intsAt? assignment 1)
    (second : mirrored.intsAt? assignment 1 = posting.intsAt? assignment 0) :
    mirrored.condition? assignment = posting.condition? assignment := by
  simp only [condition?, channelCondition?, primitive, mirroredPrimitive, first, second]
  cases posting.intsAt? assignment 0 with
  | none => cases posting.intsAt? assignment 1 <;> rfl
  | some left =>
      cases posting.intsAt? assignment 1 with
      | none => rfl
      | some right => exact congrArg some (Channel.intInt_comm right left)

namespace Plan

variable {form : ChannelForm} {swapped : Bool} {left right : Expression} {options : Options}

/-- Both orders of the sides say the same, on arguments in the corresponding order. -/
theorem verdict_channeling_swap
    (found : channelForm? left.shape right.shape = some (form, swapped)) (first second : Argument)
    (assignment : Assignment) :
    ((channeling form (form.turn swapped) right left options).posting [second, first] none).verdict
        assignment =
      ((channeling form swapped left right options).posting [first, second] none).verdict
        assignment := by
  cases form with
  -- Swapping puts the sides of three forms in one order, so that both postings are the same.
  | boolInt | boolSet | intSet => cases swapped <;> rfl
  | intInt =>
      cases not_swapped_of_intInt found
      have condition : ((channeling .intInt false right left options).posting [second, first]
            none).condition? assignment =
          ((channeling .intInt false left right options).posting [first, second]
            none).condition? assignment := Posting.condition?_intInt_swap rfl rfl rfl rfl
      rw [ChannelForm.turn, Posting.verdict, Posting.verdict, condition]
      rfl

theorem perform_channeling (model : Model) :
    ((channeling form swapped left right options).perform model).2 =
      (Model.enqueuePosting
        ((channeling form swapped left right options).posting
          (Expression.resolveEach [left, right] model).1 none)
        (Expression.resolveEach [left, right] model).2).2 := by
  have noEquality : (channeling form swapped left right options).equality? = none := rfl
  rw [perform_of_no_fusion fun _ _ equality => absurd (noEquality.symm.trans equality) nofun]
  rfl

end Plan

namespace Model

open Declaration

theorem declare_fst_eq_ok_iff {declaration : Declaration} {model : Model} :
    (declare declaration model).1 = .ok () ↔ ∃ plan, declaration.plan = .ok plan := by
  cases planned : declaration.plan with
  | error error => simp [declare_of_error planned]
  | ok plan => simp [declare_of_plan planned]

theorem declare_channeling_iff {left right : Expression} {negated : Bool} {options : Options}
    {model : Model} :
    (declare (channeling left right negated options) model).1 = .ok () ↔
      Channelable left right negated options := by
  rw [declare_fst_eq_ok_iff]
  constructor
  · rintro ⟨plan, planned⟩
    exact channelable_of_plan planned
  · intro channelable
    obtain ⟨form, swapped, found, _⟩ := channelable.shapes
    exact ⟨_, plan_channeling channelable found⟩

/-- In every model, a channel of either polarity and with any options is accepted from the one side
exactly when it is from the other, which depends on the sides, the polarity and the options alone.
If it is, both orders resolve the same, so that they add the same variables and queue the same
definitions for them, and then queue one posting each. These have one form and the same annotations,
and one verdict under every assignment. -/
theorem channel_symmetric (model : Model) (left right : Expression) (negated : Bool)
    (options : Options) :
    let forward := declare (channeling left right negated options) model
    let backward := declare (channeling right left negated options) model
    let resolved := (Expression.resolveEach [left, right] model).2
    (forward.1 = .ok () ↔ Channelable left right negated options) ∧
      (forward.1 = .ok () ↔ backward.1 = .ok ()) ∧
      (forward.1 = .ok () →
        ∃ (form : ChannelForm) (posting mirrored : Posting) (journal : Array Event),
          forward.2 = { resolved with queue := resolved.queue ++ [.post posting], journal } ∧
            backward.2 = { resolved with queue := resolved.queue ++ [.post mirrored], journal } ∧
            posting.primitive = .channel form ∧
            mirrored = { posting with arguments := mirrored.arguments } ∧
            ∀ assignment : Assignment,
              mirrored.verdict assignment = posting.verdict assignment) := by
  intro forward backward resolved
  refine ⟨declare_channeling_iff, ?_, ?_⟩
  · exact declare_channeling_iff.trans
      (Iff.trans ⟨Channelable.symm, Channelable.symm⟩ declare_channeling_iff.symm)
  · intro accepted
    have channelable := declare_channeling_iff.mp accepted
    obtain ⟨form, swapped, found, _⟩ := channelable.shapes
    obtain ⟨first, second, arguments⟩ := Expression.length_resolveEach_pair left right model
    have backArguments := Expression.resolveEach_swap (isArray_of_channelForm? found) model
    have forwardModel : forward.2 = _ :=
      congrArg Prod.snd (declare_of_plan (plan_channeling channelable found) model)
    have backwardModel : backward.2 = _ := congrArg Prod.snd
      (declare_of_plan (plan_channeling channelable.symm (channelForm?_swap found)) model)
    rw [Plan.perform_channeling] at forwardModel backwardModel
    rw [arguments] at backArguments forwardModel
    rw [backArguments] at backwardModel
    exact ⟨form, _, _, _, forwardModel, backwardModel, rfl, rfl,
      Plan.verdict_channeling_swap found first second⟩

def itemsFrom (first count : Nat) : Expression :=
  .array ⟨.int, (List.range count).map fun offset => ⟨first + offset, .int⟩, by simp⟩

/-- Arrays of three and of two integers are tied in the order in which they are written. The two
postings have one verdict all the same. -/
theorem itemsFrom_symmetric :
    (declare (channeling (itemsFrom 0 3) (itemsFrom 3 2) false {}) {}).1 = .ok () ∧
      (declare (channeling (itemsFrom 3 2) (itemsFrom 0 3) false {}) {}).1 = .ok () ∧
      ∃ posting mirrored : Posting,
        (declare (channeling (itemsFrom 0 3) (itemsFrom 3 2) false {}) {}).2.queue =
            [.post posting] ∧
          (declare (channeling (itemsFrom 3 2) (itemsFrom 0 3) false {}) {}).2.queue =
            [.post mirrored] ∧
          ∀ assignment : Assignment, mirrored.verdict assignment = posting.verdict assignment := by
  have accepted : (declare (channeling (itemsFrom 0 3) (itemsFrom 3 2) false {}) {}).1 = .ok () :=
    rfl
  obtain ⟨_, alike, results⟩ := channel_symmetric {} (itemsFrom 0 3) (itemsFrom 3 2) false {}
  obtain ⟨_, posting, mirrored, _, forward, backward, _, _, verdicts⟩ := results accepted
  exact ⟨accepted, alike.mp accepted, posting, mirrored, congrArg queue forward,
    congrArg queue backward, verdicts⟩

end Model

end ConstraintCompiler
