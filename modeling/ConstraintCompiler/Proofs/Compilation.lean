import ConstraintCompiler.Proofs.Declarations

/-!
Contract: what holds of a session at every moment of its use.

Owns:
- `Model.stated`, the postings recorded and, after them, those that wait;
- `Session.Compiled`, that composites with a variable are defined by a stated posting, that accepted
  declarations have a stated posting that ends them, and that nothing else is stated;
- for each kind of change that an action makes, that `Session.Compiled` survives it.

Does not own: flushes, for which the waiting postings must be acceptable.
-/

namespace ConstraintCompiler

def Interaction.posting? : Interaction → Option Posting
  | .post posting => some posting
  | .allocate _ | .fail _ | .idle => none

/-- Postings recorded, then postings waiting, in the order of their statement. -/
def Model.stated (model : Model) : List Posting :=
  model.problem.postings ++ model.queue.filterMap Interaction.posting?

theorem Model.stated_post (model : Model) (posting : Posting) (journal : Array Event) :
    ({ model with queue := model.queue ++ [.post posting], journal } : Model).stated =
      model.stated ++ [posting] := by
  simp [Model.stated, Interaction.posting?]

theorem Model.stated_define (model : Model) (label : Label) (connective : Connective)
    (arguments : List Argument) (kind : Kind) :
    (define label connective arguments kind model).2.stated = model.stated ++
      [connective.posting arguments (.var (model.problem.nextVariable kind))] := by
  simp [Model.stated, Problem.allocate, Interaction.posting?]

namespace Session

/-- The label is that of a composite built here, whose operands the model represents by the
arguments; the variable has its kind, and the domain of an added variable. -/
structure Introduces (session : Session) (label : Label) (v : Variable) (connective : Connective)
    (operands : List Expression) (kind : Kind) (arguments : List Argument) : Prop where
  built : session.built[label]? = some (.composite label connective operands kind)
  kind_eq : v.kind = kind
  domain : session.model.problem.domains[v.id]? =
    some (session.model.settings.auxiliaryDomain kind)
  represents : session.model.RepresentsOperands connective operands arguments

theorem Introduces.id_lt {session : Session} {label : Label} {v : Variable}
    {connective : Connective} {operands : List Expression} {kind : Kind} {arguments : List Argument}
    (introduces : session.Introduces label v connective operands kind arguments) :
    v.id < session.model.problem.size :=
  (List.getElem?_eq_some_iff.mp introduces.domain).1

theorem Introduces.mono {before after : Session} {label : Label} {v : Variable}
    {connective : Connective} {operands : List Expression} {kind : Kind} {arguments : List Argument}
    (introduces : before.Introduces label v connective operands kind arguments)
    (built : ∀ (label : Label) (expression : Expression), before.built[label]? = some expression →
      after.built[label]? = some expression)
    (settings : after.model.settings = before.model.settings)
    (domains : ∀ (id : Nat) (domain : Domain),
      before.model.problem.domains[id]? = some domain →
        after.model.problem.domains[id]? = some domain)
    (definitions : ∀ entry ∈ before.model.definitions, entry ∈ after.model.definitions) :
    after.Introduces label v connective operands kind arguments where
  built := built _ _ introduces.built
  kind_eq := introduces.kind_eq
  domain := by
    rw [settings]
    exact domains _ _ introduces.domain
  represents := introduces.represents.mono definitions

theorem Introduces.defining {session : Session} {label : Label} {connective : Connective}
    {operands : List Expression} {kind : Kind} {arguments : List Argument}
    (built : session.built[label]? = some (.composite label connective operands kind))
    (represents : session.model.RepresentsOperands connective operands arguments) :
    Introduces { session with
      model := (Model.define label connective arguments kind session.model).2 } label
      (session.model.problem.nextVariable kind) connective operands kind arguments where
  built := built
  kind_eq := rfl
  domain := Problem.domain?_allocate_nextVariable _ _ kind
  represents := represents.mono fun _ member => List.mem_cons_of_mem _ member

def Defines (session : Session) (label : Label) (v : Variable) : Prop :=
  ∃ connective operands kind arguments,
    session.Introduces label v connective operands kind arguments ∧
      connective.posting arguments (.var v) ∈ session.model.stated

/-- The posting defines a composite, or ends a declaration that was accepted. -/
inductive Accounts (session : Session) : Posting → Prop where
  | definition {label : Label} {v : Variable} {connective : Connective}
      {operands : List Expression} {kind : Kind} {arguments : List Argument}
      (defined : (label, v) ∈ session.model.definitions)
      (introduces : session.Introduces label v connective operands kind arguments) :
      Accounts session (connective.posting arguments (.var v))
  | declaration {declaration : Declaration} {plan : Plan} {posting : Posting}
      (declared : declaration ∈ session.declared) (planned : declaration.plan = .ok plan)
      (finishes : session.model.Finishes plan posting) : Accounts session posting

def Ends (session : Session) (declaration : Declaration) : Prop :=
  ∃ plan posting, declaration.plan = .ok plan ∧ session.model.Finishes plan posting ∧
    posting ∈ session.model.stated

/-- Everything a session states defines a composite or ends a declaration, and nothing that it owes
is missing. -/
structure Compiled (session : Session) : Prop where
  wellBuilt : session.IsWellBuilt
  labels : session.model.nextLabel = session.built.length
  atHand : ∀ subject ∈ session.subjects, session.AtHand subject
  queued : ∀ interaction ∈ session.model.queue, ∃ posting, interaction = .post posting
  defines : ∀ label v, (label, v) ∈ session.model.definitions → session.Defines label v
  occurs : ∀ label v, (label, v) ∈ session.model.definitions →
    ∀ expression, session.built[label]? = some expression →
      Expression.OccursIn session.subjects expression
  separate : session.model.definitions.Pairwise fun newer older =>
    newer.1 ≠ older.1 ∧ older.2.id < newer.2.id
  accounts : ∀ posting ∈ session.model.stated, session.Accounts posting
  ends : ∀ declaration ∈ session.declared, session.Ends declaration

/-- What holds of everything in subjects holds of the composites that have a variable. -/
theorem Compiled.forall_added {session : Session} (compiled : session.Compiled)
    {property : Expression → Prop}
    (parts : ∀ subject ∈ session.subjects, ∀ part : Expression, part.Within subject →
      property part) :
    ∀ label v, (label, v) ∈ session.model.definitions →
      ∀ expression, session.built[label]? = some expression → property expression := by
  intro label v defined expression built
  obtain ⟨subject, member, within⟩ := compiled.occurs label v defined expression built
  exact parts subject member expression within

theorem Compiled.atHand_of_occurs {session : Session} (compiled : session.Compiled)
    {expression : Expression} (occurs : Expression.OccursIn session.subjects expression) :
    session.AtHand expression := by
  obtain ⟨subject, member, within⟩ := occurs
  exact (compiled.atHand subject member).within compiled.wellBuilt within

/-! ### Growth -/

structure Grows (before after : Session) : Prop where
  built : ∀ (label : Label) (expression : Expression), before.built[label]? = some expression →
    after.built[label]? = some expression
  settings : after.model.settings = before.model.settings
  domains : ∀ (id : Nat) (domain : Domain), before.model.problem.domains[id]? = some domain →
    after.model.problem.domains[id]? = some domain
  definitions : ∀ entry ∈ before.model.definitions, entry ∈ after.model.definitions
  stated : ∀ posting ∈ before.model.stated, posting ∈ after.model.stated
  subjects : ∀ subject ∈ before.subjects, subject ∈ after.subjects
  declared : ∀ declaration ∈ before.declared, declaration ∈ after.declared

theorem Grows.naming (session : Session) (expressions : List Expression) :
    session.Grows { session with resolved := session.resolved ++ expressions } := by
  refine ⟨fun _ _ => id, rfl, fun _ _ => id, fun _ => id, fun _ => id, ?_, fun _ => id⟩
  intro subject member
  rcases List.mem_append.mp member with resolved | declared
  · exact List.mem_append_left _ (List.mem_append_left _ resolved)
  · exact List.mem_append_right _ declared

theorem mem_subjects_accepting {session : Session} {resolved : List Expression}
    {declaration : Declaration} (model : Model)
    (subjects : session.resolved = resolved ++ declaration.expressions) (subject : Expression) :
    subject ∈ session.subjects ↔
      subject ∈ Session.subjects { session with
        model
        resolved
        declared := session.declared ++ [declaration] } := by
  simp only [Session.subjects, subjects, List.flatMap_append, List.flatMap_singleton,
    List.mem_append]
  tauto

/-- Stating a posting and accepting a declaration, whose expressions are subjects already, takes
nothing away. -/
theorem Grows.accepting {session : Session} {resolved : List Expression}
    {declaration : Declaration} (posting : Posting) (journal : Array Event)
    (subjects : session.resolved = resolved ++ declaration.expressions) :
    session.Grows { session with
      model := { session.model with
        queue := session.model.queue ++ [.post posting]
        journal }
      resolved
      declared := session.declared ++ [declaration] } := by
  refine ⟨fun _ _ => id, rfl, fun _ _ => id, fun _ => id, ?_,
    fun subject => (mem_subjects_accepting _ subjects subject).mp,
    fun _ => List.mem_append_left _⟩
  intro other member
  rw [Model.stated_post]
  exact List.mem_append_left _ member

namespace Grows

variable {before after : Session} (grows : before.Grows after)

include grows

theorem knows {v : Variable} (known : before.model.problem.Knows v) :
    after.model.problem.Knows v := by
  obtain ⟨domain, found, kind⟩ := known.domain
  exact Problem.variableObjection?_eq_none_iff.mpr ⟨domain, grows.domains _ _ found, kind⟩

theorem atHand {expression : Expression} (atHand : before.AtHand expression) :
    after.AtHand expression := by
  cases expression with
  | «variable» v => exact grows.knows atHand
  | array items => exact fun v member => grows.knows (atHand v member)
  | constant literal => trivial
  | composite label connective operands kind => exact grows.built _ _ atHand

theorem introduces {label : Label} {v : Variable} {connective : Connective}
    {operands : List Expression} {kind : Kind} {arguments : List Argument}
    (introduces : before.Introduces label v connective operands kind arguments) :
    after.Introduces label v connective operands kind arguments :=
  introduces.mono grows.built grows.settings grows.domains grows.definitions

theorem defines {label : Label} {v : Variable} (defines : before.Defines label v) :
    after.Defines label v := by
  obtain ⟨connective, operands, kind, arguments, introduces, stated⟩ := defines
  exact ⟨connective, operands, kind, arguments, grows.introduces introduces,
    grows.stated _ stated⟩

theorem accounts {posting : Posting} (accounts : before.Accounts posting) :
    after.Accounts posting := by
  cases accounts with
  | definition defined introduces =>
      exact .definition (grows.definitions _ defined) (grows.introduces introduces)
  | declaration declared planned finishes =>
      exact .declaration (grows.declared _ declared) planned (finishes.mono grows.definitions)

theorem ends {declaration : Declaration} (ends : before.Ends declaration) :
    after.Ends declaration := by
  obtain ⟨plan, posting, planned, finishes, stated⟩ := ends
  exact ⟨plan, posting, planned, finishes.mono grows.definitions, grows.stated _ stated⟩

/-- Composites that were well built are so later, if no others were built. -/
theorem isWellBuilt (wellBuilt : before.IsWellBuilt) (same : after.built = before.built) :
    after.IsWellBuilt := by
  intro label expression found
  rw [same] at found
  obtain ⟨connective, operands, kind, composite, joins, operandsAtHand⟩ := wellBuilt _ _ found
  exact ⟨connective, operands, kind, composite, joins,
    fun operand member => grows.atHand (operandsAtHand operand member)⟩

end Grows

/-! ### Changes that state nothing -/

namespace Compiled

/-- A session that grows without stating, defining or accepting anything stays compiled. -/
theorem quiet {before after : Session} (compiled : before.Compiled) (grows : before.Grows after)
    (definitions : after.model.definitions = before.model.definitions)
    (stated : after.model.stated = before.model.stated)
    (declared : after.declared = before.declared)
    (queued : ∀ interaction ∈ after.model.queue, ∃ posting, interaction = .post posting)
    (wellBuilt : after.IsWellBuilt) (labels : after.model.nextLabel = after.built.length)
    (atHand : ∀ subject ∈ after.subjects, after.AtHand subject) : after.Compiled where
  wellBuilt := wellBuilt
  labels := labels
  atHand := atHand
  queued := queued
  defines := by
    rw [definitions]
    exact fun label v defined => grows.defines (compiled.defines label v defined)
  occurs := by
    rw [definitions]
    intro label v defined expression found
    obtain ⟨_, _, _, _, introduces, _⟩ := compiled.defines label v defined
    have same := (grows.built _ _ introduces.built).symm.trans found
    cases same
    exact (compiled.occurs label v defined _ introduces.built).subset grows.subjects
  separate := by
    rw [definitions]
    exact compiled.separate
  accounts := by
    rw [stated]
    exact fun posting member => grows.accounts (compiled.accounts posting member)
  ends := by
    rw [declared]
    exact fun declaration member => grows.ends (compiled.ends declaration member)

variable {session : Session} (compiled : session.Compiled)

include compiled

theorem allocating (more : List Domain) (auxiliaries : Nat) :
    Compiled { session with
      model := { session.model with
        problem := { session.model.problem with
          domains := session.model.problem.domains ++ more }
        auxiliaries } } := by
  have grows : session.Grows { session with
      model := { session.model with
        problem := { session.model.problem with
          domains := session.model.problem.domains ++ more }
        auxiliaries } } := by
    refine ⟨fun _ _ => id, rfl, ?_, fun _ => id, fun _ => id, fun _ => id, fun _ => id⟩
    intro id domain found
    exact getElem?_append_of_some found _
  exact compiled.quiet grows rfl rfl rfl compiled.queued (grows.isWellBuilt compiled.wellBuilt rfl)
    compiled.labels fun subject member => grows.atHand (compiled.atHand subject member)

theorem resolving {expressions : List Expression}
    (atHand : ∀ expression ∈ expressions, session.AtHand expression) :
    Compiled { session with resolved := session.resolved ++ expressions } := by
  have grows := Grows.naming session expressions
  refine compiled.quiet grows rfl rfl rfl compiled.queued (grows.isWellBuilt compiled.wellBuilt rfl)
    compiled.labels ?_
  intro subject member
  rcases List.mem_append.mp member with resolved | declared
  · rcases List.mem_append.mp resolved with earlier | new
    · exact grows.atHand (compiled.atHand subject (List.mem_append_left _ earlier))
    · exact grows.atHand (atHand subject new)
  · exact grows.atHand (compiled.atHand subject (List.mem_append_right _ declared))

theorem building {connective : Connective} {operands : List Expression} {kind : Kind}
    (joins : connective.Joins operands kind)
    (atHand : ∀ operand ∈ operands, session.AtHand operand) :
    Compiled { session with
      model := { session.model with nextLabel := session.model.nextLabel + 1 }
      built := session.built ++
        [.composite session.model.nextLabel connective operands kind] } := by
  have grows : session.Grows { session with
      model := { session.model with nextLabel := session.model.nextLabel + 1 }
      built := session.built ++
        [.composite session.model.nextLabel connective operands kind] } := by
    refine ⟨?_, rfl, fun _ _ => id, fun _ => id, fun _ => id, fun _ => id, fun _ => id⟩
    intro label expression found
    exact getElem?_append_of_some found _
  refine compiled.quiet grows rfl rfl rfl compiled.queued ?_ (by simp [compiled.labels])
    fun subject member => grows.atHand (compiled.atHand subject member)
  intro label expression found
  rcases getElem?_concat_cases found with earlier | ⟨position, rfl⟩
  · obtain ⟨_, _, _, composite, partsJoin, operandsAtHand⟩ := compiled.wellBuilt _ _ earlier
    exact ⟨_, _, _, composite, partsJoin,
      fun operand member => grows.atHand (operandsAtHand operand member)⟩
  · exact ⟨connective, operands, kind, by rw [position, compiled.labels], joins,
      fun operand member => grows.atHand (atHand operand member)⟩

/-! ### Changes that state a posting -/

/-- Defining a composite that occurs in a subject, and whose operands are represented, keeps a
session compiled. -/
theorem defining {label : Label} {connective : Connective} {operands : List Expression}
    {kind : Kind} {arguments : List Argument}
    (built : session.built[label]? = some (.composite label connective operands kind))
    (occurs : Expression.OccursIn session.subjects (.composite label connective operands kind))
    (undefined : session.model.definition? label = none)
    (represents : session.model.RepresentsOperands connective operands arguments) :
    Compiled { session with
      model := (Model.define label connective arguments kind session.model).2 } := by
  have stated := Model.stated_define session.model label connective arguments kind
  have grows : session.Grows { session with
      model := (Model.define label connective arguments kind session.model).2 } := by
    refine ⟨fun _ _ => id, rfl, ?_, ?_, ?_, fun _ => id, fun _ => id⟩
    · intro id domain found
      exact getElem?_append_of_some found _
    · exact fun entry member => List.mem_cons_of_mem _ member
    · intro posting member
      rw [stated]
      exact List.mem_append_left _ member
  have introduces := Introduces.defining built represents
  refine ⟨grows.isWellBuilt compiled.wellBuilt rfl, compiled.labels, ?_, ?_, ?_, ?_, ?_, ?_, ?_⟩
  · exact fun subject member => grows.atHand (compiled.atHand subject member)
  · intro interaction member
    rcases List.mem_append.mp member with earlier | new
    · exact compiled.queued interaction earlier
    · exact ⟨_, List.mem_singleton.mp new⟩
  · intro other v defined
    rcases List.mem_cons.mp defined with new | earlier
    · cases new
      refine ⟨connective, operands, kind, arguments, introduces, ?_⟩
      rw [stated]
      exact List.mem_append_right _ (List.mem_singleton_self _)
    · exact grows.defines (compiled.defines other v earlier)
  · intro other v defined expression found
    rcases List.mem_cons.mp defined with new | earlier
    · cases new
      cases built.symm.trans found
      exact occurs
    · exact compiled.occurs other v earlier expression found
  · refine List.pairwise_cons.mpr ⟨?_, compiled.separate⟩
    rintro ⟨other, v⟩ earlier
    obtain ⟨_, _, _, _, earlierIntroduces, _⟩ := compiled.defines other v earlier
    constructor
    · simpa using List.lookup_eq_none_iff.mp undefined (other, v) earlier
    · exact earlierIntroduces.id_lt
  · intro posting member
    rw [stated] at member
    rcases List.mem_append.mp member with earlier | new
    · exact grows.accounts (compiled.accounts posting earlier)
    · rw [List.mem_singleton.mp new]
      exact .definition (List.mem_cons_self ..) introduces
  · exact fun declaration member => grows.ends (compiled.ends declaration member)

/-- Elaborating the model with composites that occur in subjects keeps a session compiled. -/
theorem elaborating {scope : Expression → Prop} {after : Model}
    (elaborates : session.model.Elaborates scope after)
    (inScope : ∀ expression, expression.label? ≠ none → scope expression →
      Expression.OccursIn session.subjects expression) :
    Compiled { session with model := after } := by
  induction elaborates with
  | refl => exact compiled
  | define _ inner undefined represents inductionHypothesis =>
      have occurs := inScope (.composite _ _ _ _) (Option.some_ne_none _) inner
      have built := compiled.atHand_of_occurs occurs
      exact inductionHypothesis.defining built occurs undefined represents

/-- Stating the posting that ends a declaration, whose expressions are subjects already, lets the
session accept it. -/
theorem ending {declaration : Declaration} {plan : Plan} {posting : Posting}
    {resolved : List Expression} (journal : Array Event) (planned : declaration.plan = .ok plan)
    (finishes : session.model.Finishes plan posting)
    (subjects : session.resolved = resolved ++ declaration.expressions) :
    Compiled { session with
      model := { session.model with
        queue := session.model.queue ++ [.post posting]
        journal }
      resolved
      declared := session.declared ++ [declaration] } := by
  have stated := Model.stated_post session.model posting journal
  have sameSubjects := mem_subjects_accepting session.model subjects
  have grows := Grows.accepting posting journal subjects
  refine ⟨grows.isWellBuilt compiled.wellBuilt rfl, compiled.labels, ?_, ?_, ?_, ?_,
    compiled.separate, ?_, ?_⟩
  · exact fun subject member =>
      grows.atHand (compiled.atHand subject ((sameSubjects subject).mpr member))
  · intro interaction member
    rcases List.mem_append.mp member with earlier | new
    · exact compiled.queued interaction earlier
    · exact ⟨_, List.mem_singleton.mp new⟩
  · exact fun label v defined => grows.defines (compiled.defines label v defined)
  · intro label v defined expression found
    exact (compiled.occurs label v defined expression found).subset grows.subjects
  · intro other member
    rw [stated] at member
    rcases List.mem_append.mp member with earlier | new
    · exact grows.accounts (compiled.accounts other earlier)
    · rw [List.mem_singleton.mp new]
      exact .declaration (List.mem_append_right _ (List.mem_singleton_self _)) planned
        (finishes.mono grows.definitions)
  · intro other member
    rcases List.mem_append.mp member with earlier | new
    · exact grows.ends (compiled.ends other earlier)
    · rw [List.mem_singleton.mp new]
      refine ⟨plan, posting, planned, finishes.mono grows.definitions, ?_⟩
      rw [stated]
      exact List.mem_append_right _ (List.mem_singleton_self _)

end Compiled

end Session

end ConstraintCompiler
