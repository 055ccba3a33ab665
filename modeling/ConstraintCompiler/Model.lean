import ConstraintCompiler.Error
import ConstraintCompiler.Event
import ConstraintCompiler.Model.Settings
import ConstraintCompiler.Search

/-!
Contract: the state of a model under construction.

Owns:
- `Model`, the problem recorded so far, the queue in front of it, and the variables that composite
  expressions have been given;
- allocation, the queue and its flush, labels for new composites, and the call of a search.

Compilation queues postings and never records them. A flush runs the queue from the front. The
interaction that fails is dropped, those before it keep their effect, and those after it wait for
the next flush.

Does not own: the compilation of expressions and declarations.
-/

namespace ConstraintCompiler

inductive Interaction where
  | post (posting : Posting)
  | allocate (domain : Domain)
  | fail (rejection : Rejection)
  | idle
deriving DecidableEq

namespace Interaction

def run (problem : Problem) : Interaction → Except Rejection (Problem × List Event)
  | .post posting => do
      return (← problem.post posting, [.recorded posting.primitive problem.postings.length])
  | .allocate domain => .ok (problem.allocate domain, [])
  | .fail rejection => .error rejection
  | .idle => .ok (problem, [])

end Interaction

/-- A model: its settings, the recorded problem, the number of added variables, the waiting
interactions, the number of performed ones, the variable of each defined composite, the label of
the next composite, and the events so far. -/
structure Model where
  settings : Model.Settings := {}
  problem : Problem := {}
  auxiliaries : Nat := 0
  queue : List Interaction := []
  executed : Nat := 0
  definitions : List (Label × Variable) := []
  nextLabel : Label := 0
  journal : Array Event := #[]

/-- A computation on a model that may fail. A failure keeps the model it failed in. -/
abbrev Compile := ExceptT Error (StateM Model)

namespace Model

/-- An empty model with the given settings, if they are usable. -/
def withSettings (settings : Settings) : Except SettingsFault Model :=
  match settings.fault? with
  | some fault => .error fault
  | none => .ok { settings }

def definition? (model : Model) (label : Label) : Option Variable :=
  model.definitions.lookup label

def report (events : List Event) : StateM Model Unit :=
  modify fun model => { model with journal := model.journal ++ events }

def allocate (domain : Domain) : StateM Model Variable :=
  modifyGet fun model =>
    (model.problem.nextVariable domain.kind,
      { model with problem := model.problem.allocate domain })

def allocateArray (count : Nat) (domain : Domain) : StateM Model VariableArray :=
  modifyGet fun model =>
    ({ kind := domain.kind
       elements := (List.range count).map fun offset =>
         ⟨model.problem.size + offset, domain.kind⟩
       uniform := by simp },
      { model with
        problem := { model.problem with
          domains := model.problem.domains ++ List.replicate count domain } })

/-- Allocate an added variable of a kind, in the domain that the settings give it. -/
def fresh (kind : Kind) : StateM Model Variable :=
  modifyGet fun model =>
    let domain := model.settings.auxiliaryDomain kind
    (model.problem.nextVariable kind,
      { model with
        problem := model.problem.allocate domain
        auxiliaries := model.auxiliaries + 1 })

def enqueue (interaction : Interaction) : StateM Model Unit :=
  modify fun model => { model with queue := model.queue ++ [interaction] }

def enqueuePosting (posting : Posting) : StateM Model Unit := do
  report [.queued (← get).settings.name posting.primitive posting.negated posting.target]
  enqueue (.post posting)

/-- Record a posting at once, in front of the queue. -/
def post (posting : Posting) : Compile Unit := ExceptT.mk fun model =>
  match Interaction.run model.problem (.post posting) with
  | .error rejection => (.error (.rejected rejection), model)
  | .ok (problem, events) =>
      (.ok (), { model with problem, journal := model.journal ++ events })

/-- Perform the given interactions, counting on from the given number, and leave in the queue those
that were not reached. -/
def drain : List Interaction → Nat → Model → Except Rejection Nat × Model
  | [], count, model => (.ok count, { model with queue := [] })
  | interaction :: waiting, count, model =>
      match interaction.run model.problem with
      | .error rejection => (.error rejection, { model with queue := waiting })
      | .ok (problem, events) =>
          drain waiting (count + 1)
            { model with
              problem
              executed := model.executed + 1
              journal := model.journal ++ events }

/-- Perform the whole queue and answer the number of interactions, or fail at the first one that
the problem refuses. An empty queue is not reported. -/
def flush : Compile Nat := ExceptT.mk fun model =>
  match drain model.queue 0 model with
  | (.error rejection, model) => (.error (.rejected rejection), model)
  | (.ok count, model) =>
      let events := if count = 0 then [] else [Event.flushed model.settings.name count]
      (.ok count, { model with journal := model.journal ++ events })

def solve (settings : Search.Settings) : Compile Search.Outcome := do
  discard flush
  let (outcome, events) := Search.run settings (← get).problem
  report events
  return outcome

/-- Build a composite expression under the next label. A label is used up only by success. -/
def build (make : Label → Except Error Expression) : Compile Expression := ExceptT.mk fun model =>
  match make model.nextLabel with
  | .error error => (.error error, model)
  | .ok expression => (.ok expression, { model with nextLabel := model.nextLabel + 1 })

end Model

end ConstraintCompiler
