import ConstraintCompiler.Proofs.Queueing
import ConstraintCompiler.Proofs.Recording

/-!
Contract: what flushes make of the queue.

Owns:
- `Problem.attempts`, the postings that a flush processes, each with the rejection that it meets;
- `Session.queued`, `Session.processed` and `Session.failures`, what a run has put in the queue,
  taken from it and failed with;
- `Session.Balances`, that what is recorded, what waits and what was performed add up to these,
  which every move preserves;
- `Session.queued_in_order`: this holds after all moves, and where flushes stand among the moves
  does not matter unless a posting is rejected.

Does not own: which postings are rejected.
-/

namespace ConstraintCompiler

def failure? {Error Answer : Type} : Except Error Answer → Option Error
  | .error error => some error
  | .ok _ => none

theorem Interaction.filterMap_posting? (postings : List Posting) :
    (postings.map post).filterMap posting? = postings := by
  simp [posting?, Function.comp_def]

/-- A posting that was taken from the queue to be recorded, and the rejection that it met, if
any. -/
structure Attempt where
  posting : Posting
  rejection : Option Rejection

namespace Attempt

def accepted (attempts : List Attempt) : List Posting :=
  (attempts.filter fun attempt => attempt.rejection.isNone).map posting

def rejections (attempts : List Attempt) : List Rejection := attempts.filterMap rejection

theorem accepted_append (first second : List Attempt) :
    accepted (first ++ second) = accepted first ++ accepted second := by
  rw [accepted, List.filter_append, List.map_append, accepted, accepted]

theorem rejections_append (first second : List Attempt) :
    rejections (first ++ second) = rejections first ++ rejections second :=
  List.filterMap_append

theorem accepted_of_rejections_nil {attempts : List Attempt} (none : rejections attempts = []) :
    accepted attempts = attempts.map posting := by
  rw [accepted, List.filter_eq_self.mpr]
  intro attempt member
  rw [Option.isNone_iff_eq_none]
  exact List.forall_none_of_filterMap_eq_nil none attempt member

end Attempt

open Attempt (accepted rejections)

/-- What a flush processes of waiting postings: all of them, or those up to the first that is
rejected. -/
def Problem.attempts (problem : Problem) : List Posting → List Attempt
  | [] => []
  | posting :: rest =>
      match problem.post posting with
      | .ok next => ⟨posting, none⟩ :: next.attempts rest
      | .error rejection => [⟨posting, some rejection⟩]

namespace Problem

theorem attempts_cons_ok {problem next : Problem} {posting : Posting}
    (records : problem.post posting = .ok next) (rest : List Posting) :
    problem.attempts (posting :: rest) = ⟨posting, none⟩ :: next.attempts rest := by
  rw [attempts, records]

theorem attempts_cons_error {problem : Problem} {posting : Posting} {rejection : Rejection}
    (rejects : problem.post posting = .error rejection) (rest : List Posting) :
    problem.attempts (posting :: rest) = [⟨posting, some rejection⟩] := by
  rw [attempts, rejects]

/-- The postings that are processed stand at the front. -/
theorem attempts_split (problem : Problem) (waiting : List Posting) :
    waiting = (problem.attempts waiting).map Attempt.posting ++
      waiting.drop (problem.attempts waiting).length := by
  induction waiting generalizing problem with
  | nil => rfl
  | cons posting rest inductionHypothesis =>
      cases posted : problem.post posting with
      | error rejection => rw [attempts_cons_error posted]; rfl
      | ok next =>
          rw [attempts_cons_ok posted]
          exact congrArg (posting :: ·) (inductionHypothesis next)

/-- With a rejection, a flush processes some postings that it records, and then the one that is
rejected. -/
theorem attempts_of_rejection {problem : Problem} {waiting : List Posting} {rejection : Rejection}
    (rejects : rejection ∈ rejections (problem.attempts waiting)) :
    ∃ recorded rejected left, waiting = recorded ++ rejected :: left ∧
      problem.attempts waiting = recorded.map (⟨·, none⟩) ++ [⟨rejected, some rejection⟩] ∧
      post { problem with postings := problem.postings ++ recorded } rejected =
        .error rejection := by
  induction waiting generalizing problem with
  | nil => cases rejects
  | cons posting rest inductionHypothesis =>
      cases posted : problem.post posting with
      | error found =>
          rw [attempts_cons_error posted] at rejects ⊢
          cases List.mem_singleton.mp rejects
          exact ⟨[], posting, rest, rfl, rfl, by rw [List.append_nil]; exact posted⟩
      | ok next =>
          rw [attempts_cons_ok posted] at rejects ⊢
          obtain ⟨recorded, rejected, left, rfl, processed, refused⟩ := inductionHypothesis rejects
          obtain ⟨_, rfl⟩ := post_eq_ok.mp posted
          refine ⟨posting :: recorded, rejected, left, rfl, ?_, ?_⟩
          · rw [processed]
            rfl
          · simpa using refused

end Problem

namespace Model

def processing (model : Model) (waiting : List Posting) (journal : Array Event) : Model :=
  let attempts := model.problem.attempts waiting
  { model with
    problem := { model.problem with postings := model.problem.postings ++ accepted attempts }
    queue := (waiting.drop attempts.length).map .post
    executed := model.executed + (accepted attempts).length
    journal }

/-- Draining makes the attempts that waiting postings stand for, and fails with their rejection. -/
theorem drain_attempts (waiting : List Posting) (count : Nat) (model : Model) :
    ∃ result journal,
      drain (waiting.map .post) count model = (result, model.processing waiting journal) ∧
        (failure? result).toList = rejections (model.problem.attempts waiting) := by
  induction waiting generalizing count model with
  | nil => exact ⟨.ok count, model.journal, by simp [drain, processing, Problem.attempts, accepted],
      rfl⟩
  | cons posting rest inductionHypothesis =>
      cases posted : model.problem.post posting with
      | error rejection =>
          refine ⟨.error rejection, model.journal, ?_, by
            rw [Problem.attempts_cons_error posted]; rfl⟩
          rw [List.map_cons, drain, Interaction.run, posted]
          simp [processing, Problem.attempts_cons_error posted, accepted, bind, Except.bind]
      | ok next =>
          obtain ⟨result, journal, drained, failed⟩ := inductionHypothesis (count + 1)
            { model with
              problem := next
              executed := model.executed + 1
              journal := model.journal ++
                [Event.recorded posting.primitive model.problem.postings.length] }
          refine ⟨result, journal, ?_, ?_⟩
          · rw [List.map_cons, drain, Interaction.run, posted]
            refine drained.trans ?_
            obtain ⟨_, rfl⟩ := Problem.post_eq_ok.mp posted
            simp [processing, Problem.attempts_cons_ok posted, accepted, Nat.add_assoc,
              Nat.add_comm 1]
          · rw [Problem.attempts_cons_ok posted]
            exact failed

/-- A flush makes the attempts that its queue stands for, and fails with their rejection. -/
theorem flush_attempts {model : Model} {waiting : List Posting}
    (queue : model.queue = waiting.map .post) :
    ∃ journal, (flush model).2 = model.processing waiting journal ∧
      (failure? (flush model).1).toList =
        (rejections (model.problem.attempts waiting)).map .rejected := by
  obtain ⟨result, journal, drained, failed⟩ := drain_attempts waiting 0 model
  rw [← queue] at drained
  rw [← failed]
  cases result with
  | error rejection =>
      have flushed : flush model =
          (.error (.rejected rejection), model.processing waiting journal) := by
        simp only [flush, ExceptT.mk, drained]
      exact ⟨journal, by rw [flushed], by rw [flushed]; rfl⟩
  | ok count =>
      have flushed : ∃ reported, flush model =
          (.ok count, model.processing waiting reported) := by
        simp only [flush, ExceptT.mk, drained]
        exact ⟨_, rfl⟩
      obtain ⟨reported, flushed⟩ := flushed
      exact ⟨reported, by rw [flushed], by rw [flushed]; rfl⟩

theorem solve_failure (settings : Search.Settings) (model : Model) :
    failure? (solve settings model).1 = failure? (flush model).1 := by
  rw [solve]
  simp only [discard, Functor.mapConst, Function.comp_def, ExceptT.map, bind, ExceptT.bind,
    ExceptT.mk, StateT.bind]
  rcases flush model with ⟨_ | _, after⟩ <;> rfl

end Model

/-! ### Runs -/

namespace Session

def waiting (session : Session) : List Posting :=
  session.model.queue.filterMap Interaction.posting?

/-- Postings that a move puts in the queue: those behind what waited before it. A flush puts in
none. -/
def queues (session : Session) (move : Move) : List Posting :=
  if move.flushes then []
  else ((session.advance move).model.queue.drop session.model.queue.length).filterMap
    Interaction.posting?

def attempts (session : Session) (move : Move) : List Attempt :=
  if move.flushes then session.model.problem.attempts session.waiting else []

def failure? (session : Session) : Move → Option Error
  | .act .flush => ConstraintCompiler.failure? (Model.flush session.model).1
  | .solve settings => ConstraintCompiler.failure? (Model.solve settings session.model).1
  | .act _ => none

/-- What moves contribute, one after the other, each to the session that it finds. -/
def gather {Item : Type} (contribution : Session → Move → List Item) :
    Session → List Move → List Item
  | _, [] => []
  | session, move :: rest =>
      contribution session move ++ (session.advance move).gather contribution rest

def queued : Session → List Move → List Posting := gather queues

def processed : Session → List Move → List Attempt := gather attempts

def failures : Session → List Move → List Error :=
  gather fun session move => (session.failure? move).toList

def OnlyPosts (session : Session) : Prop := session.model.queue = session.waiting.map .post

/-- What was queued is what was processed and what waits. Of what was processed, the accepted
postings are recorded and counted, and flushes failed with the rejections of the others. -/
structure Balances (session : Session) (queued : List Posting) (processed : List Attempt)
    (failures : List Error) : Prop where
  onlyPosts : session.OnlyPosts
  split : queued = processed.map Attempt.posting ++ session.waiting
  recorded : session.model.problem.postings = accepted processed
  executed : session.model.executed = (accepted processed).length
  failed : failures = (rejections processed).map .rejected

theorem waiting_of_queue {session : Session} {postings : List Posting}
    (queue : session.model.queue = postings.map .post) : session.waiting = postings := by
  rw [waiting, queue, Interaction.filterMap_posting?]

section Moves

variable {session : Session} {move : Move}

/-- A move that flushes makes the attempts that its queue stands for. -/
theorem advance_of_flushes (flushes : move.flushes = true) (onlyPosts : session.OnlyPosts) :
    (∃ journal, session.advance move =
        { session with model := session.model.processing session.waiting journal }) ∧
      (session.failure? move).toList = (rejections (session.attempts move)).map .rejected := by
  obtain ⟨journal, flushed, failed⟩ := Model.flush_attempts onlyPosts
  rw [attempts, if_pos flushes, ← failed]
  cases move with
  | solve settings =>
      obtain ⟨reported, solved⟩ := Model.solve_model settings session.model
      refine ⟨⟨reported, ?_⟩, ?_⟩
      · rw [advance, solved, flushed]
        rfl
      · rw [failure?, Model.solve_failure]
  | act action =>
      cases action with
      | flush => exact ⟨⟨journal, by rw [advance, step, flushed]⟩, rfl⟩
      | _ => cases flushes

/-- A move that does not flush only adds postings at the end of the queue. -/
theorem advance_of_quiet (quiet : move.flushes = false) {first second : Session}
    (agrees : first.Agrees second) :
    (first.advance move).Agrees (second.advance move) ∧
      first.queues move = second.queues move ∧
      first.model.Queues (first.advance move).model (first.queues move) := by
  cases move with
  | solve settings => cases quiet
  | act action =>
      obtain ⟨after, added, inFirst, inSecond⟩ := step_queueing quiet agrees
      have queues_eq : ∀ session : Session,
          session.model.Queues (session.step action).model added →
            session.queues (.act action) = added := by
        intro session inSession
        rw [queues, if_neg (by rw [quiet]; exact Bool.false_ne_true), advance, inSession.queue,
          List.drop_left]
        exact Interaction.filterMap_posting? added
      rw [queues_eq first inFirst, queues_eq second inSecond]
      exact ⟨after, rfl, inFirst⟩

theorem failure?_of_quiet (quiet : move.flushes = false) : session.failure? move = none := by
  cases move with
  | solve settings => cases quiet
  | act action =>
      cases action with
      | flush => cases quiet
      | _ => rfl

theorem waiting_of_quiet (quiet : move.flushes = false) (onlyPosts : session.OnlyPosts) :
    (session.advance move).waiting = session.waiting ++ session.queues move := by
  obtain ⟨_, _, added⟩ := advance_of_quiet quiet (.refl session)
  apply waiting_of_queue
  rw [added.queue, onlyPosts, List.map_append]

theorem waiting_of_flushes (flushes : move.flushes = true) (onlyPosts : session.OnlyPosts) :
    (session.advance move).waiting = session.waiting.drop (session.attempts move).length := by
  obtain ⟨⟨journal, after⟩, _⟩ := advance_of_flushes flushes onlyPosts
  rw [after, attempts, if_pos flushes]
  exact waiting_of_queue rfl

theorem OnlyPosts.advance (onlyPosts : session.OnlyPosts) (move : Move) :
    (session.advance move).OnlyPosts := by
  cases flushes : move.flushes with
  | true =>
      obtain ⟨⟨journal, after⟩, _⟩ := advance_of_flushes flushes onlyPosts
      rw [OnlyPosts, waiting_of_flushes flushes onlyPosts, attempts, if_pos flushes, after]
      rfl
  | false =>
      obtain ⟨_, _, added⟩ := advance_of_quiet flushes (.refl session)
      rw [OnlyPosts, waiting_of_quiet flushes onlyPosts, added.queue, onlyPosts, List.map_append]

/-- Every move keeps the account in balance. -/
theorem Balances.advance {queued : List Posting} {processed : List Attempt} {failures : List Error}
    (balances : session.Balances queued processed failures) (move : Move) :
    (session.advance move).Balances (queued ++ session.queues move)
      (processed ++ session.attempts move) (failures ++ (session.failure? move).toList) := by
  have onlyPosts := balances.onlyPosts.advance move
  cases flushes : move.flushes with
  | true =>
      obtain ⟨⟨journal, after⟩, failed⟩ := advance_of_flushes flushes balances.onlyPosts
      have left := waiting_of_flushes flushes balances.onlyPosts
      have front : session.waiting = (session.attempts move).map Attempt.posting ++
          session.waiting.drop (session.attempts move).length := by
        rw [attempts, if_pos flushes]
        exact session.model.problem.attempts_split session.waiting
      refine ⟨onlyPosts, ?_, ?_, ?_, ?_⟩
      · rw [left, queues, if_pos flushes, List.append_nil, List.map_append, List.append_assoc,
          ← front]
        exact balances.split
      · rw [Attempt.accepted_append, ← balances.recorded, attempts, if_pos flushes, after]
        rfl
      · rw [Attempt.accepted_append, List.length_append, ← balances.executed, attempts,
          if_pos flushes, after]
        rfl
      · rw [Attempt.rejections_append, List.map_append, ← balances.failed, failed]
  | false =>
      obtain ⟨_, _, added⟩ := advance_of_quiet flushes (.refl session)
      have noAttempts : session.attempts move = [] := by
        rw [attempts, if_neg (by rw [flushes]; exact Bool.false_ne_true)]
      rw [noAttempts, failure?_of_quiet flushes, List.append_nil]
      refine ⟨onlyPosts, ?_, ?_, ?_, ?_⟩
      · rw [waiting_of_quiet flushes balances.onlyPosts, ← List.append_assoc, ← balances.split]
      · rw [added.recorded, balances.recorded]
      · rw [added.executed, balances.executed]
      · rw [balances.failed]
        exact List.append_nil _

end Moves

theorem Balances.play {session : Session} {queued : List Posting} {processed : List Attempt}
    {failures : List Error} (balances : session.Balances queued processed failures)
    (moves : List Move) :
    (session.play moves).Balances (queued ++ session.queued moves)
      (processed ++ session.processed moves) (failures ++ session.failures moves) := by
  induction moves generalizing session queued processed failures with
  | nil =>
      simp only [Session.queued, Session.processed, Session.failures, gather, List.append_nil]
      exact balances
  | cons move rest inductionHypothesis =>
      have after := inductionHypothesis (balances.advance move)
      simp only [List.append_assoc] at after
      exact after

theorem balances_start (settings : Model.Settings) : (start settings).Balances [] [] [] :=
  ⟨rfl, rfl, rfl, rfl, rfl⟩

/-- A flush between the sessions failed with the error: it recorded what waited in front of one
posting, dropped that posting, which was rejected, and left what waits behind it. It changed nothing
else that a later move could see. -/
def StopsAt (before after : Session) (error : Error) : Prop :=
  ∃ recorded rejected left rejection,
    before.waiting = recorded ++ rejected :: left ∧
      error = .rejected rejection ∧
      Problem.post { before.model.problem with
        postings := before.model.problem.postings ++ recorded } rejected = .error rejection ∧
      after.model.problem = { before.model.problem with
        postings := before.model.problem.postings ++ recorded } ∧
      after.model.queue = left.map .post ∧
      after.Agrees before

theorem stopsAt_of_failure {session : Session} {move : Move} {error : Error}
    (onlyPosts : session.OnlyPosts) (failed : session.failure? move = some error) :
    session.StopsAt (session.advance move) error := by
  have flushes : move.flushes = true := by
    by_contra quiet
    rw [failure?_of_quiet (Bool.not_eq_true _ ▸ quiet)] at failed
    cases failed
  obtain ⟨⟨journal, after⟩, errors⟩ := advance_of_flushes flushes onlyPosts
  rw [failed, attempts, if_pos flushes] at errors
  have reported : error ∈ (some error).toList := List.mem_singleton_self error
  rw [errors] at reported
  obtain ⟨rejection, rejects, rfl⟩ := List.mem_map.mp reported
  obtain ⟨recorded, rejected, left, waits, processed, refused⟩ :=
    Problem.attempts_of_rejection rejects
  have taken : accepted (session.model.problem.attempts session.waiting) = recorded := by
    rw [processed, Attempt.accepted_append]
    simp [accepted, List.filter_map, Function.comp_def]
  refine ⟨recorded, rejected, left, rejection, waits, rfl, refused, ?_, ?_, ?_⟩
  · rw [after, Model.processing, taken]
  · rw [after, Model.processing, processed, waits]
    simp
  · rw [after]
    exact ⟨⟨rfl, rfl, rfl, rfl, rfl⟩, rfl, rfl, rfl⟩

def withoutFlushes (moves : List Move) : List Move := moves.filter fun move => !move.flushes

/-- Without the flushes among them, moves lead to a session that agrees, and queue the same. -/
theorem play_withoutFlushes {first second : Session} (agrees : first.Agrees second)
    (onlyPosts : first.OnlyPosts) (moves : List Move) :
    (first.play moves).Agrees (second.play (withoutFlushes moves)) ∧
      first.queued moves = second.queued (withoutFlushes moves) := by
  induction moves generalizing first second with
  | nil => exact ⟨agrees, rfl⟩
  | cons move rest inductionHypothesis =>
      have onlyPostsAfter := onlyPosts.advance move
      cases flushes : move.flushes with
      | true =>
          obtain ⟨⟨journal, after⟩, _⟩ := advance_of_flushes flushes onlyPosts
          have unchanged : (first.advance move).Agrees first := by
            rw [after]
            exact ⟨⟨rfl, rfl, rfl, rfl, rfl⟩, rfl, rfl, rfl⟩
          obtain ⟨sessions, queues⟩ := inductionHypothesis (unchanged.trans agrees) onlyPostsAfter
          have left : withoutFlushes (move :: rest) = withoutFlushes rest :=
            List.filter_cons_of_neg (by simp [flushes])
          have queued : first.queued (move :: rest) = (first.advance move).queued rest := by
            rw [Session.queued, gather, Session.queues, if_pos flushes, List.nil_append]
          rw [left, queued]
          exact ⟨sessions, queues⟩
      | false =>
          obtain ⟨agreesAfter, sameQueues, _⟩ := advance_of_quiet flushes agrees
          obtain ⟨sessions, queues⟩ := inductionHypothesis agreesAfter onlyPostsAfter
          have kept : withoutFlushes (move :: rest) = move :: withoutFlushes rest :=
            List.filter_cons_of_pos (by simp [flushes])
          rw [kept]
          refine ⟨sessions, ?_⟩
          show first.queues move ++ (first.advance move).queued rest =
            second.queues move ++ (second.advance move).queued (withoutFlushes rest)
          rw [sameQueues, queues]

/-- Where no flush failed, all that was queued is recorded or waits. -/
theorem Balances.stated_eq {session : Session} {queued : List Posting} {processed : List Attempt}
    (balances : session.Balances queued processed []) : session.model.stated = queued := by
  have none : rejections processed = [] := List.map_eq_nil_iff.mp balances.failed.symm
  rw [balances.split, ← Attempt.accepted_of_rejections_nil none, ← balances.recorded]
  rfl

/-- After all moves, what was queued is what was processed and what waits, in order. The accepted
postings among the processed ones are recorded, in order, and their number is the number of
performed interactions; the errors of flushes are the rejections of the others. A flush that fails
leaves everything behind the posting at which it fails. Other moves that differ only in their
flushes queue the same and allocate the same variables, and record the same if nothing is rejected
in either and nothing waits in the end. -/
theorem queued_in_order (settings : Model.Settings) (moves : List Move) :
    let session := (start settings).play moves
    session.Balances ((start settings).queued moves) ((start settings).processed moves)
        ((start settings).failures moves) ∧
      (∀ move error, session.failure? move = some error →
        session.StopsAt (session.advance move) error) ∧
      ∀ others, withoutFlushes others = withoutFlushes moves →
        let other := (start settings).play others
        other.Agrees session ∧
          (start settings).queued others = (start settings).queued moves ∧
          ((start settings).failures moves = [] → (start settings).failures others = [] →
            other.model.stated = session.model.stated ∧
              (session.waiting = [] → other.waiting = [] →
                other.model.problem = session.model.problem ∧
                  other.model.executed = session.model.executed)) := by
  intro session
  have balancesAfter : ∀ moves, ((start settings).play moves).Balances
      ((start settings).queued moves) ((start settings).processed moves)
        ((start settings).failures moves) := by
    intro moves
    simpa using (balances_start settings).play moves
  have balances := balancesAfter moves
  refine ⟨balances, fun move error => stopsAt_of_failure balances.onlyPosts, ?_⟩
  intro others same other
  have start_onlyPosts : (start settings).OnlyPosts := rfl
  obtain ⟨agrees, queued⟩ := play_withoutFlushes (.refl _) start_onlyPosts moves
  obtain ⟨otherAgrees, otherQueued⟩ := play_withoutFlushes (.refl _) start_onlyPosts others
  rw [same] at otherAgrees otherQueued
  have sessions : other.Agrees session := otherAgrees.trans agrees.symm
  have sameQueued := otherQueued.trans queued.symm
  refine ⟨sessions, sameQueued, fun succeeds otherSucceeds => ?_⟩
  have otherBalances := balancesAfter others
  rw [succeeds] at balances
  rw [otherSucceeds] at otherBalances
  have stated : other.model.stated = session.model.stated := by
    rw [balances.stated_eq, otherBalances.stated_eq, sameQueued]
  refine ⟨stated, fun nothingWaits otherNothingWaits => ?_⟩
  have recorded : other.model.problem.postings = session.model.problem.postings := by
    have both : other.model.problem.postings ++ other.waiting =
        session.model.problem.postings ++ session.waiting := stated
    rwa [nothingWaits, otherNothingWaits, List.append_nil, List.append_nil] at both
  constructor
  · exact congrArg₂ Problem.mk sessions.model.domains recorded
  · rw [balances.executed, otherBalances.executed, ← balances.recorded, ← otherBalances.recorded,
      recorded]

/-- Two truth values are stated to be true, with a flush after each declaration. -/
def flushesTwice : List Move :=
  [ .act (.allocateArray 2 .bool),
    .act (.declare { statement := .truth (.variable ⟨0, .bool⟩) true }),
    .act .flush,
    .act (.declare { statement := .truth (.variable ⟨1, .bool⟩) true }),
    .solve {} ]

def flushesOnce : List Move := withoutFlushes flushesTwice ++ [.act .flush]

theorem flushesTwice_in_order :
    ((start {}).play losesConjunction).model.executed = 1 ∧
      ((start {}).play flushesOnce).model.problem = ((start {}).play flushesTwice).model.problem ∧
      ((start {}).play flushesTwice).model.executed = 2 := by
  obtain ⟨lost, -, -⟩ := queued_in_order {} losesConjunction
  obtain ⟨balances, -, independent⟩ := queued_in_order {} flushesTwice
  obtain ⟨-, -, same⟩ := independent flushesOnce rfl
  exact ⟨lost.executed, ((same rfl rfl).2 rfl rfl).1, balances.executed⟩

end Session

end ConstraintCompiler
