import Springtale.Beat.Machine

/-! Votes of a formation: ballots, overrides, and how a vote resolves. -/
namespace Springtale.Beat

open Springtale.Core Springtale.Formation

structure Ballot where
  term : Nat
  voter : Uuid
  committed : Bool
deriving DecidableEq

/-- Ballots by term, then committed over uncommitted, then by voter. -/
def Ballot.cmp (a b : Ballot) : Ordering :=
  (compare a.term b.term).then ((compare a.committed b.committed).then (compare a.voter b.voter))

inductive DecisionSubject where
  | destructiveAction (task : SubTask)
  | intentChange (proposed : IntentPattern)
deriving DecidableEq

/-- The task a decision is about. -/
def DecisionSubject.task : DecisionSubject → Option SubTask
  | .destructiveAction task => some task
  | .intentChange _ => none

@[simp] theorem DecisionSubject.task_destructiveAction (task : SubTask) :
    (DecisionSubject.destructiveAction task).task = some task := rfl

@[simp] theorem DecisionSubject.task_intentChange (proposed : IntentPattern) :
    (DecisionSubject.intentChange proposed).task = none := rfl

structure DecisionDescriptor where
  options : List String
  requiredParticipants : Nat
  subject : DecisionSubject
deriving DecidableEq

/-- A vote. Its ballots are the last of each voter. -/
structure ConsensusVote where
  question : DecisionDescriptor
  term : Nat
  ballots : List (Uuid × Ballot × VoteChoice)
  deadline : Nat
  overridesRemaining : List (Uuid × Nat)
  committed : Option (Ballot × VoteChoice)
deriving DecidableEq

/-- What one `resolve` call reads: the clock, and the order in which the table of counts lists the
choices. -/
structure Reading where
  now : Nat
  listed : List VoteChoice

/-- `max_by_key`: the last of the elements with the greatest key. -/
def maxByKey {α : Type*} (key : α → Nat) : List α → Option α
  | [] => none
  | x :: xs =>
    match maxByKey key xs with
    | none => some x
    | some y => if key x ≤ key y then some y else some x

namespace ConsensusVote

def insertBallot (ballot : Ballot) (choice : VoteChoice) (v : ConsensusVote) : ConsensusVote :=
  { v with ballots := (ballot.voter, ballot, choice) :: v.ballots.filter (·.1 ≠ ballot.voter) }

def vote (agentId : Uuid) (choice : VoteChoice) (v : ConsensusVote) : ConsensusVote :=
  v.insertBallot ⟨v.term, agentId, false⟩ choice

/-- An override costs a token; the highest committed ballot is kept. -/
def tryOverride (agentId : Uuid) (choice : VoteChoice) (v : ConsensusVote) :
    Option (VoteResolution × ConsensusVote) :=
  match v.overridesRemaining.lookup agentId with
  | none | some 0 => none
  | some (remaining + 1) =>
    let ballot : Ballot := ⟨v.term, agentId, true⟩
    let replace := v.committed.all fun (existing, _) => ballot.cmp existing = .gt
    some (.override agentId choice,
      { v with
        overridesRemaining := v.overridesRemaining.map fun (agent, tokens) =>
          if agent = agentId then (agent, remaining) else (agent, tokens)
        committed := if replace then some (ballot, choice) else v.committed }.insertBallot
        ballot choice)

/-- The choices that were cast, without the abstentions. -/
def castChoices (v : ConsensusVote) : List VoteChoice :=
  ((v.ballots.map (·.2.2)).filter (· ≠ .abstain)).dedup

def tally (v : ConsensusVote) (choice : VoteChoice) : Nat := v.ballots.countP (·.2.2 = choice)

/-- The most popular choice; a tie goes to the last one listed. -/
def winner (listed : List VoteChoice) (v : ConsensusVote) : VoteChoice :=
  (maxByKey v.tally listed).getD .abstain

/-- A committed ballot wins, then the deadline ends the vote, then the quorum. -/
def resolve (reading : Reading) (v : ConsensusVote) : Option VoteResolution :=
  match v.committed with
  | some (ballot, choice) => some (.override ballot.voter choice)
  | none =>
    if v.deadline ≤ reading.now then some (.timeout (v.winner reading.listed))
    else if v.question.requiredParticipants ≤ v.ballots.length then
      some (.majority (v.winner reading.listed))
    else none

end ConsensusVote

/-- The active votes by id. -/
structure ConsensusEngine where
  activeVotes : List (Uuid × ConsensusVote)
  nextTerm : Nat

namespace ConsensusEngine

def new : ConsensusEngine := ⟨[], 1⟩

/-- A new vote, under the id drawn for it. -/
def propose (id now : Nat) (question : DecisionDescriptor) (deadline : Nat) (voters : List Uuid)
    (overrideTokens : Nat) (engine : ConsensusEngine) : ConsensusEngine where
  activeVotes := engine.activeVotes ++ [(id,
    { question
      term := engine.nextTerm
      ballots := []
      deadline := now + deadline
      overridesRemaining := voters.map (·, overrideTokens)
      committed := none })]
  nextTerm := engine.nextTerm + 1

/-- `get_mut`: the vote with that id changes. -/
def setVote (voteId : Uuid) (vote : ConsensusVote) :
    List (Uuid × ConsensusVote) → List (Uuid × ConsensusVote)
  | [] => []
  | (id, v) :: votes =>
    if id = voteId then (id, vote) :: votes else (id, v) :: setVote voteId vote votes

/-- A ballot on an active vote; other ids are rejected. -/
def vote (voteId agentId : Uuid) (choice : VoteChoice) (engine : ConsensusEngine) :
    Option ConsensusEngine :=
  (engine.activeVotes.lookup voteId).map fun v =>
    { engine with activeVotes := setVote voteId (v.vote agentId choice) engine.activeVotes }

def tryOverride (voteId agentId : Uuid) (choice : VoteChoice) (engine : ConsensusEngine) :
    Option (VoteResolution × ConsensusEngine) :=
  ((engine.activeVotes.lookup voteId).bind (·.tryOverride agentId choice)).map
    fun (resolution, v) =>
      (resolution, { engine with activeVotes := setVote voteId v engine.activeVotes })

/-- A vote that resolves at its reading. -/
def ready (readings : Uuid → Reading) (entry : Uuid × ConsensusVote) : Bool :=
  (entry.2.resolve (readings entry.1)).isSome

/-- The votes that a first reading finds ready leave the active set; a second one resolves them.
`order` is the order in which the table of votes lists them. -/
def resolveReady (order : List (Uuid × ConsensusVote)) (first second : Uuid → Reading)
    (engine : ConsensusEngine) :
    List (Uuid × DecisionDescriptor × VoteResolution) × ConsensusEngine :=
  ((order.filter (ready first)).filterMap fun (id, v) =>
      (v.resolve (second id)).map fun resolution => (id, v.question, resolution),
    { engine with activeVotes := engine.activeVotes.filter (!ready first ·) })

/-- The tasks that the votes of a table are about. -/
def tasks (votes : List (Uuid × ConsensusVote)) : List SubTask :=
  votes.filterMap (·.2.question.subject.task)

/-- The tasks under an open vote. -/
def subjects (engine : ConsensusEngine) : List SubTask := tasks engine.activeVotes

variable {engine : ConsensusEngine}

theorem subjects_propose (id now : Nat) (question : DecisionDescriptor) (deadline : Nat)
    (voters : List Uuid) (overrideTokens : Nat) :
    (engine.propose id now question deadline voters overrideTokens).subjects =
      engine.subjects ++ question.subject.task.toList := by
  cases htask : question.subject.task <;> simp [subjects, tasks, propose, htask]

/-- A vote that keeps its question keeps its task. -/
theorem tasks_setVote {voteId : Uuid} {v v' : ConsensusVote} {votes : List (Uuid × ConsensusVote)}
    (hfound : votes.lookup voteId = some v) (hquestion : v'.question = v.question) :
    tasks (setVote voteId v' votes) = tasks votes := by
  induction votes with
  | nil => cases hfound
  | cons first votes ih =>
    obtain ⟨id, vote⟩ := first
    by_cases hid : id = voteId
    · subst hid
      obtain rfl : vote = v := by simpa using hfound
      rw [setVote, if_pos rfl, tasks, tasks, List.filterMap_cons, List.filterMap_cons, hquestion]
    · have hother : (voteId == id) = false := by simpa using Ne.symm hid
      have hrest : votes.lookup voteId = some v := by
        rwa [List.lookup_cons, hother] at hfound
      have htasks := ih hrest
      simp only [tasks] at htasks
      simp only [setVote, if_neg hid, tasks, List.filterMap_cons, htasks]

theorem subjects_vote {voteId agentId : Uuid} {choice : VoteChoice} {engine' : ConsensusEngine}
    (h : engine.vote voteId agentId choice = some engine') : engine'.subjects = engine.subjects := by
  obtain ⟨v, hfound, rfl⟩ := Option.map_eq_some_iff.mp h
  exact tasks_setVote hfound rfl

theorem tryOverride_question {v v' : ConsensusVote} {agentId : Uuid} {choice : VoteChoice}
    {resolution : VoteResolution} (h : v.tryOverride agentId choice = some (resolution, v')) :
    v'.question = v.question := by
  unfold ConsensusVote.tryOverride at h
  split at h
  · cases h
  · cases h
  · cases h
    rfl

theorem subjects_tryOverride {voteId agentId : Uuid} {choice : VoteChoice}
    {resolution : VoteResolution} {engine' : ConsensusEngine}
    (h : engine.tryOverride voteId agentId choice = some (resolution, engine')) :
    engine'.subjects = engine.subjects := by
  obtain ⟨⟨resolution, v'⟩, hvote, heq⟩ := Option.map_eq_some_iff.mp h
  cases heq
  obtain ⟨v, hfound, hv⟩ := Option.bind_eq_some_iff.mp hvote
  exact tasks_setVote hfound (tryOverride_question hv)

/-- The active votes are those that are ready and those that stay. -/
theorem subjects_perm {order : List (Uuid × ConsensusVote)} (first second : Uuid → Reading)
    (horder : order.Perm engine.activeVotes) :
    engine.subjects.Perm
      (tasks (order.filter (ready first)) ++
        (engine.resolveReady order first second).2.subjects) := by
  have hsplit := (List.filter_append_perm (ready first) engine.activeVotes).symm
  have hready := (horder.filter (ready first)).symm
  have htasks := (hsplit.trans (hready.append_right _)).filterMap (·.2.question.subject.task)
  rwa [List.filterMap_append] at htasks

end ConsensusEngine

end Springtale.Beat
