import Springtale.Beat.Consensus
import Springtale.Beat.Votes

/-! A formation with its votes: the beat's machine, and the commands and the step of the tick that
open, fill and resolve its votes. -/
namespace Springtale.Beat

open Springtale.Core Springtale.Formation Springtale.Sentinel Springtale.Lib

inductive ConsensusEvent where
  | dispatched (taskId : Uuid)
  | resolved (taskId : Uuid) (resolution : VoteResolution)
deriving DecidableEq

/-- A vote on the task ended with a majority or an override for "approve", its first option. -/
def ConsensusEvent.approves (taskId : Uuid) : ConsensusEvent → Bool
  | .resolved id (.majority (.option 0)) => id = taskId
  | .resolved id (.override _ (.option 0)) => id = taskId
  | _ => false

@[simp] theorem ConsensusEvent.approves_dispatched (taskId id : Uuid) :
    (ConsensusEvent.dispatched id).approves taskId = false := rfl

/-- A formation's run with its votes. `log` is what happened so far, which no function of the code
reads: the calls that started and the votes on tasks that resolved. -/
structure VotingRun where
  run : Run
  consensus : ConsensusEngine
  log : List ConsensusEvent

inductive VotingLabel where
  | beat (label : Label)
  | posted (now : Nat) (ids : List Uuid)
  | proposeIntent (now id : Nat) (intent : IntentPattern)
  | castVote (voteId voter : Uuid) (approve : Bool)
  | tryOverride (voteId agentId : Uuid) (choice : VoteChoice)
  | resolveConsensus (order : List (Uuid × ConsensusVote)) (first second : Uuid → Reading)

/-- A vote that is ready at the first reading still resolves at the second one. -/
def VotingLabel.settles : VotingLabel → Bool
  | .resolveConsensus order first second =>
    order.all fun entry =>
      !ConsensusEngine.ready first entry || ConsensusEngine.ready second entry
  | _ => true

/-- The start of a call is a dispatch of its task. -/
def Run.dispatched (run : Run) : Label → List ConsensusEvent
  | .spawn => run.phase.queued.head?.toList.map fun job => .dispatched job.task.id
  | _ => []

/-- The members that vote. -/
def Formation.voters (formation : Formation) : List Uuid :=
  (formation.members.filter (·.operational)).map (·.agentId)

def approveOrDeny (voters : List Uuid) (subject : DecisionSubject) : DecisionDescriptor :=
  ⟨["approve", "deny"], voters.length, subject⟩

/-- `propose_all`: a vote of five seconds on each task, under the ids drawn for them. -/
def ConsensusEngine.proposeAll (now : Nat) (ids : List Uuid) (proposals : List SubTask)
    (voters : List Uuid) (engine : ConsensusEngine) : ConsensusEngine :=
  (ids.zip proposals).foldl (fun engine (id, task) =>
    engine.propose id now (approveOrDeny voters (.destructiveAction task)) 5000 voters 1) engine

theorem ConsensusEngine.subjects_proposeAll {engine : ConsensusEngine} (now : Nat)
    {ids : List Uuid} {proposals : List SubTask} (voters : List Uuid)
    (hids : ids.length = proposals.length) :
    (engine.proposeAll now ids proposals voters).subjects = engine.subjects ++ proposals := by
  unfold proposeAll
  induction proposals generalizing ids engine with
  | nil => simp
  | cons task proposals ih =>
    cases ids with
    | nil => cases hids
    | cons id ids =>
      rw [List.zip_cons_cons, List.foldl_cons, ih (by simpa using hids), subjects_propose]
      simp [approveOrDeny]

/-- A resolved vote on a task mints a permit or removes the task. A changed intent is no part of
the beat. -/
def Formation.applyResolution (formation : Formation) :
    Uuid × DecisionDescriptor × VoteResolution → Formation
  | (_, descriptor, resolution) =>
    match descriptor.subject with
    | .destructiveAction task => formation.resolve task (destructiveOutcome resolution)
    | .intentChange _ => formation

def resolutionEvent : Uuid × DecisionDescriptor × VoteResolution → Option ConsensusEvent
  | (_, descriptor, resolution) =>
    descriptor.subject.task.map fun task => .resolved task.id resolution

namespace VotingRun

/-- A step of the machine that opens and resolves no vote. -/
def beat (label : Label) (s : VotingRun) : Option VotingRun :=
  match label with
  | .posted | .upkeep (.resolve ..) => none
  | label =>
    (step s.run label).map fun run => { s with run, log := s.log ++ s.run.dispatched label }

def posted (now : Nat) (ids : List Uuid) (s : VotingRun) : Option VotingRun :=
  match s.run.phase with
  | .gathering [] proposals =>
    if ids.length = proposals.length ∧ (s.consensus.activeVotes.map (·.1) ++ ids).Nodup then
      some { s with
        run := ⟨s.run.formation.proposeAll proposals, .idle⟩
        consensus := s.consensus.proposeAll now ids proposals s.run.formation.voters }
    else none
  | _ => none

/-- The commands and the step of the tick that change the votes run between two beats. -/
def between (f : VotingRun → Option VotingRun) (s : VotingRun) : Option VotingRun :=
  match s.run.phase with
  | .idle => f s
  | _ => none

/-- Only a formation at Fever may vote on its intent. -/
def proposeIntent (now id : Nat) (intent : IntentPattern) (s : VotingRun) : Option VotingRun :=
  if s.run.formation.momentumTier = .fever ∧ id ∉ s.consensus.activeVotes.map (·.1) then
    let voters := s.run.formation.voters
    some { s with
      consensus :=
        s.consensus.propose id now (approveOrDeny voters (.intentChange intent)) 10000 voters 1 }
  else none

def castVote (voteId voter : Uuid) (approve : Bool) (s : VotingRun) : Option VotingRun :=
  (s.consensus.vote voteId voter (.option (if approve then 0 else 1))).map fun consensus =>
    { s with consensus }

def tryOverride (voteId agentId : Uuid) (choice : VoteChoice) (s : VotingRun) :
    Option VotingRun :=
  (s.consensus.tryOverride voteId agentId choice).map fun (_, consensus) => { s with consensus }

/-- A reading lists the choices cast on its vote. -/
def reads (s : VotingRun) (readings : Uuid → Reading) : Bool :=
  s.consensus.activeVotes.all fun (id, v) => (readings id).listed.isPerm v.castChoices

/-- `resolve_consensus::run`. -/
def resolveConsensus (order : List (Uuid × ConsensusVote)) (first second : Uuid → Reading)
    (s : VotingRun) : Option VotingRun :=
  if order.isPerm s.consensus.activeVotes ∧ s.reads first ∧ s.reads second then
    let (resolved, consensus) := s.consensus.resolveReady order first second
    let applied := resolved.foldl Formation.applyResolution s.run.formation
    let closed := ConsensusEngine.tasks (order.filter (ConsensusEngine.ready first))
    some {
      run := { s.run with formation := { applied with votes := applied.votes.diff closed } }
      consensus
      log := s.log ++ resolved.filterMap resolutionEvent }
  else none

def step (s : VotingRun) : VotingLabel → Option VotingRun
  | .beat label => s.beat label
  | .posted now ids => s.posted now ids
  | .proposeIntent now id intent => s.between (proposeIntent now id intent)
  | .castVote voteId voter approve => s.between (castVote voteId voter approve)
  | .tryOverride voteId agentId choice => s.between (tryOverride voteId agentId choice)
  | .resolveConsensus order first second => s.between (resolveConsensus order first second)

def Steps (s : VotingRun) (label : VotingLabel) (s' : VotingRun) : Prop := s.step label = some s'

/-- A new formation: no claim, no call, no vote and no permit. -/
structure Fresh (s : VotingRun) : Prop where
  run : Beat.Fresh s.run
  votes : s.run.formation.votes = []
  awaiting : s.run.formation.awaitingConsensus = []
  approved : s.run.formation.consensusApproved = []
  consensus : s.consensus.activeVotes = []
  log : s.log = []

section Inversion

variable {s s' : VotingRun}

theorem beat_cases {label : Label} (hstep : s.beat label = some s') :
    (∃ run, Beat.step s.run label = some run ∧
        s' = { s with run, log := s.log ++ s.run.dispatched label }) ∧
      label ≠ .posted ∧ ∀ index resolution, label ≠ .upkeep (.resolve index resolution) := by
  unfold beat at hstep
  split at hstep
  · cases hstep
  · cases hstep
  · rename_i hposted hresolve
    obtain ⟨run, hrun, rfl⟩ := Option.map_eq_some_iff.mp hstep
    exact ⟨⟨run, hrun, rfl⟩, hposted, hresolve⟩

theorem posted_cases {now : Nat} {ids : List Uuid} (hstep : s.posted now ids = some s') :
    ∃ proposals, s.run.phase = .gathering [] proposals ∧ ids.length = proposals.length ∧
      (s.consensus.activeVotes.map (·.1) ++ ids).Nodup ∧
      s' = { s with
        run := ⟨s.run.formation.proposeAll proposals, .idle⟩
        consensus := s.consensus.proposeAll now ids proposals s.run.formation.voters } := by
  unfold posted at hstep
  split at hstep
  case h_2 => cases hstep
  case h_1 proposals hphase =>
    split at hstep
    · rename_i hids
      cases hstep
      exact ⟨proposals, hphase, hids.1, hids.2, rfl⟩
    · cases hstep

theorem between_cases {f : VotingRun → Option VotingRun} (hstep : s.between f = some s') :
    s.run.phase = .idle ∧ f s = some s' := by
  unfold between at hstep
  split at hstep
  · rename_i hphase
    exact ⟨hphase, hstep⟩
  · cases hstep

theorem resolveConsensus_cases {order : List (Uuid × ConsensusVote)} {first second : Uuid → Reading}
    (hstep : s.resolveConsensus order first second = some s') :
    order.Perm s.consensus.activeVotes ∧
      s' = {
        run := { s.run with formation := {
          (s.consensus.resolveReady order first second).1.foldl Formation.applyResolution
            s.run.formation with
          votes := ((s.consensus.resolveReady order first second).1.foldl
              Formation.applyResolution s.run.formation).votes.diff
            (ConsensusEngine.tasks (order.filter (ConsensusEngine.ready first))) } }
        consensus := (s.consensus.resolveReady order first second).2
        log := s.log ++
          (s.consensus.resolveReady order first second).1.filterMap resolutionEvent } := by
  unfold resolveConsensus at hstep
  split at hstep
  · rename_i hchecks
    cases hstep
    exact ⟨List.isPerm_iff.mp hchecks.1, rfl⟩
  · cases hstep

end Inversion

@[simp] theorem resolve_policy (task : SubTask) (outcome : VoteOutcome) (formation : Formation) :
    (formation.resolve task outcome).destructiveActionPolicy =
      formation.destructiveActionPolicy := by
  unfold Formation.resolve
  split <;> rfl

theorem applyResolution_policy (resolved : List (Uuid × DecisionDescriptor × VoteResolution))
    (formation : Formation) :
    (resolved.foldl Formation.applyResolution formation).destructiveActionPolicy =
      formation.destructiveActionPolicy := by
  induction resolved generalizing formation with
  | nil => rfl
  | cons r resolved ih =>
    rw [List.foldl_cons, ih]
    obtain ⟨id, ⟨options, required, subject⟩, resolution⟩ := r
    cases subject <;> simp [Formation.applyResolution]

/-- The decisions resolved among those that were ready. -/
theorem resolved_tasks (engine : ConsensusEngine) {order : List (Uuid × ConsensusVote)}
    {first second : Uuid → Reading}
    (hsettles : (VotingLabel.resolveConsensus order first second).settles = true) :
    (engine.resolveReady order first second).1.filterMap (·.2.1.subject.task) =
      ConsensusEngine.tasks (order.filter (ConsensusEngine.ready first)) := by
  simp only [ConsensusEngine.resolveReady, ConsensusEngine.tasks, List.filterMap_filterMap]
  apply List.filterMap_congr
  rintro ⟨id, v⟩ hmem
  obtain ⟨hmem, hfirst⟩ := List.mem_filter.mp hmem
  have hready : ConsensusEngine.ready second (id, v) = true := by
    simpa [hfirst] using List.all_eq_true.mp hsettles (id, v) hmem
  obtain ⟨resolution, hsecond⟩ := Option.isSome_iff_exists.mp hready
  simp [hsecond]

theorem applyResolution_awaiting (r : Uuid × DecisionDescriptor × VoteResolution)
    (formation : Formation) :
    (formation.applyResolution r).awaitingConsensus =
      formation.awaitingConsensus.filter (· ∉ r.2.1.subject.task.map (·.id)) := by
  obtain ⟨id, ⟨options, required, subject⟩, resolution⟩ := r
  cases subject with
  | intentChange proposed => simp [Formation.applyResolution]
  | destructiveAction task =>
    simp only [Formation.applyResolution, Formation.resolve, DecisionSubject.task_destructiveAction,
      Option.map_some]
    split <;> simp [eq_comm]

theorem mem_awaiting_applied (resolved : List (Uuid × DecisionDescriptor × VoteResolution))
    (formation : Formation) (taskId : Uuid) :
    taskId ∈ (resolved.foldl Formation.applyResolution formation).awaitingConsensus ↔
      taskId ∈ formation.awaitingConsensus ∧
        taskId ∉ (resolved.filterMap (·.2.1.subject.task)).map (·.id) := by
  induction resolved generalizing formation with
  | nil => simp
  | cons r resolved ih =>
    rw [List.foldl_cons, ih, applyResolution_awaiting, List.mem_filter]
    cases htask : r.2.1.subject.task with
    | none => simp [htask]
    | some task =>
      simp only [List.filterMap_cons, htask, List.map_cons, List.mem_cons, Option.map_some,
        Option.mem_some_iff]
      grind

section Refinement

/-- The formation's open votes are the engine's. -/
def InSync (s : VotingRun) : Prop := s.run.formation.votes.Perm s.consensus.subjects

theorem applyResolution_withVotes (votes : List SubTask)
    (resolved : List (Uuid × DecisionDescriptor × VoteResolution)) (formation : Formation) :
    resolved.foldl Formation.applyResolution { formation with votes } =
      { resolved.foldl Formation.applyResolution formation with votes } := by
  induction resolved generalizing formation with
  | nil => rfl
  | cons r resolved ih =>
    rw [List.foldl_cons, List.foldl_cons, ← ih]
    obtain ⟨id, ⟨options, required, subject⟩, resolution⟩ := r
    cases subject with
    | intentChange proposed => rfl
    | destructiveAction task =>
      simp only [Formation.applyResolution, Formation.resolve]
      split <;> rfl

theorem applyResolution_votes (resolved : List (Uuid × DecisionDescriptor × VoteResolution))
    (formation : Formation) :
    (resolved.foldl Formation.applyResolution formation).votes = formation.votes := by
  have hsame := applyResolution_withVotes formation.votes resolved formation
  rw [show ({ formation with votes := formation.votes } : Formation) = formation from rfl] at hsame
  rw [hsame]

/-- Resolutions of open votes are upkeep of the machine, one after the other. -/
theorem applied_reaches (resolved : List (Uuid × DecisionDescriptor × VoteResolution))
    (formation : Formation)
    (hopen : (resolved.filterMap (·.2.1.subject.task)).Subperm formation.votes) :
    Reaches Beat.Steps ⟨formation, .idle⟩
      ⟨{ resolved.foldl Formation.applyResolution formation with
          votes := formation.votes.diff (resolved.filterMap (·.2.1.subject.task)) }, .idle⟩ := by
  induction resolved generalizing formation with
  | nil => exact Reaches.refl _
  | cons r resolved ih =>
    obtain ⟨id, ⟨options, required, subject⟩, resolution⟩ := r
    cases subject with
    | intentChange proposed => exact ih formation hopen
    | destructiveAction task =>
      simp only [List.filterMap_cons, DecisionSubject.task_destructiveAction] at hopen ⊢
      have hmem : task ∈ formation.votes := hopen.subset List.mem_cons_self
      have hindex : formation.votes[formation.votes.idxOf task]? = some task := by
        rw [List.getElem?_eq_getElem (List.idxOf_lt_length_of_mem hmem), List.getElem_idxOf]
      have hfirst : Beat.Steps ⟨formation, .idle⟩
          (.upkeep (.resolve (formation.votes.idxOf task) resolution))
          ⟨{ formation.resolve task (destructiveOutcome resolution) with
              votes := formation.votes.erase task }, .idle⟩ := by
        rw [List.erase_eq_eraseIdx_of_idxOf rfl]
        simp only [Beat.Steps, Beat.step, Run.upkeep, Formation.upkeep, hindex, Option.map_some,
          Formation.resolve]
        split <;> rfl
      have hrest := ih { formation.resolve task (destructiveOutcome resolution) with
        votes := formation.votes.erase task } (by simpa using hopen.erase task)
      rw [applyResolution_withVotes] at hrest
      rw [List.diff_cons]
      exact ((Reaches.refl _).snoc hfirst).trans hrest

theorem resolveConsensus_refines {s s' : VotingRun} {order : List (Uuid × ConsensusVote)}
    {first second : Uuid → Reading} (hsync : s.InSync) (hphase : s.run.phase = .idle)
    (hsettles : (VotingLabel.resolveConsensus order first second).settles = true)
    (hstep : s.resolveConsensus order first second = some s') :
    s'.InSync ∧ Reaches Beat.Steps s.run s'.run := by
  obtain ⟨horder, rfl⟩ := resolveConsensus_cases hstep
  have hperm := hsync.trans (ConsensusEngine.subjects_perm first second horder)
  have htasks := resolved_tasks s.consensus hsettles
  refine ⟨?_, ?_⟩
  · simp only [InSync, applyResolution_votes]
    rw [List.perm_iff_count]
    intro task
    have hcount := hperm.count_eq task
    rw [List.count_append] at hcount
    rw [List.count_diff]
    omega
  · obtain ⟨⟨formation, phase⟩, consensus, log⟩ := s
    cases hphase
    have hopen : ((consensus.resolveReady order first second).1.filterMap
        (·.2.1.subject.task)).Subperm formation.votes := by
      rw [htasks]
      exact (List.sublist_append_left _ _).subperm.trans hperm.symm.subperm
    have hreaches := applied_reaches _ formation hopen
    rw [htasks] at hreaches
    simpa only [applyResolution_votes] using hreaches

/-- A step with the votes is a run of the machine. -/
theorem step_refines {s s' : VotingRun} {label : VotingLabel} (hsync : s.InSync)
    (hsettles : label.settles = true) (hstep : s.step label = some s') :
    s'.InSync ∧ Reaches Beat.Steps s.run s'.run := by
  cases label with
  | beat label =>
    obtain ⟨⟨run', hrun, rfl⟩, hposted, hresolve⟩ := beat_cases hstep
    have hvotes := (step_effect hrun hposted hresolve).votes
    exact ⟨(List.Perm.of_eq hvotes).trans hsync, (Reaches.refl _).snoc hrun⟩
  | posted now ids =>
    obtain ⟨proposals, hphase, hids, -, rfl⟩ := posted_cases hstep
    refine ⟨?_, (Reaches.refl _).snoc (a := .posted) ?_⟩
    · have hsubjects := s.consensus.subjects_proposeAll now s.run.formation.voters hids
      exact (hsync.append_right proposals).trans (.of_eq hsubjects.symm)
    · simp [Beat.Steps, Beat.step, Run.posted, hphase]
  | proposeIntent now id intent =>
    obtain ⟨-, hstep⟩ := between_cases hstep
    unfold proposeIntent at hstep
    split at hstep
    · cases hstep
      refine ⟨hsync.trans (.of_eq ?_), Reaches.refl _⟩
      simp [ConsensusEngine.subjects_propose, approveOrDeny]
    · cases hstep
  | castVote voteId voter approve =>
    obtain ⟨-, hstep⟩ := between_cases hstep
    obtain ⟨consensus, hvote, rfl⟩ := Option.map_eq_some_iff.mp hstep
    exact ⟨hsync.trans (.of_eq (ConsensusEngine.subjects_vote hvote).symm), Reaches.refl _⟩
  | tryOverride voteId agentId choice =>
    obtain ⟨-, hstep⟩ := between_cases hstep
    obtain ⟨⟨resolution, consensus⟩, hvote, rfl⟩ := Option.map_eq_some_iff.mp hstep
    exact ⟨hsync.trans (.of_eq (ConsensusEngine.subjects_tryOverride hvote).symm), Reaches.refl _⟩
  | resolveConsensus order first second =>
    obtain ⟨hphase, hstep⟩ := between_cases hstep
    exact resolveConsensus_refines hsync hphase hsettles hstep

/-- A run with the votes is a run of the machine. -/
theorem run_refines {start s : VotingRun} (hsync : start.InSync)
    (h : Reaches (Guarded (fun _ label => label.settles = true) Steps) start s) :
    Reaches Beat.Steps start.run s.run := by
  have hboth := h.invariant (fun s => s.InSync ∧ Reaches Beat.Steps start.run s.run)
    (fun _ _ _ ⟨hsettles, hstep⟩ ⟨hs, hrun⟩ =>
      have hnext := step_refines hs hsettles hstep
      ⟨hnext.1, hrun.trans hnext.2⟩)
    ⟨hsync, Reaches.refl _⟩
  exact hboth.2

end Refinement

end VotingRun

end Springtale.Beat
