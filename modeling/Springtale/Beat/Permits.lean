import Springtale.Lib.Permit
import Springtale.Beat.Voting

/-! Consensus permits: a destructive task is dispatched at most once for each vote that approved
it. -/
namespace Springtale.Beat

open Springtale.Core Springtale.Sentinel Springtale.Lib

/-- An action that no hint declares as read-only or harmless. -/
def isDestructive (hints : Option ActionHints) : Bool :=
  hints.all fun h => !h.readOnly && h.destructive != some false

theorem needsConsensus_iff (hints : Option ActionHints) (formation : Formation) :
    formation.needsConsensus hints = true ↔
      isDestructive hints = true ∧ formation.destructiveActionPolicy = .requireConsensus := by
  simp [Formation.needsConsensus, isDestructive]

namespace VotingRun

/-- The policy stays `RequireConsensus`, and whoever claims the task finds its action
destructive. -/
def requiresVotes (taskId : Uuid) (s : VotingRun) : VotingLabel → Bool
  | .beat (.prepare autonomy hints) =>
    (s.run.claimTarget autonomy hints).all fun task => task.id ≠ taskId || isDestructive hints
  | .beat (.upkeep (.adjust _ policy _ _)) => policy = .requireConsensus
  | _ => true

/-- The permits of a task: cleared calls that wait for their start are reserved uses. -/
def account (taskId : Uuid) (s : VotingRun) : Permit.Account where
  held := decide (taskId ∈ s.run.formation.consensusApproved)
  reserved := (s.run.phase.queued.map (·.task.id)).count taskId
  used := s.log.count (.dispatched taskId)
  minted := s.log.countP (·.approves taskId)

variable {taskId : Uuid} {s s' : VotingRun}

/-- The next call's start is its dispatch. -/
theorem dispatched_spawn {run run' : Run} {job : DispatchJob}
    (hqueued : run.phase.queued = job :: run'.phase.queued) :
    run.dispatched .spawn = [.dispatched job.task.id] := by
  simp [Run.dispatched, hqueued, -Phase.queued]

/-- A cleared call of the task reserves its permit. -/
theorem reserves {hints : Option ActionHints} {task : SubTask}
    (hpolicy : s.run.formation.destructiveActionPolicy = .requireConsensus)
    (hdestructive : task.id = taskId → isDestructive hints = true)
    (hclears : Clears hints task s.run s'.run) (hlog : s'.log = s.log) :
    Reaches Permit.Step (account taskId s) (account taskId s') := by
  obtain ⟨agent, hqueued⟩ := hclears.queued
  by_cases htask : task.id = taskId
  · have hneeds := (needsConsensus_iff hints s.run.formation).mpr ⟨hdestructive htask, hpolicy⟩
    have hpermit : taskId ∈ s.run.formation.consensusApproved := htask ▸ hclears.approved hneeds
    have hheld : (account taskId s).held = true := by simpa [account] using hpermit
    have hafter : account taskId s' =
        { account taskId s with held := false, reserved := (account taskId s).reserved + 1 } := by
      simp [account, hclears.formation.approved, hneeds, hqueued, htask, hlog, -Phase.queued]
    rw [hafter]
    exact (Reaches.refl _).snoc (.reserve _ hheld)
  · have hsame : account taskId s' = account taskId s := by
      simp only [account, hclears.formation.approved, hqueued, hlog, List.map_append, List.map_cons,
        List.map_nil, List.count_append]
      split
      · simp [List.mem_filter, Ne.symm htask, htask]
      · simp [htask]
    rw [hsame]
    exact Reaches.refl _

/-- A call that leaves the queue was started or held back. -/
theorem dequeues {used : List ConsensusEvent} (hdequeues : Dequeues s.run s'.run)
    (hlog : s'.log = s.log ++ used)
    (hused : used = [] ∨ ∃ job, s.run.phase.queued = job :: s'.run.phase.queued ∧
      used = [.dispatched job.task.id]) :
    Reaches Permit.Step (account taskId s) (account taskId s') := by
  obtain ⟨job, hqueued⟩ := hdequeues.queued
  by_cases htask : job.task.id = taskId
  · have hreserved : (account taskId s).reserved = (account taskId s').reserved + 1 := by
      simp [account, hqueued, htask, -Phase.queued]
    rcases hused with rfl | ⟨job', hqueued', rfl⟩
    · have hafter : account taskId s' =
          { account taskId s with reserved := (account taskId s').reserved } := by
        simp [account, hdequeues.formation.approved, hlog]
      rw [hafter]
      exact (Reaches.refl _).snoc (.drop _ _ hreserved)
    · have hjob : job' = job := by
        have := hqueued'.symm.trans hqueued
        exact (List.cons.inj this).1
      subst hjob
      have hafter : account taskId s' =
          { account taskId s with
            reserved := (account taskId s').reserved
            used := (account taskId s).used + 1 } := by
        simp [account, hdequeues.formation.approved, hlog, htask]
      rw [hafter]
      exact (Reaches.refl _).snoc (.use _ _ hreserved)
  · have hsame : account taskId s' = account taskId s := by
      rcases hused with rfl | ⟨job', hqueued', rfl⟩
      · simp [account, hdequeues.formation.approved, hqueued, htask, hlog, -Phase.queued]
      · have hjob : job' = job := by
          have := hqueued'.symm.trans hqueued
          exact (List.cons.inj this).1
        subst hjob
        simp [account, hdequeues.formation.approved, hqueued, htask, hlog, -Phase.queued]
    rw [hsame]
    exact Reaches.refl _

/-- One resolution, with its entry in the log. -/
def applied (s : VotingRun) (r : Uuid × DecisionDescriptor × VoteResolution) : VotingRun :=
  { s with
    run := { s.run with formation := s.run.formation.applyResolution r }
    log := s.log ++ (resolutionEvent r).toList }

@[simp] theorem resolve_approved (task : SubTask) (outcome : VoteOutcome) (formation : Formation) :
    (formation.resolve task outcome).consensusApproved =
      if outcome = .approved then task.id :: formation.consensusApproved
      else formation.consensusApproved := by
  unfold Formation.resolve
  split <;> rfl

/-- The votes that approve are those after which the code adds a permit. -/
theorem approves_resolved (id : Uuid) (resolution : VoteResolution) :
    (ConsensusEvent.resolved id resolution).approves taskId = true ↔
      id = taskId ∧ destructiveOutcome resolution = .approved := by
  cases resolution with
  | timeout choice => simp [ConsensusEvent.approves, destructiveOutcome]
  | majority choice =>
    cases choice with
    | abstain => simp [ConsensusEvent.approves, destructiveOutcome]
    | option index => cases index <;> simp [ConsensusEvent.approves, destructiveOutcome]
  | override agent choice =>
    cases choice with
    | abstain => simp [ConsensusEvent.approves, destructiveOutcome]
    | option index => cases index <;> simp [ConsensusEvent.approves, destructiveOutcome]

theorem applied_account (s : VotingRun) (r : Uuid × DecisionDescriptor × VoteResolution) :
    Reaches Permit.Step (account taskId s) (account taskId (s.applied r)) := by
  obtain ⟨id, ⟨options, required, subject⟩, resolution⟩ := r
  cases subject with
  | intentChange proposed =>
    have hsame : account taskId (s.applied (id, ⟨options, required, .intentChange proposed⟩,
        resolution)) = account taskId s := by
      simp [account, applied, Formation.applyResolution, resolutionEvent]
    rw [hsame]
    exact Reaches.refl _
  | destructiveAction task =>
    by_cases hmints : task.id = taskId ∧ destructiveOutcome resolution = .approved
    · obtain ⟨rfl, happroved⟩ := hmints
      have hafter : account task.id (s.applied (id, ⟨options, required, .destructiveAction task⟩,
          resolution)) =
            { account task.id s with held := true, minted := (account task.id s).minted + 1 } := by
        have hvote := (approves_resolved task.id resolution).mpr ⟨rfl, happroved⟩
        simp [account, applied, Formation.applyResolution, resolutionEvent, happroved, hvote]
      rw [hafter]
      exact (Reaches.refl _).snoc (.mint _)
    · have hvote := (approves_resolved task.id resolution).not.mpr hmints
      have hsame : account taskId (s.applied (id, ⟨options, required, .destructiveAction task⟩,
          resolution)) = account taskId s := by
        by_cases happroved : destructiveOutcome resolution = .approved
        · have htask : task.id ≠ taskId := fun htask => hmints ⟨htask, happroved⟩
          simp [account, applied, Formation.applyResolution, resolutionEvent, happroved, hvote,
            Ne.symm htask]
        · simp [account, applied, Formation.applyResolution, resolutionEvent, happroved, hvote]
      rw [hsame]
      exact Reaches.refl _

theorem applyResolution_unapproved {formation : Formation} (voteId : Uuid)
    (question : DecisionDescriptor) {resolution : VoteResolution}
    (h : destructiveOutcome resolution ≠ .approved) :
    (formation.applyResolution (voteId, question, resolution)).consensusApproved =
      formation.consensusApproved := by
  obtain ⟨options, required, subject⟩ := question
  cases subject with
  | intentChange proposed => rfl
  | destructiveAction task => rw [Formation.applyResolution, resolve_approved, if_neg h]

theorem applied_all (resolved : List (Uuid × DecisionDescriptor × VoteResolution)) (s : VotingRun) :
    resolved.foldl applied s =
      { s with
        run := { s.run with formation := resolved.foldl Formation.applyResolution s.run.formation }
        log := s.log ++ resolved.filterMap resolutionEvent } := by
  induction resolved generalizing s with
  | nil => simp
  | cons r resolved ih =>
    rw [List.foldl_cons, ih]
    cases hevent : resolutionEvent r <;> simp [applied, hevent]

theorem applied_all_account (resolved : List (Uuid × DecisionDescriptor × VoteResolution))
    (s : VotingRun) :
    Reaches Permit.Step (account taskId s) (account taskId (resolved.foldl applied s)) := by
  induction resolved generalizing s with
  | nil => exact Reaches.refl _
  | cons r resolved ih => exact (applied_account s r).trans (ih _)

/-- A step that leaves the formation's permits, the waiting calls and the log alone. -/
theorem account_of_eq (happroved : s'.run.formation.consensusApproved =
      s.run.formation.consensusApproved)
    (hqueued : s'.run.phase.queued = s.run.phase.queued) (hlog : s'.log = s.log) :
    Reaches Permit.Step (account taskId s) (account taskId s') := by
  have hsame : account taskId s' = account taskId s := by
    simp only [account, happroved, hqueued, hlog]
  rw [hsame]
  exact Reaches.refl _

/-- A step of the beat reserves, uses or drops a permit of the task, or leaves its account. -/
theorem beat_account {label : Label} (hallowed : s.requiresVotes taskId (.beat label) = true)
    (hpolicy : s.run.formation.destructiveActionPolicy = .requireConsensus)
    (hstep : s.beat label = some s') :
    s'.run.formation.destructiveActionPolicy = .requireConsensus ∧
      Reaches Permit.Step (account taskId s) (account taskId s') := by
  obtain ⟨⟨run', hrun, rfl⟩, hposted, hresolve⟩ := beat_cases hstep
  cases step_effect hrun hposted hresolve with
  | same hlabel hsame =>
    have hlog : s.run.dispatched label = [] := by
      cases label with
      | spawn => exact absurd rfl hlabel
      | _ => rfl
    exact ⟨hsame.formation.policy.trans hpolicy,
      account_of_eq hsame.formation.approved hsame.queued (by simp [hlog])⟩
  | waits task htarget hwaits =>
    exact ⟨hwaits.formation.policy.trans hpolicy,
      account_of_eq hwaits.formation.approved hwaits.queued (by simp [Run.dispatched])⟩
  | clears task htarget hclears =>
    refine ⟨hclears.formation.policy.trans hpolicy,
      reserves hpolicy ?_ hclears (by simp [Run.dispatched])⟩
    intro htask
    simpa [requiresVotes, htarget, htask] using hallowed
  | starts hdequeues =>
    obtain ⟨job, hqueued⟩ := hdequeues.queued
    exact ⟨hdequeues.formation.policy.trans hpolicy,
      dequeues hdequeues rfl (.inr ⟨job, hqueued, dispatched_spawn hqueued⟩)⟩
  | holds hdequeues =>
    exact ⟨hdequeues.formation.policy.trans hpolicy, dequeues hdequeues rfl (.inl rfl)⟩
  | adjusts tier policy cap relaxed =>
    have hkept : policy = .requireConsensus := by simpa [requiresVotes] using hallowed
    exact ⟨hkept, account_of_eq rfl rfl (by simp [Run.dispatched])⟩

/-- Every step keeps the policy and the task's account. -/
theorem step_account {label : VotingLabel} (hallowed : s.requiresVotes taskId label = true)
    (hpolicy : s.run.formation.destructiveActionPolicy = .requireConsensus)
    (hstep : s.step label = some s') :
    s'.run.formation.destructiveActionPolicy = .requireConsensus ∧
      Reaches Permit.Step (account taskId s) (account taskId s') := by
  cases label with
  | beat label => exact beat_account hallowed hpolicy hstep
  | posted now ids =>
    obtain ⟨proposals, hphase, -, -, rfl⟩ := posted_cases hstep
    exact ⟨hpolicy, account_of_eq rfl (by simp [hphase]) rfl⟩
  | proposeIntent now id intent =>
    obtain ⟨-, hstep⟩ := between_cases hstep
    unfold proposeIntent at hstep
    split at hstep
    · cases hstep
      exact ⟨hpolicy, Reaches.refl _⟩
    · cases hstep
  | castVote voteId voter approve =>
    obtain ⟨-, hstep⟩ := between_cases hstep
    obtain ⟨consensus, -, rfl⟩ := Option.map_eq_some_iff.mp hstep
    exact ⟨hpolicy, Reaches.refl _⟩
  | tryOverride voteId agentId choice =>
    obtain ⟨-, hstep⟩ := between_cases hstep
    obtain ⟨⟨resolution, consensus⟩, -, rfl⟩ := Option.map_eq_some_iff.mp hstep
    exact ⟨hpolicy, Reaches.refl _⟩
  | resolveConsensus order first second =>
    obtain ⟨-, hstep⟩ := between_cases hstep
    obtain ⟨-, rfl⟩ := resolveConsensus_cases hstep
    have haccount : Reaches Permit.Step (account taskId s) _ :=
      applied_all_account (s.consensus.resolveReady order first second).1 s
    rw [applied_all] at haccount
    exact ⟨(applyResolution_policy _ _).trans hpolicy, haccount⟩

/-- What permits promise about a task in a state: each dispatch has an approving vote of its own,
only approval adds a permit, and a vote that timed out or ended for anything but "approve" does not. -/
structure PermitsSafe (taskId : Uuid) (s : VotingRun) : Prop where
  dispatches : s.log.count (.dispatched taskId) ≤ s.log.countP (·.approves taskId)
  minted : ∀ label s', s.requiresVotes taskId label = true → Steps s label s' →
    taskId ∈ s'.run.formation.consensusApproved →
      taskId ∈ s.run.formation.consensusApproved ∨
        s.log.countP (·.approves taskId) < s'.log.countP (·.approves taskId)
  timedOut : ∀ voteId question choice,
    (s.run.formation.applyResolution (voteId, question, .timeout choice)).consensusApproved =
      s.run.formation.consensusApproved
  denied : ∀ voteId question resolution choice, choice ≠ .option 0 →
    resolution = .majority choice ∨ (∃ agent, resolution = .override agent choice) →
      (s.run.formation.applyResolution (voteId, question, resolution)).consensusApproved =
        s.run.formation.consensusApproved

/-- In every run of a new formation whose policy is `RequireConsensus`, permits are safe for every
task that is destructive. -/
theorem permitsSafe {start : VotingRun} (hstart : Fresh start)
    (hpolicy : start.run.formation.destructiveActionPolicy = .requireConsensus)
    (h : Reaches (Guarded (fun s label => s.requiresVotes taskId label = true) Steps) start s) :
    PermitsSafe taskId s := by
  have hnew : (account taskId start).Covered := by
    simp [Permit.Account.Covered, account, hstart.run.phase, hstart.approved, hstart.log]
  obtain ⟨hkept, hcovered⟩ : s.run.formation.destructiveActionPolicy = .requireConsensus ∧
      (account taskId s).Covered := by
    refine h.invariant (fun s => s.run.formation.destructiveActionPolicy = .requireConsensus ∧
      (account taskId s).Covered) ?_ ⟨hpolicy, hnew⟩
    rintro s label s' ⟨hallowed, hstep⟩ ⟨hpolicy, hcovered⟩
    have hnext := step_account hallowed hpolicy hstep
    exact ⟨hnext.1, Permit.covered_of_reaches hnext.2 hcovered⟩
  refine ⟨hcovered.used_le, ?_, ?_, ?_⟩
  · intro label s' hallowed hstep hpermit
    have hmoves := (step_account hallowed hkept hstep).2
    rcases Permit.minted_of_reaches hmoves (by simpa [account] using hpermit) with hheld | hminted
    · exact .inl (by simpa [account] using hheld)
    · exact .inr hminted
  · intro voteId question choice
    refine applyResolution_unapproved voteId question ?_
    intro happroved
    cases happroved
  · intro voteId question resolution choice hchoice hresolution
    refine applyResolution_unapproved voteId question ?_
    rcases hresolution with rfl | ⟨agent, rfl⟩ <;> simp [destructiveOutcome, hchoice]

section Sample

/-- Two members, and a task for the shell; destructive tasks need a vote. -/
def guardedCrew (first second : String) : VotingRun where
  run :=
    { crew first second [chore 7 "shell"] with
      formation := { (crew first second [chore 7 "shell"]).formation with
        destructiveActionPolicy := .requireConsensus } }
  consensus := .new
  log := []

def quietSenses : Senses := ⟨fun _ => 0, none, none⟩

/-- The vote on the task, once both members have approved it. -/
def approvedVote : Uuid × ConsensusVote :=
  (50,
    { question := approveOrDeny [1, 2] (.destructiveAction (chore 7 "shell"))
      term := 1
      ballots := [(2, ⟨1, 2, false⟩, .option 0), (1, ⟨1, 1, false⟩, .option 0)]
      deadline := 5000
      overridesRemaining := [(1, 1), (2, 1)]
      committed := none })

/-- A beat up to the calls that the claims of both members lead to. -/
def claims (tick : Nat) : List VotingLabel :=
  [.beat (.beat tick), .beat (.decide quietSenses), .beat (.decide quietSenses), .beat .decided,
    .beat (.prepare .actAutonomously none), .beat (.prepare .actAutonomously none), .beat .prepared,
    .beat (.collect none), .beat (.collect none), .beat .collected]

/-- The end of a beat without a call, which opens votes under the given ids. -/
def votes (ids : List Uuid) : List VotingLabel :=
  [.beat .windowClosed, .beat .closed, .beat .post, .beat .post, .posted 0 ids]

/-- The first beat proposes the task, both members approve it, the second beat dispatches it. -/
def votedBeats : List VotingLabel :=
  claims 1 ++ votes [50] ++
    ([.castVote 50 1 true, .castVote 50 2 true,
      .resolveConsensus [approvedVote] (fun _ => ⟨1, [.option 0]⟩) fun _ => ⟨1, [.option 0]⟩] :
        List VotingLabel) ++
    claims 2 ++ ([.beat .spawn] : List VotingLabel)

theorem guardedCrew_fresh (first second : String) : Fresh (guardedCrew first second) := by
  refine ⟨⟨rfl, by simp [guardedCrew, crew], ?_, fun _ => rfl, rfl⟩, rfl, rfl, rfl, rfl, rfl⟩
  simp [guardedCrew, crew]

/-- One approval, one dispatch. -/
theorem permitsSafe_voted :
    ∃ s, Reaches (Guarded (fun s label => s.requiresVotes 7 label = true) Steps)
        (guardedCrew "shell" "mail") s ∧
      s.log = [.resolved 7 (.majority (.option 0)), .dispatched 7] ∧ PermitsSafe 7 s := by
  obtain ⟨s, hrun, hlog⟩ : ∃ s,
      runLabels (fun s label => if s.requiresVotes 7 label then s.step label else none)
          (guardedCrew "shell" "mail") votedBeats = some s ∧
        s.log = [.resolved 7 (.majority (.option 0)), .dispatched 7] := ⟨_, rfl, rfl⟩
  have hguarded := guarded_of_runLabels hrun
  exact ⟨s, hguarded, hlog, permitsSafe (guardedCrew_fresh _ _) rfl hguarded⟩

end Sample

end VotingRun

end Springtale.Beat
