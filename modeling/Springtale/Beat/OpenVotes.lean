import Springtale.Beat.Permits

/-! Open votes: at most one on a task, and the guard that says so. -/
namespace Springtale.Beat

open Springtale.Core Springtale.Sentinel Springtale.Lib

namespace VotingRun

/-- No second vote opens: a member that proposes a task is the first of its beat to do so, and a
vote that was ready still resolves at its second reading. -/
def opensOnce (s : VotingRun) : VotingLabel → Bool
  | .beat (.prepare autonomy hints) =>
    (s.run.claimTarget autonomy hints).all fun task =>
      !s.run.formation.needsConsensus hints ||
        decide (task.id ∈ s.run.formation.consensusApproved ++ s.run.formation.awaitingConsensus) ||
        decide (task.id ∉ s.run.phase.proposals.map (·.id))
  | label => label.settles

/-- At most one active vote on a task, and the guard names exactly the tasks with one. -/
structure OneOpenVote (s : VotingRun) : Prop where
  atMostOne : (s.consensus.subjects.map (·.id)).Nodup
  awaiting : ∀ taskId, taskId ∈ s.run.formation.awaitingConsensus ↔
    taskId ∈ s.consensus.subjects.map (·.id)

/-- Also the votes that the beat is about to open are on tasks of their own. -/
structure Docketed (s : VotingRun) : Prop where
  distinct : ((s.consensus.subjects ++ s.run.phase.proposals).map (·.id)).Nodup
  awaiting : ∀ taskId, taskId ∈ s.run.formation.awaitingConsensus ↔
    taskId ∈ s.consensus.subjects.map (·.id)

theorem Docketed.oneOpenVote {s : VotingRun} (h : Docketed s) : OneOpenVote s where
  atMostOne := by
    have hdistinct := h.distinct
    rw [List.map_append] at hdistinct
    exact hdistinct.of_append_left
  awaiting := h.awaiting

variable {s s' : VotingRun}

theorem Docketed.of_perm (h : Docketed s) (hsubjects : s'.consensus.subjects = s.consensus.subjects)
    (hproposals : s'.run.phase.proposals.Perm s.run.phase.proposals)
    (hawaiting : s'.run.formation.awaitingConsensus = s.run.formation.awaitingConsensus) :
    Docketed s' where
  distinct := by
    rw [hsubjects]
    exact ((hproposals.append_left _).map _).nodup_iff.mpr h.distinct
  awaiting := by
    rw [hsubjects, hawaiting]
    exact h.awaiting

/-- A member that proposes a task which has neither a vote nor a proposal. -/
theorem Docketed.propose (h : Docketed s) {task : SubTask}
    (hsubjects : s'.consensus.subjects = s.consensus.subjects)
    (hproposals : s'.run.phase.proposals = s.run.phase.proposals ++ [task])
    (hawaiting : s'.run.formation.awaitingConsensus = s.run.formation.awaitingConsensus)
    (hopen : task.id ∉ s.run.formation.awaitingConsensus)
    (hpending : task.id ∉ s.run.phase.proposals.map (·.id)) : Docketed s' where
  distinct := by
    rw [hsubjects, hproposals, ← List.append_assoc, List.map_append]
    have hnew : task.id ∉ (s.consensus.subjects ++ s.run.phase.proposals).map (·.id) := by
      rw [List.map_append, List.mem_append]
      rintro (hmem | hmem)
      · exact hopen ((h.awaiting _).mpr hmem)
      · exact hpending hmem
    refine List.nodup_append.mpr ⟨h.distinct, List.nodup_singleton _, ?_⟩
    rintro a ha b hb rfl
    have heq : a = task.id := List.mem_singleton.mp hb
    exact hnew (heq ▸ ha)
  awaiting := by
    rw [hsubjects, hawaiting]
    exact h.awaiting

theorem beat_docketed {label : Label} (h : Docketed s)
    (honce : s.opensOnce (.beat label) = true) (hstep : s.beat label = some s') : Docketed s' := by
  obtain ⟨⟨run', hrun, rfl⟩, hposted, hresolve⟩ := beat_cases hstep
  cases step_effect hrun hposted hresolve with
  | same hlabel hsame => exact h.of_perm rfl hsame.proposals hsame.formation.awaiting
  | waits task htarget hwaits =>
    have hproposals := hwaits.proposals
    by_cases hawaits : task.id ∈ s.run.formation.awaitingConsensus
    · rw [if_pos hawaits, List.append_nil] at hproposals
      exact h.of_perm rfl (.of_eq hproposals) hwaits.formation.awaiting
    · rw [if_neg hawaits] at hproposals
      refine h.propose rfl hproposals hwaits.formation.awaiting hawaits ?_
      simp only [opensOnce, htarget, Option.all_some, hwaits.needs, hwaits.unapproved, hawaits,
        List.mem_append, or_self, decide_false, Bool.not_true, Bool.false_or] at honce
      exact of_decide_eq_true honce
  | clears task htarget hclears =>
    exact h.of_perm rfl (.of_eq hclears.proposals) hclears.formation.awaiting
  | starts hdequeues => exact h.of_perm rfl hdequeues.proposals hdequeues.formation.awaiting
  | holds hdequeues => exact h.of_perm rfl hdequeues.proposals hdequeues.formation.awaiting
  | adjusts tier policy cap relaxed => exact h.of_perm rfl (.refl _) rfl

theorem posted_docketed {now : Nat} {ids : List Uuid} (h : Docketed s)
    (hstep : s.posted now ids = some s') : Docketed s' := by
  obtain ⟨proposals, hphase, hids, -, rfl⟩ := posted_cases hstep
  have hsubjects := s.consensus.subjects_proposeAll now s.run.formation.voters hids
  refine ⟨?_, ?_⟩
  · have hdistinct := h.distinct
    simp only [hphase, Phase.proposals, proposed_nil, List.append_nil] at hdistinct ⊢
    rwa [hsubjects]
  · intro taskId
    rw [hsubjects, List.map_append, List.mem_append, ← h.awaiting, or_comm, ← List.mem_append]
    rfl

theorem resolveConsensus_docketed {order : List (Uuid × ConsensusVote)}
    {first second : Uuid → Reading} (h : Docketed s)
    (honce : s.opensOnce (.resolveConsensus order first second) = true)
    (hphase : s.run.phase = .idle)
    (hstep : s.resolveConsensus order first second = some s') : Docketed s' := by
  obtain ⟨horder, rfl⟩ := resolveConsensus_cases hstep
  have hperm := (ConsensusEngine.subjects_perm first second horder).map (·.id)
  have hdistinct := h.distinct
  simp only [hphase, Phase.proposals, List.append_nil] at hdistinct
  rw [hperm.nodup_iff, List.map_append] at hdistinct
  refine ⟨?_, ?_⟩
  · simp only [hphase, Phase.proposals, List.append_nil]
    exact hdistinct.of_append_right
  · intro taskId
    refine (mem_awaiting_applied _ s.run.formation taskId).trans ?_
    rw [resolved_tasks _ honce, h.awaiting, hperm.mem_iff, List.map_append, List.mem_append]
    have hdisjoint := (List.nodup_append.mp hdistinct).2.2
    constructor
    · rintro ⟨hready | hstays, hnot⟩
      · exact absurd hready hnot
      · exact hstays
    · intro hstays
      exact ⟨.inr hstays, fun hready => hdisjoint _ hready _ hstays rfl⟩

theorem step_docketed {label : VotingLabel} (h : Docketed s) (honce : s.opensOnce label = true)
    (hstep : s.step label = some s') : Docketed s' := by
  cases label with
  | beat label => exact beat_docketed h honce hstep
  | posted now ids => exact posted_docketed h hstep
  | proposeIntent now id intent =>
    obtain ⟨-, hstep⟩ := between_cases hstep
    unfold proposeIntent at hstep
    split at hstep
    · cases hstep
      refine h.of_perm ?_ (.refl _) rfl
      simp [ConsensusEngine.subjects_propose, approveOrDeny]
    · cases hstep
  | castVote voteId voter approve =>
    obtain ⟨-, hstep⟩ := between_cases hstep
    obtain ⟨consensus, hvote, rfl⟩ := Option.map_eq_some_iff.mp hstep
    exact h.of_perm (ConsensusEngine.subjects_vote hvote) (.refl _) rfl
  | tryOverride voteId agentId choice =>
    obtain ⟨-, hstep⟩ := between_cases hstep
    obtain ⟨⟨resolution, consensus⟩, hvote, rfl⟩ := Option.map_eq_some_iff.mp hstep
    exact h.of_perm (ConsensusEngine.subjects_tryOverride hvote) (.refl _) rfl
  | resolveConsensus order first second =>
    obtain ⟨hphase, hstep⟩ := between_cases hstep
    exact resolveConsensus_docketed h honce hphase hstep

/-- In every run of a new formation whose steps open no second vote, a task has one open vote at
most, and the guard holds exactly while it has one. -/
theorem oneOpenVote_of_opensOnce {start : VotingRun} (hstart : Fresh start)
    (h : Reaches (Guarded (fun s label => s.opensOnce label = true) Steps) start s) :
    OneOpenVote s := by
  have hnew : Docketed start := by
    refine ⟨?_, ?_⟩
    · simp [ConsensusEngine.subjects, ConsensusEngine.tasks, hstart.consensus, hstart.run.phase]
    · intro taskId
      simp [ConsensusEngine.subjects, ConsensusEngine.tasks, hstart.consensus, hstart.awaiting]
  refine (h.invariant Docketed ?_ hnew).oneOpenVote
  intro s label s' hstep hs
  exact step_docketed hs hstep.1 hstep.2

/-- Two members choose one destructive task in one beat: each finds no open vote and proposes it. -/
theorem sharedTask_opens_two_votes :
    ∃ start s, Fresh start ∧ Reaches Steps start s ∧ ¬ OneOpenVote s := by
  obtain ⟨s, hrun, hsubjects⟩ : ∃ s,
      runLabels step (guardedCrew "shell" "shell") (claims 1 ++ votes [50, 51]) = some s ∧
        s.consensus.subjects.map (·.id) = [7, 7] := ⟨_, rfl, rfl⟩
  refine ⟨_, s, guardedCrew_fresh _ _, reaches_of_runLabels hrun, ?_⟩
  intro h
  have hdistinct := h.atMostOne
  rw [hsubjects] at hdistinct
  exact absurd hdistinct (by decide)

/-- One member for the task: it proposes it, and the guard names it. -/
theorem oneOpenVote_proposed :
    ∃ s, Reaches (Guarded (fun s label => s.opensOnce label = true) Steps)
        (guardedCrew "shell" "mail") s ∧
      s.consensus.subjects.map (·.id) = [7] ∧ OneOpenVote s := by
  obtain ⟨s, hrun, hsubjects⟩ : ∃ s,
      runLabels (fun s label => if s.opensOnce label then s.step label else none)
          (guardedCrew "shell" "mail") (claims 1 ++ votes [50]) = some s ∧
        s.consensus.subjects.map (·.id) = [7] := ⟨_, rfl, rfl⟩
  have hguarded := guarded_of_runLabels hrun
  exact ⟨s, hguarded, hsubjects, oneOpenVote_of_opensOnce (guardedCrew_fresh _ _) hguarded⟩

end VotingRun

end Springtale.Beat
