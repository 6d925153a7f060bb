import Springtale.Beat.Machine

/-! What one step of the machine can do, upkeep by upkeep and phase by phase. -/
namespace Springtale.Beat

open Springtale.Core Springtale.Formation Springtale.Sentinel

/-- What upkeep makes of a formation. -/
inductive Keeps (formation : Formation) : Upkeep → Formation → Prop
  | writeTask (task : SubTask) :
    Keeps formation (.writeTask task) (formation.writeTask task)
  | assign {taskId : Uuid} {task : SubTask} (agent : Uuid)
    (hfind : (formation.blackboard.scanTasks []).find? (·.id = taskId) = some task) :
    Keeps formation (.assign taskId agent)
      (formation.writeTask { task with assignedTo := some agent })
  | resolve {index : Nat} {task : SubTask} (resolution : VoteResolution)
    (hvote : formation.votes[index]? = some task) :
    Keeps formation (.resolve index resolution)
      ({ formation with votes := formation.votes.eraseIdx index }.resolve task
        (destructiveOutcome resolution))
  | join {agent : Uuid} (capabilities : List CapabilityDecl)
    (hnew : agent ∉ formation.members.map (·.agentId)) :
    Keeps formation (.join agent capabilities) { formation with
      members := formation.members ++ [⟨agent, capabilities, true, none, none⟩] }
  | leave (agent : Uuid) :
    Keeps formation (.leave agent)
      { formation with members := formation.members.filter (·.agentId ≠ agent) }
  | health (agent : Uuid) (operational : Bool) :
    Keeps formation (.health agent operational)
      (formation.memberMut agent fun m => { m with operational })
  | adjust (tier : MomentumTier) (policy : ApprovalPolicy) (cap : Nat) (relaxed : Bool) :
    Keeps formation (.adjust tier policy cap relaxed) { formation with
      momentumTier := tier
      destructiveActionPolicy := policy
      maxConcurrentActions := cap
      relaxed }
  | replenish (amount : Nat) :
    Keeps formation (.replenish amount) { formation with fuel := formation.fuel + amount }

theorem keeps_of_upkeep {formation formation' : Formation} {u : Upkeep}
    (hupkeep : formation.upkeep u = some formation') : Keeps formation u formation' := by
  cases u with
  | writeTask task =>
    cases hupkeep
    exact .writeTask task
  | assign taskId agent =>
    simp only [Formation.upkeep] at hupkeep
    split at hupkeep
    · next hfind =>
      cases hupkeep
      exact .assign agent hfind
    · cases hupkeep
  | resolve index resolution =>
    simp only [Formation.upkeep] at hupkeep
    split at hupkeep
    · next hvote =>
      cases hupkeep
      exact .resolve resolution hvote
    · cases hupkeep
  | join agent capabilities =>
    simp only [Formation.upkeep] at hupkeep
    split at hupkeep
    · cases hupkeep
    · next hnew =>
      cases hupkeep
      exact .join capabilities hnew
  | leave agent =>
    cases hupkeep
    exact .leave agent
  | health agent operational =>
    cases hupkeep
    exact .health agent operational
  | adjust tier policy cap relaxed =>
    cases hupkeep
    exact .adjust tier policy cap relaxed
  | replenish amount =>
    cases hupkeep
    exact .replenish amount

/-- The steps from a run, each with the phase it needs. -/
inductive Moves (run : Run) : Label → Run → Prop
  | upkeep {u : Upkeep} {formation : Formation} (hphase : run.phase = .idle)
    (hkeeps : Keeps run.formation u formation) :
    Moves run (.upkeep u) ⟨formation, .idle⟩
  | handoff (receiver : Uuid) (task : SubTask) :
    Moves run (.handoff receiver task)
      { run with formation := run.formation.push receiver task }
  | rehash {tasks : List SubTask} (hperm : tasks.Perm run.formation.blackboard.tasks) :
    Moves run (.rehash tasks) { run with
      formation := { run.formation with blackboard := { run.formation.blackboard with tasks } } }
  | beat (tick : Nat) (hphase : run.phase = .idle) :
    Moves run (.beat tick)
      ⟨{ run.formation with currentTick := tick }, .deciding run.formation.ready []⟩
  | decide {agent : Uuid} {undecided : List Uuid} {decisions : List Decision} {member : Member}
    (senses : Senses) (hphase : run.phase = .deciding (agent :: undecided) decisions)
    (hmember : run.formation.member agent = some member) :
    Moves run (.decide senses) ⟨(run.formation.decide member senses).2,
      .deciding undecided (decisions ++ [(run.formation.decide member senses).1])⟩
  | decided {decisions : List Decision} (hphase : run.phase = .deciding [] decisions) :
    Moves run .decided ⟨run.formation, .claiming decisions [] []⟩
  | prepareGone {decision : Decision} {decisions : List Decision} {settled : Outcomes}
    {jobs : List DispatchJob} (autonomy : AutonomyLevel) (hints : Option ActionHints)
    (hphase : run.phase = .claiming (decision :: decisions) settled jobs)
    (hmember : run.formation.member decision.agent = none) :
    Moves run (.prepare autonomy hints) ⟨run.formation, .claiming decisions settled jobs⟩
  | prepareSettled {decision : Decision} {decisions : List Decision} {settled : Outcomes}
    {jobs : List DispatchJob} {autonomy : AutonomyLevel} {hints : Option ActionHints}
    {member : Member} {formation : Formation} {outcome : ExecuteOutcome}
    (hphase : run.phase = .claiming (decision :: decisions) settled jobs)
    (hmember : run.formation.member decision.agent = some member)
    (hprepare : run.formation.prepare autonomy hints decision member =
      (formation, .settled outcome)) :
    Moves run (.prepare autonomy hints)
      ⟨formation, .claiming decisions (settled ++ [(decision.agent, outcome)]) jobs⟩
  | prepareJob {decision : Decision} {decisions : List Decision} {settled : Outcomes}
    {jobs : List DispatchJob} {autonomy : AutonomyLevel} {hints : Option ActionHints}
    {member : Member} {formation : Formation} {job : DispatchJob}
    (hphase : run.phase = .claiming (decision :: decisions) settled jobs)
    (hmember : run.formation.member decision.agent = some member)
    (hprepare : run.formation.prepare autonomy hints decision member = (formation, .dispatch job)) :
    Moves run (.prepare autonomy hints) ⟨formation, .claiming decisions settled (jobs ++ [job])⟩
  | prepared {settled : Outcomes} {jobs : List DispatchJob}
    (hphase : run.phase = .claiming [] settled jobs) :
    Moves run .prepared
      ⟨run.formation, .collecting (run.formation.members.map (·.agentId)) jobs settled []⟩
  | collectIdle {agent : Uuid} {members : List Uuid} {jobs : List DispatchJob}
    {settled outcomes : Outcomes} (handle : Option Joined)
    (hphase : run.phase = .collecting (agent :: members) jobs settled outcomes)
    (hpending : (run.formation.member agent).bind (·.pending) = none) :
    Moves run (.collect handle) ⟨run.formation, .collecting members jobs settled outcomes⟩
  | collectRunning {agent : Uuid} {members : List Uuid} {jobs : List DispatchJob}
    {settled outcomes : Outcomes} {job : DispatchJob}
    (hphase : run.phase = .collecting (agent :: members) jobs settled outcomes)
    (hpending : (run.formation.member agent).bind (·.pending) = some job) :
    Moves run (.collect none)
      ⟨run.formation, .collecting members jobs settled (outcomes ++ [(agent, .settled)])⟩
  | collectOk {agent : Uuid} {members : List Uuid} {jobs : List DispatchJob}
    {settled outcomes : Outcomes} {job : DispatchJob} (success : Bool) (output : Value)
    (durationMs : Nat) (hphase : run.phase = .collecting (agent :: members) jobs settled outcomes)
    (hpending : (run.formation.member agent).bind (·.pending) = some job) :
    Moves run (.collect (some (.ok success output durationMs)))
      ⟨run.formation.memberMut agent fun m => { m with pending := none },
        .collecting members jobs settled
          (outcomes ++ [(agent, (Joined.ok success output durationMs).outcome job)])⟩
  | collectErr {agent : Uuid} {members : List Uuid} {jobs : List DispatchJob}
    {settled outcomes : Outcomes} {job : DispatchJob}
    (hphase : run.phase = .collecting (agent :: members) jobs settled outcomes)
    (hpending : (run.formation.member agent).bind (·.pending) = some job) :
    Moves run (.collect (some .err))
      ⟨run.formation.joinFailed agent job.task.id fun m => { m with pending := none },
        .collecting members jobs settled (outcomes ++ [(agent, Joined.err.outcome job)])⟩
  | collected {jobs : List DispatchJob} {settled outcomes : Outcomes}
    (hphase : run.phase = .collecting [] jobs settled outcomes) :
    Moves run .collected ⟨run.formation, .acting jobs [] settled outcomes⟩
  | spawn {job : DispatchJob} {queue running : List DispatchJob} {settled outcomes : Outcomes}
    (hphase : run.phase = .acting (job :: queue) running settled outcomes)
    (hroom : spawnable run.formation.maxConcurrentActions running (job :: queue) = true) :
    Moves run .spawn
      ⟨{ run.formation with
          ledger := { run.formation.ledger with
            opened := (job.agent, job.task.id) :: run.formation.ledger.opened } },
        .acting queue (running ++ [job]) settled outcomes⟩
  | finishOk {agent : Uuid} {queue running : List DispatchJob} {settled outcomes : Outcomes}
    {job : DispatchJob} (success : Bool) (output : Value) (durationMs : Nat)
    (hphase : run.phase = .acting queue running settled outcomes)
    (hfull : ¬ spawnable run.formation.maxConcurrentActions running queue = true)
    (hfind : running.find? (·.agent = agent) = some job) :
    Moves run (.finish agent (.ok success output durationMs))
      ⟨run.formation, .acting queue (running.eraseP (·.agent = agent)) settled
        (outcomes ++ [(agent, (Joined.ok success output durationMs).outcome job)])⟩
  | finishErr {agent : Uuid} {queue running : List DispatchJob} {settled outcomes : Outcomes}
    {job : DispatchJob} (hphase : run.phase = .acting queue running settled outcomes)
    (hfull : ¬ spawnable run.formation.maxConcurrentActions running queue = true)
    (hfind : running.find? (·.agent = agent) = some job) :
    Moves run (.finish agent .err)
      ⟨run.formation.joinFailed agent job.task.id id,
        .acting queue (running.eraseP (·.agent = agent)) settled
          (outcomes ++ [(agent, Joined.err.outcome job)])⟩
  | windowClosed {queue running : List DispatchJob} {settled outcomes : Outcomes}
    (hphase : run.phase = .acting queue running settled outcomes)
    (hfull : ¬ spawnable run.formation.maxConcurrentActions running queue = true) :
    Moves run .windowClosed ⟨run.formation, .closing running queue settled outcomes⟩
  | carryOver {job : DispatchJob} {running queue : List DispatchJob} {settled outcomes : Outcomes}
    {member : Member} (hphase : run.phase = .closing (job :: running) queue settled outcomes)
    (hmember : run.formation.member job.agent = some member) :
    Moves run .carryOver
      ⟨run.formation.memberMut job.agent fun m => { m with pending := some job },
        .closing running queue settled (outcomes ++ [(job.agent, .settled)])⟩
  | carryGone {job : DispatchJob} {running queue : List DispatchJob} {settled outcomes : Outcomes}
    (hphase : run.phase = .closing (job :: running) queue settled outcomes)
    (hmember : run.formation.member job.agent = none) :
    Moves run .carryOver ⟨run.formation, .closing running queue settled outcomes⟩
  | defer {job : DispatchJob} {queue : List DispatchJob} {settled outcomes : Outcomes}
    (hphase : run.phase = .closing [] (job :: queue) settled outcomes) :
    Moves run .defer
      ⟨run.formation.joinFailed job.agent job.task.id id,
        .closing [] queue settled (outcomes ++ [(job.agent, .settled)])⟩
  | closed {settled outcomes : Outcomes} (hphase : run.phase = .closing [] [] settled outcomes) :
    Moves run .closed ⟨run.formation,
      .gathering ((outcomes ++ settled).insertionSort fun a b => a.1 ≤ b.1) []⟩
  | post {agent : Uuid} {outcome : ExecuteOutcome} {outcomes : Outcomes} {proposals : List SubTask}
    (hphase : run.phase = .gathering ((agent, outcome) :: outcomes) proposals) :
    Moves run .post ⟨run.formation.post agent outcome,
      .gathering outcomes (proposals ++ outcome.consensusTask.toList)⟩
  | posted {proposals : List SubTask} (hphase : run.phase = .gathering [] proposals) :
    Moves run .posted ⟨run.formation.proposeAll proposals, .idle⟩

variable {run run' : Run}

theorem moves_of_prepare {autonomy : AutonomyLevel} {hints : Option ActionHints}
    (hstep : run.prepare autonomy hints = some run') :
    Moves run (.prepare autonomy hints) run' := by
  unfold Run.prepare at hstep
  split at hstep
  case h_2 => cases hstep
  case h_1 decision decisions settled jobs hphase =>
    cases hmember : run.formation.member decision.agent with
    | none =>
      rw [hmember] at hstep
      cases hstep
      exact .prepareGone _ _ hphase hmember
    | some member =>
      rw [hmember] at hstep
      dsimp only at hstep
      cases hprepare : run.formation.prepare autonomy hints decision member with
      | mk formation taken =>
        rw [hprepare] at hstep
        cases taken with
        | settled outcome =>
          cases hstep
          exact .prepareSettled hphase hmember hprepare
        | dispatch job =>
          cases hstep
          exact .prepareJob hphase hmember hprepare

theorem moves_of_collect {handle : Option Joined} (hstep : run.collect handle = some run') :
    Moves run (.collect handle) run' := by
  unfold Run.collect at hstep
  split at hstep
  case h_2 => cases hstep
  case h_1 agent members jobs settled outcomes hphase =>
    cases hpending : (run.formation.member agent).bind (·.pending) with
    | none =>
      rw [hpending] at hstep
      cases hstep
      exact .collectIdle handle hphase hpending
    | some job =>
      rw [hpending] at hstep
      rcases handle with _ | ⟨success, output, durationMs⟩ | _ <;> cases hstep
      · exact .collectRunning hphase hpending
      · exact .collectOk success output durationMs hphase hpending
      · exact .collectErr hphase hpending

theorem moves_of_finish {agent : Uuid} {joined : Joined}
    (hstep : run.finish agent joined = some run') : Moves run (.finish agent joined) run' := by
  unfold Run.finish at hstep
  split at hstep
  case h_2 => cases hstep
  case h_1 queue running settled outcomes hphase =>
    split at hstep
    · cases hstep
    · rename_i hfull
      obtain ⟨job, hfind, heq⟩ := Option.map_eq_some_iff.mp hstep
      cases joined with
      | ok success output durationMs =>
        cases heq
        exact .finishOk success output durationMs hphase hfull hfind
      | err =>
        cases heq
        exact .finishErr hphase hfull hfind

theorem moves_of_carryOver (hstep : run.carryOver = some run') : Moves run .carryOver run' := by
  unfold Run.carryOver at hstep
  split at hstep
  case h_2 => cases hstep
  case h_1 job running queue settled outcomes hphase =>
    cases hmember : run.formation.member job.agent with
    | none =>
      rw [hmember] at hstep
      cases hstep
      exact .carryGone hphase hmember
    | some member =>
      rw [hmember] at hstep
      cases hstep
      exact .carryOver hphase hmember

/-- A step is one of the moves. -/
theorem moves_of_step {label : Label} (hstep : step run label = some run') :
    Moves run label run' := by
  cases label with
  | upkeep u =>
    simp only [step, Run.upkeep] at hstep
    split at hstep
    case h_2 => cases hstep
    case h_1 hphase =>
      obtain ⟨formation, hupkeep, rfl⟩ := Option.map_eq_some_iff.mp hstep
      exact .upkeep hphase (keeps_of_upkeep hupkeep)
  | handoff receiver task =>
    cases hstep
    exact .handoff receiver task
  | rehash tasks =>
    simp only [step, Run.rehash] at hstep
    split at hstep
    · next hperm =>
      cases hstep
      exact .rehash (List.isPerm_iff.mp hperm)
    · cases hstep
  | beat tick =>
    simp only [step, Run.beat] at hstep
    split at hstep
    case h_2 => cases hstep
    case h_1 hphase =>
      cases hstep
      exact .beat tick hphase
  | decide senses =>
    simp only [step, Run.decide] at hstep
    split at hstep
    case h_2 => cases hstep
    case h_1 hphase =>
      obtain ⟨member, hmember, heq⟩ := Option.map_eq_some_iff.mp hstep
      cases heq
      exact .decide senses hphase hmember
  | decided =>
    simp only [step, Run.decided] at hstep
    split at hstep
    case h_2 => cases hstep
    case h_1 hphase =>
      cases hstep
      exact .decided hphase
  | prepare autonomy hints => exact moves_of_prepare hstep
  | prepared =>
    simp only [step, Run.prepared] at hstep
    split at hstep
    case h_2 => cases hstep
    case h_1 hphase =>
      cases hstep
      exact .prepared hphase
  | collect handle => exact moves_of_collect hstep
  | collected =>
    simp only [step, Run.collected] at hstep
    split at hstep
    case h_2 => cases hstep
    case h_1 hphase =>
      cases hstep
      exact .collected hphase
  | spawn =>
    simp only [step, Run.spawn] at hstep
    split at hstep
    case h_2 => cases hstep
    case h_1 hphase =>
      split at hstep
      · next hroom =>
        cases hstep
        exact .spawn hphase hroom
      · cases hstep
  | finish agent joined => exact moves_of_finish hstep
  | windowClosed =>
    simp only [step, Run.windowClosed] at hstep
    split at hstep
    case h_2 => cases hstep
    case h_1 hphase =>
      split at hstep
      · cases hstep
      · next hfull =>
        cases hstep
        exact .windowClosed hphase hfull
  | carryOver => exact moves_of_carryOver hstep
  | defer =>
    simp only [step, Run.defer] at hstep
    split at hstep
    case h_2 => cases hstep
    case h_1 hphase =>
      cases hstep
      exact .defer hphase
  | closed =>
    simp only [step, Run.closed] at hstep
    split at hstep
    case h_2 => cases hstep
    case h_1 hphase =>
      cases hstep
      exact .closed hphase
  | post =>
    simp only [step, Run.post] at hstep
    split at hstep
    case h_2 => cases hstep
    case h_1 hphase =>
      cases hstep
      exact .post hphase
  | posted =>
    simp only [step, Run.posted] at hstep
    split at hstep
    case h_2 => cases hstep
    case h_1 hphase =>
      cases hstep
      exact .posted hphase

end Springtale.Beat
