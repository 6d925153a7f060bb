import Springtale.Beat.Settled
import Springtale.Cooperation.CbbaConverges

/-! The assignments of a replan on the board, and the members that come to claim the tasks. -/
namespace Springtale.Cooperation

open Springtale.Core Springtale.Beat Springtale.Formation Springtale.Sentinel Springtale.Lib

/-- Each assigned task that the scan shows is written anew with its agent. -/
def applyAssignments (assignment : HashMap TaskId AgentId) (formation : Formation) : Formation :=
  let current := formation.blackboard.scanTasks []
  assignment.iter.foldl (fun formation entry =>
    match current.find? (·.id = entry.1) with
    | some task => formation.writeTask { task with assignedTo := some entry.2 }
    | none => formation) formation

def operationalSpecs (formation : Formation) : List AgentSpec :=
  (formation.members.filter (·.operational)).map fun m => ⟨m.agentId, m.capabilities⟩

section Replan

variable {Bid : Type} [LinearOrder Bid] (arith : BidArith Bid)

/-- A replan that the supervisor asked for. A stalled one applies what it has. -/
def replan (hashers : Hashers) (formation : Formation) : Formation :=
  let agents := operationalSpecs formation
  let tasks := formation.blackboard.scanTasks []
  if agents.isEmpty || tasks.isEmpty then formation
  else
    match Orchestrator.run arith hashers agents tasks formation.momentumTier with
    | .converged assignment _ _ => applyAssignments assignment formation
    | .stalled assignment _ => applyAssignments assignment formation
    | .unauthorized _ => formation

/-- A member's choice of a task, with the formation as the member saw it. -/
structure Pick where
  member : Member
  formation : Formation
  task : SubTask

structure Routed where
  run : Run
  picks : List Pick

inductive RoutingLabel where
  | machine (label : Label)
  | replan (hashers : Hashers)

/-- The choice that a step makes. -/
def newPicks (run : Run) : Label → List Pick
  | .decide senses =>
    match run.phase with
    | .deciding (agent :: _) _ =>
      ((run.formation.member agent).bind fun member =>
        (run.formation.decide member senses).1.chosenTask.map fun task =>
          ⟨member, run.formation, task⟩).toList
    | _ => []
  | _ => []

def Routed.next (routed : Routed) : RoutingLabel → Option Routed
  | .machine label =>
    (step routed.run label).map fun run => ⟨run, newPicks routed.run label ++ routed.picks⟩
  | .replan hashers =>
    match routed.run.phase with
    | .idle => some { routed with run := ⟨replan arith hashers routed.run.formation, .idle⟩ }
    | _ => none

end Replan

namespace Pick

def inbox (pick : Pick) : List SubTask := pick.formation.directInbox pick.member.agentId

/-- The tasks on the board that may be claimed and name the member. -/
def named (pick : Pick) : List SubTask :=
  (pick.formation.blackboard.scanTasks []).filter (·.assignedTo = some pick.member.agentId)

/-- An assignment is a hint. A task that names another member is picked by one that is capable of
it, or whose empty capability list fits every task, or out of the inbox; and a member that may
read its assignments, with an empty inbox, picks the most urgent of them. -/
structure Honours (pick : Pick) : Prop where
  capable : ∀ agent, pick.task.assignedTo = some agent →
    agent = pick.member.agentId ∨ pick.task ∈ pick.inbox ∨ pick.member.capabilities = [] ∨
      pick.task.targetConnector ∈ pick.member.capabilities
  available : pick.task ∈ pick.inbox ∨ pick.task ∈ pick.formation.blackboard.scanTasks [] ∨
    pick.task.assignedTo = some pick.member.agentId
  first : allows pick.formation.momentumTier .l3Direct = true → pick.inbox = [] →
    pick.named ≠ [] →
      pick.task ∈ pick.named ∧ ∀ other ∈ pick.named, pick.task.priority ≤ other.priority

end Pick

/-- Every claim on the board goes back to a pick of its holder. -/
structure Honoured (routed : Routed) : Prop where
  claims : ∀ taskId agent, routed.run.formation.blackboard.claimed taskId = some agent →
    ∃ pick ∈ routed.picks, pick.member.agentId = agent ∧ pick.task.id = taskId
  picks : ∀ pick ∈ routed.picks, pick.Honours

section MinByKey

variable {key : SubTask → Int} {tasks : List SubTask} {task : SubTask}

theorem minByKey_mem (h : minByKey key tasks = some task) : task ∈ tasks := by
  induction tasks generalizing task with
  | nil => cases h
  | cons head rest ih =>
    rw [minByKey] at h
    split at h
    · cases h
      exact List.mem_cons_self
    · rename_i other hother
      split at h <;> cases h
      · exact List.mem_cons_of_mem _ (ih hother)
      · exact List.mem_cons_self

theorem minByKey_none (h : minByKey key tasks = none) : tasks = [] := by
  cases tasks with
  | nil => rfl
  | cons head rest =>
    rw [minByKey] at h
    split at h
    · cases h
    · split at h <;> cases h

theorem minByKey_le (h : minByKey key tasks = some task) : ∀ other ∈ tasks, key task ≤ key other := by
  induction tasks generalizing task with
  | nil => cases h
  | cons head rest ih =>
    rw [minByKey] at h
    intro other hother
    split at h
    · rename_i hrest
      cases h
      have hnil := minByKey_none hrest
      subst hnil
      rw [List.mem_singleton.mp hother]
    · rename_i least hleast
      have hle := ih hleast
      split at h <;> cases h <;> rcases List.mem_cons.mp hother with rfl | hmem
      · omega
      · exact hle other hmem
      · exact le_refl _
      · have hother' := hle other hmem
        omega

end MinByKey

section Decide

variable {formation : Formation} {member : Member} {senses : Senses} {task : SubTask}

theorem mem_scanTasks_nil {capabilities : List CapabilityDecl}
    (h : task ∈ formation.blackboard.scanTasks capabilities) :
    task ∈ formation.blackboard.scanTasks [] ∧
      (capabilities = [] ∨ task.targetConnector ∈ capabilities) := by
  simp only [Blackboard.scanTasks, List.mem_insertionSort, List.mem_filter, Bool.and_eq_true,
    Bool.or_eq_true, List.isEmpty_iff, List.contains_iff_mem] at h ⊢
  exact ⟨⟨h.1, ⟨h.2.1.1, .inl trivial⟩, h.2.2⟩, h.2.1.2⟩

theorem scan_mem {weightedPriority : SubTask → Int} {capabilities : List CapabilityDecl}
    (h : formation.scan capabilities weightedPriority = some task) :
    task ∈ formation.blackboard.scanTasks capabilities := by
  unfold Formation.scan at h
  split at h
  · cases h
  · dsimp only at h
    split at h <;> exact minByKey_mem h

/-- Whatever a member picks that its inbox step did not find comes from its scan. -/
theorem chosenTask_cases (hchosen : (formation.decide member senses).1.chosenTask = some task) :
    (formation.inbox member senses).1 = some task ∨
      (formation.inbox member senses).1 = none ∧
        task ∈ (formation.inbox member senses).2.blackboard.scanTasks member.capabilities := by
  have heq : (formation.decide member senses).1.chosenTask =
      if (formation.decide member senses).1.sacrifice.isSome then none
      else (formation.inbox member senses).1.or ((formation.inbox member senses).2.scan
        member.capabilities senses.weightedPriority) := rfl
  rw [heq] at hchosen
  split at hchosen
  · cases hchosen
  · cases hfound : (formation.inbox member senses).1 with
    | some picked =>
      rw [hfound] at hchosen
      exact .inl hchosen
    | none =>
      rw [hfound] at hchosen
      exact .inr ⟨rfl, scan_mem hchosen⟩

/-- Polling takes the head of the inbox, or the most urgent task on the board that names the
member. -/
theorem pollAssigned_cases (agent : Uuid) (formation : Formation) :
    (∃ first rest, formation.directInbox agent = first :: rest ∧
        (formation.pollAssigned agent).1 = some first) ∨
      formation.directInbox agent = [] ∧
        (formation.pollAssigned agent).1 =
          minByKey (·.priority)
            ((formation.blackboard.scanTasks []).filter (·.assignedTo = some agent)) := by
  unfold Formation.pollAssigned
  cases hinbox : formation.directInbox agent with
  | cons first rest => exact .inl ⟨first, rest, rfl, rfl⟩
  | nil => exact .inr ⟨rfl, rfl⟩

theorem pollAssigned_board (agent : Uuid) (formation : Formation) :
    (formation.pollAssigned agent).2.blackboard = formation.blackboard := by
  unfold Formation.pollAssigned
  split <;> rfl

/-- The inbox step leaves the board, and finds what polling finds, or else a chain step. -/
theorem inbox_cases (member : Member) (senses : Senses) (formation : Formation) :
    (formation.inbox member senses).2.blackboard = formation.blackboard ∧
      (allows formation.momentumTier .l3Direct = true ∧
          (∃ task, (formation.pollAssigned member.agentId).1 = some task ∧
            (formation.inbox member senses).1 = some task) ∨
        (allows formation.momentumTier .l3Direct = true →
            (formation.pollAssigned member.agentId).1 = none) ∧
          ∀ task, (formation.inbox member senses).1 = some task →
            task.assignedTo = some member.agentId) := by
  have hboard := pollAssigned_board member.agentId formation
  unfold Formation.inbox
  split
  · rename_i hlayer
    simp only [Bool.not_eq_true'] at hlayer
    refine ⟨rfl, .inr ⟨?_, ?_⟩⟩
    · intro hallowed
      rw [hlayer] at hallowed
      cases hallowed
    · intro task h
      cases h
  · rename_i hlayer
    have hallowed : allows formation.momentumTier .l3Direct = true := by simpa using hlayer
    generalize formation.pollAssigned member.agentId = polled at hboard ⊢
    obtain ⟨found, formation'⟩ := polled
    cases found with
    | some task => exact ⟨hboard, .inl ⟨hallowed, task, rfl, rfl⟩⟩
    | none =>
      refine ⟨hboard, .inr ⟨fun _ => rfl, ?_⟩⟩
      intro task h
      obtain ⟨⟨id, capability, data⟩, -, hstep⟩ := Option.bind_eq_some_iff.mp h
      dsimp only at hstep
      split at hstep
      · cases hstep
        rfl
      · cases hstep

/-- Every pick honours the assignments as hints. -/
theorem honours_of_decide (hchosen : (formation.decide member senses).1.chosenTask = some task) :
    Pick.Honours ⟨member, formation, task⟩ := by
  obtain ⟨hboard, hinbox⟩ := inbox_cases member senses formation
  rcases hinbox with ⟨hallowed, found, hpolled, hfound⟩ | ⟨hnothing, hchain⟩
  · -- what polling found is what the member picks
    obtain rfl : found = task := by
      rcases chosenTask_cases hchosen with hsame | ⟨hnone, -⟩
      · exact Option.some.inj (hfound.symm.trans hsame)
      · rw [hfound] at hnone
        cases hnone
    rcases pollAssigned_cases member.agentId formation with
      ⟨first, rest, hlist, hfirst⟩ | ⟨hempty, hleast⟩
    · have hmem : found ∈ formation.directInbox member.agentId := by
        obtain rfl : first = found := Option.some.inj (hfirst.symm.trans hpolled)
        rw [hlist]
        exact List.mem_cons_self
      refine ⟨fun _ _ => .inr (.inl hmem), .inl hmem, ?_⟩
      intro _ hnil
      simp [Pick.inbox, hlist] at hnil
    · rw [hleast] at hpolled
      have hmem := minByKey_mem hpolled
      obtain ⟨hlisted, hnames⟩ := List.mem_filter.mp hmem
      have hnamed : found.assignedTo = some member.agentId := of_decide_eq_true hnames
      refine ⟨?_, .inr (.inr hnamed), ?_⟩
      · intro agent hagent
        rw [hnamed] at hagent
        exact .inl (Option.some.inj hagent).symm
      · intro _ _ _
        refine ⟨hmem, ?_⟩
        intro other hother
        exact_mod_cast minByKey_le hpolled other hother
  · -- nothing was assigned that the member may read
    have hfirst : allows formation.momentumTier .l3Direct = true →
        formation.directInbox member.agentId = [] →
          (formation.blackboard.scanTasks []).filter (·.assignedTo = some member.agentId) = [] := by
      intro hallowed hnil
      have hnone := hnothing hallowed
      rcases pollAssigned_cases member.agentId formation with ⟨_, _, hlist, -⟩ | ⟨-, hleast⟩
      · rw [hnil] at hlist
        cases hlist
      · exact minByKey_none (hleast.symm.trans hnone)
    rcases chosenTask_cases hchosen with hfound | ⟨-, hscanned⟩
    · have hnamed := hchain task hfound
      refine ⟨?_, .inr (.inr hnamed), ?_⟩
      · intro agent hagent
        rw [hnamed] at hagent
        exact .inl (Option.some.inj hagent).symm
      · exact fun hallowed hnil hsome => absurd (hfirst hallowed hnil) hsome
    · rw [hboard] at hscanned
      obtain ⟨hlisted, hcapable⟩ := mem_scanTasks_nil hscanned
      refine ⟨fun _ _ => .inr (.inr hcapable), .inr (.inl hlisted), ?_⟩
      exact fun hallowed hnil hsome => absurd (hfirst hallowed hnil) hsome

end Decide

section Steps

variable {run run' : Run} {label : Label}

def decisionsOf : Phase → List Decision
  | .deciding _ decisions => decisions
  | .claiming decisions _ _ => decisions
  | _ => []

/-- Only deciding adds a decision. -/
theorem decisionsOf_step (hlabel : ∀ senses, label ≠ .decide senses)
    (hstep : step run label = some run') :
    ∀ d ∈ decisionsOf run'.phase, d ∈ decisionsOf run.phase := by
  cases moves_of_step hstep with
  | decide senses => exact absurd rfl (hlabel senses)
  | handoff | rehash => exact fun _ hd => hd
  | decided hphase =>
    rw [hphase]
    exact fun _ hd => hd
  | prepareGone _ _ hphase | prepareSettled hphase | prepareJob hphase =>
    rw [hphase]
    exact fun _ hd => List.mem_cons_of_mem _ hd
  | _ =>
    -- the phase after has no decisions
    simp [decisionsOf]

theorem post_claimed {formation : Formation} {poster : Uuid} {outcome : ExecuteOutcome} :
    ∀ taskId agent, (formation.post poster outcome).blackboard.claimed taskId = some agent →
      formation.blackboard.claimed taskId = some agent := by
  intro taskId agent hclaim
  cases hmember : formation.member poster with
  | none => rwa [Formation.post_of_left outcome hmember] at hclaim
  | some m =>
    cases hdone : outcome.dispatched with
    | none => rwa [Formation.post_of_nothing poster formation hdone] at hclaim
    | some done =>
      rcases (Formation.post_cases hmember hdone).2 with ⟨hsame, -⟩ | ⟨hended, -⟩
      · rwa [hsame] at hclaim
      · rw [hended] at hclaim
        by_cases hkey : taskId = done.task.id
        · simp [hkey] at hclaim
        · rwa [Function.update_of_ne hkey] at hclaim

/-- Only the claim phase writes a claim. -/
theorem claimed_step (hlabel : ∀ autonomy hints, label ≠ .prepare autonomy hints)
    (hstep : step run label = some run') :
    ∀ taskId agent, run'.formation.blackboard.claimed taskId = some agent →
      run.formation.blackboard.claimed taskId = some agent := by
  cases moves_of_step hstep with
  | prepareGone | prepareSettled | prepareJob => exact absurd rfl (hlabel _ _)
  | @upkeep u _ hphase hkeeps =>
    cases u with
    | leave agent =>
      cases hkeeps
      exact fun _ _ hclaim => hclaim
    | _ => exact (upkeep_retains (fun _ => by simp) hkeeps).claimed
  | @decide _ _ _ member senses =>
    rw [(run.formation.decide_still member senses).2.claimed]
    exact fun _ _ hclaim => hclaim
  | collectErr hphase hpending =>
    apply Run.Retains.claimed
    exact .of_failed rfl (fun _ => rfl) (carried_collect_err hphase hpending)
  | finishErr hphase hfull hfind =>
    exact (Run.Retains.of_failed rfl (fun _ => rfl) (carried_finish_err hphase hfind)).claimed
  | defer hphase =>
    exact (Run.Retains.of_failed rfl (fun _ => rfl) (carried_defer hphase)).claimed
  | post => exact post_claimed
  | _ => exact fun _ _ hclaim => hclaim

/-- The claim phase writes the claim of a decision's choice. -/
theorem claimed_prepare {autonomy : AutonomyLevel} {hints : Option ActionHints} (h : Sound run)
    (hstep : run.prepare autonomy hints = some run') {taskId agent : Uuid}
    (hclaim : run'.formation.blackboard.claimed taskId = some agent) :
    run.formation.blackboard.claimed taskId = some agent ∨
      ∃ d ∈ decisionsOf run.phase, d.agent = agent ∧
        ∃ task, d.chosenTask = some task ∧ task.id = taskId := by
  cases prepare_turn h hstep with
  | settled decision decisions before after jobs hphase hphase' hnothing hstill =>
    rw [hstill.claimed] at hclaim
    exact .inl hclaim
  | claimed decision decisions before after jobs task cleared hphase hphase' hnothing hchosen f
      hsame hactive hmembers hwritten hledger =>
    have htask : decision.chosenTask = some task := by
      unfold Formation.taskToClaim at hchosen
      split at hchosen
      · cases hchosen
      · split at hchosen
        · cases hchosen
        · exact hchosen
    by_cases hkey : taskId = task.id
    · subst hkey
      refine .inr ⟨decision, ?_, ?_, task, htask, rfl⟩
      · rw [hphase]
        exact List.mem_cons_self
      · rw [hwritten] at hclaim
        cases cleared with
        | true => simpa using hclaim
        | false => simp at hclaim
    · rw [hwritten] at hclaim
      cases cleared <;> exact .inl (by simpa [hkey] using hclaim)

end Steps

section Replan

variable {Bid : Type} [LinearOrder Bid] {arith : BidArith Bid}

theorem applyAssignments_still (assignment : HashMap TaskId AgentId) (formation : Formation) :
    Still formation (applyAssignments assignment formation) := by
  unfold applyAssignments
  generalize formation.blackboard.scanTasks [] = current
  dsimp only
  generalize assignment.iter = entries
  induction entries generalizing formation with
  | nil => exact Still.refl formation
  | cons entry entries ih =>
    rw [List.foldl_cons]
    refine Still.trans ?_ (ih _)
    split
    · exact writeTask_still _ formation
    · exact Still.refl formation

/-- A replan rewrites tasks only. -/
theorem replan_still (hashers : Hashers) (formation : Formation) :
    Still formation (replan arith hashers formation) := by
  unfold replan
  dsimp only
  split
  · exact Still.refl formation
  · split
    · exact applyAssignments_still _ _
    · exact applyAssignments_still _ _
    · exact Still.refl formation

/-- What holds along a run: the decisions of the beat are picks, too. -/
structure Traced (routed : Routed) : Prop where
  sound : Sound routed.run
  decisions : ∀ d ∈ decisionsOf routed.run.phase, ∀ task, d.chosenTask = some task →
    ∃ pick ∈ routed.picks, pick.member.agentId = d.agent ∧ pick.task = task
  honoured : Honoured routed

theorem newPicks_honours {run : Run} (label : Label) : ∀ pick ∈ newPicks run label, pick.Honours := by
  intro pick hpick
  cases label with
  | decide senses =>
    simp only [newPicks] at hpick
    split at hpick
    · obtain ⟨member, -, hchosen⟩ := Option.bind_eq_some_iff.mp (Option.mem_toList.mp hpick)
      obtain ⟨task, htask, rfl⟩ := Option.map_eq_some_iff.mp hchosen
      exact honours_of_decide htask
    · cases hpick
  | _ => cases hpick

/-- The decision a step adds is the pick it makes. -/
theorem newPicks_decides {run run' : Run} {senses : Senses}
    (hstep : step run (.decide senses) = some run') :
    ∀ d ∈ decisionsOf run'.phase, d ∈ decisionsOf run.phase ∨
      ∀ task, d.chosenTask = some task →
        ∃ pick ∈ newPicks run (.decide senses), pick.member.agentId = d.agent ∧ pick.task = task := by
  cases moves_of_step hstep with
  | @decide _ _ _ member _ hphase hmember =>
    intro d hd
    simp only [decisionsOf, List.mem_append, List.mem_singleton] at hd
    rcases hd with hold | rfl
    · rw [hphase]
      exact .inl hold
    · refine .inr fun task htask => ⟨⟨member, run.formation, task⟩, ?_, ?_, rfl⟩
      · simp [newPicks, hphase, hmember, htask]
      · exact ((run.formation.decide_still member senses).1).symm

theorem traced_machine {routed : Routed} {label : Label} {run' : Run} (h : Traced routed)
    (hstep : step routed.run label = some run') :
    Traced ⟨run', newPicks routed.run label ++ routed.picks⟩ := by
  refine ⟨(step_sound_life h.sound hstep).1, ?_, ?_, ?_⟩
  · intro d hd task htask
    have hkept : d ∈ decisionsOf routed.run.phase → ∃ pick ∈ newPicks routed.run label ++
        routed.picks, pick.member.agentId = d.agent ∧ pick.task = task := by
      intro hold
      obtain ⟨pick, hpick, hsame⟩ := h.decisions d hold task htask
      exact ⟨pick, List.mem_append_right _ hpick, hsame⟩
    by_cases hlabel : ∃ senses, label = .decide senses
    · obtain ⟨senses, rfl⟩ := hlabel
      rcases newPicks_decides hstep d hd with hold | hnew
      · exact hkept hold
      · obtain ⟨pick, hpick, hsame⟩ := hnew task htask
        exact ⟨pick, List.mem_append_left _ hpick, hsame⟩
    · exact hkept (decisionsOf_step (fun senses hsame => hlabel ⟨senses, hsame⟩) hstep d hd)
  · intro taskId agent hclaim
    have hkept : routed.run.formation.blackboard.claimed taskId = some agent →
        ∃ pick ∈ newPicks routed.run label ++ routed.picks,
          pick.member.agentId = agent ∧ pick.task.id = taskId := by
      intro hold
      obtain ⟨pick, hpick, hsame⟩ := h.honoured.claims taskId agent hold
      exact ⟨pick, List.mem_append_right _ hpick, hsame⟩
    by_cases hlabel : ∃ autonomy hints, label = .prepare autonomy hints
    · obtain ⟨autonomy, hints, rfl⟩ := hlabel
      rcases claimed_prepare h.sound hstep hclaim with hold | ⟨d, hd, rfl, task, htask, rfl⟩
      · exact hkept hold
      · obtain ⟨pick, hpick, hagent, rfl⟩ := h.decisions d hd task htask
        exact ⟨pick, List.mem_append_right _ hpick, hagent, rfl⟩
    · refine hkept (claimed_step ?_ hstep taskId agent hclaim)
      exact fun autonomy hints hsame => hlabel ⟨autonomy, hints, hsame⟩
  · intro pick hpick
    rcases List.mem_append.mp hpick with hnew | hold
    · exact newPicks_honours label pick hnew
    · exact h.honoured.picks pick hold

theorem traced_next {routed routed' : Routed} {label : RoutingLabel} (h : Traced routed)
    (hnext : routed.next arith label = some routed') : Traced routed' := by
  cases label with
  | machine label =>
    obtain ⟨run', hstep, rfl⟩ := Option.map_eq_some_iff.mp hnext
    exact traced_machine h hstep
  | replan hashers =>
    simp only [Routed.next] at hnext
    split at hnext
    case h_2 => cases hnext
    case h_1 hphase =>
      cases hnext
      obtain ⟨⟨formation, phase⟩, picks⟩ := routed
      simp only at hphase
      subst hphase
      have hstill := @replan_still _ _ arith hashers formation
      refine ⟨(idle_still h.sound hstill).sound, fun d hd => absurd hd (by simp [decisionsOf]), ?_,
        h.honoured.picks⟩
      intro taskId agent hclaim
      rw [hstill.claimed] at hclaim
      exact h.honoured.claims taskId agent hclaim

/-- In every run, replans included, each claim was picked by its holder with the assignments as
hints: by the member that the entry names, by one capable of the task, or out of an inbox. -/
theorem assignments_honoured {start : Run} (hfresh : Fresh start) {labels : List RoutingLabel}
    {routed : Routed} (hrun : runLabels (Routed.next arith) ⟨start, []⟩ labels = some routed) :
    Honoured routed := by
  have htraced : Traced routed := by
    refine (reaches_of_runLabels hrun).invariant Traced ?_ ?_
    · intro _ _ _ hnext h
      exact traced_next h hnext
    · refine ⟨hfresh.sound, ?_, ?_, ?_⟩
      · rw [hfresh.phase]
        intro d hd
        cases hd
      · intro taskId agent hclaim
        rw [hfresh.unclaimed taskId] at hclaim
        cases hclaim
      · intro pick hpick
        cases hpick
  exact htraced.honoured

end Replan

section Sample

/-- Two members for one connector, and a task that either can do. -/
def feverCrew : Run :=
  { crew "shell" "shell" [chore 7 "shell"] with
    formation := { (crew "shell" "shell" [chore 7 "shell"]).formation with
      momentumTier := .fever } }

theorem feverCrew_fresh : Fresh feverCrew := by
  refine ⟨rfl, by simp [feverCrew, crew], ?_, fun _ => rfl, rfl⟩
  simp [feverCrew, crew]

/-- A replan, and a beat in which member 1 only suggests what it would do, and member 2 acts. -/
def replannedBeat : List RoutingLabel :=
  .replan Orchestrator.plainHashers ::
    [Label.beat 1, .decide ⟨fun _ => 0, none, none⟩, .decide ⟨fun _ => 0, none, none⟩, .decided,
      .prepare .suggest (some ⟨true, none⟩),
      .prepare .actAutonomously (some ⟨true, none⟩)].map .machine

theorem run_replannedBeat :
    ∃ routed, runLabels (Routed.next ratArith) ⟨feverCrew, []⟩ replannedBeat = some routed ∧
      routed.run.formation.blackboard.claimed 7 = some 2 ∧
      routed.run.formation.blackboard.tasks.map (fun task => (task.id, task.assignedTo)) =
        [(7, some 1)] := by
  have hrun : (runLabels (Routed.next ratArith) ⟨feverCrew, []⟩ replannedBeat).map (fun routed =>
      (routed.run.formation.blackboard.claimed 7,
        routed.run.formation.blackboard.tasks.map fun task => (task.id, task.assignedTo))) =
      some (some 2, [(7, some 1)]) := by decide +kernel
  obtain ⟨routed, hrouted, heq⟩ := Option.map_eq_some_iff.mp hrun
  obtain ⟨hclaimed, htasks⟩ := Prod.mk.inj heq
  exact ⟨routed, hrouted, hclaimed, htasks⟩

/-- The replan converges and assigns the task to member 1; nobody holds it, and member 2 scans it and
claims it. -/
theorem assignment_overridden :
    (∃ assignment sweeps left,
      Orchestrator.run ratArith Orchestrator.plainHashers (operationalSpecs feverCrew.formation)
          (feverCrew.formation.blackboard.scanTasks []) .fever =
        .converged assignment sweeps left) ∧
      ∃ routed, runLabels (Routed.next ratArith) ⟨feverCrew, []⟩ replannedBeat = some routed ∧
        routed.run.formation.blackboard.claimed 7 = some 2 ∧
        ∃ task ∈ routed.run.formation.blackboard.tasks, task.id = 7 ∧ task.assignedTo = some 1 := by
  constructor
  · obtain ⟨sweeps, net, -, -, hconverged, -⟩ := Orchestrator.run_conflictFree ratArith
      Orchestrator.plainHashers (operationalSpecs feverCrew.formation)
      (feverCrew.formation.blackboard.scanTasks []) (by decide) (by decide)
    exact ⟨_, _, _, hconverged⟩
  · obtain ⟨routed, hrun, hclaimed, htasks⟩ := run_replannedBeat
    refine ⟨routed, hrun, hclaimed, ?_⟩
    have hmem : (7, some 1) ∈
        routed.run.formation.blackboard.tasks.map fun task => (task.id, task.assignedTo) := by
      rw [htasks]
      exact List.mem_cons_self
    obtain ⟨task, htask, heq⟩ := List.mem_map.mp hmem
    obtain ⟨hid, hassigned⟩ := Prod.mk.inj heq
    exact ⟨task, htask, hid, hassigned⟩

/-- Member 2 is capable of the task it claimed. -/
theorem assignments_honoured_replanned :
    ∃ routed, runLabels (Routed.next ratArith) ⟨feverCrew, []⟩ replannedBeat = some routed ∧
      routed.run.formation.blackboard.claimed 7 = some 2 ∧ Honoured routed := by
  obtain ⟨routed, hrun, hclaimed, -⟩ := run_replannedBeat
  exact ⟨routed, hrun, hclaimed, assignments_honoured feverCrew_fresh hrun⟩

end Sample

end Springtale.Cooperation
