import Springtale.Beat.Claim

/-! At most one execution of a task: when it holds of a run, and a run where it does not. -/
namespace Springtale.Beat

open Springtale.Core Springtale.Sentinel Springtale.Lib

/-- One member at a time has a task at a connector or in its hand, and releases are its own. -/
structure AtMostOneExecution (run : Run) : Prop where
  dispatch : ∀ a b task, (a, task) ∈ run.formation.ledger.opened →
    (b, task) ∈ run.formation.ledger.opened → a = b
  claim : ∀ m ∈ run.formation.members, ∀ n ∈ run.formation.members, ∀ x y,
    m.activeTask = some x → n.activeTask = some y → x.task.id = y.task.id → m.agentId = n.agentId
  release : ∀ r ∈ run.formation.ledger.releases, ∀ holder, r.holder = some holder →
    holder = r.agent

/-- A claim is written on a task that the board shows as free or as the member's own, and a
vote removes a task only while the board shows no claim on it. -/
def Run.checksClaim (run : Run) : Label → Bool
  | .prepare autonomy hints =>
    match run.phase with
    | .claiming (decision :: _) _ _ =>
      (run.formation.taskToClaim autonomy hints decision).all fun task =>
        (run.formation.blackboard.claimed task.id).all (· = decision.agent)
    | _ => true
  | .upkeep (.resolve index resolution) =>
    (run.formation.votes[index]?).all fun task =>
      destructiveOutcome resolution = .approved ||
        (run.formation.blackboard.claimed task.id).isNone
  | _ => true

variable {run run' : Run} {label : Label}

theorem upkeep_sound_life {u : Upkeep} (h : Sound run) (hstep : run.upkeep u = some run') :
    Sound run' ∧ (run.checksClaim (.upkeep u) →
      Reaches (Guarded Lease.Spares Lease.Step) run.view run'.view) := by
  unfold Run.upkeep at hstep
  split at hstep
  case h_2 => cases hstep
  case h_1 hphase =>
    obtain ⟨formation, phase⟩ := run
    subst hphase
    obtain ⟨formation', hupkeep, rfl⟩ := Option.map_eq_some_iff.mp hstep
    have hadvances : Advances ⟨formation, .idle⟩ ⟨formation', .idle⟩ →
        Sound ⟨formation', .idle⟩ ∧ (Run.checksClaim ⟨formation, .idle⟩ (.upkeep u) →
          Reaches (Guarded Lease.Spares Lease.Step) (Run.view ⟨formation, .idle⟩)
            (Run.view ⟨formation', .idle⟩)) :=
      fun hadvance => ⟨hadvance.sound, fun _ => hadvance.life⟩
    cases keeps_of_upkeep hupkeep with
    | writeTask task => exact hadvances (idle_still h (writeTask_still task formation))
    | assign agent hfind => exact hadvances (idle_still h (writeTask_still _ formation))
    | @resolve index task resolution hvote =>
      have hvoted : Sound ⟨{ formation with votes := formation.votes.eraseIdx index }, .idle⟩ :=
        ⟨h.distinct, h.engaged, h.active⟩
      obtain ⟨hsound, hlife⟩ := resolve_advances hvoted task (destructiveOutcome resolution)
      refine ⟨hsound, fun hchecks => hlife fun hdenied => ?_⟩
      simpa [Run.checksClaim, hvote, hdenied] using hchecks
    | join capabilities hnew => exact hadvances (join_advances h hnew capabilities)
    | leave agent => exact hadvances (leave_advances h agent)
    | health agent operational =>
      have hmembers : (formation.memberMut agent fun m => { m with operational }).members =
          onMember agent (fun m => { m with operational }) formation.members := rfl
      refine hadvances (Advances.of_moved h rfl rfl hmembers (fun _ => rfl) (fun _ => rfl) ?_ rfl)
      have hslots : pendings (formation.memberMut agent fun m => { m with operational }).members =
          pendings formation.members := pendings_onMember (fun _ => rfl) fun _ => rfl
      simp only [Run.carried, hslots]
      exact List.Perm.refl _
    | adjust | replenish => exact hadvances (idle_still h ⟨rfl, rfl, rfl⟩)

/-- Every step keeps the run sound; one whose claims are checked is a life of the lease table. -/
theorem step_sound_life (h : Sound run) (hstep : Steps run label run') :
    Sound run' ∧ (run.checksClaim label →
      Reaches (Guarded Lease.Spares Lease.Step) run.view run'.view) := by
  have hadvances : Advances run run' → Sound run' ∧ (run.checksClaim label →
      Reaches (Guarded Lease.Spares Lease.Step) run.view run'.view) :=
    fun hadvance => ⟨hadvance.sound, fun _ => hadvance.life⟩
  cases label with
  | upkeep u => exact upkeep_sound_life h hstep
  | prepare autonomy hints =>
    have hturn := prepare_turn h hstep
    refine ⟨hturn.sound h, fun hchecks => hturn.life h ?_⟩
    intro decision decisions before jobs task hphase hchosen holder hholder
    simpa [Run.checksClaim, hphase, hchosen, hholder] using hchecks
  | _ => exact hadvances (move_advances h (moves_of_step hstep) nofun nofun)

theorem Fresh.carried (h : Fresh run) : run.carried = [] := by
  have hslots : pendings run.formation.members = [] :=
    List.filterMap_eq_nil_iff.mpr fun m hm => by simp [(h.resting m hm).2]
  simp [Run.carried, hslots, h.phase]

theorem Fresh.sound (h : Fresh run) : Sound run := by
  refine ⟨h.distinct, ?_, ?_⟩
  · simp [Run.engaged, h.carried, h.phase]
  · intro m hm x hx
    rw [(h.resting m hm).1] at hx
    cases hx

theorem Fresh.kept (h : Fresh run) : Lease.Kept run.view := by
  have hcarried : run.view.carried = [] := h.carried
  have hledger : run.formation.ledger = ⟨[], []⟩ := h.unopened
  refine ⟨?_, ?_, ?_, ?_⟩
  · simp [hcarried]
  · simp [hcarried, Lease.Backed]
  · simp [Run.view, hledger, Lease.Backed]
  · simp [Run.view, hledger]

theorem Sound.reaches (h : Sound run) (hrun : Reaches Steps run run') : Sound run' :=
  hrun.invariant Sound (fun _ _ _ hstep hs => (step_sound_life hs hstep).1) h

/-- What a kept lease table says about the run it is the view of. -/
theorem Sound.atMostOne (h : Sound run) (hkept : Lease.Kept run.view) : AtMostOneExecution run := by
  refine ⟨?_, ?_, ?_⟩
  · intro a b task ha hb
    exact hkept.opened.exclusive ha hb
  · intro m hm n hn x y hx hy hsame
    refine hkept.carried.exclusive (k := x.task.id) (h.active m hm x hx) ?_
    rw [hsame]
    exact h.active n hn y hy
  · intro r hr holder hholder
    have hown := hkept.releases r hr
    rw [hown] at hholder
    exact (Option.some.inj hholder).symm

/-- The 300-tick release never runs: a member that comes to its claim has no task of its own. -/
theorem continueActiveTask_never {start : Run} (hstart : Fresh start)
    (hrun : Reaches Steps start run) {decision : Decision} {decisions : List Decision}
    {before : Outcomes} {jobs : List DispatchJob}
    (hphase : run.phase = .claiming (decision :: decisions) before jobs) {m : Member}
    (hmember : run.formation.member decision.agent = some m) :
    run.formation.continueActiveTask m = none := by
  obtain ⟨hm, hid⟩ := member_mem hmember
  have hrests : m.activeTask = none :=
    (hstart.sound.reaches hrun).rests hm (by simp [hphase, hid])
  simp [Formation.continueActiveTask, hrests]

/-- A run whose claims are checked executes every task at most once at a time. -/
theorem atMostOneExecution_of_checksClaim {start : Run} (hstart : Fresh start)
    (hrun : Reaches (Guarded (fun r label => r.checksClaim label = true) Steps) start run) :
    AtMostOneExecution run := by
  have hboth : Sound run ∧ Lease.Kept run.view :=
    hrun.invariant (fun r => Sound r ∧ Lease.Kept r.view)
      (fun _ _ _ ⟨hchecks, hstep⟩ ⟨hs, hkept⟩ =>
        have hnext := step_sound_life hs hstep
        ⟨hnext.1, hkept.reaches (hnext.2 hchecks)⟩)
      ⟨hstart.sound, hstart.kept⟩
  exact hboth.1.atMostOne hboth.2

section Samples

def capability (name : String) : CapabilityDecl := ⟨name, none, .null⟩

def chore (id : Uuid) (connector : String) : SubTask :=
  ⟨id, capability connector, "run", .null, 1, none, "", []⟩

/-- Members 1 and 2 with the given capabilities, before their first beat. -/
def crew (first second : String) (tasks : List SubTask) : Run where
  formation :=
    { members := [⟨1, [capability first], true, none, none⟩,
        ⟨2, [capability second], true, none, none⟩]
      blackboard := ⟨tasks, fun _ => none, fun _ => none⟩
      fuel := 10
      directInbox := fun _ => []
      currentTick := 0
      momentumTier := .cold
      destructiveActionPolicy := .autoApprove
      maxConcurrentActions := 0
      relaxed := false
      votes := []
      awaitingConsensus := []
      consensusApproved := []
      ledger := ⟨[], []⟩ }
  phase := .idle

theorem crew_fresh (first second : String) (tasks : List SubTask) :
    Fresh (crew first second tasks) := by
  refine ⟨rfl, by simp [crew], ?_, fun _ => rfl, rfl⟩
  simp [crew]

/-- Both members decide, claim and start what they chose, a read-only action. -/
def oneBeat : List Label :=
  [.beat 1, .decide ⟨fun _ => 0, none, none⟩, .decide ⟨fun _ => 0, none, none⟩, .decided,
    .prepare .actAutonomously (some ⟨true, none⟩), .prepare .actAutonomously (some ⟨true, none⟩),
    .prepared, .collect none, .collect none, .collected, .spawn, .spawn]

/-- Two members for one connector, and one task: both scan it before either claims it. -/
theorem sharedTask_dispatched_twice :
    ∃ start run, Fresh start ∧ Reaches Steps start run ∧ ¬ AtMostOneExecution run := by
  obtain ⟨run, hrun, hopened⟩ : ∃ run,
      runLabels step (crew "shell" "shell" [chore 7 "shell"]) oneBeat = some run ∧
        run.formation.ledger.opened = [(2, 7), (1, 7)] := ⟨_, rfl, rfl⟩
  refine ⟨_, run, crew_fresh _ _ _, reaches_of_runLabels hrun, fun h => ?_⟩
  have hsame : (1 : Uuid) = 2 := h.dispatch 1 2 7 (by simp [hopened]) (by simp [hopened])
  exact absurd hsame (by decide)

/-- Two members for two connectors: each task is dispatched by its own. -/
theorem separateTasks_dispatched_once :
    ∃ run, Reaches (Guarded (fun r label => r.checksClaim label = true) Steps)
        (crew "shell" "mail" [chore 7 "shell", chore 8 "mail"]) run ∧
      run.formation.ledger.opened = [(2, 8), (1, 7)] ∧ AtMostOneExecution run := by
  obtain ⟨run, hrun, hopened⟩ : ∃ run,
      runLabels (fun r label => if r.checksClaim label then step r label else none)
          (crew "shell" "mail" [chore 7 "shell", chore 8 "mail"]) oneBeat = some run ∧
        run.formation.ledger.opened = [(2, 8), (1, 7)] := ⟨_, rfl, rfl⟩
  have hguarded := guarded_of_runLabels hrun
  exact ⟨run, hguarded, hopened, atMostOneExecution_of_checksClaim (crew_fresh _ _ _) hguarded⟩

end Samples

end Springtale.Beat
