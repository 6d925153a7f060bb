import Springtale.Beat.Votes
import Springtale.Lib.Transition

/-! Calls in flight: those a beat started, and those that outlived their beat. Each beat counts
its own against the cap. -/
namespace Springtale.Beat

open Springtale.Core Springtale.Formation Springtale.Sentinel Springtale.Lib

/-- The calls that have started and not returned. A member that leaves drops the handle of its
call, and the call goes on. -/
structure Calls where
  current : List DispatchJob
  earlier : List DispatchJob
  detached : List DispatchJob

structure Flight where
  run : Run
  calls : Calls

/-- A step of the formation, or the return of a call. -/
inductive Event where
  | machine (label : Label)
  | returns (agent : Uuid)
  | detachedReturns (index : Nat)

namespace Calls

def inFlight (calls : Calls) : Nat :=
  calls.current.length + calls.earlier.length + calls.detached.length

/-- A call that outlived its beat is still going. -/
def outlives (calls : Calls) : Bool := !calls.earlier.isEmpty || !calls.detached.isEmpty

def ofAgent (agent : Uuid) : List DispatchJob → List DispatchJob :=
  List.filter (·.agent = agent)

def ofOthers (agent : Uuid) : List DispatchJob → List DispatchJob :=
  List.filter (·.agent ≠ agent)

/-- A handle is joined once its call has returned, and looked at without waiting. -/
def permits (run : Run) (calls : Calls) : Label → Bool
  | .finish agent _ => (ofAgent agent calls.current).isEmpty
  | .collect handle =>
    match run.phase with
    | .collecting (agent :: _) _ _ _ =>
      ((run.formation.member agent).bind (·.pending)).isNone ||
        handle.isSome = (ofAgent agent calls.earlier).isEmpty
    | _ => true
  | _ => true

/-- What a step starts, carries over, aborts or detaches. -/
def after (run : Run) (calls : Calls) : Label → Calls
  | .spawn =>
    match run.phase with
    | .acting (job :: _) _ _ _ => { calls with current := calls.current ++ [job] }
    | _ => calls
  | .carryOver =>
    match run.phase with
    | .closing (job :: _) _ _ _ =>
      if (run.formation.member job.agent).isSome then
        { calls with
          current := ofOthers job.agent calls.current
          earlier := calls.earlier ++ ofAgent job.agent calls.current }
      else { calls with current := ofOthers job.agent calls.current }
    | _ => calls
  | .upkeep (.leave agent) =>
    { calls with
      earlier := ofOthers agent calls.earlier
      detached := calls.detached ++ ofAgent agent calls.earlier }
  | _ => calls

end Calls

namespace Flight

def next (flight : Flight) : Event → Option Flight
  | .machine label =>
    if flight.calls.permits flight.run label then
      (step flight.run label).map fun run => ⟨run, flight.calls.after flight.run label⟩
    else none
  | .returns agent =>
    some { flight with
      calls := { flight.calls with
        current := Calls.ofOthers agent flight.calls.current
        earlier := Calls.ofOthers agent flight.calls.earlier } }
  | .detachedReturns index =>
    some { flight with
      calls := { flight.calls with detached := flight.calls.detached.eraseIdx index } }

def cap (flight : Flight) : Nat := flight.run.formation.maxConcurrentActions

/-- No more calls in flight than the cap, where there is one. -/
def Capped (flight : Flight) : Prop := flight.cap = 0 ∨ flight.calls.inFlight ≤ flight.cap

/-- A call that starts beside calls of earlier beats leaves the cap alone, and no cap is set below
the calls in flight. A beat's own calls are counted by the code. -/
def keepsCap (flight : Flight) : Event → Bool
  | .machine .spawn =>
    flight.cap = 0 || !flight.calls.outlives || flight.calls.inFlight < flight.cap
  | .machine (.upkeep (.adjust _ _ cap _)) => cap = 0 || flight.calls.inFlight ≤ cap
  | _ => true

end Flight

namespace Formation

variable (formation : Formation) (agent taskId : Uuid)

theorem decide_cap (member : Member) (senses : Senses) :
    (formation.decide member senses).2.maxConcurrentActions = formation.maxConcurrentActions := by
  by_cases hlayer : allows formation.momentumTier .l3Direct = true
  · cases hinbox : formation.directInbox member.agentId with
    | nil =>
      cases hmin : minByKey (·.priority)
          ((formation.blackboard.scanTasks []).filter (·.assignedTo = some member.agentId)) <;>
        simp [decide, inbox, hlayer, pollAssigned, hinbox, hmin]
    | cons task rest => simp [decide, inbox, hlayer, pollAssigned, hinbox]
  · simp [decide, inbox, hlayer]

theorem writeTask_cap (task : SubTask) :
    (formation.writeTask task).maxConcurrentActions = formation.maxConcurrentActions := by
  unfold writeTask
  split <;> rfl

theorem resolve_cap (task : SubTask) (outcome : VoteOutcome) :
    (formation.resolve task outcome).maxConcurrentActions = formation.maxConcurrentActions := by
  unfold resolve
  dsimp only
  split <;> rfl

theorem postResult_cap (result : SubTaskResult) :
    (formation.postResult result).maxConcurrentActions = formation.maxConcurrentActions := by
  unfold postResult
  split <;> rfl

theorem handOver_cap :
    (formation.handOver taskId).maxConcurrentActions = formation.maxConcurrentActions := by
  unfold handOver
  generalize formation.blackboard.scanTasks [] = deps
  induction deps generalizing formation with
  | nil => rfl
  | cons dep deps ih =>
    rw [List.foldl_cons, ih]
    split
    · split <;> rfl
    · rfl

theorem post_cap (outcome : ExecuteOutcome) :
    (formation.post agent outcome).maxConcurrentActions = formation.maxConcurrentActions := by
  unfold post
  split
  · rfl
  · split
    · rfl
    · dsimp only [memberMut]
      split
      · rw [handOver_cap, postResult_cap]
      · rw [postResult_cap]

theorem prepare_cap (autonomy : AutonomyLevel) (hints : Option ActionHints) (decision : Decision)
    (member : Member) :
    (formation.prepare autonomy hints decision member).1.maxConcurrentActions =
      formation.maxConcurrentActions := by
  rw [prepare_eq]
  cases formation.claimTarget autonomy hints decision member with
  | none =>
    dsimp only [idle, continueActiveTask]
    split
    · rfl
    · cases member.activeTask with
      | none => rfl
      | some active =>
        simp only [Option.map_some, Option.getD_some]
        split <;> rfl
  | some task =>
    dsimp only [clear]
    split <;> rfl

end Formation

section Steps

variable {run run' : Run}

/-- Between beats the cap is set by an adjustment only. -/
theorem upkeep_cap {u : Upkeep} {formation formation' : Formation}
    (hkeeps : Keeps formation u formation') :
    formation'.maxConcurrentActions =
      match u with
      | .adjust _ _ cap _ => cap
      | _ => formation.maxConcurrentActions := by
  cases hkeeps with
  | writeTask task => exact Formation.writeTask_cap ..
  | assign agent hfind => exact Formation.writeTask_cap ..
  | resolve resolution hvote => exact Formation.resolve_cap ..
  | _ => rfl

theorem step_cap {label : Label} (hstep : step run label = some run') :
    run'.formation.maxConcurrentActions =
      match label with
      | .upkeep (.adjust _ _ cap _) => cap
      | _ => run.formation.maxConcurrentActions := by
  cases moves_of_step hstep with
  | @upkeep u _ hphase hkeeps =>
    have hcap := upkeep_cap hkeeps
    cases u <;> exact hcap
  | decide => exact Formation.decide_cap ..
  | prepareSettled hphase hmember hprepare | prepareJob hphase hmember hprepare =>
    have hcap := congrArg (·.1.maxConcurrentActions) hprepare
    exact hcap.symm.trans (Formation.prepare_cap ..)
  | post => exact Formation.post_cap ..
  | _ => rfl

end Steps

/-- A beat's own calls are among those it has running, and none is left once it closes. -/
def Phase.Covers (current : List DispatchJob) : Phase → Prop
  | .acting _ running _ _ => current.Subperm running
  | .closing running _ _ _ => ∀ job ∈ current, job.agent ∈ running.map (·.agent)
  | _ => current = []

namespace Calls

theorem ofOthers_sublist_eraseP (agent : Uuid) (running : List DispatchJob) :
    (ofOthers agent running).Sublist (running.eraseP (·.agent = agent)) := by
  induction running with
  | nil => exact List.Sublist.refl _
  | cons job running ih =>
    by_cases hagent : job.agent = agent
    · simp [ofOthers, hagent]
    · simpa [ofOthers, List.eraseP_cons, hagent] using ih

theorem ofOthers_eq_self {agent : Uuid} {jobs : List DispatchJob}
    (hnone : (ofAgent agent jobs).isEmpty = true) : ofOthers agent jobs = jobs := by
  simp only [ofAgent, List.isEmpty_iff, List.filter_eq_nil_iff, decide_eq_true_eq] at hnone
  simpa [ofOthers, List.filter_eq_self] using hnone

theorem length_split (agent : Uuid) (jobs : List DispatchJob) :
    (ofOthers agent jobs).length + (ofAgent agent jobs).length = jobs.length := by
  have hsplit := List.length_eq_length_filter_add (l := jobs) (·.agent = agent)
  simp only [ofOthers, ofAgent, ne_eq, decide_not] at hsplit ⊢
  omega

theorem covers_ofOthers {phase : Phase} {current : List DispatchJob} (agent : Uuid)
    (h : phase.Covers current) : phase.Covers (ofOthers agent current) := by
  have hsub : (ofOthers agent current).Sublist current := List.filter_sublist
  cases phase with
  | acting queue running settled outcomes => exact hsub.subperm.trans h
  | closing running queue settled outcomes => exact fun job hjob => h job (hsub.subset hjob)
  | idle | deciding | claiming | collecting | gathering =>
    have hnil : current = [] := h
    subst hnil
    rfl

end Calls

section Covers

variable {run run' : Run} {calls : Calls}

theorem covers_finish {agent : Uuid} {queue running : List DispatchJob}
    {settled outcomes outcomes' : Outcomes}
    (hnone : (Calls.ofAgent agent calls.current).isEmpty = true)
    (h : Phase.Covers calls.current (.acting queue running settled outcomes)) :
    Phase.Covers calls.current
      (.acting queue (running.eraseP (·.agent = agent)) settled outcomes') := by
  -- none of the beat's calls is the one that is joined
  have hothers : (Calls.ofOthers agent calls.current).Subperm (Calls.ofOthers agent running) :=
    List.Subperm.filter _ h
  rw [Calls.ofOthers_eq_self hnone] at hothers
  exact hothers.trans (Calls.ofOthers_sublist_eraseP agent running).subperm

theorem covers_carryOver {job : DispatchJob} {running queue : List DispatchJob}
    {settled outcomes outcomes' : Outcomes}
    (h : Phase.Covers calls.current (.closing (job :: running) queue settled outcomes)) :
    Phase.Covers (Calls.ofOthers job.agent calls.current)
      (.closing running queue settled outcomes') := by
  intro other hother
  obtain ⟨hmem, hagent⟩ := List.mem_filter.mp hother
  have hrunning := h other hmem
  simp only [List.map_cons, List.mem_cons] at hrunning
  exact hrunning.resolve_left (by simpa using hagent)

/-- What a beat has running covers its own calls, at every step. -/
theorem covers_step {label : Label} (hallowed : calls.permits run label = true)
    (hstep : step run label = some run') (h : run.phase.Covers calls.current) :
    run'.phase.Covers (calls.after run label).current := by
  cases moves_of_step hstep with
  | @upkeep u _ hphase =>
    rw [hphase] at h
    cases u <;> exact h
  | handoff | rehash => exact h
  | beat tick hphase | decide senses hphase | decided hphase | prepareGone _ _ hphase
  | prepareSettled hphase | prepareJob hphase | prepared hphase | collectIdle _ hphase
  | collectRunning hphase | collectOk _ _ _ hphase | collectErr hphase | defer hphase
  | post hphase | posted hphase =>
    rw [hphase] at h
    exact h
  | collected hphase =>
    rw [hphase] at h
    have hnil : calls.current = [] := h
    simp only [Calls.after, hnil]
    exact List.Subperm.refl []
  | @spawn job _ _ _ _ hphase =>
    rw [hphase] at h
    simp only [Calls.after, hphase]
    exact (List.subperm_append_right [job]).mpr h
  | finishOk _ _ _ hphase | finishErr hphase =>
    rw [hphase] at h
    exact covers_finish hallowed h
  | windowClosed hphase =>
    rw [hphase] at h
    intro job hjob
    exact List.mem_map_of_mem (h.subset hjob)
  | carryOver hphase hmember =>
    rw [hphase] at h
    simp only [Calls.after, hphase, hmember]
    exact covers_carryOver h
  | carryGone hphase hmember =>
    rw [hphase] at h
    simp only [Calls.after, hphase, hmember]
    exact covers_carryOver h
  | closed hphase =>
    rw [hphase] at h
    refine List.eq_nil_iff_forall_not_mem.mpr ?_
    intro job hjob
    have hrunning := h job hjob
    simp at hrunning

end Covers

namespace Flight

variable {flight flight' : Flight} {event : Event}

def Covered (flight : Flight) : Prop := flight.run.phase.Covers flight.calls.current

theorem covered_next (hnext : flight.next event = some flight') (h : flight.Covered) :
    flight'.Covered := by
  cases event with
  | machine label =>
    simp only [next] at hnext
    split at hnext
    · rename_i hallowed
      obtain ⟨run', hstep, rfl⟩ := Option.map_eq_some_iff.mp hnext
      exact covers_step hallowed hstep h
    · cases hnext
  | returns agent =>
    cases hnext
    exact Calls.covers_ofOthers agent h
  | detachedReturns index =>
    cases hnext
    exact h

/-- A beat that starts a call beside no earlier one has room for it. -/
theorem inFlight_lt_of_spawn {run' : Run} (hcovered : flight.Covered)
    (hmove : Moves flight.run .spawn run') (hcap : flight.cap ≠ 0)
    (halone : flight.calls.outlives = false) : flight.calls.inFlight < flight.cap := by
  cases hmove with
  | @spawn job queue running settled outcomes hphase hroom =>
    have hless : running.length < flight.cap := by
      simp only [spawnable, Bool.and_eq_true, Bool.or_eq_true, decide_eq_true_eq] at hroom
      exact hroom.1.resolve_left hcap
    have hcover : flight.calls.current.Subperm running := by
      have h := hcovered
      rw [Covered, hphase] at h
      exact h
    have hcurrent := hcover.length_le
    simp only [Calls.outlives, Bool.or_eq_false_iff, Bool.not_eq_false', List.isEmpty_iff]
      at halone
    simp only [Calls.inFlight, halone.1, halone.2, List.length_nil]
    omega

/-- Only a start adds a call to those in flight. -/
theorem inFlight_after {run : Run} (calls : Calls) {label : Label} (hlabel : label ≠ .spawn) :
    (calls.after run label).inFlight ≤ calls.inFlight := by
  cases label with
  | spawn => exact absurd rfl hlabel
  | carryOver =>
    simp only [Calls.after]
    split
    · rename_i job running queue settled outcomes hphase
      have hsplit := Calls.length_split job.agent calls.current
      split
      · simp only [Calls.inFlight, List.length_append]
        omega
      · simp only [Calls.inFlight]
        omega
    · exact Nat.le_refl _
  | upkeep u =>
    cases u with
    | leave agent =>
      have hsplit := Calls.length_split agent calls.earlier
      simp only [Calls.after, Calls.inFlight, List.length_append]
      omega
    | _ => exact Nat.le_refl _
  | _ => exact Nat.le_refl _

theorem inFlight_returns (calls : Calls) (agent : Uuid) :
    Calls.inFlight { calls with
      current := Calls.ofOthers agent calls.current
      earlier := Calls.ofOthers agent calls.earlier } ≤ calls.inFlight := by
  have hcurrent := Calls.length_split agent calls.current
  have hearlier := Calls.length_split agent calls.earlier
  simp only [Calls.inFlight]
  omega

theorem capped_spawn_iff (hcovered : flight.Covered)
    (hnext : flight.next (.machine .spawn) = some flight') :
    flight'.Capped ↔ flight.keepsCap (.machine .spawn) = true := by
  simp only [next, Calls.permits, if_true] at hnext
  obtain ⟨run', hstep, rfl⟩ := Option.map_eq_some_iff.mp hnext
  have hmove : Moves flight.run .spawn run' := moves_of_step hstep
  have hcap : run'.formation.maxConcurrentActions = flight.cap := @step_cap _ _ .spawn hstep
  have hlength : (flight.calls.after flight.run .spawn).inFlight = flight.calls.inFlight + 1 := by
    cases hmove with
    | spawn hphase =>
      simp only [Calls.after, hphase, Calls.inFlight, List.length_append, List.length_singleton]
      omega
  have halone := inFlight_lt_of_spawn hcovered hmove
  have hkeeps : flight.keepsCap (.machine .spawn) = true ↔
      (flight.cap = 0 ∨ flight.calls.outlives = false) ∨ flight.calls.inFlight < flight.cap := by
    simp [keepsCap]
  rw [hkeeps]
  unfold Capped
  rw [hlength, show cap ⟨run', _⟩ = flight.cap from hcap]
  constructor
  · rintro (hzero | hroom)
    · exact .inl (.inl hzero)
    · exact .inr hroom
  · rintro ((hzero | hnone) | hroom)
    · exact .inl hzero
    · by_cases hzero : flight.cap = 0
      · exact .inl hzero
      · exact .inr (halone hzero hnone)
    · exact .inr hroom

theorem capped_next_iff (hcovered : flight.Covered) (hcapped : flight.Capped)
    (hnext : flight.next event = some flight') :
    flight'.Capped ↔ flight.keepsCap event = true := by
  cases event with
  | returns agent =>
    cases hnext
    have hless := inFlight_returns flight.calls agent
    refine iff_of_true ?_ rfl
    exact hcapped.imp_right hless.trans
  | detachedReturns index =>
    cases hnext
    have hless := List.length_eraseIdx_le flight.calls.detached index
    refine iff_of_true ?_ rfl
    refine hcapped.imp_right fun hroom => ?_
    simp only [Calls.inFlight, cap] at hroom ⊢
    omega
  | machine label =>
    by_cases hspawn : label = .spawn
    · subst hspawn
      exact capped_spawn_iff hcovered hnext
    simp only [next] at hnext
    split at hnext
    case isFalse => cases hnext
    case isTrue =>
      obtain ⟨run', hstep, rfl⟩ := Option.map_eq_some_iff.mp hnext
      have hcap := step_cap hstep
      have hless := @inFlight_after flight.run flight.calls _ hspawn
      have hkept : run'.formation.maxConcurrentActions = flight.cap →
          Capped ⟨run', flight.calls.after flight.run label⟩ := by
        intro hsame
        unfold Capped
        rw [show cap ⟨run', _⟩ = flight.cap from hsame]
        exact hcapped.imp_right hless.trans
      cases label with
      | spawn => exact absurd rfl hspawn
      | upkeep u =>
        cases u with
        | adjust tier policy cap' relaxed =>
          unfold Capped
          rw [show cap ⟨run', _⟩ = cap' from hcap]
          simp [keepsCap, Calls.after]
        | _ => exact iff_of_true (hkept hcap) rfl
      | _ => exact iff_of_true (hkept hcap) rfl

end Flight

/-- A formation before its first beat, with no call in flight. -/
structure Grounded (flight : Flight) : Prop where
  phase : flight.run.phase = .idle
  current : flight.calls.current = []
  earlier : flight.calls.earlier = []
  detached : flight.calls.detached = []

/-- In every run the calls in flight stay within the cap exactly when no beat starts a call beside
those of earlier beats without room for it, and no cap is set below the calls in flight. -/
theorem Flight.capped_iff {flight : Flight} (hgrounded : Grounded flight) (events : List Event) :
    Throughout (fun pre => ∀ reached, runLabels Flight.next flight pre = some reached →
        reached.Capped) events ↔
      EachCall (fun pre event =>
        ((runLabels Flight.next flight pre).all fun reached =>
          (reached.next event).isNone || reached.keepsCap event) = true) events := by
  obtain ⟨hphase, hcurrent, hearlier, hdetached⟩ := hgrounded
  apply throughout_runs_iff_of_invariant (J := Flight.Covered)
  · rw [Flight.Covered, hphase, hcurrent]
    rfl
  · intro reached event reached' hcovered hcapped hnext
    exact Flight.covered_next hnext hcovered
  · refine .inr ?_
    simp [Calls.inFlight, hcurrent, hearlier, hdetached]
  · intro reached event reached' hcovered hcapped hnext
    exact Flight.capped_next_iff hcovered hcapped hnext

namespace Flight

section Sample

/-- Members 1 and 2 with a task each, and a cap of one call at a time. -/
def cappedCrew : Flight where
  run :=
    { crew "shell" "mail" [chore 7 "shell", chore 8 "mail"] with
      formation := { (crew "shell" "mail" [chore 7 "shell", chore 8 "mail"]).formation with
        maxConcurrentActions := 1 } }
  calls := ⟨[], [], []⟩

theorem cappedCrew_grounded : Grounded cappedCrew := ⟨rfl, rfl, rfl, rfl⟩

def decides (members : Nat) : List Label :=
  ([.beat 1] : List Label) ++
    (List.replicate members (.decide ⟨fun _ => 0, none, none⟩) : List Label) ++
    ([.decided] : List Label) ++
    (List.replicate members (.prepare .actAutonomously (some ⟨true, none⟩)) : List Label) ++
    ([.prepared, .collect none, .collect none, .collected, .spawn] : List Label)

/-- The call of member 1 outlives the beat, and that of member 2 is held back. -/
def slowBeat : List Label :=
  decides 2 ++
    ([.windowClosed, .carryOver, .defer, .closed, .post, .post, .posted] : List Label)

/-- Both calls return within the beat, one after the other. -/
def quickBeat : List Event :=
  (decides 2).map Event.machine ++
    ([.returns 1, .machine (.finish 1 (.ok true .null 1)), .machine .spawn, .returns 2,
      .machine (.finish 2 (.ok true .null 1)), .machine .windowClosed, .machine .closed,
      .machine .post, .machine .post, .machine .posted] : List Event)

/-- Under a cap of one, the next beat starts a second call beside the one carried over. -/
theorem cap_overrun :
    ∃ flight, runLabels next cappedCrew ((slowBeat ++ decides 1).map .machine) = some flight ∧
      flight.calls.current.map (·.agent) = [2] ∧ flight.calls.earlier.map (·.agent) = [1] ∧
      ¬ flight.Capped := by
  have hruns : (runLabels next cappedCrew ((slowBeat ++ decides 1).map .machine)).map
      (fun flight => (flight.cap, flight.calls.current.map (·.agent),
        flight.calls.earlier.map (·.agent), flight.calls.inFlight)) = some (1, [2], [1], 2) := by
    decide +kernel
  obtain ⟨flight, hrun, hfields⟩ := Option.map_eq_some_iff.mp hruns
  obtain ⟨hcap, hcurrent, hearlier, hinFlight⟩ :
      flight.cap = 1 ∧ flight.calls.current.map (·.agent) = [2] ∧
        flight.calls.earlier.map (·.agent) = [1] ∧ flight.calls.inFlight = 2 := by
    simpa only [Prod.mk.injEq] using hfields
  refine ⟨flight, hrun, hcurrent, hearlier, ?_⟩
  unfold Capped
  omega

/-- One call after the other stays within the cap. -/
theorem capped_quickBeat :
    (runLabels next cappedCrew quickBeat).isSome = true ∧
      Throughout (fun pre => ∀ reached, runLabels next cappedCrew pre = some reached →
        reached.Capped) quickBeat :=
  ⟨rfl, (capped_iff cappedCrew_grounded quickBeat).mpr (by decide)⟩

end Sample

end Flight

end Springtale.Beat
