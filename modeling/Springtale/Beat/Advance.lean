import Springtale.Beat.Carriers

/-! Each step of a beat keeps the run sound, and is a stretch of the lease table's life. -/
namespace Springtale.Beat

open Springtale.Core Springtale.Sentinel Springtale.Lib

structure Advances (run run' : Run) : Prop where
  sound : Sound run'
  life : Reaches (Guarded Lease.Spares Lease.Step) run.view run'.view

variable {run run' : Run} {formation formation' : Formation} {phase phase' : Phase}
  {agent taskId : Uuid} {f : Member → Member}

/-- Carried claims may change their place, or fall away, as far as the lease table goes. -/
theorem life_pass (hclaimed : run'.formation.blackboard.claimed = run.formation.blackboard.claimed)
    (hledger : run'.formation.ledger = run.formation.ledger)
    (hcarried : ∀ p, run'.carried.count p ≤ run.carried.count p) :
    Reaches (Guarded Lease.Spares Lease.Step) run.view run'.view := by
  have hview : run'.view = { run.view with carried := run'.carried } := by
    simp only [Run.view, hclaimed, hledger]
  rw [hview]
  exact (Reaches.refl _).snoc (a := .pass) ⟨trivial, .pass _ _ hcarried⟩

theorem Advances.of_still (h : Sound run) (hstill : Still run.formation run'.formation)
    (hcarried : run'.phase.carried.Perm run.phase.carried)
    (hwaiting : ∀ a, run'.phase.waiting.count a ≤ run.phase.waiting.count a) :
    Advances run run' := by
  have hall : run'.carried.Perm run.carried := by
    unfold Run.carried
    rw [hstill.members]
    exact hcarried.append_left _
  refine ⟨⟨hstill.members ▸ h.distinct, ?_, ?_⟩, ?_⟩
  · rw [List.nodup_iff_count_le_one]
    intro a
    have hone := List.nodup_iff_count_le_one.mp h.engaged a
    have hcount := (hall.map Prod.fst).count_eq a
    have hturn := hwaiting a
    simp only [Run.engaged, List.count_append] at hone ⊢
    omega
  · intro m hm x hx
    exact hall.mem_iff.mpr (h.active m (hstill.members ▸ hm) x hx)
  · exact life_pass hstill.claimed hstill.ledger fun p => (hall.count_eq p).le

/-- What is carried for an agent that is no member may fall away. -/
theorem Advances.of_lost (h : Sound run) (hstill : Still run.formation run'.formation)
    (hcarried : run.phase.carried.Perm ((agent, taskId) :: run'.phase.carried))
    (hgone : agent ∉ run.formation.members.map (·.agentId))
    (hwaiting : run'.phase.waiting = run.phase.waiting) : Advances run run' := by
  have hall : run.carried.Perm ((agent, taskId) :: run'.carried) := by
    unfold Run.carried
    rw [hstill.members]
    exact (hcarried.append_left _).trans List.perm_middle
  refine ⟨⟨hstill.members ▸ h.distinct, ?_, ?_⟩, ?_⟩
  · have hperm : run.engaged.Perm (agent :: run'.engaged) := by
      unfold Run.engaged
      rw [hwaiting]
      exact (hall.map Prod.fst).append_right _
    exact (List.nodup_cons.mp (hperm.nodup_iff.mp h.engaged)).2
  · intro m hm x hx
    have hm' : m ∈ run.formation.members := hstill.members ▸ hm
    rcases List.mem_cons.mp (hall.mem_iff.mp (h.active m hm' x hx)) with heq | hmem
    · have hagent : m.agentId = agent := congrArg Prod.fst heq
      exact absurd (List.mem_map_of_mem hm') (hagent ▸ hgone)
    · exact hmem
  · refine life_pass hstill.claimed hstill.ledger fun p => ?_
    have hcount := hall.count_eq p
    rw [List.count_cons] at hcount
    omega

/-- A member's call moves between its slot and the beat; its active task stays. -/
theorem Advances.of_moved (h : Sound run)
    (hclaimed : run'.formation.blackboard.claimed = run.formation.blackboard.claimed)
    (hledger : run'.formation.ledger = run.formation.ledger)
    (hmembers : run'.formation.members = onMember agent f run.formation.members)
    (hid : ∀ m, (f m).agentId = m.agentId) (hactive : ∀ m, (f m).activeTask = m.activeTask)
    (hcarried : run'.carried.Perm run.carried) (hwaiting : run'.phase.waiting = run.phase.waiting) :
    Advances run run' := by
  refine ⟨⟨?_, ?_, ?_⟩, life_pass hclaimed hledger fun p => (hcarried.count_eq p).le⟩
  · rw [hmembers, onMember_ids hid]
    exact h.distinct
  · unfold Run.engaged
    rw [hwaiting]
    exact ((hcarried.map _).append_right _).nodup_iff.mpr h.engaged
  · intro m hm x hx
    refine hcarried.mem_iff.mpr ?_
    rcases mem_onMember h.distinct (hmembers ▸ hm) with ⟨hm, -⟩ | ⟨y, hy, -, rfl⟩
    · exact h.active m hm x hx
    · rw [hid]
      exact h.active y hy x (hactive y ▸ hx)

/-- A claim that ends takes the member's active task with it. -/
theorem Sound.ended (h : Sound run)
    (hmembers : run'.formation.members = onMember agent f run.formation.members)
    (hid : ∀ m, (f m).agentId = m.agentId) (hactive : ∀ m, (f m).activeTask = none)
    (hcarried : run.carried.Perm ((agent, taskId) :: run'.carried))
    (hwaiting : run'.phase.waiting = run.phase.waiting) : Sound run' := by
  refine ⟨?_, ?_, ?_⟩
  · rw [hmembers, onMember_ids hid]
    exact h.distinct
  · have hperm : run.engaged.Perm (agent :: run'.engaged) := by
      unfold Run.engaged
      rw [hwaiting]
      exact (hcarried.map Prod.fst).append_right _
    exact (List.nodup_cons.mp (hperm.nodup_iff.mp h.engaged)).2
  · intro m hm x hx
    rcases mem_onMember h.distinct (hmembers ▸ hm) with ⟨hm, hne⟩ | ⟨y, hy, -, rfl⟩
    · rcases List.mem_cons.mp (hcarried.mem_iff.mp (h.active m hm x hx)) with heq | hmem
      · exact absurd (congrArg Prod.fst heq) hne
      · exact hmem
    · rw [hactive y] at hx
      cases hx

theorem count_erase_of_perm {all rest : List (Uuid × Uuid)} {p : Uuid × Uuid}
    (h : all.Perm (p :: rest)) (q : Uuid × Uuid) : rest.count q ≤ (all.erase p).count q := by
  have herase : (all.erase p).Perm rest := by simpa using h.erase p
  exact (herase.count_eq q).ge

/-- A release by the agent that carries the claim. -/
theorem life_release (hclaimed : run'.formation.blackboard.claimed =
      (run.formation.release agent taskId).blackboard.claimed)
    (hledger : run'.formation.ledger = (run.formation.release agent taskId).ledger)
    (hcarried : run.carried.Perm ((agent, taskId) :: run'.carried)) :
    Reaches (Guarded Lease.Spares Lease.Step) run.view run'.view := by
  have hmem : (agent, taskId) ∈ run.view.carried := hcarried.mem_iff.mpr List.mem_cons_self
  have hrelease : Reaches (Guarded Lease.Spares Lease.Step) run.view _ :=
    (Reaches.refl run.view).snoc (a := .release agent taskId) ⟨trivial, .release _ _ _ hmem⟩
  refine hrelease.snoc (a := .pass) ⟨trivial, ?_⟩
  have hview : run'.view =
      { table := Function.update run.view.table taskId none
        carried := run'.carried
        opened :=
          if run.view.table taskId = some agent then run.view.opened.filter (·.2 ≠ taskId)
          else run.view.opened
        releases := ⟨agent, taskId, run.view.table taskId⟩ :: run.view.releases } := by
    simp only [Run.view, hclaimed, hledger]
    rfl
  rw [hview]
  exact .pass _ _ (count_erase_of_perm hcarried)

/-- A posted result, which settles the claim it was carried under. -/
theorem life_settle (hclaimed : run'.formation.blackboard.claimed =
      Function.update run.formation.blackboard.claimed taskId none)
    (hledger : run'.formation.ledger =
      { run.formation.ledger with
        opened := run.formation.ledger.opened.filter (·.2 ≠ taskId) })
    (hcarried : run.carried.Perm ((agent, taskId) :: run'.carried)) :
    Reaches (Guarded Lease.Spares Lease.Step) run.view run'.view := by
  have hmem : (agent, taskId) ∈ run.view.carried := hcarried.mem_iff.mpr List.mem_cons_self
  have hsettle : Reaches (Guarded Lease.Spares Lease.Step) run.view _ :=
    (Reaches.refl run.view).snoc (a := .settle agent taskId) ⟨trivial, .settle _ _ _ hmem⟩
  refine hsettle.snoc (a := .pass) ⟨trivial, ?_⟩
  have hview : run'.view =
      { run.view with
        table := Function.update run.view.table taskId none
        carried := run'.carried
        opened := run.view.opened.filter (·.2 ≠ taskId) } := by
    simp only [Run.view, hclaimed, hledger]
  rw [hview]
  exact .pass _ _ (count_erase_of_perm hcarried)

/-- A join error, or a deferral: the claim is released and the member's task cleared. -/
theorem Advances.of_failed (h : Sound run)
    (hformation : run'.formation = run.formation.joinFailed agent taskId f)
    (hid : ∀ m, (f m).agentId = m.agentId)
    (hcarried : run.carried.Perm ((agent, taskId) :: run'.carried))
    (hwaiting : run'.phase.waiting = run.phase.waiting) : Advances run run' := by
  refine ⟨?_, ?_⟩
  · have hmembers : run'.formation.members =
        onMember agent (fun m => { f m with activeTask := none }) run.formation.members := by
      rw [hformation]
      rfl
    exact h.ended hmembers hid (fun _ => rfl) hcarried hwaiting
  · refine life_release ?_ ?_ hcarried
    · rw [hformation]
      rfl
    · rw [hformation]
      rfl

end Springtale.Beat
