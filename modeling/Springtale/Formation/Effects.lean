import Springtale.Formation.Upheld

/-! What each call comes to in store and live set together, and what all of them uphold. -/
namespace Springtale.Formation

open Springtale.Core Springtale.Lib

variable {rx : RegexCrate}

/-- The first member with a capability is the one with that connector. -/
def namesFirst (connectorName : String) (f : LiveFormation) : Bool :=
  (f.members.find? (connectorName ∈ ·.capabilities)).all (·.connector = connectorName)

namespace System

/-- The call keeps live set and store in step: a deploy is of a row that does not run yet, or spawns
nothing for one that is active already; a pause or resume is of a row that runs; and a removal's
capability is the connector of the first member that has it. -/
def keeps (s : System rx) (call : Call) : Bool :=
  match call.op with
  | .deploy id reads =>
    (s.runtime.formationRow? id).all fun row =>
      if reads.adapter then !row.runs else row.status = statusActive
  | .pause id | .resume id => (s.runtime.formationRow? id).all (·.runs)
  | .removeMember id connectorName =>
    s.live.all fun f => f.id ≠ id || namesFirst connectorName f
  | _ => true

end System

/-- What a call comes to, in the store's rows and in the live set. -/
inductive Effect (s t : System rx) (fresh : Fresh) : Operation → Prop
  | nothing {op : Operation} (hkeeps : s.keeps ⟨op, fresh⟩ = true)
    (hstore : Writes s.runtime s.runtime.store.formations s.runtime.store.members [] t.runtime)
    (hlive : t.live = s.live) : Effect s t fresh op
  | created (name intent : String) (connectors : List String)
    (hstore : t.runtime = s.runtime.createFormation fresh name intent connectors)
    (hlive : t.live = s.live) : Effect s t fresh (.create name intent connectors)
  | deployed (id : Uuid) (reads : SpawnReads)
    (hstore : Writes s.runtime
      (rewritten id (fun row => { row with status := "active", updatedAt := fresh.now }) s.runtime)
      s.runtime.store.members [] t.runtime)
    (hlive : t.live = s.live ++ (t.runtime.spawnFormation reads id).toList) :
    Effect s t fresh (.deploy id reads)
  | paused (id : Uuid)
    (hstore : Writes s.runtime
      (rewritten id (fun row => { row with status := "paused", updatedAt := fresh.now }) s.runtime)
      s.runtime.store.members [] t.runtime)
    (hlive : t.live = onFirst id (fun f => { f with paused := true }) s.live) :
    Effect s t fresh (.pause id)
  | resumed (id : Uuid)
    (hstore : Writes s.runtime
      (rewritten id (fun row => { row with status := "active", updatedAt := fresh.now }) s.runtime)
      s.runtime.store.members [] t.runtime)
    (hlive : t.live = onFirst id (fun f => { f with paused := false }) s.live) :
    Effect s t fresh (.resume id)
  | dissolved (id : Uuid)
    (hstore : Writes s.runtime (s.runtime.store.formations.filter (·.id ≠ id))
      (s.runtime.store.members.filter (·.formationId ≠ id)) [] t.runtime)
    (hlive : t.live = dissolve id s.live) : Effect s t fresh (.dissolve id)
  | joined (id : Uuid) (connectorName : String) (agentId : Uuid)
    (hnew : ∀ row ∈ s.runtime.store.members,
      ¬ (row.formationId = id ∧ row.connectorName = connectorName))
    (hstore : Writes s.runtime s.runtime.store.formations
      (s.runtime.store.members ++ [⟨fresh.memberIds 0, id, connectorName⟩]) [] t.runtime)
    (hlive : t.live = onFirst id (join ⟨agentId, [connectorName], true⟩) s.live) :
    Effect s t fresh (.addMember id connectorName agentId)
  | removed (id : Uuid) (connectorName : String)
    (hstore : Writes s.runtime s.runtime.store.formations
      (s.runtime.store.members.filter fun row =>
        ¬ (row.formationId = id ∧ row.connectorName = connectorName)) [] t.runtime)
    (hlive : t.live = onFirst id (guarded (removeFirstWith connectorName)) s.live) :
    Effect s t fresh (.removeMember id connectorName)
  | turned {op : Operation} (id : Uuid) (intent : String)
    (hkeeps : s.keeps ⟨op, fresh⟩ = true)
    (hstore : Writes s.runtime
      (rewritten id (fun row => { row with intent, updatedAt := fresh.now }) s.runtime)
      s.runtime.store.members [] t.runtime)
    (hlive : t.live = onFirst id (guarded (applyIntent (parseIntent intent))) s.live) :
    Effect s t fresh op

namespace System

variable {s t : System rx}

theorem step_effect (hdrained : s.runtime.channel = []) {op : Operation} {fresh : Fresh}
    (hstep : s.step ⟨op, fresh⟩ = some t) : Effect s t fresh op := by
  obtain ⟨-, rfl⟩ := step_cases hstep
  cases op with
  | create name intent connectors =>
    have hchannel : (s.runtime.createFormation fresh name intent connectors).channel = [] :=
      hdrained
    refine .created name intent connectors ?_ ?_
    · simp only [Operation.run]
      rw [← hchannel]
    · simp only [Operation.run]
      rw [hchannel]
      rfl
  | deploy id reads =>
    have hw := s.runtime.updateFormationStatus_writes fresh.now id "active" (.deploy id)
    refine .deployed id reads (hw.drained hdrained) ?_
    simp only [Operation.run, RuntimeState.deployFormation, hw.channel, hdrained]
    rfl
  | pause id =>
    have hw := s.runtime.updateFormationStatus_writes fresh.now id "paused" (.pause id)
    refine .paused id (hw.drained hdrained) ?_
    simp only [Operation.run, RuntimeState.pauseFormation, hw.channel, hdrained]
    rfl
  | resume id =>
    have hw := s.runtime.updateFormationStatus_writes fresh.now id "active" (.resume id)
    refine .resumed id (hw.drained hdrained) ?_
    simp only [Operation.run, RuntimeState.resumeFormation, hw.channel, hdrained]
    rfl
  | dissolve id =>
    rcases s.runtime.dissolveFormation_writes id with hw | hw
    · refine .nothing rfl (hw.drained hdrained) ?_
      simp only [Operation.run, hw.channel, hdrained]
      rfl
    · refine .dissolved id (hw.drained hdrained) ?_
      simp only [Operation.run, hw.channel, hdrained]
      rfl
  | addMember id connectorName agentId =>
    rcases s.runtime.addMember_writes fresh id connectorName agentId with ⟨-, hsame⟩ | ⟨hnew, hw⟩
    · refine .nothing rfl ?_ ?_
      · simp only [Operation.run, hsame]
        exact ⟨rfl, rfl, rfl, rfl, by rw [hdrained, List.append_nil]⟩
      · simp only [Operation.run, hsame, hdrained]
        rfl
    · refine .joined id connectorName agentId hnew (hw.drained hdrained) ?_
      simp only [Operation.run, hw.channel, hdrained]
      rfl
  | removeMember id connectorName =>
    refine .removed id connectorName ⟨rfl, rfl, rfl, rfl, by rw [hdrained, List.append_nil]⟩ ?_
    simp only [Operation.run, RuntimeState.removeMember, RuntimeState.send, hdrained]
    rfl
  | updateIntent id intent =>
    have hw := s.runtime.updateIntent_writes fresh id intent
    refine .turned id intent rfl (hw.drained hdrained) ?_
    simp only [Operation.run, hw.channel, hdrained]
    rfl
  | cycleIntent id =>
    rcases s.runtime.cycleIntent_writes fresh id with ⟨-, hsame⟩ | ⟨row, -, hw⟩
    · refine .nothing rfl ?_ ?_
      · simp only [Operation.run, hsame]
        exact ⟨rfl, rfl, rfl, rfl, by rw [hdrained, List.append_nil]⟩
      · simp only [Operation.run, hsame, hdrained]
        rfl
    · refine .turned id (nextIntent row.intent) rfl (hw.drained hdrained) ?_
      simp only [Operation.run, hw.channel, hdrained]
      rfl

/-- Every call upholds the store's constraints and tells live members apart. -/
theorem step_kept {call : Call} (h : s.Kept) (hstep : s.step call = some t) : t.Kept := by
  obtain ⟨op, fresh⟩ := call
  have haccepts := (step_cases hstep).1
  cases step_effect h.store.drained hstep with
  | nothing hkeeps hstore hlive =>
    refine ⟨h.store.of_writes hstore h.store.rows h.store.memberIds h.store.connectors
      h.store.references, ?_⟩
    rw [hlive]
    exact h.live
  | created name intent connectors hstore hlive =>
    simp only [accepts, decide_eq_true_eq] at haccepts
    obtain ⟨hid, hconnectors, hids, hnew⟩ := haccepts
    refine ⟨?_, ?_⟩
    · rw [hstore]
      exact h.store.create hid hconnectors hids hnew
    · rw [hlive]
      exact h.live
  | deployed id reads hstore hlive =>
    have hkept := h.store.rewrite hstore fun _ => rfl
    refine ⟨hkept, ?_⟩
    rw [hlive]
    intro f hf
    rcases List.mem_append.mp hf with hf | hf
    · exact h.live f hf
    · obtain ⟨row, -, hid, -, rfl⟩ :=
        RuntimeState.spawnFormation_cases (Option.mem_toList.mp hf)
      apply RuntimeState.materialize_sound hkept
      rw [hid, RuntimeState.formationMembers, hstore.members]
      exact List.isPerm_iff.mp haccepts
  | paused id hstore hlive =>
    refine ⟨h.store.rewrite hstore fun _ => rfl, ?_⟩
    rw [hlive]
    apply forall_onFirst h.live
    intro x hx _
    exact (h.live x hx).congr rfl rfl
  | resumed id hstore hlive =>
    refine ⟨h.store.rewrite hstore fun _ => rfl, ?_⟩
    rw [hlive]
    apply forall_onFirst h.live
    intro x hx _
    exact (h.live x hx).congr rfl rfl
  | dissolved id hstore hlive =>
    refine ⟨h.store.dissolve hstore, ?_⟩
    rw [hlive, dissolve_eq_filter h.live]
    exact fun f hf => h.live f (List.mem_of_mem_filter hf)
  | joined id connectorName agentId hnew hstore hlive =>
    simp only [accepts, decide_eq_true_eq] at haccepts
    obtain ⟨hformation, hid, hagent⟩ := haccepts
    refine ⟨h.store.addMember hformation hid hnew hstore, ?_⟩
    rw [hlive]
    apply forall_onFirst h.live
    intro x hx hxid
    exact (h.live x hx).join (hagent x hx hxid) connectorName
  | removed id connectorName hstore hlive =>
    refine ⟨h.store.removeMember _ hstore, ?_⟩
    rw [hlive]
    apply forall_onFirst h.live
    intro x hx _
    rw [(h.live x hx).guarded_eq]
    exact (h.live x hx).removeFirstWith connectorName
  | turned id intent hkeeps hstore hlive =>
    refine ⟨h.store.rewrite hstore fun _ => rfl, ?_⟩
    rw [hlive]
    apply forall_onFirst h.live
    intro x hx _
    rw [(h.live x hx).guarded_eq]
    exact (h.live x hx).congr rfl rfl

end System

end Springtale.Formation
