import Springtale.Formation.Regenerate
import Springtale.Formation.Views

/-! The formation operations as calls on the daemon, each with the bot's pass over the channel after
it: what a call writes to the store, and the command it posts. -/
namespace Springtale.Formation

open Springtale.Core Springtale.Lib

variable {rx : RegexCrate}

/-- A call carries what the environment answers: what a spawn reads, and the agent id that the bot
draws for a new member. -/
inductive Operation where
  | create (name intent : String) (connectors : List String)
  | deploy (id : Uuid) (reads : SpawnReads)
  | pause (id : Uuid)
  | resume (id : Uuid)
  | dissolve (id : Uuid)
  | addMember (id : Uuid) (connectorName : String) (agentId : Uuid)
  | removeMember (id : Uuid) (connectorName : String)
  | updateIntent (id : Uuid) (intent : String)
  | cycleIntent (id : Uuid)

structure Call where
  op : Operation
  fresh : Fresh

structure System (rx : RegexCrate) where
  runtime : RuntimeState rx
  live : List LiveFormation

namespace Operation

def run (op : Operation) (fresh : Fresh) (s : RuntimeState rx) : RuntimeState rx :=
  match op with
  | create name intent connectors => s.createFormation fresh name intent connectors
  | deploy id _ => s.deployFormation fresh.now id
  | pause id => s.pauseFormation fresh.now id
  | resume id => s.resumeFormation fresh.now id
  | dissolve id => (s.dissolveFormation id).2
  | addMember id connectorName agentId => (s.addMember fresh id connectorName agentId).2
  | removeMember id connectorName => (s.removeMember id connectorName).2
  | updateIntent id intent => (s.updateIntent fresh id intent).2
  | cycleIntent id => (s.cycleIntent fresh id).2

/-- Only a deploy spawns. -/
def spawn (op : Operation) (s : RuntimeState rx) (id : Uuid) : Option LiveFormation :=
  match op with
  | deploy _ reads => s.spawnFormation reads id
  | _ => none

end Operation

namespace System

/-- The ids that a call draws are new, its reads are what the store holds, and no insert violates a
constraint of the store. -/
def accepts (call : Call) (s : System rx) : Bool :=
  let store := s.runtime.store
  match call.op with
  | .create _ _ connectors =>
    let memberIds := (List.range connectors.length).map call.fresh.memberIds
    call.fresh.formationId ∉ store.formations.map (·.id) ∧ connectors.Nodup ∧ memberIds.Nodup ∧
      ∀ id ∈ memberIds, id ∉ store.members.map (·.id)
  | .deploy id reads => reads.memberRows.isPerm (s.runtime.formationMembers id)
  | .addMember id _ agentId =>
    id ∈ store.formations.map (·.id) ∧ call.fresh.memberIds 0 ∉ store.members.map (·.id) ∧
      ∀ f ∈ s.live, f.id = id → agentId ∉ f.members.map (·.agentId)
  | _ => true

def step (s : System rx) (call : Call) : Option (System rx) :=
  if s.accepts call then
    let runtime := call.op.run call.fresh s.runtime
    some ⟨{ runtime with channel := [] },
      handleAll (call.op.spawn runtime) s.live runtime.channel⟩
  else none

end System

theorem System.step_cases {s t : System rx} {call : Call} (hstep : s.step call = some t) :
    s.accepts call = true ∧
      t = ⟨{ call.op.run call.fresh s.runtime with channel := [] },
        handleAll (call.op.spawn (call.op.run call.fresh s.runtime)) s.live
          (call.op.run call.fresh s.runtime).channel⟩ := by
  unfold step at hstep
  split at hstep
  · rename_i haccepts
    cases hstep
    exact ⟨haccepts, rfl⟩
  · cases hstep

/-- What a call writes: the rows of both tables, and the commands it posts. -/
structure Writes (s : RuntimeState rx) (formations : List FormationRow)
    (members : List FormationMemberRow) (commands : List FormationCommand) (t : RuntimeState rx) :
    Prop where
  formations : t.store.formations = formations
  members : t.store.members = members
  guard : t.store.guard = s.store.guard
  registry : t.registry = s.registry
  channel : t.channel = s.channel ++ commands

/-- Once the bot has drained the channel. -/
theorem Writes.drained {s t : RuntimeState rx} {formations : List FormationRow}
    {members : List FormationMemberRow} {commands : List FormationCommand}
    (h : Writes s formations members commands t) (hdrained : s.channel = []) :
    Writes s formations members [] { t with channel := [] } :=
  ⟨h.formations, h.members, h.guard, h.registry, by rw [hdrained, List.append_nil]⟩

/-- The rows after one formation's row is rewritten. -/
def rewritten (id : Uuid) (f : FormationRow → FormationRow) (s : RuntimeState rx) :
    List FormationRow :=
  s.store.formations.map (adjust (·.id) id f)

namespace RuntimeState

variable (s : RuntimeState rx) (fresh : Fresh) (now : Int) (id : Uuid)

theorem createFormation_writes (name intent : String) (connectors : List String) :
    Writes s (s.store.formations ++
        [⟨fresh.formationId, name, intent, "draft", fresh.now, fresh.now⟩])
      (s.store.members ++ connectors.mapIdx fun n connector =>
        ⟨fresh.memberIds n, fresh.formationId, connector⟩) []
      (s.createFormation fresh name intent connectors) :=
  ⟨rfl, rfl, rfl, rfl, (List.append_nil _).symm⟩

theorem updateFormationStatus_writes (status : String) (cmd : FormationCommand) :
    Writes s (rewritten id (fun row => { row with status, updatedAt := now }) s) s.store.members
      [cmd] ((s.updateFormationStatus now id status).send cmd) :=
  ⟨rfl, rfl, rfl, rfl, rfl⟩

theorem updateIntent_writes (intent : String) :
    Writes s (rewritten id (fun row => { row with intent, updatedAt := fresh.now }) s)
      s.store.members [.changeIntent id (parseIntent intent)] (s.updateIntent fresh id intent).2 := by
  have hsame := sameBut_regenerateFormationRules
    ((s.updateFormationIntent fresh.now id intent).send (.changeIntent id (parseIntent intent)))
    fresh.ruleIds id
    (((s.updateFormationIntent fresh.now id intent).send
      (.changeIntent id (parseIntent intent))).formationName id) intent false
  have hresult : (s.updateIntent fresh id intent).2 =
      (((s.updateFormationIntent fresh.now id intent).send
        (.changeIntent id (parseIntent intent))).regenerateFormationRules fresh.ruleIds id
          (((s.updateFormationIntent fresh.now id intent).send
            (.changeIntent id (parseIntent intent))).formationName id) intent false).2 := by
    simp only [updateIntent]
    split <;> rename_i heq <;> rw [heq]
  rw [hresult]
  exact ⟨hsame.formations, hsame.members, hsame.guard, hsame.registry, hsame.channel⟩

theorem cycleIntent_writes :
    (s.formationRow? id = none ∧ (s.cycleIntent fresh id).2 = s) ∨
      ∃ row, s.formationRow? id = some row ∧
        Writes s (rewritten id (fun r =>
            { r with intent := nextIntent row.intent, updatedAt := fresh.now }) s) s.store.members
          [.changeIntent id (parseIntent (nextIntent row.intent))] (s.cycleIntent fresh id).2 := by
  unfold cycleIntent
  cases hrow : s.formationRow? id with
  | none => exact .inl ⟨rfl, rfl⟩
  | some row =>
    refine .inr ⟨row, rfl, ?_⟩
    have hsame := sameBut_regenerateFormationRules
      ((s.updateFormationIntent fresh.now id (nextIntent row.intent)).send
        (.changeIntent id (parseIntent (nextIntent row.intent)))) fresh.ruleIds id row.name
      (nextIntent row.intent) false
    dsimp only
    split <;> rename_i heq <;> rw [heq] at hsame <;>
      exact ⟨hsame.formations, hsame.members, hsame.guard, hsame.registry, hsame.channel⟩

theorem dissolveFormation_writes :
    Writes s s.store.formations s.store.members [] (s.dissolveFormation id).2 ∨
      Writes s (s.store.formations.filter (·.id ≠ id))
        (s.store.members.filter (·.formationId ≠ id)) [.dissolve id "user requested"]
        (s.dissolveFormation id).2 := by
  have hsame := sameBut_deleteRules s ((s.formationRules id).map Rule.id)
  unfold dissolveFormation deleteFormationRules
  split <;> rename_i heq <;> rw [heq] at hsame
  · exact .inl ⟨hsame.formations, hsame.members, hsame.guard, hsame.registry, by
      rw [List.append_nil]
      exact hsame.channel⟩
  · refine .inr ⟨?_, ?_, hsame.guard, hsame.registry, ?_⟩
    · exact congrArg (List.filter (·.id ≠ id)) hsame.formations
    · exact congrArg (List.filter (·.formationId ≠ id)) hsame.members
    · exact congrArg (· ++ [FormationCommand.dissolve id "user requested"]) hsame.channel

theorem addMember_writes (connectorName : String) (agentId : Uuid) :
    ((∃ row ∈ s.store.members, row.formationId = id ∧ row.connectorName = connectorName) ∨
        id ∉ s.store.formations.map (·.id)) ∧ (s.addMember fresh id connectorName agentId).2 = s ∨
      (∀ row ∈ s.store.members, ¬ (row.formationId = id ∧ row.connectorName = connectorName)) ∧
        Writes s s.store.formations
          (s.store.members ++ [⟨fresh.memberIds 0, id, connectorName⟩])
          [.addMember id connectorName agentId] (s.addMember fresh id connectorName agentId).2 := by
  unfold addMember
  split
  · rename_i hmember
    obtain ⟨row, hrow, hsame⟩ := List.any_eq_true.mp hmember
    exact .inl ⟨.inl ⟨row, hrow, of_decide_eq_true hsame⟩, rfl⟩
  · rename_i hnew
    split
    · rename_i hforeign
      refine .inl ⟨.inr ?_, rfl⟩
      intro hmem
      obtain ⟨row, hrow, hid⟩ := List.mem_map.mp hmem
      exact of_decide_eq_true (List.all_eq_true.mp hforeign row hrow) hid
    · refine .inr ⟨?_, ⟨rfl, rfl, rfl, rfl, rfl⟩⟩
      intro row hrow hsame
      exact hnew (List.any_eq_true.mpr ⟨row, hrow, decide_eq_true hsame⟩)

end RuntimeState

end Springtale.Formation
