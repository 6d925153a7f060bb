import Springtale.Core.Rule

/-! Live formations and the commands the bot drains from the formation channel. -/
namespace Springtale.Formation

open Springtale.Core

inductive MomentumTier where
  | cold
  | warming
  | hot
  | fever
deriving DecidableEq

inductive IntentPattern where
  | reconnoiter (target : String)
  | execute (planId : Option Uuid)
  | stabilize (reason : String)
  | surge (objective : String)
deriving DecidableEq

/-- The intent a stored text stands for; an unknown text stabilizes. -/
def parseIntent (intent : String) : IntentPattern :=
  if intent = "Reconnoiter" then .reconnoiter "unspecified"
  else if intent = "Execute" then .execute none
  else if intent = "Stabilize" then .stabilize "unspecified"
  else if intent = "Surge" then .surge "unspecified"
  else .stabilize ("unknown intent: " ++ intent)

structure LiveMember where
  agentId : Uuid
  capabilities : List String
  operational : Bool

/-- The part of a live formation that its commands read and write. -/
structure LiveFormation where
  id : Uuid
  intent : IntentPattern
  members : List LiveMember
  guardMode : Bool
  paused : Bool
  tier : MomentumTier
  consecutiveSuccesses : Nat
  rallyTokens : Nat

inductive FormationCommand where
  | deploy (formationId : Uuid)
  | dissolve (formationId : Uuid) (reason : String)
  | pause (formationId : Uuid)
  | setGuard (formationId : Uuid) (engaged : Bool)
  | resume (formationId : Uuid)
  | changeIntent (formationId : Uuid) (intent : IntentPattern)
  | addMember (formationId : Uuid) (connectorName : String) (agentId : Uuid)
  | recruit (formationId : Uuid) (connectorName : String) (agentId : Uuid)
  | removeMember (formationId : Uuid) (connectorName : String)
  | rally (formationId : Uuid)

/-- `iter_mut().find(..)` on the id: the first live copy is changed, the others are not. -/
def onFirst (id : Uuid) (f : LiveFormation → LiveFormation) :
    List LiveFormation → List LiveFormation
  | [] => []
  | x :: xs => if x.id = id then f x :: xs else x :: onFirst id f xs

/-- The guard's veto in front of a disruptive command. -/
def guarded (f : LiveFormation → LiveFormation) (formation : LiveFormation) : LiveFormation :=
  if formation.guardMode then formation else f formation

def setGuard (engaged : Bool) (formation : LiveFormation) : LiveFormation :=
  { formation with guardMode := engaged }

/-- A new intent starts a new run of successes. -/
def applyIntent (intent : IntentPattern) (formation : LiveFormation) : LiveFormation :=
  { formation with intent, consecutiveSuccesses := 0 }

def join (member : LiveMember) (formation : LiveFormation) : LiveFormation :=
  { formation with members := formation.members ++ [member] }

def leave (agentId : Uuid) (formation : LiveFormation) : LiveFormation :=
  { formation with members := formation.members.filter (·.agentId ≠ agentId) }

def removeFirstWith (connectorName : String) (formation : LiveFormation) : LiveFormation :=
  match formation.members.find? (connectorName ∈ ·.capabilities) with
  | some member => leave member.agentId formation
  | none => formation

/-- A manual rally costs a token when some member is operational. -/
def selfRally (formation : LiveFormation) : LiveFormation :=
  if formation.members.any (·.operational) then
    { formation with rallyTokens := formation.rallyTokens - 1 }
  else formation

/-- Recruiting needs Fever momentum before the guard is even asked. -/
def recruit (connectorName : String) (agentId : Uuid) (formation : LiveFormation) :
    LiveFormation :=
  if formation.tier ≠ .fever then formation
  else guarded (join ⟨agentId, [connectorName], true⟩) formation

/-- Dissolving drops every copy, unless the first one is guarded. -/
def dissolve (id : Uuid) (live : List LiveFormation) : List LiveFormation :=
  match live.find? (·.id = id) with
  | some formation => if formation.guardMode then live else live.filter (·.id ≠ id)
  | none => live.filter (·.id ≠ id)

/-- One command on the live set; `spawn` is what a deploy materializes from the store. -/
def handleFormationCommand (spawn : Uuid → Option LiveFormation) (live : List LiveFormation) :
    FormationCommand → List LiveFormation
  | .deploy id => live ++ (spawn id).toList
  | .dissolve id _ => dissolve id live
  | .pause id => onFirst id (fun f => { f with paused := true }) live
  | .setGuard id engaged => onFirst id (setGuard engaged) live
  | .resume id => onFirst id (fun f => { f with paused := false }) live
  | .changeIntent id intent => onFirst id (guarded (applyIntent intent)) live
  | .addMember id connectorName agentId => onFirst id (join ⟨agentId, [connectorName], true⟩) live
  | .recruit id connectorName agentId => onFirst id (recruit connectorName agentId) live
  | .removeMember id connectorName => onFirst id (guarded (removeFirstWith connectorName)) live
  | .rally id => onFirst id (guarded selfRally) live

variable {id : Uuid} {live : List LiveFormation}

theorem onFirst_eq_self {f : LiveFormation → LiveFormation}
    (h : ∀ x ∈ live, x.id = id → f x = x) : onFirst id f live = live := by
  induction live with
  | nil => rfl
  | cons x xs ih =>
    have hxs := ih fun y hy => h y (List.mem_cons_of_mem x hy)
    by_cases hid : x.id = id
    · simp [onFirst, hid, h x (by simp) hid]
    · simp [onFirst, hid, hxs]

/-- The commands a guarded formation refuses. -/
def FormationCommand.VetoedFor (id : Uuid) : FormationCommand → Prop
  | .dissolve id' _ => id' = id
  | .changeIntent id' _ => id' = id
  | .recruit id' _ _ => id' = id
  | .removeMember id' _ => id' = id
  | .rally id' => id' = id
  | _ => False

/-- A guarded formation's live copies stay as they are. -/
theorem handleFormationCommand_vetoed (spawn : Uuid → Option LiveFormation)
    {cmd : FormationCommand} (hcmd : cmd.VetoedFor id) (hlive : ∃ x ∈ live, x.id = id)
    (hguard : ∀ x ∈ live, x.id = id → x.guardMode = true) :
    handleFormationCommand spawn live cmd = live := by
  cases cmd with
  | dissolve id' reason =>
    obtain rfl : id' = id := hcmd
    rw [handleFormationCommand, dissolve]
    cases hfind : live.find? (·.id = id') with
    | none =>
      obtain ⟨x, hx, hid⟩ := hlive
      exact absurd (List.find?_eq_none.mp hfind x hx) (by simp [hid])
    | some x =>
      have hid : x.id = id' := by simpa using List.find?_some hfind
      simp [hguard x (List.mem_of_find?_eq_some hfind) hid]
  | changeIntent id' intent =>
    obtain rfl : id' = id := hcmd
    exact onFirst_eq_self fun x hx hid => by simp [guarded, hguard x hx hid]
  | recruit id' connectorName agentId =>
    obtain rfl : id' = id := hcmd
    exact onFirst_eq_self fun x hx hid => by simp [recruit, guarded, hguard x hx hid]
  | removeMember id' connectorName =>
    obtain rfl : id' = id := hcmd
    exact onFirst_eq_self fun x hx hid => by simp [guarded, hguard x hx hid]
  | rally id' =>
    obtain rfl : id' = id := hcmd
    exact onFirst_eq_self fun x hx hid => by simp [guarded, hguard x hx hid]
  | deploy => cases hcmd
  | pause => cases hcmd
  | setGuard => cases hcmd
  | resume => cases hcmd
  | addMember => cases hcmd

end Springtale.Formation
