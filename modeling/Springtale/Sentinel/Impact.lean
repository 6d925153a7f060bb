import Springtale.Connector.Capability
import Springtale.Core.Rule

/-! The impact class of an action, read off its kind and its manifest hints. -/
namespace Springtale.Sentinel

open Springtale.Core Springtale.Connector

inductive ActionImpact where
  | readOnly
  | reversible
  | destructive
deriving DecidableEq

def ActionImpact.rank : ActionImpact → Nat
  | .readOnly => 0
  | .reversible => 1
  | .destructive => 2

/-- The more impactful of two classes. -/
def ActionImpact.max (a b : ActionImpact) : ActionImpact :=
  if a.rank ≤ b.rank then b else a

/-- The manifest's advisory hints for one connector action. -/
structure ActionHints where
  readOnly : Bool
  destructive : Option Bool
deriving DecidableEq

/-- The hints an installed connector's manifest declares for an action. -/
def manifestHints (registry : String → Option (List ActionDecl)) (connector action : String) :
    Option ActionHints :=
  (registry connector).bind fun actions =>
    (actions.find? (·.name = action)).map fun decl => ⟨decl.readOnly, decl.destructive⟩

/-- Hints count only in the safe direction; an unknown action is destructive. -/
def classifyHints : Option ActionHints → ActionImpact
  | none => .destructive
  | some hints =>
    if hints.readOnly then .readOnly
    else if hints.destructive = some false then .reversible
    else .destructive

mutual

def classifyImpact (hints : Option ActionHints) : Action → ActionImpact
  | .runConnector .. => classifyHints hints
  | .writeFile _ _ deleteSource => if deleteSource then .destructive else .reversible
  | .runShell _ => .destructive
  | .transform .. => .readOnly
  | .delay _ => .readOnly
  | .aiComplete .. => .readOnly
  | .extract .. => .readOnly
  | .dedupe .. => .readOnly
  | .sendMessage _ => .reversible
  | .notify .. => .reversible
  | .chain steps => classifySteps hints steps

/-- The most impactful of a chain's steps; an empty chain only reads. -/
def classifySteps (hints : Option ActionHints) : List Action → ActionImpact
  | [] => .readOnly
  | step :: steps => (classifyImpact hints step).max (classifySteps hints steps)

end

@[simp] theorem ActionImpact.max_eq_destructive (a b : ActionImpact) :
    a.max b = .destructive ↔ a = .destructive ∨ b = .destructive := by
  cases a <;> cases b <;> decide

theorem classifySteps_eq_destructive {hints : Option ActionHints} {steps : List Action} :
    classifySteps hints steps = .destructive ↔
      ∃ step ∈ steps, classifyImpact hints step = .destructive := by
  induction steps with
  | nil => simp [classifySteps]
  | cons step steps ih => simp [classifySteps, ih]

end Springtale.Sentinel
