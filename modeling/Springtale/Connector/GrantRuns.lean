import Springtale.Connector.Capability
import Springtale.Lib.Transition

/-! Histories of registrations and approvals on one checker, and when its grants stay sound. -/
namespace Springtale.Connector

open Springtale.Lib

/-- The eleventh character of a display belongs to its label. -/
theorem label_getElem {label : String} (h : 10 < label.toList.length) (rest : String) :
    (label ++ rest).toList[10]? = label.toList[10]? := by
  rw [String.toList_append, List.getElem?_append_left h]

def Capability.tag : Capability → Option Char
  | .networkOutbound _ => some 'b'
  | .filesystemRead _ => some 'R'
  | .filesystemWrite _ => some 'W'
  | .keychainRead _ => some 'a'
  | .shellExec => none

theorem Capability.display_getElem (cap : Capability) : cap.display.toList[10]? = cap.tag := by
  cases cap with
  | networkOutbound host => exact label_getElem (by decide) host
  | filesystemRead path => exact label_getElem (by decide) path
  | filesystemWrite path => exact label_getElem (by decide) path
  | keychainRead key => exact label_getElem (by decide) key
  | shellExec => rfl

/-- That character tells the labels apart, so a display names one capability. -/
theorem Capability.display_injective : Function.Injective Capability.display := by
  intro a b h
  have htag : a.tag = b.tag := by rw [← display_getElem, ← display_getElem, h]
  cases a <;> cases b <;> simp only [tag, Option.some.injEq, Char.reduceEq, reduceCtorEq] at htag
  case networkOutbound.networkOutbound => rw [(String.append_right_inj _).mp h]
  case filesystemRead.filesystemRead => rw [(String.append_right_inj _).mp h]
  case filesystemWrite.filesystemWrite => rw [(String.append_right_inj _).mp h]
  case keychainRead.keychainRead => rw [(String.append_right_inj _).mp h]
  case shellExec.shellExec => rfl

inductive GrantCall where
  | register (connectorName : String) (declared : List Capability) (policy : CapabilityPolicy)
  | approve (connectorName : String) (capability : Capability)

/-- What the last registration of a connector declared, once there is one. -/
def lastDeclared (connectorName : String) (calls : List GrantCall) : Option (List Capability) :=
  calls.foldl (fun last c =>
    match c with
    | .register name declared _ => if name = connectorName then some declared else last
    | .approve .. => last) none

/-- The capabilities approved for a connector since its last registration. -/
def approvedSince (connectorName : String) (calls : List GrantCall) : List Capability :=
  calls.foldl (fun given c =>
    match c with
    | .register name .. => if name = connectorName then [] else given
    | .approve name cap => if name = connectorName then given ++ [cap] else given) []

/-- Which of the three sets a policy puts a declared capability into. -/
inductive Decision where
  | approved
  | pending
  | denied
deriving DecidableEq

def CapabilityPolicy.decision (policy : CapabilityPolicy) (cap : Capability) : Decision :=
  match cap, policy with
  | .shellExec, .denyAll => .denied
  | .shellExec, _ => .pending
  | _, .allowAll | _, .interactive => .approved
  | _, .denyAll => .denied
  | _, .allowList allowed => if cap.display ∈ allowed then .approved else .denied

theorem CapabilityPolicy.decision_shellExec (policy : CapabilityPolicy) :
    policy.decision .shellExec ≠ .approved := by
  cases policy <;> simp [decision]

/-- What a grant's sets have to do with the manifest and the approvals behind it. -/
structure CapabilityGrant.Accounts (grant : CapabilityGrant) (declared given : List Capability) :
    Prop where
  pending : ∀ cap ∈ grant.pendingApproval, cap ∈ declared ∧ cap ∉ grant.denied
  covers : ∀ cap ∈ declared,
    cap.display ∈ grant.approved ∨ cap ∈ grant.pendingApproval ∨ cap ∈ grant.denied
  approved : ∀ name ∈ grant.approved,
    (∃ cap ∈ declared, cap ≠ .shellExec ∧ cap ∉ grant.denied ∧ name = cap.display) ∨
      ∃ cap ∈ given, name = cap.display

namespace CapabilityChecker

def apply (checker : CapabilityChecker) : GrantCall → CapabilityChecker
  | .register name declared policy => checker.register name declared policy
  | .approve name cap => (checker.approve name cap).2

/-- The checker after a history of calls. -/
def after (calls : List GrantCall) : CapabilityChecker := calls.foldl apply new

/-- ShellExec only by an approval, nothing undeclared, nothing denied, and `check` says so. -/
structure GrantsSound (calls : List GrantCall) : Prop where
  shellExec : ∀ name, (after calls).Approved name .shellExec →
    .shellExec ∈ approvedSince name calls
  declared : ∀ name cap, (after calls).Approved name cap →
    ∃ declared, lastDeclared name calls = some declared ∧ cap ∈ declared
  denied : ∀ name grant, (after calls).grants name = some grant →
    ∀ cap ∈ grant.denied, ¬ (after calls).Approved name cap
  checks : ∀ name cap,
    (after calls).check name cap = .ok () ↔ (after calls).Approved name cap

/-- The capability waits for approval, or has it already. -/
def confirms (checker : CapabilityChecker) : GrantCall → Bool
  | .register .. => true
  | .approve name cap =>
    (checker.grants name).all fun grant =>
      cap ∈ grant.pendingApproval || cap.display ∈ grant.approved

theorem after_snoc (calls : List GrantCall) (c : GrantCall) :
    after (calls ++ [c]) = (after calls).apply c := by
  rw [after, List.foldl_append]
  rfl

theorem lastDeclared_snoc (name : String) (calls : List GrantCall) (c : GrantCall) :
    lastDeclared name (calls ++ [c]) =
      match c with
      | .register n declared _ => if n = name then some declared else lastDeclared name calls
      | .approve .. => lastDeclared name calls := by
  rw [lastDeclared, List.foldl_append]
  rfl

theorem approvedSince_snoc (name : String) (calls : List GrantCall) (c : GrantCall) :
    approvedSince name (calls ++ [c]) =
      match c with
      | .register n .. => if n = name then [] else approvedSince name calls
      | .approve n cap =>
        if n = name then approvedSince name calls ++ [cap] else approvedSince name calls := by
  rw [approvedSince, List.foldl_append]
  rfl

theorem registerOne_eq (policy : CapabilityPolicy) (grant : CapabilityGrant) (cap : Capability) :
    registerOne policy grant cap =
      match policy.decision cap with
      | .approved => { grant with approved := cap.display :: grant.approved }
      | .pending => { grant with pendingApproval := grant.pendingApproval ++ [cap] }
      | .denied => { grant with denied := grant.denied ++ [cap] } := by
  cases cap <;> cases policy <;> simp only [registerOne, CapabilityPolicy.decision] <;>
    split <;> rfl

/-- The loop appends each capability to the set that the policy decides on. -/
theorem foldl_registerOne (policy : CapabilityPolicy) (declared : List Capability)
    (grant : CapabilityGrant) :
    let t := declared.foldl (registerOne policy) grant
    t.pendingApproval =
        grant.pendingApproval ++ declared.filter (policy.decision · = .pending) ∧
      t.denied = grant.denied ++ declared.filter (policy.decision · = .denied) ∧
      ∀ name, name ∈ t.approved ↔ name ∈ grant.approved ∨
        ∃ cap ∈ declared, policy.decision cap = .approved ∧ name = cap.display := by
  induction declared generalizing grant with
  | nil => simp
  | cons cap declared ih =>
    obtain ⟨hpending, hdenied, happroved⟩ := ih (registerOne policy grant cap)
    rw [registerOne_eq] at hpending hdenied happroved
    rw [List.foldl_cons, registerOne_eq]
    cases hdecision : policy.decision cap with
    | approved =>
      simp only [hdecision] at hpending hdenied happroved
      refine ⟨by simp [hpending, hdecision], by simp [hdenied, hdecision], fun name => ?_⟩
      rw [happroved name]
      simp [hdecision, or_assoc, or_left_comm]
    | pending =>
      simp only [hdecision] at hpending hdenied happroved
      refine ⟨by simp [hpending, hdecision], by simp [hdenied, hdecision], fun name => ?_⟩
      rw [happroved name]
      simp [hdecision]
    | denied =>
      simp only [hdecision] at hpending hdenied happroved
      refine ⟨by simp [hpending, hdecision], by simp [hdenied, hdecision], fun name => ?_⟩
      rw [happroved name]
      simp [hdecision]

/-- A fresh registration accounts for its grant without any approval. -/
theorem accounts_register (policy : CapabilityPolicy) (name : String)
    (declared : List Capability) :
    (declared.foldl (registerOne policy) ⟨name, [], [], []⟩).Accounts declared [] := by
  obtain ⟨hpending, hdenied, happroved⟩ := foldl_registerOne policy declared ⟨name, [], [], []⟩
  rw [List.nil_append] at hpending hdenied
  constructor
  · intro cap hcap
    rw [hpending, List.mem_filter, decide_eq_true_eq] at hcap
    rw [hdenied, List.mem_filter, decide_eq_true_eq, hcap.2]
    exact ⟨hcap.1, by simp⟩
  · intro cap hcap
    rw [happroved, hpending, hdenied, List.mem_filter, List.mem_filter]
    cases hdecision : policy.decision cap with
    | approved => exact .inl (.inr ⟨cap, hcap, hdecision, rfl⟩)
    | pending => exact .inr (.inl ⟨hcap, by simp⟩)
    | denied => exact .inr (.inr ⟨hcap, by simp⟩)
  · intro entry hentry
    obtain hnil | ⟨cap, hcap, hdecision, rfl⟩ := (happroved entry).mp hentry
    · cases hnil
    · refine .inl ⟨cap, hcap, ?_, ?_, rfl⟩
      · rintro rfl
        exact policy.decision_shellExec hdecision
      · rw [hdenied, List.mem_filter, hdecision]
        simp

/-- Approving one more capability moves it out of the pending ones. -/
theorem accounts_approve {grant : CapabilityGrant} {declared given : List Capability}
    (h : grant.Accounts declared given) (cap : Capability) :
    { grant with
      pendingApproval := grant.pendingApproval.filter (·.display ≠ cap.display)
      approved := cap.display :: grant.approved }.Accounts declared (given ++ [cap]) := by
  constructor
  · intro c hc
    exact h.pending c (List.mem_filter.mp hc).1
  · intro c hc
    rw [List.mem_cons, List.mem_filter]
    by_cases heq : c.display = cap.display
    · exact .inl (.inl heq)
    · rcases h.covers c hc with happroved | hpending | hdenied
      · exact .inl (.inr happroved)
      · exact .inr (.inl ⟨hpending, by simpa using heq⟩)
      · exact .inr (.inr hdenied)
  · intro entry hentry
    rcases List.mem_cons.mp hentry with rfl | hentry
    · exact .inr ⟨cap, by simp, rfl⟩
    · rcases h.approved entry hentry with hpolicy | ⟨c, hc, rfl⟩
      · exact .inl hpolicy
      · exact .inr ⟨c, List.mem_append_left _ hc, rfl⟩

/-- Every grant has a registration behind it and accounts for it. -/
theorem accounts_after (calls : List GrantCall) (name : String) :
    match (after calls).grants name with
    | none => True
    | some grant => ∃ declared, lastDeclared name calls = some declared ∧
        grant.Accounts declared (approvedSince name calls) := by
  induction calls using List.reverseRecOn with
  | nil => trivial
  | append_singleton calls c ih =>
    rw [after_snoc, lastDeclared_snoc, approvedSince_snoc]
    cases c with
    | register n declared policy =>
      by_cases hname : n = name
      · subst hname
        simp only [apply, register, Function.update_self, if_true]
        exact ⟨declared, rfl, accounts_register policy n declared⟩
      · simp only [apply, register, if_neg hname, Function.update_of_ne (Ne.symm hname)]
        exact ih
    | approve n cap =>
      cases hgrant : (after calls).grants n with
      | none =>
        simp only [apply, approve, hgrant]
        by_cases hname : n = name
        · subst hname
          rw [hgrant]
          trivial
        · rw [if_neg hname]
          exact ih
      | some grant =>
        simp only [apply, approve, hgrant]
        by_cases hname : n = name
        · subst hname
          rw [hgrant] at ih
          obtain ⟨declared, hdeclared, haccounts⟩ := ih
          simp only [Function.update_self, if_true]
          exact ⟨declared, hdeclared, accounts_approve haccounts cap⟩
        · simp only [if_neg hname, Function.update_of_ne (Ne.symm hname)]
          exact ih

/-- What a grant approves is declared and not denied. -/
def Clean (calls : List GrantCall) (name : String) : Prop :=
  ∀ grant declared, (after calls).grants name = some grant →
    lastDeclared name calls = some declared →
      ∀ cap, cap.display ∈ grant.approved → cap ∈ declared ∧ cap ∉ grant.denied

/-- Apart from that, soundness holds after every history. -/
theorem grantsSound_iff (calls : List GrantCall) :
    GrantsSound calls ↔ ∀ name, Clean calls name := by
  constructor
  · intro h name grant declared hgrant hdeclared cap hcap
    obtain ⟨declared', hdeclared', hmem⟩ := h.declared name cap ⟨grant, hgrant, hcap⟩
    obtain rfl : declared' = declared := Option.some.inj (hdeclared'.symm.trans hdeclared)
    exact ⟨hmem, fun hdenied => h.denied name grant hgrant cap hdenied ⟨grant, hgrant, hcap⟩⟩
  · intro h
    constructor
    · rintro name ⟨grant, hgrant, happroved⟩
      have haccounts := accounts_after calls name
      rw [hgrant] at haccounts
      obtain ⟨declared, -, haccounts⟩ := haccounts
      rcases haccounts.approved _ happroved with ⟨cap, -, hne, -, heq⟩ | ⟨cap, hcap, heq⟩
      · exact absurd (Capability.display_injective heq).symm hne
      · rwa [Capability.display_injective heq]
    · rintro name cap ⟨grant, hgrant, happroved⟩
      have haccounts := accounts_after calls name
      rw [hgrant] at haccounts
      obtain ⟨declared, hdeclared, -⟩ := haccounts
      exact ⟨declared, hdeclared, (h name grant declared hgrant hdeclared cap happroved).1⟩
    · rintro name grant hgrant cap hdenied ⟨grant', hgrant', happroved⟩
      obtain rfl : grant' = grant := Option.some.inj (hgrant'.symm.trans hgrant)
      have haccounts := accounts_after calls name
      rw [hgrant] at haccounts
      obtain ⟨declared, hdeclared, -⟩ := haccounts
      exact (h name grant' declared hgrant hdeclared cap happroved).2 hdenied
    · exact fun name cap => check_eq_ok_iff _ name cap

/-- A call for one connector leaves the others as clean as they were. -/
theorem clean_snoc_of_ne {calls : List GrantCall} {c : GrantCall} {name : String}
    (hgrants : ((after calls).apply c).grants name = (after calls).grants name)
    (hdeclared : lastDeclared name (calls ++ [c]) = lastDeclared name calls) :
    Clean (calls ++ [c]) name ↔ Clean calls name := by
  rw [Clean, Clean, after_snoc, hgrants, hdeclared]

/-- A registration leaves a clean grant behind. -/
theorem clean_register (calls : List GrantCall) (name : String) (declared : List Capability)
    (policy : CapabilityPolicy) : Clean (calls ++ [.register name declared policy]) name := by
  intro grant declared' hgrant hdeclared cap hcap
  rw [lastDeclared_snoc] at hdeclared
  simp only [if_true, Option.some.injEq] at hdeclared
  subst hdeclared
  simp only [after_snoc, apply, register, Function.update_self, Option.some.injEq] at hgrant
  subst hgrant
  rcases (accounts_register policy name declared).approved _ hcap with
    ⟨c, hc, -, hdenied, heq⟩ | ⟨c, hc, -⟩
  · rw [Capability.display_injective heq]
    exact ⟨hc, hdenied⟩
  · cases hc

/-- An approval keeps a clean grant clean exactly when it confirms what was pending or approved. -/
theorem clean_approve_iff {calls : List GrantCall} {name : String} (h : Clean calls name)
    (cap : Capability) :
    Clean (calls ++ [.approve name cap]) name ↔
      (after calls).confirms (.approve name cap) = true := by
  have haccounts := accounts_after calls name
  cases hgrant : (after calls).grants name with
  | none =>
    have hsame : ((after calls).apply (.approve name cap)).grants name =
        (after calls).grants name := by
      simp only [apply, approve, hgrant]
    rw [clean_snoc_of_ne hsame (by rw [lastDeclared_snoc])]
    exact iff_of_true h (by simp [confirms, hgrant])
  | some grant =>
    rw [hgrant] at haccounts
    obtain ⟨declared, hdeclared, haccounts⟩ := haccounts
    have hafter : (after (calls ++ [.approve name cap])).grants name = some { grant with
        pendingApproval := grant.pendingApproval.filter (·.display ≠ cap.display)
        approved := cap.display :: grant.approved } := by
      simp only [after_snoc, apply, approve, hgrant, Function.update_self]
    simp only [confirms, hgrant, Option.all_some, Bool.or_eq_true, decide_eq_true_eq]
    constructor
    · intro hclean
      obtain ⟨hmem, hdenied⟩ := hclean _ declared hafter
        (by rw [lastDeclared_snoc]; exact hdeclared) cap (by simp)
      rcases haccounts.covers cap hmem with happroved | hpending | hdenied'
      · exact .inr happroved
      · exact .inl hpending
      · exact absurd hdenied' hdenied
    · intro hconfirms grant' declared' hgrant' hdeclared' c hc
      rw [lastDeclared_snoc] at hdeclared'
      obtain rfl := Option.some.inj (hafter.symm.trans hgrant')
      obtain rfl := Option.some.inj (hdeclared.symm.trans hdeclared')
      have hcap : cap ∈ declared ∧ cap ∉ grant.denied := by
        rcases hconfirms with hpending | happroved
        · exact haccounts.pending cap hpending
        · exact h grant declared hgrant hdeclared cap happroved
      rcases List.mem_cons.mp hc with heq | hc
      · rw [Capability.display_injective heq]
        exact hcap
      · exact h grant declared hgrant hdeclared c hc

theorem clean_snoc_iff {calls : List GrantCall} (h : ∀ name, Clean calls name) (c : GrantCall) :
    (∀ name, Clean (calls ++ [c]) name) ↔ (after calls).confirms c = true := by
  cases c with
  | register name declared policy =>
    refine iff_of_true (fun other => ?_) rfl
    by_cases hname : name = other
    · subst hname
      exact clean_register calls name declared policy
    · refine (clean_snoc_of_ne ?_ ?_).mpr (h other)
      · simp only [apply, register, Function.update_of_ne (Ne.symm hname)]
      · rw [lastDeclared_snoc]
        exact if_neg hname
  | approve name cap =>
    rw [← clean_approve_iff (h name)]
    refine ⟨fun hall => hall name, fun hname other => ?_⟩
    by_cases heq : name = other
    · exact heq ▸ hname
    · refine (clean_snoc_of_ne ?_ (by rw [lastDeclared_snoc])).mpr (h other)
      cases hgrant : (after calls).grants name with
      | none => simp only [apply, approve, hgrant]
      | some grant => simp only [apply, approve, hgrant, Function.update_of_ne (Ne.symm heq)]

end CapabilityChecker

/-- Grants stay sound throughout a history exactly when each approval is for a capability that the
connector's grant holds pending or approved. -/
theorem grantsSound_throughout_iff (calls : List GrantCall) :
    Throughout CapabilityChecker.GrantsSound calls ↔
      EachCall (fun pre c => (CapabilityChecker.after pre).confirms c = true) calls := by
  apply throughout_iff_eachCall
  · rw [CapabilityChecker.grantsSound_iff]
    intro name grant declared hgrant
    cases hgrant
  · intro calls c hpre
    rw [CapabilityChecker.grantsSound_iff]
    exact CapabilityChecker.clean_snoc_iff
      ((CapabilityChecker.grantsSound_iff calls).mp hpre.self) c

/-- An approval makes an exception of a capability that the policy had denied. -/
theorem not_grantsSound_denied : ¬ ∀ calls, CapabilityChecker.GrantsSound calls := by
  intro h
  have hsound := h [.register "connector-shell" [.shellExec] .denyAll,
    .approve "connector-shell" .shellExec]
  exact hsound.denied "connector-shell" _ rfl .shellExec (by decide) ⟨_, rfl, by decide⟩

end Springtale.Connector
