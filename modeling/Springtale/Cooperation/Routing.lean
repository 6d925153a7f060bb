import Mathlib.Data.Prod.Lex
import Springtale.Beat.Blackboard
import Springtale.Lib.Best
import Springtale.Lib.Lease

/-! Routing by scan: tasks filed under capabilities, and the table of claims on them. A scan looks
at the best task of the agent's capabilities and then tries to claim it. -/
namespace Springtale.Cooperation

open Springtale.Core Springtale.Beat Springtale.Lib

structure PriorityTask where
  task : SubTask
deriving DecidableEq

namespace PriorityTask

def id (t : PriorityTask) : Uuid := t.task.id

def capability (t : PriorityTask) : String := t.task.targetConnector.name

def priority (t : PriorityTask) : Nat := t.task.priority

/-- A smaller number is more urgent; of equal priorities the smaller identity comes first. -/
def rank (t : PriorityTask) : Nat ×ₗ Uuid := toLex (t.priority, t.id)

/-- The order of the heaps. -/
def moreUrgent (a b : PriorityTask) : Bool := a.rank < b.rank

end PriorityTask

theorem moreUrgent_preference : Preference PriorityTask.moreUrgent :=
  preference_of_key PriorityTask.rank

/-! ### The index -/

/-- The heap of each capability. A task is filed under its own. -/
structure CapabilityIndex where
  buckets : String → List PriorityTask
  filed : ∀ cap, ∀ t ∈ buckets cap, t.capability = cap

namespace CapabilityIndex

theorem filed_insert (idx : CapabilityIndex) (task : PriorityTask) (cap : String) :
    ∀ t ∈ Function.update idx.buckets task.capability
      (task :: idx.buckets task.capability) cap, t.capability = cap := by
  intro t ht
  by_cases hcap : cap = task.capability
  · subst hcap
    rw [Function.update_self] at ht
    rcases List.mem_cons.mp ht with rfl | ht
    · rfl
    · exact idx.filed _ t ht
  · rw [Function.update_of_ne hcap] at ht
    exact idx.filed cap t ht

def insert (idx : CapabilityIndex) (task : PriorityTask) : CapabilityIndex where
  buckets := Function.update idx.buckets task.capability (task :: idx.buckets task.capability)
  filed := idx.filed_insert task

theorem filed_remove (idx : CapabilityIndex) (taskId : Uuid) (capability cap : String) :
    ∀ t ∈ Function.update idx.buckets capability
      ((idx.buckets capability).filter fun t => t.id ≠ taskId) cap, t.capability = cap := by
  intro t ht
  by_cases hcap : cap = capability
  · subst hcap
    rw [Function.update_self] at ht
    exact idx.filed cap t (List.mem_of_mem_filter ht)
  · rw [Function.update_of_ne hcap] at ht
    exact idx.filed cap t ht

def remove (idx : CapabilityIndex) (taskId : Uuid) (capability : String) : CapabilityIndex where
  buckets := Function.update idx.buckets capability
    ((idx.buckets capability).filter fun t => t.id ≠ taskId)
  filed := idx.filed_remove taskId capability

theorem filed_empty (cap : String) : ∀ t ∈ ([] : List PriorityTask), t.capability = cap :=
  fun _ ht => (List.not_mem_nil ht).elim

def empty : CapabilityIndex := ⟨fun _ => [], filed_empty⟩

/-- The top of one heap. -/
def peek (idx : CapabilityIndex) (cap : CapabilityDecl) : Option PriorityTask :=
  bestOf PriorityTask.moreUrgent (idx.buckets cap.name)

/-- The best so far after one more heap. -/
def look (idx : CapabilityIndex) (best : Option PriorityTask) (cap : CapabilityDecl) :
    Option PriorityTask :=
  match idx.peek cap with
  | some top => consider PriorityTask.moreUrgent best top
  | none => best

def peekBest (idx : CapabilityIndex) (caps : List CapabilityDecl) : Option PriorityTask :=
  caps.foldl idx.look none

/-- The tasks that an agent's capabilities match. -/
def Matches (idx : CapabilityIndex) (caps : List CapabilityDecl) (t : PriorityTask) : Prop :=
  t ∈ idx.buckets t.capability ∧ t.capability ∈ caps.map (·.name)

end CapabilityIndex

/-! ### The claims -/

structure TaskClaim where
  taskId : Uuid
  owner : Uuid
  claimedAt : Nat
deriving DecidableEq

inductive RoutingError where
  | lostRace (taskId : Uuid)
  | notFound (taskId : Uuid)
  | unavailable (message : String)
deriving DecidableEq

abbrev ClaimManager := Uuid → Option TaskClaim

namespace ClaimManager

def tryClaim (claims : ClaimManager) (taskId agent : Uuid) (now : Nat) :
    ClaimManager × Except RoutingError TaskClaim :=
  match claims taskId with
  | none =>
    let claim : TaskClaim := ⟨taskId, agent, now⟩
    (Function.update claims taskId (some claim), .ok claim)
  | some _ => (claims, .error (.lostRace taskId))

def release (claims : ClaimManager) (taskId : Uuid) : ClaimManager :=
  Function.update claims taskId none

def ownerOf (claims : ClaimManager) (taskId : Uuid) : Option Uuid := (claims taskId).map (·.owner)

/-- The claim on the candidate that a scan has found. -/
def claimCandidate (claims : ClaimManager) (agent : Uuid) (now : Nat) :
    Option PriorityTask → ClaimManager × Except RoutingError (Option (PriorityTask × TaskClaim))
  | none => (claims, .ok none)
  | some candidate =>
    match claims.tryClaim candidate.id agent now with
    | (claims, .ok claim) => (claims, .ok (some (candidate, claim)))
    | (claims, .error (.lostRace _)) => (claims, .ok none)
    | (claims, .error e) => (claims, .error e)

end ClaimManager

def scanAndClaim (idx : CapabilityIndex) (claims : ClaimManager) (agent : Uuid)
    (caps : List CapabilityDecl) (now : Nat) :
    ClaimManager × Except RoutingError (Option (PriorityTask × TaskClaim)) :=
  claims.claimCandidate agent now (idx.peekBest caps)

/-! ### One scan -/

section Scan

variable {idx : CapabilityIndex} {claims : ClaimManager} {agent : Uuid} {now : Nat}
  {caps : List CapabilityDecl} {t m : PriorityTask}

theorem peekBest_eq (idx : CapabilityIndex) (caps : List CapabilityDecl) :
    idx.peekBest caps = bestOf PriorityTask.moreUrgent (caps.filterMap idx.peek) := by
  induction caps using List.reverseRecOn with
  | nil => rfl
  | append_singleton caps cap ih =>
    rw [CapabilityIndex.peekBest] at ih ⊢
    rw [List.foldl_concat, ih, CapabilityIndex.look, List.filterMap_append]
    cases hpeek : idx.peek cap with
    | none => simp [hpeek]
    | some top => simp [hpeek, bestOf_concat]

theorem matches_of_peek {cap : CapabilityDecl} (hcap : cap ∈ caps)
    (hpeek : idx.peek cap = some t) : idx.Matches caps t := by
  have hmem := mem_of_bestOf moreUrgent_preference hpeek
  have hfiled := idx.filed cap.name t hmem
  exact ⟨hfiled ▸ hmem, hfiled ▸ List.mem_map_of_mem hcap⟩

/-- The candidate matches, and no task that matches is more urgent. -/
theorem peekBest_spec (h : idx.peekBest caps = some m) :
    idx.Matches caps m ∧ ∀ t, idx.Matches caps t → t.moreUrgent m = false := by
  rw [peekBest_eq] at h
  constructor
  · obtain ⟨cap, hcap, hpeek⟩ := List.mem_filterMap.mp (mem_of_bestOf moreUrgent_preference h)
    exact matches_of_peek hcap hpeek
  · rintro t ⟨hbucket, hname⟩
    obtain ⟨cap, hcap, hcapname⟩ := List.mem_map.mp hname
    rw [← hcapname] at hbucket
    cases hpeek : idx.peek cap with
    | none =>
      rw [bestOf_eq_none_iff.mp hpeek] at hbucket
      exact (List.not_mem_nil hbucket).elim
    | some top =>
      have htop : top.moreUrgent m = false :=
        not_better_than_best moreUrgent_preference h (List.mem_filterMap.mpr ⟨cap, hcap, hpeek⟩)
      have ht : t.moreUrgent top = false :=
        not_better_than_best moreUrgent_preference hpeek hbucket
      cases hm : t.moreUrgent m with
      | false => rfl
      | true =>
        rcases moreUrgent_preference.negTrans t m top hm with hbad | hbad
        · rw [ht] at hbad
          cases hbad
        · rw [htop] at hbad
          cases hbad

theorem exists_peekBest (ht : idx.Matches caps t) : ∃ m, idx.peekBest caps = some m := by
  obtain ⟨hbucket, hname⟩ := ht
  obtain ⟨cap, hcap, hcapname⟩ := List.mem_map.mp hname
  rw [← hcapname] at hbucket
  cases hbest : idx.peekBest caps with
  | some m => exact ⟨m, rfl⟩
  | none =>
    rw [peekBest_eq, bestOf_eq_none_iff] at hbest
    cases hpeek : idx.peek cap with
    | none =>
      rw [bestOf_eq_none_iff.mp hpeek] at hbucket
      exact (List.not_mem_nil hbucket).elim
    | some top =>
      have hmem : top ∈ caps.filterMap idx.peek := List.mem_filterMap.mpr ⟨cap, hcap, hpeek⟩
      rw [hbest] at hmem
      exact (List.not_mem_nil hmem).elim

/-- Tasks of which neither is more urgent have one identity. -/
theorem id_eq_of_not_moreUrgent (htm : t.moreUrgent m = false) (hmt : m.moreUrgent t = false) :
    t.id = m.id := by
  simp only [PriorityTask.moreUrgent, decide_eq_false_iff_not, not_lt] at htm hmt
  have hrank : t.rank = m.rank := le_antisymm hmt htm
  exact congrArg (fun r => (ofLex r).2) hrank

theorem claimCandidate_of_free (hfree : claims t.id = none) :
    claims.claimCandidate agent now (some t) =
      (Function.update claims t.id (some ⟨t.id, agent, now⟩),
        .ok (some (t, ⟨t.id, agent, now⟩))) := by
  simp [ClaimManager.claimCandidate, ClaimManager.tryClaim, hfree]

theorem claimCandidate_of_claimed {claim : TaskClaim} (hclaimed : claims t.id = some claim) :
    claims.claimCandidate agent now (some t) = (claims, .ok none) := by
  simp [ClaimManager.claimCandidate, ClaimManager.tryClaim, hclaimed]

/-- What is granted was unclaimed, and is then claimed by the agent. Nothing else changes a claim.
-/
theorem claimCandidate_cases (claims : ClaimManager) (agent : Uuid) (now : Nat)
    (best : Option PriorityTask) :
    (∃ t, best = some t ∧ claims t.id = none ∧ claims.claimCandidate agent now best =
      (Function.update claims t.id (some ⟨t.id, agent, now⟩), .ok (some (t, ⟨t.id, agent, now⟩)))) ∨
    (∀ t, best = some t → claims t.id ≠ none) ∧
      claims.claimCandidate agent now best = (claims, .ok none) := by
  cases best with
  | none => exact .inr ⟨fun _ h => (nomatch h), rfl⟩
  | some t =>
    cases hclaim : claims t.id with
    | none => exact .inl ⟨t, rfl, hclaim, claimCandidate_of_free hclaim⟩
    | some claim =>
      refine .inr ⟨?_, claimCandidate_of_claimed hclaim⟩
      rintro t' ⟨⟩
      simp [hclaim]

end Scan

/-! ### Agents that scan at the same time -/

inductive ScanPhase where
  | idle
  | scanning (agent : Uuid) (rest : List CapabilityDecl) (best : Option PriorityTask)

/-- The index, the claims and the scans under way. `held`, which no function of the code reads, is
what scans have granted to whom and nobody has released since. -/
structure Router where
  index : CapabilityIndex
  claims : ClaimManager
  phase : Nat → ScanPhase
  held : List (Uuid × Uuid)

inductive RoutingStep where
  | insert (task : PriorityTask)
  | remove (taskId : Uuid) (capability : String)
  | scan (id : Nat) (agent : Uuid) (caps : List CapabilityDecl)
  /-- A scan locks one more heap and looks at its top. -/
  | look (id : Nat)
  | claim (id now : Nat)
  | release (taskId : Uuid)

namespace Router

def new : Router := ⟨.empty, fun _ => none, fun _ => .idle, []⟩

def setPhase (r : Router) (id : Nat) (phase : ScanPhase) : Router :=
  { r with phase := Function.update r.phase id phase }

/-- A scan ends with its claim. -/
def finish (r : Router) (id : Nat) (agent : Uuid) (now : Nat) (best : Option PriorityTask) :
    Router :=
  let (claims, result) := r.claims.claimCandidate agent now best
  { r with
    claims := claims
    phase := Function.update r.phase id .idle
    held :=
      match result with
      | .ok (some granted) => (agent, granted.1.id) :: r.held
      | _ => r.held }

def next (r : Router) : RoutingStep → Option Router
  | .insert task => some { r with index := r.index.insert task }
  | .remove taskId capability => some { r with index := r.index.remove taskId capability }
  | .scan id agent caps =>
    match r.phase id with
    | .idle => some (r.setPhase id (.scanning agent caps none))
    | _ => none
  | .look id =>
    match r.phase id with
    | .scanning agent (cap :: rest) best =>
      some (r.setPhase id (.scanning agent rest (r.index.look best cap)))
    | _ => none
  | .claim id now =>
    match r.phase id with
    | .scanning agent [] best => some (r.finish id agent now best)
    | _ => none
  | .release taskId =>
    some { r with claims := r.claims.release taskId, held := r.held.filter fun p => p.2 ≠ taskId }

/-- Each task has one owner at most, whom the table of claims names. -/
structure Owned (r : Router) : Prop where
  single : (r.held.map (·.2)).Nodup
  backed : Lease.Backed r.claims.ownerOf r.held

end Router

section Run

variable {r r' : Router}

theorem ownerOf_update (claims : ClaimManager) (taskId : Uuid) (claim : Option TaskClaim) :
    ClaimManager.ownerOf (Function.update claims taskId claim) =
      Function.update claims.ownerOf taskId (claim.map (·.owner)) := by
  funext k
  by_cases hk : k = taskId
  · subst hk
    simp [ClaimManager.ownerOf]
  · simp [ClaimManager.ownerOf, hk]

theorem owned_finish (h : r.Owned) (id : Nat) (agent : Uuid) (now : Nat)
    (best : Option PriorityTask) : (r.finish id agent now best).Owned := by
  rcases claimCandidate_cases r.claims agent now best with ⟨t, -, hfree, heq⟩ | ⟨-, heq⟩
  · have hunowned : r.claims.ownerOf t.id = none := by rw [ClaimManager.ownerOf, hfree]; rfl
    have hnew : ∀ p ∈ r.held, p.2 ≠ t.id := by
      intro p hp hid
      have howner := h.backed p hp
      rw [hid, hunowned] at howner
      cases howner
    have hgrant : ∀ b, r.claims.ownerOf t.id = some b → b = agent := by simp [hunowned]
    rw [Router.finish, heq]
    constructor
    · refine List.nodup_cons.mpr ⟨?_, h.single⟩
      intro hmem
      obtain ⟨p, hp, hid⟩ := List.mem_map.mp hmem
      exact hnew p hp hid
    · intro p hp
      rw [ownerOf_update]
      rcases List.mem_cons.mp hp with rfl | hp
      · exact Function.update_self ..
      · exact h.backed.grant hgrant p hp
  · rw [Router.finish, heq]
    exact ⟨h.single, h.backed⟩

theorem owned_next {step : RoutingStep} (h : r.Owned) (hstep : r.next step = some r') :
    r'.Owned := by
  cases step with
  | insert task =>
    cases hstep
    exact ⟨h.single, h.backed⟩
  | remove taskId capability =>
    cases hstep
    exact ⟨h.single, h.backed⟩
  | scan id agent caps =>
    simp only [Router.next] at hstep
    split at hstep <;> cases hstep
    exact ⟨h.single, h.backed⟩
  | look id =>
    simp only [Router.next] at hstep
    split at hstep <;> cases hstep
    exact ⟨h.single, h.backed⟩
  | claim id now =>
    simp only [Router.next] at hstep
    split at hstep <;> cases hstep
    exact owned_finish h id _ now _
  | release taskId =>
    cases hstep
    constructor
    · exact h.single.sublist (List.filter_sublist.map _)
    · have hdrop := h.backed.drop_filter (k := taskId)
      intro p hp
      rw [ClaimManager.release, ownerOf_update]
      exact hdrop p hp

theorem owned_run {steps : List RoutingStep} (hrun : runLabels Router.next .new steps = some r) :
    r.Owned :=
  (reaches_of_runLabels hrun).invariant Router.Owned (fun _ _ _ hstep h => owned_next h hstep)
    ⟨List.nodup_nil, fun _ h => nomatch h⟩

/-- A scan that nothing interrupts is `scanAndClaim`. -/
theorem run_looks (id : Nat) (agent : Uuid) (caps : List CapabilityDecl)
    (best : Option PriorityTask) (hphase : r.phase id = .scanning agent caps best) :
    runLabels Router.next r (List.replicate caps.length (.look id)) =
      some (r.setPhase id (.scanning agent [] (caps.foldl r.index.look best))) := by
  induction caps generalizing r best with
  | nil => simp [runLabels, Router.setPhase, ← hphase]
  | cons cap caps ih =>
    have hlook : r.next (.look id) =
        some (r.setPhase id (.scanning agent caps (r.index.look best cap))) := by
      simp [Router.next, hphase]
    rw [List.length_cons, List.replicate_succ, runLabels, hlook, Option.bind_some,
      ih _ (Function.update_self ..)]
    simp [Router.setPhase]

theorem run_scan {id : Nat} (hidle : r.phase id = .idle) (agent : Uuid)
    (caps : List CapabilityDecl) (now : Nat) : ∃ r', runLabels Router.next r (.scan id agent caps ::
      (List.replicate caps.length (.look id) ++ [.claim id now])) = some r' ∧
      r'.claims = (scanAndClaim r.index r.claims agent caps now).1 := by
  have hscan : r.next (.scan id agent caps) = some (r.setPhase id (.scanning agent caps none)) := by
    simp [Router.next, hidle]
  rw [runLabels, hscan, Option.bind_some, runLabels_append,
    run_looks id agent caps none (by simp [Router.setPhase]), Option.bind_some, runLabels]
  simp only [Router.next, Router.setPhase, Function.update_self, Option.bind_some, runLabels]
  exact ⟨_, rfl, rfl⟩

end Run

/-- A scan claims the best task that matches if nobody has, and is told of a lost race if somebody
has; and whatever agents scan, claim and release at the same time, a task has one owner at most. -/
theorem routing_laws :
    (∀ (idx : CapabilityIndex) (claims : ClaimManager) (agent : Uuid) (caps : List CapabilityDecl)
      (now : Nat),
      (∀ claims' t claim,
        scanAndClaim idx claims agent caps now = (claims', .ok (some (t, claim))) →
          idx.Matches caps t ∧ (∀ t', idx.Matches caps t' → t'.moreUrgent t = false) ∧
          claims t.id = none ∧ claim = ⟨t.id, agent, now⟩ ∧
          claims' = Function.update claims t.id (some claim)) ∧
      ((∃ t, idx.Matches caps t ∧ (∀ t', idx.Matches caps t' → t'.moreUrgent t = false) ∧
          claims t.id = none) →
        ∃ claims' granted,
          scanAndClaim idx claims agent caps now = (claims', .ok (some granted))) ∧
      ((∀ t, idx.Matches caps t → (∀ t', idx.Matches caps t' → t'.moreUrgent t = false) →
          claims t.id ≠ none) →
        scanAndClaim idx claims agent caps now = (claims, .ok none))) ∧
    ∀ steps r, runLabels Router.next .new steps = some r → r.Owned := by
  refine ⟨?_, fun steps r => owned_run⟩
  intro idx claims agent caps now
  have hcases := claimCandidate_cases claims agent now (idx.peekBest caps)
  rw [← scanAndClaim] at hcases
  refine ⟨?_, ?_, ?_⟩
  · intro claims' t claim hscan
    rcases hcases with ⟨m, hbest, hfree, heq⟩ | ⟨-, heq⟩
    · rw [hscan] at heq
      cases heq
      exact ⟨(peekBest_spec hbest).1, (peekBest_spec hbest).2, hfree, rfl, rfl⟩
    · rw [hscan] at heq
      cases heq
  · rintro ⟨t, hmatches, hmost, hfree⟩
    obtain ⟨m, hm⟩ := exists_peekBest hmatches
    have hid : t.id = m.id := id_eq_of_not_moreUrgent ((peekBest_spec hm).2 t hmatches)
      (hmost m (peekBest_spec hm).1)
    rcases hcases with ⟨_, _, _, heq⟩ | ⟨hclaimed, -⟩
    · exact ⟨_, _, heq⟩
    · exact absurd (hid ▸ hfree) (hclaimed m hm)
  · intro hclaimed
    rcases hcases with ⟨m, hbest, hfree, -⟩ | ⟨-, heq⟩
    · exact absurd hfree (hclaimed m (peekBest_spec hbest).1 (peekBest_spec hbest).2)
    · exact heq

/-- Two tasks of one connector; the more urgent one is claimed already. -/
def githubTask (id priority : Nat) : PriorityTask :=
  ⟨⟨id, ⟨"github", none, .null⟩, "act", .null, priority, none, "", []⟩⟩

def halfClaimed : CapabilityIndex :=
  (CapabilityIndex.empty.insert (githubTask 1 1)).insert (githubTask 2 2)

def firstClaimed : ClaimManager := Function.update (fun _ => none) 1 (some ⟨1, 9, 0⟩)

/-- The claimed task hides the other one from the scan. -/
theorem hidden_by_claimed :
    halfClaimed.Matches [⟨"github", none, .null⟩] (githubTask 2 2) ∧ firstClaimed 2 = none ∧
    (scanAndClaim halfClaimed firstClaimed 7 [⟨"github", none, .null⟩] 5).2 = .ok none := by
  refine ⟨⟨?_, ?_⟩, ?_, ?_⟩ <;> decide +kernel

theorem routing_laws_unclaimed :
    (∃ claims' granted, scanAndClaim halfClaimed (fun _ => none) 7 [⟨"github", none, .null⟩] 5 =
      (claims', .ok (some granted))) ∧
    ∃ r, runLabels Router.next .new [.insert (githubTask 1 1), .scan 0 7 [⟨"github", none, .null⟩],
      .look 0, .claim 0 5] = some r ∧ r.Owned := by
  constructor
  · refine (routing_laws.1 halfClaimed (fun _ => none) 7 [⟨"github", none, .null⟩] 5).2.1 ?_
    refine ⟨githubTask 1 1, by constructor <;> decide +kernel, ?_, rfl⟩
    rintro t ⟨hbucket, hname⟩
    simp only [List.map_cons, List.map_nil, List.mem_singleton] at hname
    rw [hname] at hbucket
    have hbuckets : halfClaimed.buckets "github" = [githubTask 2 2, githubTask 1 1] := by
      decide +kernel
    rw [hbuckets] at hbucket
    rcases List.mem_cons.mp hbucket with rfl | hbucket
    · decide +kernel
    · rw [List.mem_singleton.mp hbucket]
      decide +kernel
  · obtain ⟨r, hrun⟩ : ∃ r, runLabels Router.next .new [.insert (githubTask 1 1),
        .scan 0 7 [⟨"github", none, .null⟩], .look 0, .claim 0 5] = some r := ⟨_, rfl⟩
    exact ⟨r, hrun, routing_laws.2 _ r hrun⟩

end Springtale.Cooperation
