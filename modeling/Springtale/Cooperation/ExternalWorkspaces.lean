import Mathlib.Order.MinMax
import Springtale.Core.Json
import Springtale.Core.Rule
import Springtale.Lib.Best
import Springtale.Lib.HashMap

/-! The directory of external workspaces, and what gossip about them makes of its entries. -/
namespace Springtale.Cooperation

open Springtale.Core Springtale.Lib

abbrev WorkspaceKey := String

inductive WorkspaceProvenance where
  | manualEntry (enteredBy : Uuid)
  | passiveHarvest (trigger : String) (harvestedAt : Nat)
  | activeDiscovery (scannedAt : Nat)
  | gossiped (fromAgent : Uuid) (originalProvenance : WorkspaceProvenance)
deriving DecidableEq

structure ExternalWorkspaceEntry where
  connectorName : String
  displayName : String
  kind : String
  metadata : Value
  firstSeenAt : Nat
  lastSeenAt : Nat
  provenance : WorkspaceProvenance
deriving DecidableEq

/-- The entry to write back, or none when the existing one stays. -/
def mergeGossipDelta (existing incoming : ExternalWorkspaceEntry) (incomingFromAgent : Uuid) :
    Option ExternalWorkspaceEntry :=
  if incoming.lastSeenAt ≤ existing.lastSeenAt then none
  else
    some {
      connectorName := incoming.connectorName
      displayName := incoming.displayName
      kind := incoming.kind
      metadata := incoming.metadata
      firstSeenAt := min existing.firstSeenAt incoming.firstSeenAt
      lastSeenAt := incoming.lastSeenAt
      provenance := .gossiped incomingFromAgent incoming.provenance }

abbrev ExternalWorkspaceDirectory := HashMap WorkspaceKey ExternalWorkspaceEntry

/-- What an agent tells about one workspace. -/
structure GossipDelta where
  key : WorkspaceKey
  incoming : ExternalWorkspaceEntry
  fromAgent : Uuid
deriving DecidableEq

/-- The merge is for a workspace that the directory has; a merged entry is written back. -/
def receive (directory : ExternalWorkspaceDirectory) (delta : GossipDelta) :
    ExternalWorkspaceDirectory :=
  match directory.get delta.key with
  | none => directory
  | some existing =>
    match mergeGossipDelta existing delta.incoming delta.fromAgent with
    | none => directory
    | some merged => directory.insert delta.key merged

def receiveAll (directory : ExternalWorkspaceDirectory) (deltas : List GossipDelta) :
    ExternalWorkspaceDirectory :=
  deltas.foldl receive directory

/-- What an entry says about its workspace, but for when it was first seen. -/
structure Observation where
  connectorName : String
  displayName : String
  kind : String
  metadata : Value
  lastSeenAt : Nat
  provenance : WorkspaceProvenance
deriving DecidableEq

def ExternalWorkspaceEntry.observation (entry : ExternalWorkspaceEntry) : Observation :=
  ⟨entry.connectorName, entry.displayName, entry.kind, entry.metadata, entry.lastSeenAt,
    entry.provenance⟩

/-- What an entry says once it came from another agent. -/
def GossipDelta.observation (delta : GossipDelta) : Observation :=
  { delta.incoming.observation with
    provenance := .gossiped delta.fromAgent delta.incoming.provenance }

/-- What a delta about its own workspace makes of an entry. -/
def ExternalWorkspaceEntry.learn (entry : ExternalWorkspaceEntry) (delta : GossipDelta) :
    ExternalWorkspaceEntry :=
  (mergeGossipDelta entry delta.incoming delta.fromAgent).getD entry

def ExternalWorkspaceEntry.learnAll (entry : ExternalWorkspaceEntry) (deltas : List GossipDelta) :
    ExternalWorkspaceEntry :=
  deltas.foldl learn entry

/-- The deltas that were fresher than the entry and all that came before them. -/
def ExternalWorkspaceEntry.accepted (entry : ExternalWorkspaceEntry) :
    List GossipDelta → List GossipDelta
  | [] => []
  | delta :: deltas =>
    if delta.incoming.lastSeenAt ≤ entry.lastSeenAt then accepted entry deltas
    else delta :: accepted delta.incoming deltas

section Learning

variable {entry entry' : ExternalWorkspaceEntry} {delta : GossipDelta} {deltas : List GossipDelta}

theorem learn_stale (h : delta.incoming.lastSeenAt ≤ entry.lastSeenAt) :
    entry.learn delta = entry := by
  rw [ExternalWorkspaceEntry.learn, mergeGossipDelta, if_pos h, Option.getD_none]

theorem learn_observation (entry : ExternalWorkspaceEntry) (delta : GossipDelta) :
    (entry.learn delta).observation =
      fresher Observation.lastSeenAt entry.observation delta.observation := by
  by_cases h : delta.incoming.lastSeenAt ≤ entry.lastSeenAt
  · rw [learn_stale h]
    exact (if_pos h).symm
  · rw [ExternalWorkspaceEntry.learn, mergeGossipDelta, if_neg h, Option.getD_some]
    exact (if_neg h).symm

/-- Deliveries keep the freshest observation. -/
theorem learnAll_observation (entry : ExternalWorkspaceEntry) (deltas : List GossipDelta) :
    (entry.learnAll deltas).observation =
      freshest Observation.lastSeenAt entry.observation (deltas.map GossipDelta.observation) := by
  induction deltas generalizing entry with
  | nil => rfl
  | cons delta deltas ih =>
    have hfirst := learn_observation entry delta
    have hrest := ih (entry.learn delta)
    rw [hfirst] at hrest
    exact hrest

theorem accepted_congr (h : entry.lastSeenAt = entry'.lastSeenAt) (deltas : List GossipDelta) :
    entry.accepted deltas = entry'.accepted deltas := by
  induction deltas with
  | nil => rfl
  | cons delta deltas ih =>
    rw [ExternalWorkspaceEntry.accepted, ExternalWorkspaceEntry.accepted, h, ih]

/-- The first sight that is kept is the earliest of the entry's and those of the accepted deltas. -/
theorem learnAll_firstSeenAt (entry : ExternalWorkspaceEntry) (deltas : List GossipDelta) :
    IsLeast {t | t = entry.firstSeenAt ∨
        ∃ delta ∈ entry.accepted deltas, delta.incoming.firstSeenAt = t}
      (entry.learnAll deltas).firstSeenAt := by
  induction deltas generalizing entry with
  | nil => exact ⟨.inl rfl, by rintro t (rfl | ⟨delta, hmem, -⟩) <;> [exact le_rfl; cases hmem]⟩
  | cons delta deltas ih =>
    have hrest := ih (entry.learn delta)
    by_cases h : delta.incoming.lastSeenAt ≤ entry.lastSeenAt
    · rw [learn_stale h] at hrest
      rw [ExternalWorkspaceEntry.learnAll, List.foldl_cons, learn_stale h,
        ExternalWorkspaceEntry.accepted, if_pos h]
      exact hrest
    · have hlearn : (entry.learn delta).firstSeenAt =
          min entry.firstSeenAt delta.incoming.firstSeenAt := by
        rw [ExternalWorkspaceEntry.learn, mergeGossipDelta, if_neg h, Option.getD_some]
      have hlast : (entry.learn delta).lastSeenAt = delta.incoming.lastSeenAt := by
        rw [ExternalWorkspaceEntry.learn, mergeGossipDelta, if_neg h, Option.getD_some]
      rw [hlearn, accepted_congr hlast] at hrest
      rw [ExternalWorkspaceEntry.accepted, if_neg h]
      obtain ⟨hmem, hleast⟩ := hrest
      refine ⟨?_, ?_⟩
      · rcases hmem with hmin | ⟨other, hother, heq⟩
        · rcases min_choice entry.firstSeenAt delta.incoming.firstSeenAt with hc | hc
          · exact .inl (hmin.trans hc)
          · exact .inr ⟨delta, List.mem_cons_self, (hmin.trans hc).symm⟩
        · exact .inr ⟨other, List.mem_cons_of_mem _ hother, heq⟩
      · rintro t (rfl | ⟨other, hother, rfl⟩)
        · exact (hleast (.inl rfl)).trans (min_le_left _ _)
        · rcases List.mem_cons.mp hother with rfl | hother
          · exact (hleast (.inl rfl)).trans (min_le_right _ _)
          · exact hleast (.inr ⟨other, hother, rfl⟩)

/-- What is told again changes nothing. -/
theorem learnAll_append_of_le {again : List GossipDelta}
    (h : ∀ delta ∈ again, delta.incoming.lastSeenAt ≤ (entry.learnAll deltas).lastSeenAt) :
    entry.learnAll (deltas ++ again) = entry.learnAll deltas := by
  have hsplit : entry.learnAll (deltas ++ again) = (entry.learnAll deltas).learnAll again :=
    List.foldl_append
  rw [hsplit]
  clear hsplit
  generalize entry.learnAll deltas = kept at h ⊢
  induction again with
  | nil => rfl
  | cons delta again ih =>
    rw [ExternalWorkspaceEntry.learnAll, List.foldl_cons, learn_stale (h delta List.mem_cons_self)]
    exact ih fun delta hdelta => h delta (List.mem_cons_of_mem _ hdelta)

/-- An entry that kept the newest observation. Of those that tie it is the first, and the first
sight is the earliest along the observations that were kept one after the other. -/
structure KeepsNewest (entry : ExternalWorkspaceEntry) (deltas : List GossipDelta)
    (kept : ExternalWorkspaceEntry) : Prop where
  newest : IsGreatest {t | t = entry.lastSeenAt ∨ ∃ delta ∈ deltas, delta.incoming.lastSeenAt = t}
    kept.lastSeenAt
  first : ∃ before after,
    entry.observation :: deltas.map GossipDelta.observation =
        before ++ kept.observation :: after ∧
      ∀ o ∈ before, o.lastSeenAt < kept.lastSeenAt
  earliest : IsLeast {t | t = entry.firstSeenAt ∨
    ∃ delta ∈ entry.accepted deltas, delta.incoming.firstSeenAt = t} kept.firstSeenAt

theorem learnAll_keepsNewest (entry : ExternalWorkspaceEntry) (deltas : List GossipDelta) :
    KeepsNewest entry deltas (entry.learnAll deltas) := by
  have hkept := learnAll_observation entry deltas
  have hlast : (entry.learnAll deltas).lastSeenAt = (freshest Observation.lastSeenAt
      entry.observation (deltas.map GossipDelta.observation)).lastSeenAt :=
    congrArg Observation.lastSeenAt hkept
  refine ⟨?_, ?_, learnAll_firstSeenAt entry deltas⟩
  · have hgreatest := isGreatest_freshest Observation.lastSeenAt entry.observation
      (deltas.map GossipDelta.observation)
    rw [← hlast] at hgreatest
    have hset : {t | ∃ o ∈ entry.observation :: deltas.map GossipDelta.observation,
        o.lastSeenAt = t} =
        {t | t = entry.lastSeenAt ∨ ∃ delta ∈ deltas, delta.incoming.lastSeenAt = t} := by
      ext t
      simp only [List.mem_cons, List.mem_map, exists_eq_or_imp, Set.mem_ofPred_eq]
      refine or_congr eq_comm ⟨?_, ?_⟩
      · rintro ⟨o, ⟨delta, hdelta, rfl⟩, rfl⟩
        exact ⟨delta, hdelta, rfl⟩
      · rintro ⟨delta, hdelta, rfl⟩
        exact ⟨delta.observation, ⟨delta, hdelta, rfl⟩, rfl⟩
    rwa [hset] at hgreatest
  · obtain ⟨before, after, hsplit, hbefore⟩ := freshest_first Observation.lastSeenAt
      entry.observation (deltas.map GossipDelta.observation)
    rw [← hkept] at hsplit hbefore
    exact ⟨before, after, hsplit, hbefore⟩

end Learning

section Directory

variable {directory : ExternalWorkspaceDirectory} {key : WorkspaceKey}

theorem get_receive (directory : ExternalWorkspaceDirectory) (delta : GossipDelta)
    (key : WorkspaceKey) :
    (receive directory delta).get key =
      (directory.get key).map fun entry => if delta.key = key then entry.learn delta else entry := by
  unfold receive
  by_cases hkey : delta.key = key
  · subst hkey
    cases hget : directory.get delta.key with
    | none => simp [hget]
    | some existing =>
      simp only [ExternalWorkspaceEntry.learn, Option.map_some, if_true]
      cases mergeGossipDelta existing delta.incoming delta.fromAgent with
      | none => exact hget
      | some merged => exact HashMap.get_insert_self
  · simp only [hkey, if_false, Option.map_id']
    split
    · rfl
    · split
      · rfl
      · exact HashMap.get_insert_ne (Ne.symm hkey)

/-- A workspace's entry learns what is told about it, whatever else is told in between. -/
theorem get_receiveAll (directory : ExternalWorkspaceDirectory) (deltas : List GossipDelta)
    (key : WorkspaceKey) :
    (receiveAll directory deltas).get key =
      (directory.get key).map fun entry => entry.learnAll (deltas.filter (·.key = key)) := by
  induction deltas generalizing directory with
  | nil => simp [receiveAll, ExternalWorkspaceEntry.learnAll]
  | cons delta deltas ih =>
    have hrest := ih (receive directory delta)
    rw [get_receive, Option.map_map] at hrest
    rw [receiveAll, List.foldl_cons, ← receiveAll, hrest]
    congr 1
    funext entry
    by_cases hkey : delta.key = key
    · simp [hkey, ExternalWorkspaceEntry.learnAll]
    · simp [hkey, ExternalWorkspaceEntry.learnAll]

/-- What was told about one workspace. -/
def about (key : WorkspaceKey) (deltas : List GossipDelta) : List GossipDelta :=
  deltas.filter (·.key = key)

/-- No two different observations are both the newest. -/
def NoTie (entry : ExternalWorkspaceEntry) (deltas : List GossipDelta) : Prop :=
  ∀ o ∈ entry.observation :: deltas.map GossipDelta.observation,
    ∀ o' ∈ entry.observation :: deltas.map GossipDelta.observation,
      (∀ x ∈ entry.observation :: deltas.map GossipDelta.observation,
        x.lastSeenAt ≤ o.lastSeenAt) → o'.lastSeenAt = o.lastSeenAt → o' = o

/-- Two deliveries of the same deltas, with whatever repetitions, keep an observation of the same
time, the same one where the newest do not tie; and a delta that comes again changes nothing. -/
theorem gossip_keepsNewest {deltas deltas' : List GossipDelta} {entry : ExternalWorkspaceEntry}
    (hsame : ∀ delta, delta ∈ deltas ↔ delta ∈ deltas') (hknown : directory.get key = some entry) :
    ∃ kept kept', (receiveAll directory deltas).get key = some kept ∧
      (receiveAll directory deltas').get key = some kept' ∧
      KeepsNewest entry (about key deltas) kept ∧ KeepsNewest entry (about key deltas') kept' ∧
      kept'.lastSeenAt = kept.lastSeenAt ∧
      (NoTie entry (about key deltas) → kept'.observation = kept.observation) ∧
      ∀ again, again ⊆ deltas → (receiveAll directory (deltas ++ again)).get key = some kept := by
  have hfilter : ∀ delta, delta ∈ about key deltas ↔ delta ∈ about key deltas' := fun delta => by
    rw [about, about, List.mem_filter, List.mem_filter, hsame]
  have hkeeps := learnAll_keepsNewest entry (about key deltas)
  have hkeeps' := learnAll_keepsNewest entry (about key deltas')
  refine ⟨entry.learnAll (about key deltas), entry.learnAll (about key deltas'), ?_, ?_, hkeeps,
    hkeeps', ?_, ?_, ?_⟩
  · rw [get_receiveAll, hknown, Option.map_some, about]
  · rw [get_receiveAll, hknown, Option.map_some, about]
  · have hgreatest' := hkeeps'.newest
    simp only [← hfilter] at hgreatest'
    exact hgreatest'.unique hkeeps.newest
  · intro hnotie
    rw [learnAll_observation, learnAll_observation]
    refine freshest_congr (fun o => ?_) fun o ho heq => ?_
    · simp only [List.mem_map, hfilter]
    · exact hnotie _ (freshest_mem _ _) o ho (fun x hx => le_freshest hx) heq
  · intro again hagain
    rw [get_receiveAll, hknown, Option.map_some, List.filter_append]
    refine congrArg some (learnAll_append_of_le fun delta hdelta => ?_)
    obtain ⟨hmem, hkey⟩ := List.mem_filter.mp hdelta
    exact hkeeps.newest.2 (.inr ⟨delta, List.mem_filter.mpr ⟨hagain hmem, hkey⟩, rfl⟩)

section Example

/-- A chat seen from `first` to `last` under a name. -/
def seen (name : String) (first last : Nat) : ExternalWorkspaceEntry :=
  ⟨"connector-telegram", name, "user", .null, first, last, .activeDiscovery last⟩

def chat : WorkspaceKey := "telegram://chat/12345"

def told (name : String) (first last : Nat) : GossipDelta := ⟨chat, seen name first last, 7⟩

def knownChat : ExternalWorkspaceDirectory :=
  (HashMap.empty ⟨id, fun _ => .refl _⟩).insert chat (seen "chat" 2 3)

/-- On a tie each order keeps its own first, and an observation that comes after a newer one is
dropped with its earlier first sight. -/
theorem gossip_order_matters :
    ((receiveAll knownChat [told "a" 2 5, told "b" 2 5]).get chat).map (·.displayName) =
        some "a" ∧
      ((receiveAll knownChat [told "b" 2 5, told "a" 2 5]).get chat).map (·.displayName) =
        some "b" ∧
      ((receiveAll knownChat [told "a" 2 5, told "b" 1 4]).get chat).map (·.firstSeenAt) =
        some 2 ∧
      ((receiveAll knownChat [told "b" 1 4, told "a" 2 5]).get chat).map (·.firstSeenAt) =
        some 1 := by
  decide

theorem gossip_keepsNewest_told :
    ((∀ delta, delta ∈ [told "b" 1 4, told "a" 2 5] ↔
          delta ∈ [told "a" 2 5, told "b" 1 4, told "a" 2 5]) ∧
        knownChat.get chat = some (seen "chat" 2 3)) ∧
      ∃ kept kept', (receiveAll knownChat [told "b" 1 4, told "a" 2 5]).get chat = some kept ∧
        (receiveAll knownChat [told "a" 2 5, told "b" 1 4, told "a" 2 5]).get chat = some kept' ∧
        kept'.lastSeenAt = kept.lastSeenAt := by
  have hsame : ∀ delta, delta ∈ [told "b" 1 4, told "a" 2 5] ↔
      delta ∈ [told "a" 2 5, told "b" 1 4, told "a" 2 5] := by
    intro delta
    simp only [List.mem_cons, List.not_mem_nil, or_false]
    tauto
  have hknown : knownChat.get chat = some (seen "chat" 2 3) := HashMap.get_insert_self
  obtain ⟨kept, kept', hkept, hkept', -, -, hlast, -⟩ := gossip_keepsNewest hsame hknown
  exact ⟨⟨hsame, hknown⟩, kept, kept', hkept, hkept', hlast⟩

end Example

end Directory

end Springtale.Cooperation
