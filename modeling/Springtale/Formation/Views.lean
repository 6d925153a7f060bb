import Springtale.Formation.Operations
import Springtale.Lib.Keyed

/-! How live formations come out of the store, at a deploy and for all of them at boot, what is seen of
them, and what a boot makes of the store. -/
namespace Springtale.Formation

section Views

open Springtale.Core Springtale.Connector

variable {rx : RegexCrate}

/-- What a spawn reads besides the formation's row: its member rows, in the order the query lists
them, its momentum and rally rows, and whether the AI adapter of its own configuration, if it has
one, can be built. -/
structure SpawnReads where
  memberRows : List FormationMemberRow
  momentum : Option (MomentumTier × Nat)
  rally : Option Nat
  adapter : Bool

/-- The cart budget of a formation. -/
def rallyBudget : Nat := 3

def statusActive : String := "active"

def statusPaused : String := "paused"

namespace RuntimeState

/-- A member's connector comes first among its capabilities, then what actions the registry has
for it. -/
def spawnMember (s : RuntimeState rx) (row : FormationMemberRow) : LiveMember where
  agentId := row.id
  capabilities := row.connectorName :: ((s.registry row.connectorName).getD []).map (·.name)
  operational := true

/-- The live formation that a row becomes. -/
def materialize (s : RuntimeState rx) (reads : SpawnReads) (row : FormationRow) : LiveFormation where
  id := row.id
  intent := parseIntent row.intent
  members := reads.memberRows.map s.spawnMember
  guardMode := s.store.guard row.id
  paused := false
  tier := (reads.momentum.map (·.1)).getD .cold
  consecutiveSuccesses := (reads.momentum.map (·.2)).getD 0
  rallyTokens := min rallyBudget (reads.rally.getD rallyBudget)

/-- Fails when the formation has no row, or an AI adapter that cannot be built. -/
def spawnFormation (s : RuntimeState rx) (reads : SpawnReads) (id : Uuid) : Option LiveFormation :=
  match s.formationRow? id with
  | none => none
  | some row => if reads.adapter then some (s.materialize reads row) else none

end RuntimeState

/-- The commands that bring one row's formation back. -/
def restoreRow (row : FormationRow) : List FormationCommand :=
  if row.status ≠ statusActive ∧ row.status ≠ statusPaused then []
  else .deploy row.id :: if row.status = statusPaused then [.pause row.id] else []

/-- The commands a boot posts, in the order in which the store lists the rows. -/
def restoreFormations (rows : List FormationRow) : List FormationCommand := rows.flatMap restoreRow

/-- The bot's loop over the command channel. -/
def handleAll (spawn : Uuid → Option LiveFormation) (live : List LiveFormation)
    (channel : List FormationCommand) : List LiveFormation :=
  channel.foldl (handleFormationCommand spawn) live

open Springtale.Core Springtale.Lib

variable {rx : RegexCrate}

/-- A running formation, as an operator sees it. -/
structure View where
  id : Uuid
  paused : Bool
  connectors : Multiset String
  intent : IntentPattern

/-- The same formation when it is not paused. -/
def View.active (v : View) : View := { v with paused := false }

/-- A member's connector comes first among its capabilities. -/
def LiveMember.connector (m : LiveMember) : String := m.capabilities.headD ""

def connectorsOf (members : List LiveMember) : Multiset String :=
  (members : Multiset LiveMember).map (·.connector)

def LiveFormation.view (f : LiveFormation) : View :=
  ⟨f.id, f.paused, connectorsOf f.members, f.intent⟩

def liveViews (live : List LiveFormation) : Multiset View :=
  (live : Multiset LiveFormation).map (·.view)

/-- The rows that a boot restores. -/
def FormationRow.runs (row : FormationRow) : Bool :=
  row.status = statusActive || row.status = statusPaused

namespace Store

def connectors (store : Store) (id : Uuid) : Multiset String :=
  ((store.members.filter (·.formationId = id) : List FormationMemberRow) :
    Multiset FormationMemberRow).map (·.connectorName)

def view (store : Store) (row : FormationRow) : View :=
  ⟨row.id, row.status = statusPaused, store.connectors row.id, parseIntent row.intent⟩

def views (store : Store) : Multiset View :=
  ((store.formations : Multiset FormationRow).filter (·.runs)).map store.view

end Store

@[simp] theorem view_id (f : LiveFormation) : f.view.id = f.id := rfl

@[simp] theorem store_view_id (store : Store) (row : FormationRow) : (store.view row).id = row.id :=
  rfl

@[simp] theorem liveViews_nil : liveViews [] = 0 := rfl

@[simp] theorem liveViews_append (live live' : List LiveFormation) :
    liveViews (live ++ live') = liveViews live + liveViews live' := by
  rw [liveViews, ← Multiset.coe_add, Multiset.map_add]
  rfl

@[simp] theorem liveViews_singleton (f : LiveFormation) : liveViews [f] = {f.view} := rfl

theorem mem_liveViews {live : List LiveFormation} {v : View} :
    v ∈ liveViews live ↔ ∃ f ∈ live, f.view = v := by
  simp [liveViews]

theorem mem_views {store : Store} {v : View} :
    v ∈ store.views ↔ ∃ row ∈ store.formations, row.runs = true ∧ store.view row = v := by
  simp [Store.views, and_assoc]

/-- The ids of the live formations are those of their views. -/
theorem liveViews_ids (live : List LiveFormation) :
    (liveViews live).map (·.id) = ((live.map (·.id) : List Uuid) : Multiset Uuid) := by
  rw [liveViews, Multiset.map_map]
  rfl

/-- With one formation an id, a command for the first one is a command for all of its id. -/
theorem onFirst_eq_map {id : Uuid} {f : LiveFormation → LiveFormation} {live : List LiveFormation}
    (hnodup : (live.map (·.id)).Nodup) :
    onFirst id f live = live.map (adjust (·.id) id f) := by
  induction live with
  | nil => rfl
  | cons x xs ih =>
    rw [List.map_cons, List.nodup_cons] at hnodup
    by_cases hx : x.id = id
    · have hrest : xs.map (adjust (·.id) id f) = xs := by
        conv_rhs => rw [← List.map_id xs]
        apply List.map_congr_left
        intro y hy
        apply adjust_of_ne
        intro heq
        exact hnodup.1 (List.mem_map.mpr ⟨y, hy, heq.trans hx.symm⟩)
      rw [onFirst, if_pos hx, List.map_cons, hrest, adjust_of_eq hx]
    · rw [onFirst, if_neg hx, List.map_cons, ih hnodup.2, adjust_of_ne hx]

theorem liveViews_onFirst {id : Uuid} {f : LiveFormation → LiveFormation} {F : View → View}
    {live : List LiveFormation} (hnodup : (live.map (·.id)).Nodup)
    (hview : ∀ x ∈ live, x.id = id → (f x).view = F x.view) :
    liveViews (onFirst id f live) = (liveViews live).map (adjust (·.id) id F) := by
  have hlive : ∀ x ∈ (live : Multiset LiveFormation), x.id = id → (f x).view = F x.view := hview
  rw [onFirst_eq_map hnodup, liveViews, ← Multiset.map_coe]
  exact map_adjust_view (fun _ => rfl) hlive

theorem liveViews_filter (id : Uuid) (live : List LiveFormation) :
    liveViews (live.filter (·.id ≠ id)) = (liveViews live).filter (·.id ≠ id) := by
  rw [liveViews, liveViews, Multiset.filter_map, ← Multiset.filter_coe]
  rfl

end Views

section Restore

open Springtale.Core Springtale.Lib

variable {rx : RegexCrate}

/-- The store's own constraints, with every guard off and no command waiting. -/
structure WellKept (s : RuntimeState rx) : Prop where
  rows : (s.store.formations.map (·.id)).Nodup
  memberIds : (s.store.members.map (·.id)).Nodup
  connectors : (s.store.members.map fun row => (row.formationId, row.connectorName)).Nodup
  references : ∀ row ∈ s.store.members, row.formationId ∈ s.store.formations.map (·.id)
  guard : ∀ id, s.store.guard id = false
  drained : s.channel = []

/-- A live formation without a guard, whose members have ids of their own and each a connector. -/
structure LiveFormation.Sound (f : LiveFormation) : Prop where
  guard : f.guardMode = false
  agents : (f.members.map (·.agentId)).Nodup
  capable : ∀ m ∈ f.members, m.capabilities ≠ []

/-- What the spawns of a boot read: each formation's member rows, in some order. -/
structure Reads (s : RuntimeState rx) (reads : Uuid → SpawnReads) : Prop where
  memberRows : ∀ id, (reads id).memberRows.Perm (s.formationMembers id)
  adapter : ∀ id, (reads id).adapter = true

namespace RuntimeState

variable {s : RuntimeState rx}

theorem formationRow?_of_mem (hkept : WellKept s) {row : FormationRow}
    (hrow : row ∈ s.store.formations) : s.formationRow? row.id = some row := by
  unfold formationRow?
  cases hfind : s.store.formations.find? (·.id = row.id) with
  | none => exact absurd (List.find?_eq_none.mp hfind row hrow) (by simp)
  | some other =>
    have hid : other.id = row.id := by simpa using List.find?_some hfind
    have hsame := List.inj_on_of_nodup_map hkept.rows (List.mem_of_find?_eq_some hfind) hrow hid
    rw [hsame]

theorem mem_of_formationRow? {id : Uuid} {row : FormationRow}
    (h : s.formationRow? id = some row) : row ∈ s.store.formations ∧ row.id = id :=
  ⟨List.mem_of_find?_eq_some h, by simpa using List.find?_some h⟩

@[simp] theorem spawnMember_connector (row : FormationMemberRow) :
    (s.spawnMember row).connector = row.connectorName := rfl

theorem materialize_view {reads : SpawnReads} (row : FormationRow)
    (hreads : reads.memberRows.Perm (s.formationMembers row.id)) :
    (s.materialize reads row).view = (s.store.view row).active := by
  have hconnectors : connectorsOf (s.materialize reads row).members =
      s.store.connectors row.id := by
    unfold connectorsOf materialize Store.connectors
    rw [← Multiset.map_coe, Multiset.map_map, Multiset.coe_eq_coe.mpr hreads]
    rfl
  rw [LiveFormation.view, hconnectors]
  rfl

theorem materialize_sound (hkept : WellKept s) {reads : SpawnReads} {row : FormationRow}
    (hreads : reads.memberRows.Perm (s.formationMembers row.id)) :
    (s.materialize reads row).Sound := by
  refine ⟨hkept.guard row.id, ?_, ?_⟩
  · have hids : ((s.materialize reads row).members.map (·.agentId)) =
        reads.memberRows.map (·.id) := by
      rw [materialize, List.map_map]
      rfl
    rw [hids, (hreads.map _).nodup_iff]
    exact hkept.memberIds.sublist (List.filter_sublist.map _)
  · intro m hm
    obtain ⟨mr, -, rfl⟩ := List.mem_map.mp hm
    exact List.cons_ne_nil _ _

theorem spawnFormation_cases {reads : SpawnReads} {id : Uuid} {f : LiveFormation}
    (h : s.spawnFormation reads id = some f) :
    ∃ row ∈ s.store.formations, row.id = id ∧ reads.adapter = true ∧
      f = s.materialize reads row := by
  unfold spawnFormation at h
  split at h
  · cases h
  · rename_i row hrow
    obtain ⟨hmem, hid⟩ := mem_of_formationRow? hrow
    split at h
    · rename_i hadapter
      cases h
      exact ⟨row, hmem, hid, hadapter, rfl⟩
    · cases h

theorem spawnFormation_of_mem (hkept : WellKept s) {row : FormationRow}
    (hrow : row ∈ s.store.formations) {reads : SpawnReads} (hadapter : reads.adapter = true) :
    s.spawnFormation reads row.id = some (s.materialize reads row) := by
  simp [spawnFormation, formationRow?_of_mem hkept hrow, hadapter]

end RuntimeState

theorem onFirst_append {id : Uuid} {f : LiveFormation → LiveFormation} {live : List LiveFormation}
    {x : LiveFormation} (hnew : id ∉ live.map (·.id)) (hx : x.id = id) :
    onFirst id f (live ++ [x]) = live ++ [f x] := by
  induction live with
  | nil => simp [onFirst, hx]
  | cons y ys ih =>
    rw [List.map_cons, List.mem_cons, not_or] at hnew
    rw [List.cons_append, onFirst, if_neg (Ne.symm hnew.1), ih hnew.2]
    rfl

/-- A row that runs comes back as one formation, the others as none. -/
theorem restoreRow_appends {s : RuntimeState rx} (hkept : WellKept s) {reads : Uuid → SpawnReads}
    (hreads : Reads s reads) {row : FormationRow} (hrow : row ∈ s.store.formations)
    {live : List LiveFormation} (hnew : row.id ∉ live.map (·.id)) :
    ∃ restored : List LiveFormation,
      handleAll (fun id => s.spawnFormation (reads id) id) live (restoreRow row) =
        live ++ restored ∧
      liveViews restored = (if row.runs then {s.store.view row} else 0) ∧
      ∀ f ∈ restored, f.Sound ∧ f.id = row.id := by
  have hmembers := hreads.memberRows row.id
  have hspawn : s.spawnFormation (reads row.id) row.id =
      some (s.materialize (reads row.id) row) :=
    RuntimeState.spawnFormation_of_mem hkept hrow (hreads.adapter row.id)
  have hview := RuntimeState.materialize_view row hmembers
  have hsound := RuntimeState.materialize_sound hkept hmembers
  by_cases hpaused : row.status = statusPaused
  · refine ⟨[{ s.materialize (reads row.id) row with paused := true }], ?_, ?_, ?_⟩
    · have hdeployed := onFirst_append (f := fun f => { f with paused := true }) hnew
        (x := s.materialize (reads row.id) row) rfl
      simpa [restoreRow, hpaused, handleAll, handleFormationCommand, hspawn] using hdeployed
    · have hruns : row.runs = true := by simp [FormationRow.runs, hpaused]
      rw [if_pos hruns, liveViews_singleton, Multiset.singleton_inj]
      calc LiveFormation.view { s.materialize (reads row.id) row with paused := true }
        _ = { (s.materialize (reads row.id) row).view with paused := true } := rfl
        _ = s.store.view row := by
          rw [hview]
          simp [Store.view, View.active, hpaused]
    · intro f hf
      obtain rfl := List.mem_singleton.mp hf
      exact ⟨⟨hsound.guard, hsound.agents, hsound.capable⟩, rfl⟩
  · by_cases hactive : row.status = statusActive
    · refine ⟨[s.materialize (reads row.id) row], ?_, ?_, ?_⟩
      · have hne : ¬ statusActive = statusPaused := by decide
        simp [restoreRow, hactive, hne, handleAll, handleFormationCommand, hspawn]
      · have hruns : row.runs = true := by simp [FormationRow.runs, hactive]
        rw [if_pos hruns, liveViews_singleton, hview]
        simp [Store.view, View.active, hpaused]
      · intro f hf
        obtain rfl := List.mem_singleton.mp hf
        exact ⟨hsound, rfl⟩
    · refine ⟨[], ?_, ?_, ?_⟩
      · simp [restoreRow, hactive, hpaused, handleAll]
      · simp [FormationRow.runs, hactive, hpaused]
      · intro f hf
        cases hf

/-- Restoring appends the formations of the rows that run. -/
theorem restore_appends {s : RuntimeState rx} (hkept : WellKept s) {reads : Uuid → SpawnReads}
    (hreads : Reads s reads) {rows : List FormationRow}
    (hrows : ∀ row ∈ rows, row ∈ s.store.formations) (hnodup : (rows.map (·.id)).Nodup)
    {live : List LiveFormation} (hnew : ∀ row ∈ rows, row.id ∉ live.map (·.id)) :
    ∃ restored : List LiveFormation,
      handleAll (fun id => s.spawnFormation (reads id) id) live (restoreFormations rows) =
        live ++ restored ∧
      liveViews restored = ((rows : Multiset FormationRow).filter (·.runs)).map s.store.view ∧
      ∀ f ∈ restored, f.Sound := by
  induction rows generalizing live with
  | nil => exact ⟨[], by simp [restoreFormations, handleAll], rfl, nofun⟩
  | cons row rows ih =>
    rw [List.map_cons, List.nodup_cons] at hnodup
    obtain ⟨first, hfirst, hviews, hsound⟩ :=
      restoreRow_appends hkept hreads (hrows row List.mem_cons_self) (hnew row List.mem_cons_self)
    have hnew' : ∀ other ∈ rows, other.id ∉ (live ++ first).map (·.id) := by
      intro other hother hmem
      rw [List.map_append, List.mem_append] at hmem
      rcases hmem with hmem | hmem
      · exact hnew other (List.mem_cons_of_mem row hother) hmem
      · obtain ⟨f, hf, hid⟩ := List.mem_map.mp hmem
        have hsame : other.id = row.id := hid.symm.trans (hsound f hf).2
        exact hnodup.1 (hsame ▸ List.mem_map_of_mem hother)
    obtain ⟨rest, hrest, hviews', hsound'⟩ :=
      ih (fun other hother => hrows other (List.mem_cons_of_mem row hother)) hnodup.2 hnew'
    refine ⟨first ++ rest, ?_, ?_, ?_⟩
    · unfold handleAll at hfirst hrest ⊢
      rw [restoreFormations, List.flatMap_cons, List.foldl_append, hfirst, ← List.append_assoc]
      exact hrest
    · rw [liveViews_append, hviews, hviews', ← Multiset.cons_coe, Multiset.filter_cons,
        Multiset.map_add]
      split <;> rfl
    · intro f hf
      rcases List.mem_append.mp hf with hf | hf
      · exact (hsound f hf).1
      · exact hsound' f hf

/-- A boot brings the store's running formations back, and nothing else. -/
theorem restored_views {s : RuntimeState rx} (hkept : WellKept s) {reads : Uuid → SpawnReads}
    (hreads : Reads s reads) {rows : List FormationRow} (hrows : rows.Perm s.store.formations) :
    liveViews (handleAll (fun id => s.spawnFormation (reads id) id) [] (restoreFormations rows)) =
        s.store.views ∧
      ∀ f ∈ handleAll (fun id => s.spawnFormation (reads id) id) [] (restoreFormations rows),
        f.Sound := by
  have hnew : ∀ row ∈ rows, row.id ∉ ([] : List LiveFormation).map (·.id) :=
    fun _ _ => List.not_mem_nil
  obtain ⟨restored, heq, hviews, hsound⟩ := restore_appends hkept hreads
    (fun row hrow => hrows.mem_iff.mp hrow) ((hrows.map _).nodup_iff.mpr hkept.rows) hnew
  rw [heq, List.nil_append, hviews, Multiset.coe_eq_coe.mpr hrows]
  exact ⟨rfl, hsound⟩

end Restore

end Springtale.Formation
