import Springtale.Formation.Mirror

/-! Members, and formations that come and go: which of these calls keep live set and store in
step. -/
namespace Springtale.Formation

open Springtale.Core Springtale.Lib

variable {rx : RegexCrate}

section Connectors

variable {store store' : Store} {id : Uuid} {connector : String}

/-- No connector is a member of one formation twice. -/
theorem connectors_nodup {r : RuntimeState rx} (hkept : WellKept r) (id : Uuid) :
    (r.store.connectors id).Nodup := by
  rw [Store.connectors, Multiset.map_coe, Multiset.coe_nodup]
  have hrows : r.store.members.Nodup := List.Nodup.of_map _ hkept.memberIds
  refine List.Nodup.map_on ?_ (hrows.filter _)
  intro a ha b hb heq
  obtain ⟨ha, haid⟩ := List.mem_filter.mp ha
  obtain ⟨hb, hbid⟩ := List.mem_filter.mp hb
  refine List.inj_on_of_nodup_map hkept.connectors ha hb (Prod.ext ?_ heq)
  exact (of_decide_eq_true haid).trans (of_decide_eq_true hbid).symm

theorem connectors_joined {row : FormationMemberRow}
    (h : store'.members = store.members ++ [row]) (other : Uuid) :
    store'.connectors other =
      store.connectors other + if row.formationId = other then {row.connectorName} else 0 := by
  rw [Store.connectors, h, List.filter_append, ← Multiset.coe_add, Multiset.map_add]
  by_cases hid : row.formationId = other
  · rw [if_pos hid, List.filter_cons_of_pos (by simpa using hid)]
    rfl
  · rw [if_neg hid, List.filter_cons_of_neg (by simpa using hid)]
    rfl

theorem connectors_left
    (h : store'.members = store.members.filter fun row =>
      ¬ (row.formationId = id ∧ row.connectorName = connector)) (other : Uuid) :
    store'.connectors other =
      if other = id then (store.connectors other).filter (· ≠ connector)
      else store.connectors other := by
  rw [Store.connectors, h, List.filter_filter]
  split
  · rename_i hid
    rw [Store.connectors, Multiset.filter_map, Multiset.filter_coe, List.filter_filter]
    congr 2
    apply List.filter_congr
    intro row _
    by_cases hrow : row.formationId = id <;> simp [hid, hrow]
  · rename_i hid
    rw [Store.connectors]
    congr 2
    apply List.filter_congr
    intro row _
    by_cases hrow : row.formationId = other <;> simp [hid, hrow]

/-- A member that leaves takes its connector along. -/
theorem connectorsOf_leave {f : LiveFormation} (h : f.Sound) {m : LiveMember}
    (hm : m ∈ f.members) :
    connectorsOf (leave m.agentId f).members = (connectorsOf f.members).erase m.connector := by
  obtain ⟨rest, hsplit, hother⟩ := exists_rest h.agents hm
  have hkeep : rest.filter (fun other => other.agentId ≠ m.agentId) = rest :=
    Multiset.filter_eq_self.mpr hother
  rw [connectorsOf, connectorsOf, leave, ← Multiset.filter_coe, hsplit,
    Multiset.filter_cons_of_neg (s := rest) (by simp), hkeep, Multiset.map_cons,
    Multiset.erase_cons_head]

end Connectors

namespace System

variable {s t : System rx}

/-- A new member, in store and formation. -/
theorem Mirrored.joined (h : s.Mirrored) (hkept : s.Kept) {id memberId agentId : Uuid}
    {connectorName : String}
    (hstore : Writes s.runtime s.runtime.store.formations
      (s.runtime.store.members ++ [⟨memberId, id, connectorName⟩]) [] t.runtime)
    (hlive : t.live = onFirst id (join ⟨agentId, [connectorName], true⟩) s.live) :
    t.Mirrored := by
  have hviews : liveViews t.live = (liveViews s.live).map
      (Lib.adjust (·.id) id fun v => { v with connectors := v.connectors + {connectorName} }) := by
    rw [hlive]
    apply liveViews_onFirst (h.liveNodup hkept)
    intro f _ _
    simp [LiveFormation.view, join, connectorsOf, LiveMember.connector, ← Multiset.coe_add]
  refine h.adjust hviews (views_map hstore.formations ?_)
  intro row _
  by_cases hid : row.id = id
  · rw [adjust_view_of_eq hid, Store.view, connectors_joined hstore.members, if_pos hid.symm]
    rfl
  · rw [adjust_view_of_ne hid, Store.view, connectors_joined hstore.members, if_neg (Ne.symm hid),
      Multiset.add_zero]
    rfl

/-- A formation that goes, with its member rows. -/
theorem Mirrored.dissolved (h : s.Mirrored) (hkept : s.Kept) {id : Uuid}
    (hstore : Writes s.runtime (s.runtime.store.formations.filter (·.id ≠ id))
      (s.runtime.store.members.filter (·.formationId ≠ id)) [] t.runtime)
    (hlive : t.live = dissolve id s.live) : t.Mirrored := by
  have hconnectors : ∀ other, other ≠ id →
      t.runtime.store.connectors other = s.runtime.store.connectors other := by
    intro other hother
    rw [Store.connectors, Store.connectors, hstore.members, List.filter_filter]
    congr 2
    apply List.filter_congr
    intro row _
    by_cases hrow : row.formationId = other <;> simp [hrow, hother]
  rw [Mirrored, hlive, dissolve_eq_filter hkept.live, liveViews_filter, h, Store.views, Store.views,
    Multiset.filter_map, hstore.formations, ← Multiset.filter_coe, Multiset.filter_filter,
    Multiset.filter_filter]
  have hrows : ∀ row ∈ (s.runtime.store.formations : Multiset FormationRow),
      (((fun v : View => v.id ≠ id) ∘ s.runtime.store.view) row ∧ row.runs = true ↔
        row.runs = true ∧ row.id ≠ id) := by
    intro row _
    exact and_comm
  rw [Multiset.filter_congr hrows]
  apply Multiset.map_congr rfl
  intro row hrow
  have hother := (Multiset.mem_filter.mp hrow).2.2
  exact (view_eq (hconnectors row.id hother)).symm

/-- A draft does not run. -/
theorem Mirrored.created (h : s.Mirrored) {fresh : Fresh} {name intent : String}
    {connectors : List String}
    (hid : fresh.formationId ∉ s.runtime.store.formations.map (·.id))
    (hstore : t.runtime = s.runtime.createFormation fresh name intent connectors)
    (hlive : t.live = s.live) : t.Mirrored := by
  have hcreated := (createdMembers fresh.memberIds fresh.formationId connectors).2.2
  have hw := s.runtime.createFormation_writes fresh name intent connectors
  have hview : ∀ row ∈ s.runtime.store.formations,
      t.runtime.store.view row = s.runtime.store.view row := by
    intro row hrow
    apply view_eq
    have hne : fresh.formationId ≠ row.id := by
      intro heq
      exact hid (heq ▸ List.mem_map_of_mem hrow)
    have hnone : (connectors.mapIdx fun n connector =>
        (⟨fresh.memberIds n, fresh.formationId, connector⟩ : FormationMemberRow)).filter
          (·.formationId = row.id) = [] := by
      apply List.filter_eq_nil_iff.mpr
      intro other hother
      rw [hcreated other hother]
      simpa using hne
    rw [Store.connectors, Store.connectors, hstore, hw.members, List.filter_append, hnone,
      List.append_nil]
  have hdraft : FormationRow.runs
      ⟨fresh.formationId, name, intent, "draft", fresh.now, fresh.now⟩ = false := by
    rw [FormationRow.runs]
    rfl
  have hrows : (t.runtime.store.formations : Multiset FormationRow).filter (·.runs) =
      (s.runtime.store.formations : Multiset FormationRow).filter (·.runs) := by
    rw [hstore, hw.formations, Multiset.filter_coe, List.filter_append]
    simp [hdraft]
  rw [Mirrored, hlive, h, Store.views, Store.views, hrows]
  apply Multiset.map_congr rfl
  intro row hrow
  exact (hview row (Multiset.mem_coe.mp (Multiset.mem_of_mem_filter hrow))).symm

/-- The store's side of a removal. -/
theorem removed_views {id : Uuid} {connectorName : String}
    (hstore : Writes s.runtime s.runtime.store.formations
      (s.runtime.store.members.filter fun row =>
        ¬ (row.formationId = id ∧ row.connectorName = connectorName)) [] t.runtime) :
    t.runtime.store.views = s.runtime.store.views.map (Lib.adjust (·.id) id fun v =>
      { v with connectors := v.connectors.filter (· ≠ connectorName) }) := by
  apply views_map hstore.formations
  intro row _
  by_cases hid : row.id = id
  · rw [adjust_view_of_eq hid, Store.view, connectors_left hstore.members, if_pos hid]
    rfl
  · rw [adjust_view_of_ne hid, Store.view, connectors_left hstore.members, if_neg hid]
    rfl

theorem connectorsOf_removeFirstWith {f : LiveFormation} (hsound : f.Sound)
    (hnodup : (connectorsOf f.members).Nodup) {connectorName : String} :
    connectorsOf (removeFirstWith connectorName f).members =
        (connectorsOf f.members).filter (· ≠ connectorName) ↔
      namesFirst connectorName f = true := by
  unfold removeFirstWith namesFirst
  split
  · rename_i m hfind
    have hm := List.mem_of_find?_eq_some hfind
    rw [connectorsOf_leave hsound hm, hnodup.erase_eq_filter]
    by_cases hconnector : m.connector = connectorName
    · simp [hfind, hconnector]
    · refine iff_of_false ?_ (by simpa [hfind] using hconnector)
      intro heq
      have hmem : m.connector ∈ (connectorsOf f.members).filter (· ≠ connectorName) :=
        Multiset.mem_filter.mpr ⟨Multiset.mem_map_of_mem _ (Multiset.mem_coe.mpr hm), hconnector⟩
      rw [← heq, Multiset.mem_filter] at hmem
      exact hmem.2 rfl
  · rename_i hnone
    refine iff_of_true ?_ (by simp [hnone])
    symm
    apply Multiset.filter_eq_self.mpr
    intro connector hconnector
    obtain ⟨m, hm, rfl⟩ := Multiset.mem_map.mp hconnector
    rintro rfl
    have hcapable : m.connector ∈ m.capabilities := by
      cases hcaps : m.capabilities with
      | nil => exact absurd hcaps (hsound.capable m hm)
      | cons c cs => simp [LiveMember.connector, hcaps]
    have hlacks := List.find?_eq_none.mp hnone m hm
    exact hlacks (by simpa using hcapable)

/-- A removal is of the member that the store's row names. -/
theorem Mirrored.removed_iff (h : s.Mirrored) (hkept : s.Kept) {id : Uuid} {connectorName : String}
    (hstore : Writes s.runtime s.runtime.store.formations
      (s.runtime.store.members.filter fun row =>
        ¬ (row.formationId = id ∧ row.connectorName = connectorName)) [] t.runtime)
    (hlive : t.live = onFirst id (guarded (removeFirstWith connectorName)) s.live) :
    t.Mirrored ↔ ∀ f ∈ s.live, f.id = id → namesFirst connectorName f = true := by
  have hnodup : ∀ f ∈ s.live, (connectorsOf f.members).Nodup := by
    intro f hf
    obtain ⟨row, -, -, hview⟩ := h.row_of_live hf
    have hconnectors : s.runtime.store.connectors row.id = connectorsOf f.members :=
      congrArg View.connectors hview
    rw [← hconnectors]
    exact connectors_nodup hkept.store row.id
  have hkeepsId : ∀ f ∈ s.live, f.id = id →
      (guarded (removeFirstWith connectorName) f).view =
        { f.view with connectors := connectorsOf (removeFirstWith connectorName f).members } := by
    intro f hf _
    rw [(hkept.live f hf).guarded_eq]
    unfold removeFirstWith
    split <;> rfl
  constructor
  · intro h' f hf hid
    apply (connectorsOf_removeFirstWith (hkept.live f hf) (hnodup f hf)).mp
    obtain ⟨row, hrow, -, hview⟩ := h.row_of_live hf
    have hrowId : row.id = id := (congrArg View.id hview).trans hid
    have hf' : guarded (removeFirstWith connectorName) f ∈ t.live := by
      rw [hlive, onFirst_eq_map (h.liveNodup hkept)]
      exact List.mem_map.mpr ⟨f, hf, adjust_of_eq hid⟩
    obtain ⟨row', hrow', -, hview'⟩ := h'.row_of_live hf'
    rw [hkeepsId f hf hid] at hview'
    have hrowId' : row'.id = row.id :=
      (congrArg View.id hview').trans (congrArg View.id hview).symm
    have hconnectors : s.runtime.store.connectors row.id = connectorsOf f.members :=
      congrArg View.connectors hview
    have hconnectors' : t.runtime.store.connectors row'.id =
        connectorsOf (removeFirstWith connectorName f).members := congrArg View.connectors hview'
    rw [← hconnectors', connectors_left hstore.members, hrowId', if_pos hrowId, hconnectors]
  · intro hnames
    refine h.adjust ?_ (removed_views hstore)
    rw [hlive]
    apply liveViews_onFirst (h.liveNodup hkept)
    intro f hf hid
    rw [hkeepsId f hf hid,
      (connectorsOf_removeFirstWith (hkept.live f hf) (hnodup f hf)).mpr (hnames f hf hid)]
    rfl

end System

end Springtale.Formation
