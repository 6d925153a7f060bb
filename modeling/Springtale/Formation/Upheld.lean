import Springtale.Formation.Calls

/-! What every call upholds, whatever it does to the live set: the store's constraints, and members
of live formations that are told apart by their ids. -/
namespace Springtale.Formation

open Springtale.Core Springtale.Lib

variable {rx : RegexCrate}

structure System.Kept (s : System rx) : Prop where
  store : WellKept s.runtime
  live : ∀ f ∈ s.live, f.Sound

section Store

variable {s t : RuntimeState rx} {formations : List FormationRow}
  {members : List FormationMemberRow}

theorem WellKept.of_writes (hkept : WellKept s) (hw : Writes s formations members [] t)
    (hrows : (formations.map (·.id)).Nodup) (hids : (members.map (·.id)).Nodup)
    (hconnectors : (members.map fun row => (row.formationId, row.connectorName)).Nodup)
    (hreferences : ∀ row ∈ members, row.formationId ∈ formations.map (·.id)) :
    WellKept t := by
  refine ⟨?_, ?_, ?_, ?_, ?_, ?_⟩
  · simpa only [hw.formations] using hrows
  · simpa only [hw.members] using hids
  · simpa only [hw.members] using hconnectors
  · simpa only [hw.formations, hw.members] using hreferences
  · intro id
    simpa only [hw.guard] using hkept.guard id
  · rw [hw.channel, hkept.drained, List.append_nil]

theorem rewritten_ids {id : Uuid} {f : FormationRow → FormationRow}
    (hf : ∀ row, (f row).id = row.id) :
    (rewritten id f s).map (·.id) = s.store.formations.map (·.id) := by
  rw [rewritten, List.map_map]
  apply List.map_congr_left
  intro row _
  by_cases hid : row.id = id
  · rw [Function.comp_apply, adjust_of_eq hid, hf]
  · rw [Function.comp_apply, adjust_of_ne hid]

theorem WellKept.rewrite (hkept : WellKept s) {id : Uuid} {f : FormationRow → FormationRow}
    (hw : Writes s (rewritten id f s) s.store.members [] t) (hf : ∀ row, (f row).id = row.id) :
    WellKept t := by
  refine hkept.of_writes hw ?_ hkept.memberIds hkept.connectors ?_
  · rw [rewritten_ids hf]
    exact hkept.rows
  · rw [rewritten_ids hf]
    exact hkept.references

/-- A dissolved formation takes its member rows along. -/
theorem WellKept.dissolve (hkept : WellKept s) {id : Uuid}
    (hw : Writes s (s.store.formations.filter (·.id ≠ id))
      (s.store.members.filter (·.formationId ≠ id)) [] t) :
    WellKept t := by
  refine hkept.of_writes hw ?_ ?_ ?_ ?_
  · exact hkept.rows.sublist (List.filter_sublist.map _)
  · exact hkept.memberIds.sublist (List.filter_sublist.map _)
  · exact hkept.connectors.sublist (List.filter_sublist.map _)
  · intro row hrow
    obtain ⟨hmem, hother⟩ := List.mem_filter.mp hrow
    obtain ⟨formation, hformation, hid⟩ := List.mem_map.mp (hkept.references row hmem)
    refine List.mem_map.mpr ⟨formation, List.mem_filter.mpr ⟨hformation, ?_⟩, hid⟩
    rw [hid]
    exact hother

theorem WellKept.removeMember (hkept : WellKept s) (p : FormationMemberRow → Bool)
    (hw : Writes s s.store.formations (s.store.members.filter p) [] t) :
    WellKept t := by
  refine hkept.of_writes hw hkept.rows ?_ ?_ ?_
  · exact hkept.memberIds.sublist (List.filter_sublist.map _)
  · exact hkept.connectors.sublist (List.filter_sublist.map _)
  · exact fun row hrow => hkept.references row (List.mem_of_mem_filter hrow)

theorem WellKept.addMember (hkept : WellKept s) {row : FormationMemberRow}
    (hformation : row.formationId ∈ s.store.formations.map (·.id))
    (hid : row.id ∉ s.store.members.map (·.id))
    (hnew : ∀ other ∈ s.store.members,
      ¬ (other.formationId = row.formationId ∧ other.connectorName = row.connectorName))
    (hw : Writes s s.store.formations (s.store.members ++ [row]) [] t) :
    WellKept t := by
  refine hkept.of_writes hw hkept.rows (nodup_snoc hkept.memberIds hid)
    (nodup_snoc hkept.connectors ?_) ?_
  · intro hmem
    obtain ⟨other, hother, heq⟩ := List.mem_map.mp hmem
    exact hnew other hother ⟨(Prod.mk.inj heq).1, (Prod.mk.inj heq).2⟩
  · intro other hother
    rcases List.mem_append.mp hother with hother | hother
    · exact hkept.references other hother
    · exact List.mem_singleton.mp hother ▸ hformation

/-- The member rows of a new formation. -/
theorem createdMembers (ids : Nat → Uuid) (id : Uuid) (connectors : List String) :
    let created := connectors.mapIdx fun n connector => (⟨ids n, id, connector⟩ : FormationMemberRow)
    created.map (·.id) = (List.range connectors.length).map ids ∧
      created.map (·.connectorName) = connectors ∧ ∀ row ∈ created, row.formationId = id := by
  refine ⟨?_, ?_, ?_⟩
  · apply List.ext_getElem
    · simp
    · intro n hn hn'
      simp
  · apply List.ext_getElem
    · simp
    · intro n hn hn'
      simp
  · intro row hrow
    obtain ⟨n, hn, rfl⟩ := List.mem_mapIdx.mp hrow
    rfl

theorem WellKept.create (hkept : WellKept s) {fresh : Fresh} {name intent : String}
    {connectors : List String}
    (hid : fresh.formationId ∉ s.store.formations.map (·.id)) (hconnectors : connectors.Nodup)
    (hids : ((List.range connectors.length).map fresh.memberIds).Nodup)
    (hnew : ∀ id ∈ (List.range connectors.length).map fresh.memberIds,
      id ∉ s.store.members.map (·.id)) :
    WellKept (s.createFormation fresh name intent connectors) := by
  obtain ⟨hcreatedIds, hcreatedNames, hcreatedOf⟩ :=
    createdMembers fresh.memberIds fresh.formationId connectors
  refine hkept.of_writes (s.createFormation_writes fresh name intent connectors)
    (nodup_snoc hkept.rows hid) ?_ ?_ ?_
  · rw [List.map_append, hcreatedIds]
    refine List.nodup_append.mpr ⟨hkept.memberIds, hids, ?_⟩
    rintro a ha b hb rfl
    exact hnew a hb ha
  · rw [List.map_append]
    refine List.nodup_append.mpr ⟨hkept.connectors, ?_, ?_⟩
    · have hpairs : (connectors.mapIdx fun n connector =>
          (⟨fresh.memberIds n, fresh.formationId, connector⟩ : FormationMemberRow)).map
            (fun row => (row.formationId, row.connectorName)) =
          connectors.map fun connector => (fresh.formationId, connector) := by
        conv_rhs => rw [← hcreatedNames]
        rw [List.map_map]
        apply List.map_congr_left
        intro row hrow
        rw [Function.comp_apply, hcreatedOf row hrow]
      rw [hpairs]
      exact hconnectors.map fun a b hab => (Prod.mk.inj hab).2
    · rintro a ha b hb rfl
      obtain ⟨row, hrow, rfl⟩ := List.mem_map.mp ha
      obtain ⟨other, hother, heq⟩ := List.mem_map.mp hb
      have hformation := (Prod.mk.inj heq).1
      rw [hcreatedOf other hother] at hformation
      exact hid (hformation ▸ hkept.references row hrow)
  · intro row hrow
    rw [List.map_append, List.mem_append]
    rcases List.mem_append.mp hrow with hrow | hrow
    · exact .inl (hkept.references row hrow)
    · refine .inr ?_
      rw [hcreatedOf row hrow]
      exact List.mem_singleton.mpr rfl

end Store

section Live

variable {id : Uuid} {live : List LiveFormation} {x : LiveFormation}

theorem forall_onFirst {P : LiveFormation → Prop} {f : LiveFormation → LiveFormation}
    (h : ∀ x ∈ live, P x) (hf : ∀ x ∈ live, x.id = id → P (f x)) :
    ∀ x ∈ onFirst id f live, P x := by
  induction live with
  | nil => exact h
  | cons y ys ih =>
    have hrest := ih (fun x hx => h x (List.mem_cons_of_mem y hx))
      (fun x hx => hf x (List.mem_cons_of_mem y hx))
    intro x hx
    by_cases hy : y.id = id
    · rw [onFirst, if_pos hy, List.mem_cons] at hx
      rcases hx with rfl | hx
      · exact hf y List.mem_cons_self hy
      · exact h x (List.mem_cons_of_mem y hx)
    · rw [onFirst, if_neg hy, List.mem_cons] at hx
      rcases hx with rfl | hx
      · exact h x List.mem_cons_self
      · exact hrest x hx

namespace LiveFormation.Sound

theorem guarded_eq (h : x.Sound) (f : LiveFormation → LiveFormation) : guarded f x = f x := by
  rw [guarded, h.guard]
  rfl

/-- What a command leaves alone of guard and members. -/
theorem congr {y : LiveFormation} (h : x.Sound) (hguard : y.guardMode = x.guardMode)
    (hmembers : y.members = x.members) : y.Sound := by
  refine ⟨hguard.trans h.guard, ?_, ?_⟩
  · rw [hmembers]
    exact h.agents
  · rw [hmembers]
    exact h.capable

theorem join (h : x.Sound) {agentId : Uuid} (hnew : agentId ∉ x.members.map (·.agentId))
    (connectorName : String) : (Formation.join ⟨agentId, [connectorName], true⟩ x).Sound := by
  refine ⟨h.guard, nodup_snoc h.agents hnew, ?_⟩
  intro m hm
  rcases List.mem_append.mp hm with hm | hm
  · exact h.capable m hm
  · rw [List.mem_singleton.mp hm]
    exact List.cons_ne_nil _ _

theorem leave (h : x.Sound) (agentId : Uuid) : (Formation.leave agentId x).Sound :=
  ⟨h.guard, h.agents.sublist (List.filter_sublist.map _),
    fun m hm => h.capable m (List.mem_of_mem_filter hm)⟩

theorem removeFirstWith (h : x.Sound) (connectorName : String) :
    (Formation.removeFirstWith connectorName x).Sound := by
  unfold Formation.removeFirstWith
  split
  · exact h.leave _
  · exact h

end LiveFormation.Sound

/-- Without a guard, a dissolve drops every copy. -/
theorem dissolve_eq_filter (h : ∀ x ∈ live, x.Sound) :
    dissolve id live = live.filter (·.id ≠ id) := by
  unfold dissolve
  split
  · rename_i f hfind
    rw [(h f (List.mem_of_find?_eq_some hfind)).guard]
    rfl
  · rfl

end Live

end Springtale.Formation
