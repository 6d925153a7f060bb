import Springtale.Lib.Transition
import Springtale.Formation.Effects

/-! Live formations against the store's rows: which calls keep the two in step. -/
namespace Springtale.Formation

open Springtale.Core Springtale.Lib

variable {rx : RegexCrate}

/-- Live set and store show the same running formations. -/
def System.Mirrored (s : System rx) : Prop := liveViews s.live = s.runtime.store.views

section Views

variable {store store' : Store}

/-- What a row shows depends on its member rows only. -/
theorem view_eq {row : FormationRow} (h : store'.connectors row.id = store.connectors row.id) :
    store'.view row = store.view row := by
  rw [Store.view, Store.view, h]

theorem view_congr (h : store'.members = store.members) : store'.view = store.view := by
  funext row
  apply view_eq
  rw [Store.connectors, Store.connectors, h]

theorem adjust_view_of_eq {id : Uuid} {F : View → View} {row : FormationRow} (h : row.id = id) :
    adjust (·.id) id F (store.view row) = F (store.view row) := adjust_of_eq h

theorem adjust_view_of_ne {id : Uuid} {F : View → View} {row : FormationRow} (h : row.id ≠ id) :
    adjust (·.id) id F (store.view row) = store.view row := adjust_of_ne h

theorem views_map {id : Uuid} {F : View → View} (hformations : store'.formations = store.formations)
    (hview : ∀ row ∈ store.formations, store'.view row = adjust (·.id) id F (store.view row)) :
    store'.views = store.views.map (adjust (·.id) id F) := by
  rw [Store.views, Store.views, hformations, Multiset.map_map]
  apply Multiset.map_congr rfl
  intro row hrow
  exact hview row (Multiset.mem_coe.mp (Multiset.mem_of_mem_filter hrow))

end Views

section Rewriting

variable {s t : RuntimeState rx} {id : Uuid} {f : FormationRow → FormationRow} {F : View → View}

theorem rewritten_of_absent (hid : s.formationRow? id = none) :
    rewritten id f s = s.store.formations := by
  rw [rewritten]
  conv_rhs => rw [← List.map_id s.store.formations]
  apply List.map_congr_left
  intro row hrow
  apply adjust_of_ne
  simpa using List.find?_eq_none.mp hid row hrow

/-- A rewritten row shows the change, when it runs before and after, or not at all. -/
theorem views_rewritten (hw : Writes s (rewritten id f s) s.store.members [] t)
    (hruns : ∀ row ∈ s.store.formations, row.id = id → (f row).runs = row.runs)
    (hview : ∀ row ∈ s.store.formations, row.id = id →
      s.store.view (f row) = F (s.store.view row)) :
    t.store.views = s.store.views.map (adjust (·.id) id F) := by
  have hsame : t.store.view = s.store.view := view_congr hw.members
  have hruns' : ∀ row ∈ (s.store.formations : Multiset FormationRow), row.id = id →
      ((f row).runs = true ↔ row.runs = true) := by
    intro row hrow hid
    rw [hruns row hrow hid]
  have hview' : ∀ row ∈ (s.store.formations : Multiset FormationRow).filter (·.runs), row.id = id →
      s.store.view (f row) = F (s.store.view row) := by
    intro row hrow hid
    exact hview row (Multiset.mem_coe.mp (Multiset.mem_of_mem_filter hrow)) hid
  rw [Store.views, hsame, hw.formations, rewritten, ← Multiset.map_coe, filter_map_adjust hruns']
  exact map_adjust_view (fun _ => rfl) hview'

end Rewriting

namespace System

variable {s t : System rx}

theorem Mirrored.liveNodup (h : s.Mirrored) (hkept : s.Kept) : (s.live.map (·.id)).Nodup := by
  have hrows : ((s.runtime.store.formations : Multiset FormationRow).map (·.id)).Nodup := by
    rw [Multiset.map_coe]
    exact Multiset.coe_nodup.mpr hkept.store.rows
  have hviews : (s.runtime.store.views.map (·.id)).Nodup := by
    rw [Store.views, Multiset.map_map]
    exact Multiset.nodup_of_le (Multiset.map_le_map (Multiset.filter_le _ _)) hrows
  rw [← h, liveViews_ids] at hviews
  exact Multiset.coe_nodup.mp hviews

/-- A live formation shows what its row does. -/
theorem Mirrored.row_of_live (h : s.Mirrored) {f : LiveFormation} (hf : f ∈ s.live) :
    ∃ row ∈ s.runtime.store.formations, row.runs = true ∧ s.runtime.store.view row = f.view := by
  have hmem : f.view ∈ s.runtime.store.views := by
    rw [← h]
    exact mem_liveViews.mpr ⟨f, hf, rfl⟩
  exact mem_views.mp hmem

theorem Mirrored.live_of_row (h : s.Mirrored) {row : FormationRow}
    (hrow : row ∈ s.runtime.store.formations) (hruns : row.runs = true) :
    ∃ f ∈ s.live, f.view = s.runtime.store.view row := by
  have hmem : s.runtime.store.view row ∈ s.runtime.store.views :=
    mem_views.mpr ⟨row, hrow, hruns, rfl⟩
  rw [← h] at hmem
  exact mem_liveViews.mp hmem

/-- The same change on both sides. -/
theorem Mirrored.adjust (h : s.Mirrored) {id : Uuid} {F : View → View}
    (hlive : liveViews t.live = (liveViews s.live).map (Lib.adjust (·.id) id F))
    (hstore : t.runtime.store.views = s.runtime.store.views.map (Lib.adjust (·.id) id F)) :
    t.Mirrored := by
  rw [Mirrored, hlive, hstore, h]

/-- A row that comes to run without a live formation. -/
theorem Mirrored.not_of_started (h : s.Mirrored) (hkept : s.Kept) {row row' : FormationRow}
    (hrow : row ∈ s.runtime.store.formations) (hruns : row.runs = false)
    (hrow' : row' ∈ t.runtime.store.formations) (hid : row'.id = row.id) (hruns' : row'.runs = true)
    (hlive : t.live.map (·.id) = s.live.map (·.id)) : ¬ t.Mirrored := by
  intro h'
  obtain ⟨f, hf, hview⟩ := h'.live_of_row hrow' hruns'
  have hfid : f.id = row.id := (congrArg View.id hview).trans hid
  have hmem : row.id ∈ s.live.map (·.id) := by
    rw [← hlive, ← hfid]
    exact List.mem_map_of_mem hf
  obtain ⟨g, hg, hgid⟩ := List.mem_map.mp hmem
  obtain ⟨other, hother, hotherRuns, hshows⟩ := h.row_of_live hg
  have hotherId : other.id = row.id := (congrArg View.id hshows).trans hgid
  obtain rfl := List.inj_on_of_nodup_map hkept.store.rows hother hrow hotherId
  rw [hruns] at hotherRuns
  cases hotherRuns

section Rows

variable {r : RuntimeState rx} {id : Uuid}

theorem row_unique (hkept : WellKept r) {row : FormationRow} (hrow : r.formationRow? id = some row) :
    ∀ other ∈ r.store.formations, other.id = id → other = row := by
  obtain ⟨hmem, hid⟩ := RuntimeState.mem_of_formationRow? hrow
  intro other hother hotherId
  exact List.inj_on_of_nodup_map hkept.rows hother hmem (hotherId.trans hid.symm)

/-- A condition on the row of an id, for all rows of that id. -/
theorem rows_of_all (hkept : WellKept r) {p : FormationRow → Bool}
    (hall : (r.formationRow? id).all p = true) :
    ∀ row ∈ r.store.formations, row.id = id → p row = true := by
  intro row hrow hid
  have hfind := RuntimeState.formationRow?_of_mem hkept hrow
  rw [hid] at hfind
  rw [hfind, Option.all_some] at hall
  exact hall

theorem mem_rewritten {f : FormationRow → FormationRow} {row : FormationRow}
    (hrow : row ∈ r.store.formations) (hid : row.id = id) : f row ∈ rewritten id f r :=
  List.mem_map.mpr ⟨row, hrow, adjust_of_eq hid⟩

theorem onFirst_ids {g : LiveFormation → LiveFormation} (hg : ∀ x, (g x).id = x.id)
    (live : List LiveFormation) : (onFirst id g live).map (·.id) = live.map (·.id) := by
  induction live with
  | nil => rfl
  | cons x xs ih =>
    by_cases hx : x.id = id
    · rw [onFirst, if_pos hx, List.map_cons, List.map_cons, hg]
    · rw [onFirst, if_neg hx, List.map_cons, List.map_cons, ih]

end Rows

/-- A pause or a resume is of a row that runs. -/
theorem Mirrored.flagged_iff (h : s.Mirrored) (hkept : s.Kept) {id : Uuid} {status : String}
    {now : Int} {paused : Bool} (hruns : status = statusActive ∨ status = statusPaused)
    (hpaused : decide (status = statusPaused) = paused)
    (hstore : Writes s.runtime
      (rewritten id (fun row => { row with status, updatedAt := now }) s.runtime)
      s.runtime.store.members [] t.runtime)
    (hlive : t.live = onFirst id (fun f => { f with paused }) s.live) :
    t.Mirrored ↔ (s.runtime.formationRow? id).all (·.runs) = true := by
  have hafter : ∀ row : FormationRow,
      FormationRow.runs { row with status, updatedAt := now } = true := by
    intro row
    simpa [FormationRow.runs] using hruns
  by_cases hall : (s.runtime.formationRow? id).all (·.runs) = true
  · have hbefore := rows_of_all hkept.store hall
    have hviews : liveViews t.live =
        (liveViews s.live).map (Lib.adjust (·.id) id fun v => { v with paused }) := by
      rw [hlive]
      exact liveViews_onFirst (h.liveNodup hkept) fun _ _ _ => rfl
    refine iff_of_true (h.adjust hviews (views_rewritten hstore ?_ ?_)) hall
    · intro row hrow hid
      rw [hafter, hbefore row hrow hid]
    · intro row _ _
      simp [Store.view, hpaused]
  · refine iff_of_false ?_ hall
    obtain ⟨row, hrow, hstopped⟩ : ∃ row, s.runtime.formationRow? id = some row ∧
        row.runs = false := by
      cases hrow : s.runtime.formationRow? id with
      | none => simp [hrow] at hall
      | some row => exact ⟨row, rfl, by simpa [hrow] using hall⟩
    obtain ⟨hmem, hid⟩ := RuntimeState.mem_of_formationRow? hrow
    have hstarted : { row with status, updatedAt := now } ∈ t.runtime.store.formations := by
      rw [hstore.formations]
      exact mem_rewritten (f := fun row => { row with status, updatedAt := now }) hmem hid
    refine h.not_of_started hkept hmem hstopped hstarted rfl (hafter row) ?_
    rw [hlive]
    exact onFirst_ids (g := fun f => { f with paused }) (fun _ => rfl) s.live

/-- The row of a deploy before and after. -/
theorem deployed_views (hkept : s.Kept) {id : Uuid} {now : Int} {row : FormationRow}
    (hrow : row ∈ s.runtime.store.formations) (hid : row.id = id)
    (hstore : Writes s.runtime
      (rewritten id (fun row => { row with status := "active", updatedAt := now }) s.runtime)
      s.runtime.store.members [] t.runtime) :
    ∃ rest : Multiset View,
      s.runtime.store.views =
        (if row.runs then {s.runtime.store.view row} else 0) + rest ∧
      t.runtime.store.views = (s.runtime.store.view row).active ::ₘ rest := by
  obtain ⟨rest, hsplit, hother⟩ := exists_rest hkept.store.rows hrow
  refine ⟨(rest.filter (·.runs)).map s.runtime.store.view, ?_, ?_⟩
  · rw [Store.views, hsplit, Multiset.filter_cons, Multiset.map_add]
    split <;> rfl
  · have hsame : t.runtime.store.view = s.runtime.store.view := view_congr hstore.members
    have hrest : rest.map (adjust (·.id) id fun row =>
        { row with status := "active", updatedAt := now }) = rest := by
      apply map_adjust_of_ne
      intro other hmem
      rw [← hid]
      exact hother other hmem
    rw [Store.views, hsame, hstore.formations, rewritten, ← Multiset.map_coe, hsplit,
      Multiset.map_cons, hrest, adjust_of_eq hid, Multiset.filter_cons, Multiset.map_add]
    have hne : ¬ "active" = statusPaused := by decide
    simp [FormationRow.runs, statusActive, Store.view, View.active, hne]

section Deploys

variable {id : Uuid} {reads : SpawnReads} {now : Int}

/-- A deploy of an id without a row does nothing. -/
theorem Mirrored.deployed_absent (h : s.Mirrored) (hrow : s.runtime.formationRow? id = none)
    (hstore : Writes s.runtime
      (rewritten id (fun row => { row with status := "active", updatedAt := now }) s.runtime)
      s.runtime.store.members [] t.runtime)
    (hlive : t.live = s.live ++ (t.runtime.spawnFormation reads id).toList) : t.Mirrored := by
  have hsame := hstore.formations.trans (rewritten_of_absent hrow)
  have habsent : t.runtime.formationRow? id = none := by
    rw [← hrow, RuntimeState.formationRow?, RuntimeState.formationRow?, hsame]
  have hnone : t.runtime.spawnFormation reads id = none := by
    rw [RuntimeState.spawnFormation, habsent]
  have hviews : t.runtime.store.views = s.runtime.store.views := by
    rw [Store.views, Store.views, hsame, view_congr hstore.members]
  rw [Mirrored, hlive, hnone, Option.toList_none, List.append_nil, hviews]
  exact h

/-- What a deployed row comes back as. -/
theorem spawn_view (hkept : s.Kept) (hreads : reads.memberRows.Perm (s.runtime.formationMembers id))
    (hadapter : reads.adapter = true) {row : FormationRow} (hrow : row ∈ s.runtime.store.formations)
    (hid : row.id = id)
    (hstore : Writes s.runtime
      (rewritten id (fun row => { row with status := "active", updatedAt := now }) s.runtime)
      s.runtime.store.members [] t.runtime) :
    ∃ f, t.runtime.spawnFormation reads id = some f ∧
      f.view = (s.runtime.store.view row).active := by
  have hkept' := hkept.store.rewrite hstore fun _ => rfl
  have hrow' : { row with status := "active", updatedAt := now } ∈ t.runtime.store.formations := by
    rw [hstore.formations]
    exact mem_rewritten (f := fun row => { row with status := "active", updatedAt := now }) hrow hid
  have hreads' : reads.memberRows.Perm (t.runtime.formationMembers row.id) := by
    rw [RuntimeState.formationMembers, hstore.members, hid]
    exact hreads
  have hspawn := RuntimeState.spawnFormation_of_mem hkept' hrow' hadapter
  refine ⟨_, by rw [← hid]; exact hspawn, ?_⟩
  rw [RuntimeState.materialize_view { row with status := "active", updatedAt := now } hreads',
    view_congr hstore.members]
  rfl

/-- A row that runs and comes out of a deploy as it was is active. -/
theorem view_active_iff {store : Store} {row : FormationRow} (hruns : row.runs = true) :
    store.view row = (store.view row).active ↔ row.status = statusActive := by
  have hne : ¬ statusActive = statusPaused := by decide
  have hstatus : row.status = statusActive ∨ row.status = statusPaused := by
    simpa [FormationRow.runs] using hruns
  rcases hstatus with hactive | hpaused
  · simp [hactive, Store.view, View.active, hne]
  · simp [hpaused, Store.view, View.active, Ne.symm hne]

/-- A deploy is of a row that does not run, or spawns nothing for one that is active. -/
theorem Mirrored.deployed_iff (h : s.Mirrored) (hkept : s.Kept)
    (hreads : reads.memberRows.Perm (s.runtime.formationMembers id))
    (hstore : Writes s.runtime
      (rewritten id (fun row => { row with status := "active", updatedAt := now }) s.runtime)
      s.runtime.store.members [] t.runtime)
    (hlive : t.live = s.live ++ (t.runtime.spawnFormation reads id).toList) :
    t.Mirrored ↔ ((s.runtime.formationRow? id).all fun row =>
      if reads.adapter then !row.runs else row.status = statusActive) = true := by
  cases hrow : s.runtime.formationRow? id with
  | none => exact iff_of_true (h.deployed_absent hrow hstore hlive) rfl
  | some row =>
    obtain ⟨hmem, hid⟩ := RuntimeState.mem_of_formationRow? hrow
    obtain ⟨rest, hbefore, hafter⟩ := deployed_views hkept hmem hid hstore
    rw [Mirrored, hlive, liveViews_append, h, hbefore, hafter, Option.all_some]
    cases hadapter : reads.adapter with
    | false =>
      have hnone : t.runtime.spawnFormation reads id = none := by
        unfold RuntimeState.spawnFormation
        split
        · rfl
        · simp [hadapter]
      rw [hnone, Option.toList_none, liveViews_nil, Multiset.add_zero]
      by_cases hruns : row.runs = true
      · rw [if_pos hruns, Multiset.singleton_add, Multiset.cons_inj_left, view_active_iff hruns]
        simp
      · have hactive : ¬ row.status = statusActive := by
          intro hactive
          exact hruns (by simp [FormationRow.runs, hactive])
        refine iff_of_false ?_ (by simpa using hactive)
        intro heq
        have hcard := congrArg Multiset.card heq
        simp [hruns] at hcard
    | true =>
      obtain ⟨f, hspawn, hview⟩ := spawn_view hkept hreads hadapter hmem hid hstore
      rw [hspawn, Option.toList_some, liveViews_singleton, hview]
      by_cases hruns : row.runs = true
      · -- the formation runs twice now
        refine iff_of_false ?_ (by simp [hruns])
        intro heq
        have hcard := congrArg Multiset.card heq
        simp [hruns] at hcard
      · refine iff_of_true ?_ (by simpa using hruns)
        rw [if_neg hruns, Multiset.zero_add, ← Multiset.singleton_add, Multiset.add_comm]

end Deploys

/-- A new intent, in row and formation. -/
theorem Mirrored.turned (h : s.Mirrored) (hkept : s.Kept) {id : Uuid} {intent : String} {now : Int}
    (hstore : Writes s.runtime
      (rewritten id (fun row => { row with intent, updatedAt := now }) s.runtime)
      s.runtime.store.members [] t.runtime)
    (hlive : t.live = onFirst id (guarded (applyIntent (parseIntent intent))) s.live) :
    t.Mirrored := by
  have hviews : liveViews t.live = (liveViews s.live).map
      (Lib.adjust (·.id) id fun v => { v with intent := parseIntent intent }) := by
    rw [hlive]
    apply liveViews_onFirst (h.liveNodup hkept)
    intro f hf _
    rw [(hkept.live f hf).guarded_eq]
    rfl
  exact h.adjust hviews (views_rewritten hstore (fun _ _ _ => rfl) fun _ _ _ => rfl)

end System

end Springtale.Formation
