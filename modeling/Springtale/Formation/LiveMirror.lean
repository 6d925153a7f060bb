import Springtale.Lib.Transition
import Springtale.Formation.GuardedRules
import Springtale.Formation.Membership

/-! Live formations mirror the store, from boot on, exactly as long as every call keeps the two in
step. -/
namespace Springtale.Formation

open Springtale.Core Springtale.Lib

variable {rx : RegexCrate}

namespace System

variable {s t : System rx}

/-- What the bot's start makes of the store, whatever the order in which its queries list rows. -/
def RestoresTo (runtime : RuntimeState rx) (live : List LiveFormation) : Prop :=
  ∃ rows : List FormationRow, rows.Perm runtime.store.formations ∧
    ∃ reads : Uuid → SpawnReads, Reads runtime reads ∧
      live = handleAll (fun id => runtime.spawnFormation (reads id) id) [] (restoreFormations rows)

/-- A daemon right after its boot, over a store with every guard off. -/
structure Booted (s : System rx) : Prop where
  store : WellKept s.runtime
  live : RestoresTo s.runtime s.live

/-- Live formations mirror the store. -/
structure Mirrors (s : System rx) : Prop where
  unique : (s.live.map (·.id)).Nodup
  live : ∀ id, (∃ f ∈ s.live, f.id = id) ↔
    ∃ row, s.runtime.formationRow? id = some row ∧
      (row.status = statusActive ∨ row.status = statusPaused)
  paused : ∀ f ∈ s.live, ∀ row, s.runtime.formationRow? f.id = some row →
    (f.paused = true ↔ row.status = statusPaused)
  connectors : ∀ f ∈ s.live, connectorsOf f.members = s.runtime.store.connectors f.id
  intent : ∀ f ∈ s.live, ∀ row, s.runtime.formationRow? f.id = some row →
    f.intent = parseIntent row.intent
  restored : ∀ live, RestoresTo s.runtime live → liveViews live = liveViews s.live

theorem views_of_restoresTo {runtime : RuntimeState rx} (hkept : WellKept runtime)
    {live : List LiveFormation} (h : RestoresTo runtime live) :
    liveViews live = runtime.store.views ∧ ∀ f ∈ live, f.Sound := by
  obtain ⟨rows, hrows, reads, hreads, rfl⟩ := h
  exact restored_views hkept hreads hrows

/-- A restart is always possible. -/
theorem exists_restoresTo (runtime : RuntimeState rx) : ∃ live, RestoresTo runtime live := by
  let reads (id : Uuid) : SpawnReads := ⟨runtime.formationMembers id, none, none, true⟩
  exact ⟨_, runtime.store.formations, List.Perm.refl _, reads,
    ⟨fun _ => List.Perm.refl _, fun _ => rfl⟩, rfl⟩

theorem Booted.kept (h : s.Booted) : s.Kept :=
  ⟨h.store, (views_of_restoresTo h.store h.live).2⟩

theorem Booted.mirrored (h : s.Booted) : s.Mirrored := (views_of_restoresTo h.store h.live).1

/-- The row of a live formation. -/
theorem Mirrored.view_of_row (h : s.Mirrored) (hkept : s.Kept) {f : LiveFormation}
    (hf : f ∈ s.live) {row : FormationRow} (hrow : s.runtime.formationRow? f.id = some row) :
    s.runtime.store.view row = f.view := by
  obtain ⟨other, hother, -, hview⟩ := h.row_of_live hf
  have hid : other.id = f.id := congrArg View.id hview
  rw [← row_unique hkept.store hrow other hother hid]
  exact hview

/-- The formations of store and live set, compared one by one or all at once. -/
theorem mirrors_iff (hkept : s.Kept) : s.Mirrors ↔ s.Mirrored := by
  constructor
  · intro h
    obtain ⟨live, hlive⟩ := exists_restoresTo s.runtime
    rw [Mirrored, ← h.restored live hlive]
    exact (views_of_restoresTo hkept.store hlive).1
  · intro h
    refine ⟨h.liveNodup hkept, ?_, ?_, ?_, ?_, ?_⟩
    · intro id
      constructor
      · rintro ⟨f, hf, rfl⟩
        obtain ⟨row, hrow, hruns, hview⟩ := h.row_of_live hf
        have hid : row.id = f.id := congrArg View.id hview
        refine ⟨row, ?_, by simpa [FormationRow.runs] using hruns⟩
        rw [← hid]
        exact RuntimeState.formationRow?_of_mem hkept.store hrow
      · rintro ⟨row, hrow, hstatus⟩
        obtain ⟨hmem, rfl⟩ := RuntimeState.mem_of_formationRow? hrow
        obtain ⟨f, hf, hview⟩ := h.live_of_row hmem (by simpa [FormationRow.runs] using hstatus)
        exact ⟨f, hf, congrArg View.id hview⟩
    · intro f hf row hrow
      have hpaused : decide (row.status = statusPaused) = f.paused :=
        congrArg View.paused (h.view_of_row hkept hf hrow)
      rw [← hpaused, decide_eq_true_eq]
    · intro f hf
      obtain ⟨row, -, -, hview⟩ := h.row_of_live hf
      have hid : row.id = f.id := congrArg View.id hview
      rw [← hid]
      exact (congrArg View.connectors hview).symm
    · intro f hf row hrow
      exact (congrArg View.intent (h.view_of_row hkept hf hrow)).symm
    · intro live hlive
      rw [(views_of_restoresTo hkept.store hlive).1]
      exact h.symm

/-- A call keeps live set and store in step exactly under its condition. -/
theorem Mirrored.step_iff (h : s.Mirrored) (hkept : s.Kept) {call : Call}
    (hstep : s.step call = some t) : t.Mirrored ↔ s.keeps call = true := by
  obtain ⟨op, fresh⟩ := call
  have haccepts := (step_cases hstep).1
  cases step_effect hkept.store.drained hstep with
  | nothing hkeeps hstore hlive =>
    refine iff_of_true ?_ hkeeps
    have hview : t.runtime.store.view = s.runtime.store.view := view_congr hstore.members
    rw [Mirrored, hlive, h, Store.views, Store.views, hstore.formations, hview]
  | created name intent connectors hstore hlive =>
    simp only [accepts, decide_eq_true_eq] at haccepts
    exact iff_of_true (h.created haccepts.1 hstore hlive) rfl
  | deployed id reads hstore hlive =>
    exact h.deployed_iff hkept (List.isPerm_iff.mp haccepts) hstore hlive
  | paused id hstore hlive =>
    exact h.flagged_iff hkept (.inr rfl) rfl hstore hlive
  | resumed id hstore hlive =>
    exact h.flagged_iff hkept (.inl rfl) (by decide) hstore hlive
  | dissolved id hstore hlive => exact iff_of_true (h.dissolved hkept hstore hlive) rfl
  | joined id connectorName agentId hnew hstore hlive =>
    exact iff_of_true (h.joined hkept hstore hlive) rfl
  | removed id connectorName hstore hlive =>
    rw [h.removed_iff hkept hstore hlive, keeps, List.all_eq_true]
    apply forall_congr'
    intro f
    by_cases hid : f.id = id <;> simp [hid]
  | turned id intent hkeeps hstore hlive => exact iff_of_true (h.turned hkept hstore hlive) hkeeps

theorem kept_of_run {calls : List Call} (hkept : s.Kept) (hrun : runLabels step s calls = some t) :
    t.Kept :=
  (reaches_of_runLabels hrun).invariant Kept (fun _ _ _ hstep h => step_kept h hstep) hkept

/-- Every call of a run that its store accepts keeps live set and store in step. -/
def KeepsAll (start : System rx) (calls : List Call) : Prop :=
  EachCall (fun pre call =>
    ((runLabels step start pre).all fun s => (s.step call).isNone || s.keeps call) = true) calls

instance (start : System rx) (calls : List Call) : Decidable (KeepsAll start calls) :=
  inferInstanceAs (Decidable (EachCall _ calls))

/-- From any boot, live formations mirror the store throughout a run exactly when each of its calls
keeps the two in step. -/
theorem mirrors_throughout_iff {start : System rx} (hboot : start.Booted) (calls : List Call) :
    Throughout (fun pre => ∀ s, runLabels step start pre = some s → s.Mirrors) calls ↔
      KeepsAll start calls := by
  have hinvariant : Throughout (fun pre => ∀ s, runLabels step start pre = some s →
      s.Kept ∧ s.Mirrors) calls ↔ KeepsAll start calls := by
    apply throughout_runs_iff
    · exact ⟨hboot.kept, (mirrors_iff hboot.kept).mpr hboot.mirrored⟩
    · rintro s call t ⟨hkept, h⟩ hstep
      have hkept' := step_kept hkept hstep
      have hexact := ((mirrors_iff hkept).mp h).step_iff hkept hstep
      rw [← hexact, ← mirrors_iff hkept']
      exact ⟨fun h' => h'.2, fun h' => ⟨hkept', h'⟩⟩
  rw [← hinvariant]
  constructor
  · intro h pre hpre s hs
    exact ⟨kept_of_run hboot.kept hs, h pre hpre s hs⟩
  · intro h pre hpre s hs
    exact (h pre hpre s hs).2

section Samples

def newSystem : System literalRegex := ⟨freshInstall, []⟩

theorem newSystem_booted : newSystem.Booted where
  store := by constructor <;> simp [newSystem, freshInstall]
  live := by
    refine ⟨[], List.Perm.refl _, fun _ => ⟨[], none, none, true⟩, ⟨?_, fun _ => rfl⟩, rfl⟩
    exact fun _ => List.Perm.refl _

/-- A formation with the shell connector, and its deploy. -/
def deployed : List Call :=
  [⟨.create "ops" "Execute" ["connector-shell"], pushFresh⟩,
    ⟨.deploy 9 ⟨[⟨0, 9, "connector-shell"⟩], none, none, true⟩, pushFresh⟩]

/-- A second deploy leaves two live formations of one id, a paused draft none, and the name of an
action takes the member out that offers it. -/
theorem live_diverges : newSystem.Booted ∧
    (∃ s, runLabels step newSystem (deployed ++ deployed.drop 1) = some s ∧ ¬ s.Mirrors) ∧
    (∃ s, runLabels step newSystem (deployed.take 1 ++ [⟨.pause 9, pushFresh⟩]) = some s ∧
      ¬ s.Mirrors) ∧
    ∃ s, runLabels step newSystem (deployed ++ [⟨.removeMember 9 "exec", pushFresh⟩]) = some s ∧
      ¬ s.Mirrors := by
  refine ⟨newSystem_booted, ?_, ?_, ?_⟩
  · obtain ⟨s, hrun, hlive⟩ : ∃ s,
        runLabels step newSystem (deployed ++ deployed.drop 1) = some s ∧
          s.live.map (·.id) = [9, 9] := ⟨_, rfl, rfl⟩
    refine ⟨s, hrun, ?_⟩
    intro h
    have hunique := h.unique
    rw [hlive] at hunique
    exact absurd hunique (by decide)
  · obtain ⟨s, hrun, hlive, hrow⟩ : ∃ s,
        runLabels step newSystem (deployed.take 1 ++ [⟨.pause 9, pushFresh⟩]) = some s ∧
          s.live = [] ∧
            s.runtime.formationRow? 9 = some ⟨9, "ops", "Execute", "paused", 0, 0⟩ :=
      ⟨_, rfl, rfl, rfl⟩
    refine ⟨s, hrun, ?_⟩
    intro h
    obtain ⟨f, hf, -⟩ := (h.live 9).mpr ⟨_, hrow, .inr rfl⟩
    rw [hlive] at hf
    cases hf
  · obtain ⟨s, hrun, f, hlive, hid, hmembers, hrows⟩ : ∃ s,
        runLabels step newSystem (deployed ++ [⟨.removeMember 9 "exec", pushFresh⟩]) = some s ∧
          ∃ f, s.live = [f] ∧ f.id = 9 ∧ f.members = [] ∧
            s.runtime.store.members = [⟨0, 9, "connector-shell"⟩] := ⟨_, rfl, _, rfl, rfl, rfl, rfl⟩
    refine ⟨s, hrun, ?_⟩
    intro h
    have hconnectors := h.connectors f (by simp [hlive])
    rw [hid, hmembers, Store.connectors, hrows] at hconnectors
    exact absurd (congrArg Multiset.card hconnectors) (by decide)

/-- A formation that is paused and resumed, gains a member and loses it, and is paused again. -/
def repaused : List Call :=
  deployed ++ [⟨.pause 9, pushFresh⟩, ⟨.resume 9, pushFresh⟩,
    ⟨.addMember 9 "connector-mail" 5, ⟨0, RuleId.mk, 9, fun n => n + 1⟩⟩,
    ⟨.removeMember 9 "connector-mail", pushFresh⟩, ⟨.pause 9, pushFresh⟩]

theorem mirrors_repaused : ∃ s, runLabels step newSystem repaused = some s ∧
    s.live.map (·.paused) = [true] ∧ s.Mirrors := by
  obtain ⟨s, hrun, hlive⟩ : ∃ s, runLabels step newSystem repaused = some s ∧
      s.live.map (·.paused) = [true] := ⟨_, rfl, rfl⟩
  have hmirrors := (mirrors_throughout_iff newSystem_booted repaused).mpr (by decide)
  exact ⟨s, hrun, hlive, hmirrors.self s hrun⟩

end Samples

end System

end Springtale.Formation
