import Springtale.Orchestrator.Subtasks

/-! Which responses make a task graph that can run: distinct ids, dependencies among the tasks,
no cycle, and placeholders for dependencies only. -/
namespace Springtale.Orchestrator

open Springtale.Core Springtale.Beat Springtale.Lib

/-- A task that may be claimed is done: its result is posted. -/
def complete (bb : Blackboard) (result : SubTaskResult) : Option Blackboard :=
  if (bb.scanTasks []).any (·.id = result.taskId) then (bb.postResult result 1).map (·.1) else none

/-- A board with the given tasks and nothing else. -/
def posted (parsed : List Parsed) : Blackboard :=
  ⟨parsed.map (·.task), fun _ => none, fun _ => none⟩

/-- One task depends on another. -/
def Depends (parsed : List Parsed) (taskId dep : Uuid) : Prop :=
  ∃ p ∈ parsed, p.task.id = taskId ∧ dep ∈ p.task.dependsOn

/-- A task graph that runs to its end, in whatever order the claimable tasks are completed. -/
structure Runnable (parsed : List Parsed) : Prop where
  distinct : (parsed.map (·.task.id)).Nodup
  closed : ∀ p ∈ parsed, ∀ dep ∈ p.task.dependsOn, ∃ q ∈ parsed, q.task.id = dep
  acyclic : Ranked (Depends parsed)
  placeholders : ∀ p ∈ parsed, ∀ uuid ∈ p.rewritten, uuid ∈ p.task.dependsOn
  drains : ∀ results bb, runLabels complete (posted parsed) results = some bb →
    bb.scanTasks [] = [] → bb.tasks = []

/-- The entries for connectors of the formation. -/
def accepted (connectors : List String) (parsed : List Value) : List Value :=
  parsed.filter (targetConnector · ∈ connectors)

/-- A response whose accepted entries have names of their own and depend on each other alone. -/
structure Orderly (parsing : Parsing) (connectors : List String) (parsed : List Value) : Prop where
  distinct : (entryIds (accepted connectors parsed)).Nodup
  named : ∀ val ∈ accepted connectors parsed, ∀ name ∈ dependencies val,
    name ∈ entryIds parsed → name ∈ entryIds (accepted connectors parsed)
  noRaw : ∀ val ∈ accepted connectors parsed, ∀ name ∈ dependencies val,
    name ∉ entryIds parsed → parsing.parseStr name = none
  acyclic : Ranked fun name dep => ∃ val ∈ accepted connectors parsed,
    entryId val = some name ∧ dep ∈ dependencies val ∧ dep ∈ entryIds parsed
  placeholders : ∀ val ∈ accepted connectors parsed, ∀ name ∈ referenced (params val),
    name ∈ entryIds parsed → name ∈ dependencies val

/-- Drawn ids are new: no two are the same, and the response names none. -/
structure FreshDraws (parsing : Parsing) (parsed : List Value) : Prop where
  injective : Function.Injective parsing.draw
  unnamed : ∀ val ∈ parsed, ∀ name ∈ dependencies val, ∀ uuid, parsing.parseStr name = some uuid →
    ∀ i, parsing.draw i ≠ uuid

section Drains

variable {parsed : List Parsed}

/-- What completing tasks keeps: each task is on the board, unclaimed, or done. -/
structure Draining (parsed : List Parsed) (bb : Blackboard) : Prop where
  known : ∀ task ∈ bb.tasks, ∃ p ∈ parsed, p.task = task
  unclaimed : ∀ taskId, bb.claimed taskId = none
  done : ∀ p ∈ parsed, p.task ∈ bb.tasks ∨ (bb.results p.task.id).isSome = true

theorem draining_posted (parsed : List Parsed) : Draining parsed (posted parsed) := by
  refine ⟨?_, fun _ => rfl, ?_⟩
  · intro task htask
    exact List.mem_map.mp htask
  · intro p hp
    exact .inl (List.mem_map_of_mem hp)

theorem draining_complete {bb bb' : Blackboard} {result : SubTaskResult} (h : Draining parsed bb)
    (hcomplete : complete bb result = some bb') : Draining parsed bb' := by
  unfold complete at hcomplete
  split at hcomplete
  case isFalse => cases hcomplete
  case isTrue =>
    simp only [Blackboard.postResult, consume, lt_irrefl, if_false, Option.map_some,
      Option.some.injEq] at hcomplete
    subst hcomplete
    refine ⟨?_, ?_, ?_⟩
    · intro task htask
      exact h.known task (List.mem_of_mem_filter htask)
    · intro taskId
      by_cases hsame : taskId = result.taskId
      · simp [hsame]
      · simpa [hsame] using h.unclaimed taskId
    · intro p hp
      by_cases hsame : p.task.id = result.taskId
      · exact .inr (by simp [hsame])
      · rcases h.done p hp with htask | hresult
        · exact .inl (List.mem_filter.mpr ⟨htask, by simpa using hsame⟩)
        · exact .inr (by simpa [hsame] using hresult)

/-- While tasks are left, the first of them in the order of the graph may be claimed. -/
theorem Draining.drains {bb : Blackboard} (h : Draining parsed bb)
    (hclosed : ∀ p ∈ parsed, ∀ dep ∈ p.task.dependsOn, ∃ q ∈ parsed, q.task.id = dep)
    (hacyclic : Ranked (Depends parsed)) (hstuck : bb.scanTasks [] = []) : bb.tasks = [] := by
  by_contra hleft
  have hids : bb.tasks.map (·.id) ≠ [] := by simpa using hleft
  obtain ⟨taskId, hmem, hfirst⟩ := hacyclic.exists_first hids
  obtain ⟨task, htask, rfl⟩ := List.mem_map.mp hmem
  obtain ⟨p, hp, rfl⟩ := h.known task htask
  have hscanned : p.task ∈ bb.scanTasks [] := by
    refine Blackboard.mem_scanTasks_iff.mpr ⟨htask, h.unclaimed _, ?_⟩
    intro dep hdep
    obtain ⟨q, hq, rfl⟩ := hclosed p hp dep hdep
    have hgone := hfirst q.task.id ⟨p, hp, rfl, hdep⟩
    rcases h.done q hq with hwaits | hdone
    · exact absurd (List.mem_map_of_mem hwaits) hgone
    · exact hdone
  rw [hstuck] at hscanned
  cases hscanned

end Drains

section Passes

variable {parsing : Parsing} {connectors : List String} {parsed : List Value}

/-- An entry's id is one that was drawn for its name. -/
theorem idMap_draw {name : String} {uuid : Uuid} (h : parsing.idMap parsed name = some uuid) :
    ∃ i, (entryIds parsed)[i]? = some name ∧ uuid = parsing.draw i := by
  obtain ⟨before, after, hsplit, -⟩ := List.lookup_eq_some_iff.mp h
  have hmem : (name, uuid) ∈ (entryIds parsed).zipIdx.map
      fun entry => (entry.1, parsing.draw entry.2) := by
    rw [← List.mem_reverse, hsplit]
    simp
  obtain ⟨⟨name', i⟩, hpair, heq⟩ := List.mem_map.mp hmem
  obtain ⟨rfl, rfl⟩ := Prod.mk.inj heq
  exact ⟨i, List.mk_mem_zipIdx_iff_getElem?.mp hpair, rfl⟩

theorem exists_idMap (parsing : Parsing) {name : String} (h : name ∈ entryIds parsed) :
    ∃ uuid, parsing.idMap parsed name = some uuid := by
  obtain ⟨i, hi⟩ := List.mem_iff_getElem?.mp h
  have hmem : (name, parsing.draw i) ∈ ((entryIds parsed).zipIdx.map
      fun entry => (entry.1, parsing.draw entry.2)).reverse :=
    List.mem_reverse.mpr (List.mem_map.mpr
      ⟨(name, i), List.mk_mem_zipIdx_iff_getElem?.mpr hi, rfl⟩)
  cases hlookup : parsing.idMap parsed name with
  | some uuid => exact ⟨uuid, rfl⟩
  | none =>
    have hnot := List.lookup_eq_none_iff.mp hlookup _ hmem
    simp at hnot

theorem mem_entryIds_of_idMap {name : String} {uuid : Uuid}
    (h : parsing.idMap parsed name = some uuid) : name ∈ entryIds parsed := by
  obtain ⟨i, hi, -⟩ := idMap_draw h
  exact List.mem_of_getElem? hi

theorem idMap_eq_none {name : String} (h : name ∉ entryIds parsed) :
    parsing.idMap parsed name = none := by
  cases hlookup : parsing.idMap parsed name with
  | none => rfl
  | some uuid => exact absurd (mem_entryIds_of_idMap hlookup) h

theorem FreshDraws.idMap_inj (hfresh : FreshDraws parsing parsed) {a b : String} {uuid : Uuid}
    (ha : parsing.idMap parsed a = some uuid) (hb : parsing.idMap parsed b = some uuid) :
    a = b := by
  obtain ⟨i, hi, rfl⟩ := idMap_draw ha
  obtain ⟨j, hj, hsame⟩ := idMap_draw hb
  rw [hfresh.injective hsame, hj] at hi
  exact (Option.some.inj hi).symm

/-- A name's id is none of those drawn in the second pass. -/
theorem FreshDraws.idMap_ne_draw (hfresh : FreshDraws parsing parsed) {name : String} {uuid : Uuid}
    (hname : parsing.idMap parsed name = some uuid) {i : Nat} (hi : (entryIds parsed).length ≤ i) :
    uuid ≠ parsing.draw i := by
  obtain ⟨j, hj, rfl⟩ := idMap_draw hname
  have hless : j < (entryIds parsed).length := (List.getElem?_eq_some_iff.mp hj).1
  intro hsame
  have heq := hfresh.injective hsame
  omega

theorem mem_accepted {val : Value} :
    val ∈ accepted connectors parsed ↔ val ∈ parsed ∧ targetConnector val ∈ connectors := by
  simp [accepted]

theorem mem_entryIds {name : String} :
    name ∈ entryIds parsed ↔ ∃ val ∈ parsed, entryId val = some name :=
  List.mem_filterMap

/-- An accepted entry's task has the id of its name, or one drawn from `next` on. -/
def Named (idMap : String → Option Uuid) (draw : Nat → Uuid) (next : Nat) (val : Value)
    (taskId : Uuid) : Prop :=
  (∃ name, entryId val = some name ∧ idMap name = some taskId) ∨
    ((entryId val).bind idMap = none ∧ ∃ i, next ≤ i ∧ taskId = draw i)

theorem mem_accept {idMap : String → Option Uuid} {next : Nat} {vals : List Value} {p : Parsed}
    (h : p ∈ parsing.accept connectors idMap next vals) :
    ∃ val ∈ accepted connectors vals, p = parsing.entry idMap p.task.id val ∧
      Named idMap parsing.draw next val p.task.id := by
  induction vals generalizing next with
  | nil => cases h
  | cons val rest ih =>
    have hlater : ∀ next' ≥ next, p ∈ parsing.accept connectors idMap next' rest →
        ∃ val' ∈ accepted connectors (val :: rest), p = parsing.entry idMap p.task.id val' ∧
          Named idMap parsing.draw next val' p.task.id := by
      intro next' hle hp
      obtain ⟨val', hval', heq, hnamed⟩ := ih hp
      obtain ⟨hmem, htarget⟩ := mem_accepted.mp hval'
      refine ⟨val', mem_accepted.mpr ⟨List.mem_cons_of_mem _ hmem, htarget⟩, heq, ?_⟩
      rcases hnamed with hkey | ⟨hnone, i, hi, hdraw⟩
      · exact .inl hkey
      · exact .inr ⟨hnone, i, by omega, hdraw⟩
    simp only [Parsing.accept] at h
    split at h
    case isFalse => exact hlater next le_rfl h
    case isTrue htarget =>
      have hhead : val ∈ accepted connectors (val :: rest) :=
        mem_accepted.mpr ⟨List.mem_cons_self, htarget⟩
      split at h
      case h_1 taskId hkey =>
        rcases List.mem_cons.mp h with rfl | h
        · obtain ⟨name, hname, hid⟩ := Option.bind_eq_some_iff.mp hkey
          exact ⟨val, hhead, rfl, .inl ⟨name, hname, hid⟩⟩
        · exact hlater next le_rfl h
      case h_2 hkey =>
        rcases List.mem_cons.mp h with rfl | h
        · exact ⟨val, hhead, rfl, .inr ⟨hkey, next, le_rfl, rfl⟩⟩
        · exact hlater (next + 1) (by omega) h

/-- Every accepted entry becomes a task. -/
theorem entry_mem_accept {idMap : String → Option Uuid} {next : Nat} {vals : List Value}
    {val : Value} (h : val ∈ accepted connectors vals) :
    ∃ taskId, parsing.entry idMap taskId val ∈ parsing.accept connectors idMap next vals ∧
      ∀ uuid, (entryId val).bind idMap = some uuid → taskId = uuid := by
  induction vals generalizing next with
  | nil => cases h
  | cons head rest ih =>
    obtain ⟨hmem, htarget⟩ := mem_accepted.mp h
    simp only [Parsing.accept]
    rcases List.mem_cons.mp hmem with rfl | hmem
    · rw [if_pos htarget]
      cases hkey : (entryId val).bind idMap with
      | some taskId => exact ⟨taskId, List.mem_cons_self, fun uuid huuid => Option.some.inj huuid⟩
      | none => exact ⟨parsing.draw next, List.mem_cons_self, fun uuid huuid => by cases huuid⟩
    · have hrest := mem_accepted.mpr ⟨hmem, htarget⟩
      split
      case isFalse => exact ih hrest
      case isTrue =>
        split
        all_goals
          obtain ⟨taskId, hentry, hid⟩ := ih hrest
          exact ⟨taskId, List.mem_cons_of_mem _ hentry, hid⟩

theorem mem_dependsOn {idMap : String → Option Uuid} {taskId dep : Uuid} {val : Value} :
    dep ∈ (parsing.entry idMap taskId val).task.dependsOn ↔ ∃ name ∈ dependencies val,
      idMap name = some dep ∨ idMap name = none ∧ parsing.parseStr name = some dep := by
  simp [Parsing.entry, List.mem_filterMap, Option.or_eq_some_iff]

theorem mem_rewritten {idMap : String → Option Uuid} {taskId uuid : Uuid} {val : Value} :
    uuid ∈ (parsing.entry idMap taskId val).rewritten ↔
      ∃ name ∈ referenced (params val), idMap name = some uuid :=
  List.mem_filterMap

end Passes

section Graphs

variable {parsing : Parsing} {connectors : List String} {parsed : List Value}
  (hfresh : FreshDraws parsing parsed)

include hfresh

theorem FreshDraws.named_unique {val : Value} {name : String} {uuid : Uuid} {next : Nat}
    (hnext : (entryIds parsed).length ≤ next)
    (hnamed : Named (parsing.idMap parsed) parsing.draw next val uuid)
    (hname : parsing.idMap parsed name = some uuid) : entryId val = some name := by
  rcases hnamed with ⟨name', hval, hid⟩ | ⟨-, i, hi, hdraw⟩
  · rw [hval, hfresh.idMap_inj hid hname]
  · exact absurd hdraw (hfresh.idMap_ne_draw hname (le_trans hnext hi))

/-- A name's id is a task's when an accepted entry has the name. -/
theorem FreshDraws.exists_task_iff {vals : List Value} {name : String} {uuid : Uuid} {next : Nat}
    (hnext : (entryIds parsed).length ≤ next) (hname : parsing.idMap parsed name = some uuid) :
    (∃ p ∈ parsing.accept connectors (parsing.idMap parsed) next vals, p.task.id = uuid) ↔
      name ∈ entryIds (accepted connectors vals) := by
  constructor
  · rintro ⟨p, hp, rfl⟩
    obtain ⟨val, hval, -, hnamed⟩ := mem_accept hp
    exact mem_entryIds.mpr ⟨val, hval, hfresh.named_unique hnext hnamed hname⟩
  · intro hmem
    obtain ⟨val, hval, hid⟩ := mem_entryIds.mp hmem
    obtain ⟨taskId, hentry, hsame⟩ := entry_mem_accept hval
    refine ⟨_, hentry, hsame uuid ?_⟩
    rw [hid]
    exact hname

theorem FreshDraws.ne_draw {vals : List Value} {next i : Nat}
    (hi : (entryIds parsed).length ≤ i) (hless : i < next) {p : Parsed}
    (hp : p ∈ parsing.accept connectors (parsing.idMap parsed) next vals) :
    p.task.id ≠ parsing.draw i := by
  obtain ⟨-, -, -, ⟨_, -, hid⟩ | ⟨-, j, hj, hdraw⟩⟩ := mem_accept hp
  · exact hfresh.idMap_ne_draw hid hi
  · intro hsame
    have heq := hfresh.injective (hdraw.symm.trans hsame)
    omega

/-- An id the response wrote out itself is no task's. -/
theorem FreshDraws.raw_ne {val : Value} (hval : val ∈ parsed) {name : String}
    (hname : name ∈ dependencies val) {uuid : Uuid} (hraw : parsing.parseStr name = some uuid)
    {p : Parsed} (hp : p ∈ parsing.entries connectors parsed) : p.task.id ≠ uuid := by
  obtain ⟨-, -, -, ⟨_, -, hid⟩ | ⟨-, i, -, hdraw⟩⟩ := mem_accept hp
  · obtain ⟨i, -, hdraw⟩ := idMap_draw hid
    rw [hdraw]
    exact hfresh.unnamed val hval name hname uuid hraw i
  · rw [hdraw]
    exact hfresh.unnamed val hval name hname uuid hraw i

theorem FreshDraws.closed_iff :
    (∀ p ∈ parsing.entries connectors parsed, ∀ dep ∈ p.task.dependsOn,
      ∃ q ∈ parsing.entries connectors parsed, q.task.id = dep) ↔
    (∀ val ∈ accepted connectors parsed, ∀ name ∈ dependencies val,
      name ∈ entryIds parsed → name ∈ entryIds (accepted connectors parsed)) ∧
    (∀ val ∈ accepted connectors parsed, ∀ name ∈ dependencies val,
      name ∉ entryIds parsed → parsing.parseStr name = none) := by
  constructor
  · intro hclosed
    refine ⟨?_, ?_⟩
    · intro val hval name hname hknown
      obtain ⟨uuid, huuid⟩ := exists_idMap parsing hknown
      obtain ⟨taskId, hentry, -⟩ := entry_mem_accept hval
      exact (hfresh.exists_task_iff le_rfl huuid).mp
        (hclosed _ hentry uuid (mem_dependsOn.mpr ⟨name, hname, .inl huuid⟩))
    · intro val hval name hname hunknown
      obtain ⟨taskId, hentry, -⟩ := entry_mem_accept hval
      cases hraw : parsing.parseStr name with
      | none => rfl
      | some uuid =>
        obtain ⟨q, hq, hid⟩ := hclosed _ hentry uuid
          (mem_dependsOn.mpr ⟨name, hname, .inr ⟨idMap_eq_none hunknown, hraw⟩⟩)
        exact absurd hid (hfresh.raw_ne (mem_accepted.mp hval).1 hname hraw hq)
  · rintro ⟨hnames, hraws⟩ p hp dep hdep
    obtain ⟨val, hval, heq, -⟩ := mem_accept hp
    rw [heq] at hdep
    obtain ⟨name, hname, hmapped | ⟨hnone, hraw⟩⟩ := mem_dependsOn.mp hdep
    · have hknown := mem_entryIds_of_idMap hmapped
      exact (hfresh.exists_task_iff le_rfl hmapped).mpr (hnames val hval name hname hknown)
    · have hunknown : name ∉ entryIds parsed := by
        intro hmem
        obtain ⟨uuid, huuid⟩ := exists_idMap parsing hmem
        rw [hnone] at huuid
        cases huuid
      rw [hraws val hval name hname hunknown] at hraw
      cases hraw

/-- The order among the names is the order among the tasks. -/
theorem FreshDraws.acyclic_iff (hraws : ∀ val ∈ accepted connectors parsed,
      ∀ name ∈ dependencies val, name ∉ entryIds parsed → parsing.parseStr name = none) :
    Ranked (Depends (parsing.entries connectors parsed)) ↔
      Ranked fun name dep => ∃ val ∈ accepted connectors parsed,
        entryId val = some name ∧ dep ∈ dependencies val ∧ dep ∈ entryIds parsed := by
  have htaskId : ∀ name ∈ entryIds parsed,
      parsing.idMap parsed name = some ((parsing.idMap parsed name).getD 0) := by
    intro name hname
    obtain ⟨uuid, huuid⟩ := exists_idMap parsing hname
    rw [huuid, Option.getD_some]
  constructor
  · intro hranked
    refine hranked.comap (fun name => (parsing.idMap parsed name).getD 0) ?_
    rintro name dep ⟨val, hval, hid, hdep, hknown⟩
    have hname := htaskId name (mem_entryIds.mpr ⟨val, (mem_accepted.mp hval).1, hid⟩)
    obtain ⟨taskId, hentry, hsame⟩ := entry_mem_accept hval
    refine ⟨_, hentry, hsame _ ?_, mem_dependsOn.mpr ⟨dep, hdep, .inl (htaskId dep hknown)⟩⟩
    rw [hid]
    exact hname
  · intro hranked
    refine hranked.map (fun name => (parsing.idMap parsed name).getD 0) (entryIds parsed) ?_ ?_
    · intro a ha b hb hsame
      have hb' := htaskId b hb
      rw [← hsame] at hb'
      exact hfresh.idMap_inj (htaskId a ha) hb'
    · rintro taskId dep ⟨p, hp, rfl, hdep⟩
      obtain ⟨val, hval, heq, hnamed⟩ := mem_accept hp
      rw [heq] at hdep
      obtain ⟨name, hname, hmapped | ⟨hnone, hraw⟩⟩ := mem_dependsOn.mp hdep
      · have hknown := mem_entryIds_of_idMap hmapped
        refine ⟨name, hknown, by rw [hmapped, Option.getD_some], ?_⟩
        intro key hkey hid
        have hkeyId := htaskId key hkey
        rw [hid] at hkeyId
        exact ⟨val, hval, hfresh.named_unique le_rfl hnamed hkeyId, hname, hknown⟩
      · have hunknown : name ∉ entryIds parsed := by
          intro hmem
          rw [htaskId name hmem] at hnone
          cases hnone
        rw [hraws val hval name hname hunknown] at hraw
        cases hraw

theorem FreshDraws.placeholders_iff :
    (∀ p ∈ parsing.entries connectors parsed, ∀ uuid ∈ p.rewritten, uuid ∈ p.task.dependsOn) ↔
    ∀ val ∈ accepted connectors parsed, ∀ name ∈ referenced (params val),
      name ∈ entryIds parsed → name ∈ dependencies val := by
  constructor
  · intro hdeps val hval name hname hknown
    obtain ⟨uuid, huuid⟩ := exists_idMap parsing hknown
    obtain ⟨taskId, hentry, -⟩ := entry_mem_accept hval
    obtain ⟨dep, hdep, hmapped | ⟨-, hraw⟩⟩ := mem_dependsOn.mp
      (hdeps _ hentry uuid (mem_rewritten.mpr ⟨name, hname, huuid⟩))
    · rwa [hfresh.idMap_inj huuid hmapped]
    · obtain ⟨i, -, hdraw⟩ := idMap_draw huuid
      exact absurd hdraw.symm
        (hfresh.unnamed val (mem_accepted.mp hval).1 dep hdep uuid hraw i)
  · intro hnames p hp uuid huuid
    obtain ⟨val, hval, heq, -⟩ := mem_accept hp
    rw [heq] at huuid ⊢
    obtain ⟨name, hname, hmapped⟩ := mem_rewritten.mp huuid
    exact mem_dependsOn.mpr
      ⟨name, hnames val hval name hname (mem_entryIds_of_idMap hmapped), .inl hmapped⟩

/-- Tasks share an id exactly when accepted entries share a name: ids drawn for entries without
one are met nowhere else. -/
theorem FreshDraws.distinct_accept {vals : List Value} (hvals : ∀ val ∈ vals, val ∈ parsed)
    {next : Nat} (hnext : (entryIds parsed).length ≤ next) :
    ((parsing.accept connectors (parsing.idMap parsed) next vals).map (·.task.id)).Nodup ↔
      (entryIds (accepted connectors vals)).Nodup := by
  induction vals generalizing next with
  | nil => simp [Parsing.accept, accepted, entryIds]
  | cons val rest ih =>
    have hrest : ∀ val' ∈ rest, val' ∈ parsed := fun val' h => hvals val' (List.mem_cons_of_mem _ h)
    simp only [Parsing.accept]
    by_cases htarget : targetConnector val ∈ connectors
    case neg =>
      rw [if_neg htarget, ih hrest hnext]
      simp [accepted, htarget]
    case pos =>
      rw [if_pos htarget]
      have hids : entryIds (accepted connectors (val :: rest)) =
          (entryId val).toList ++ entryIds (accepted connectors rest) := by
        cases hid : entryId val <;> simp [accepted, htarget, entryIds, hid]
      cases hid : entryId val with
      | some name =>
        obtain ⟨uuid, huuid⟩ := exists_idMap parsing
          (mem_entryIds.mpr ⟨val, hvals val List.mem_cons_self, hid⟩)
        have hmem : uuid ∈ (parsing.accept connectors (parsing.idMap parsed) next rest).map
            (·.task.id) ↔ name ∈ entryIds (accepted connectors rest) := by
          rw [List.mem_map]
          exact hfresh.exists_task_iff hnext huuid
        rw [hids, hid, Option.bind_some, huuid]
        show (uuid :: _).Nodup ↔ (name :: entryIds (accepted connectors rest)).Nodup
        rw [List.nodup_cons, List.nodup_cons, hmem, ih hrest hnext]
      | none =>
        have hnew : parsing.draw next ∉ (parsing.accept connectors (parsing.idMap parsed) (next + 1)
            rest).map (·.task.id) := by
          intro hmem
          obtain ⟨p, hp, hsame⟩ := List.mem_map.mp hmem
          exact hfresh.ne_draw hnext (Nat.lt_succ_self next) hp hsame
        rw [hids, hid, Option.bind_none]
        show (parsing.draw next :: _).Nodup ↔ (entryIds (accepted connectors rest)).Nodup
        rw [List.nodup_cons, ih hrest (by omega)]
        exact and_iff_right hnew

/-- A response becomes a graph that runs exactly when it is orderly. -/
theorem runnable_iff : Runnable (parsing.entries connectors parsed) ↔
    Orderly parsing connectors parsed := by
  have hdistinct : ((parsing.entries connectors parsed).map (·.task.id)).Nodup ↔
      (entryIds (accepted connectors parsed)).Nodup :=
    hfresh.distinct_accept (fun _ h => h) le_rfl
  constructor
  · intro h
    obtain ⟨hnames, hraws⟩ := hfresh.closed_iff.mp h.closed
    exact ⟨hdistinct.mp h.distinct, hnames, hraws, (hfresh.acyclic_iff hraws).mp h.acyclic,
      hfresh.placeholders_iff.mp h.placeholders⟩
  · intro h
    have hclosed := hfresh.closed_iff.mpr ⟨h.named, h.noRaw⟩
    have hacyclic := (hfresh.acyclic_iff h.noRaw).mpr h.acyclic
    refine ⟨hdistinct.mpr h.distinct, hclosed, hacyclic, hfresh.placeholders_iff.mpr h.placeholders,
      ?_⟩
    intro results bb hrun hstuck
    have hdraining := (reaches_of_runLabels hrun).invariant (Draining _)
      (fun _ _ _ hstep hinv => draining_complete hinv hstep) (draining_posted _)
    exact hdraining.drains hclosed hacyclic hstuck

end Graphs

/-- The graphs that run come from orderly responses, and every orderly response makes one. -/
theorem Parsing.graph_runnable_iff (parsing : Parsing) (content : String) (connectors : List String)
    (parsed : List Value) (hparsed : parsing.fromStr (jsonStr content) = .ok parsed)
    (hfresh : FreshDraws parsing parsed) :
    ∃ entries, parsing.parseSubtasks content connectors = .ok entries ∧
      (Runnable entries ↔ Orderly parsing connectors parsed) := by
  refine ⟨parsing.entries connectors parsed, ?_, runnable_iff hfresh⟩
  rw [parseSubtasks, hparsed]

section Responses

/-- Reads one text, and numbers the ids it draws. -/
def reading (text : String) (parsed : List Value) : Parsing where
  fromStr json := if json = text then .ok parsed else .error "expected value at line 1 column 1"
  parseStr _ := none
  display uuid := toString uuid
  draw i := i + 1

theorem freshDraws_reading (text : String) (parsed : List Value) :
    FreshDraws (reading text parsed) parsed := by
  refine ⟨?_, ?_⟩
  · intro i j hsame
    exact Nat.succ.inj hsame
  · intro val _ name _ uuid hraw
    cases hraw

def orderlyText : String :=
  "[\x7b\"id\":\"a\",\"target_connector\":\"kv\"\x7d," ++
  "\x7b\"id\":\"b\",\"target_connector\":\"kv\",\"depends_on\":[\"a\"]\x7d]"

def orderlyResponse : List Value :=
  [.object [("id", .string "a"), ("target_connector", .string "kv")],
    .object [("id", .string "b"), ("target_connector", .string "kv"),
      ("depends_on", .array [.string "a"])]]

theorem Parsing.graph_runnable_orderly : ∃ entries,
    (reading orderlyText orderlyResponse).parseSubtasks orderlyText ["kv"] = .ok entries ∧
      (Runnable entries ↔
        Orderly (reading orderlyText orderlyResponse) ["kv"] orderlyResponse) :=
  Parsing.graph_runnable_iff _ orderlyText ["kv"] orderlyResponse (by decide +kernel)
    (freshDraws_reading _ _)

/-- The first entry is for a connector that no member has, and the second waits for it. -/
def droppedText : String :=
  "[\x7b\"id\":\"a\",\"target_connector\":\"mail\"\x7d," ++
  "\x7b\"id\":\"b\",\"target_connector\":\"kv\",\"depends_on\":[\"a\"]\x7d]"

def droppedResponse : List Value :=
  [.object [("id", .string "a"), ("target_connector", .string "mail")],
    .object [("id", .string "b"), ("target_connector", .string "kv"),
      ("depends_on", .array [.string "a"])]]

/-- A task that waits for a dropped entry is never claimable. -/
theorem Parsing.graph_blocked : ∃ entries,
    (reading droppedText droppedResponse).parseSubtasks droppedText ["kv"] = .ok entries ∧
      FreshDraws (reading droppedText droppedResponse) droppedResponse ∧
      (posted entries).tasks ≠ [] ∧ (posted entries).scanTasks [] = [] ∧ ¬ Runnable entries := by
  have hstuck : (posted ((reading droppedText droppedResponse).entries ["kv"]
      droppedResponse)).scanTasks [] = [] := by decide +kernel
  have hwaits : (posted ((reading droppedText droppedResponse).entries ["kv"]
      droppedResponse)).tasks ≠ [] := by decide +kernel
  have hread : (reading droppedText droppedResponse).fromStr (jsonStr droppedText) =
      .ok droppedResponse := by decide +kernel
  refine ⟨_, ?_, freshDraws_reading _ _, hwaits, hstuck, ?_⟩
  · rw [parseSubtasks, hread]
  · intro hrunnable
    exact hwaits (hrunnable.drains [] _ rfl hstuck)

end Responses

end Springtale.Orchestrator
