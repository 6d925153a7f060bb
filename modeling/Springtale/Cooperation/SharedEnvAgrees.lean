import Springtale.Cooperation.SharedEnv

/-! In runs whose steps keep the order of the swaps, the snapshot agrees with the store. -/
namespace Springtale.Cooperation

open Springtale.Core Springtale.Beat Springtale.Lib

namespace WritePhase

variable {Value : Type}

/-- The call, once its swap has succeeded. -/
def swappedCall : WritePhase Value → Option (CasWrite Value)
  | .applied call | .logged call | .inserted call | .captured call _ | .mirrored call => some call
  | _ => none

/-- The call, once its write is in the log. -/
def pushedCall : WritePhase Value → Option (CasWrite Value)
  | .logged call | .inserted call | .captured call _ | .mirrored call => some call
  | _ => none

end WritePhase

namespace SharedEnvironment

variable {Store Id Value Surface : Type} {store : CasStore Store} {json : JsonBytes Value}
  {ids : UuidText} {env : SharedEnvironment Store Id Value Surface} {id : Id} {phase : WritePhase Value}
  {call : CasWrite Value}

/-- The calls on a key. -/
def onKey (key : String) (calls : List (Id × CasWrite Value)) : List (Id × CasWrite Value) :=
  calls.filter fun c => c.2.key = key

/-- What the phases say of the two orders, and the log and the snapshots of the log's order. -/
structure Mirrors (store : CasStore Store) (json : JsonBytes Value)
    (env : SharedEnvironment Store Id Value Surface) : Prop where
  swapped_iff : ∀ id call, (id, call) ∈ env.swapped ↔ (env.phase id).swappedCall = some call
  pushed_iff : ∀ id call, (id, call) ∈ env.pushed ↔ (env.phase id).pushedCall = some call
  swapped_nodup : env.swapped.Nodup
  pushed_nodup : env.pushed.Nodup
  serialized : ∀ id call proposed, env.phase id = .serialized call proposed →
    json.toVec call.value = .ok proposed
  held : ∀ key, (store.get env.coopWrites key).map (fun entry => .ok entry.value) =
    (onKey key env.swapped).getLast?.map fun c => json.toVec c.2.value
  log_eq : env.log.map (·.toWrite) = env.pushed.map (·.2.toWrite)
  ordered : ∀ key, (onKey key env.pushed).Sublist (onKey key env.swapped)
  snapshot_log : env.snapshot.writeLog <+: env.log
  captured : ∀ id call log, env.phase id = .captured call log →
    log <+: env.log ∧ (id, call) ∈ env.pushed.take log.length
  mirrored : ∀ id call, env.phase id = .mirrored call →
    (id, call) ∈ env.pushed.take env.snapshot.writeLog.length
  published : env.published.Pairwise fun older newer =>
    older.version < newer.version ∧ older.writeLog <+: newer.writeLog
  latest : env.published.getLast? = some env.snapshot

theorem mirrors_new {start : Store} (hempty : ∀ key, store.get start key = none) :
    Mirrors store json (new start : SharedEnvironment Store Id Value Surface) where
  swapped_iff := by simp [new, WritePhase.swappedCall]
  pushed_iff := by simp [new, WritePhase.pushedCall]
  swapped_nodup := List.nodup_nil
  pushed_nodup := List.nodup_nil
  serialized := by simp [new]
  held := by simp [new, onKey, hempty]
  log_eq := rfl
  ordered _ := List.Sublist.refl _
  snapshot_log := List.prefix_rfl
  captured := by simp [new]
  mirrored := by simp [new]
  published := List.pairwise_singleton _ _
  latest := rfl

theorem Mirrors.length_log (h : Mirrors store json env) : env.log.length = env.pushed.length := by
  simpa using congrArg List.length h.log_eq

/-- Every snapshot so far is an earlier one than the one in place. -/
theorem Mirrors.published_le (h : Mirrors store json env) :
    ∀ older ∈ env.published, older.version ≤ env.snapshot.version ∧
      older.writeLog <+: env.snapshot.writeLog := by
  obtain ⟨pre, hsplit⟩ := List.getLast?_eq_some_iff.mp h.latest
  have hpairwise := h.published
  rw [hsplit, List.pairwise_append] at hpairwise
  intro older holder
  rw [hsplit, List.mem_append, List.mem_singleton] at holder
  rcases holder with holder | rfl
  · obtain ⟨hlt, hpre⟩ := hpairwise.2.2 older holder _ (List.mem_singleton_self _)
    exact ⟨hlt.le, hpre⟩
  · exact ⟨le_rfl, List.prefix_rfl⟩

/-! ### What the invariant says once all calls have returned -/

theorem Mirrors.mirrored_of_quiet (h : Mirrors store json env) (hquiet : env.Quiet)
    {c : Id × CasWrite Value} (hc : c ∈ env.swapped) :
    c ∈ env.pushed.take env.snapshot.writeLog.length := by
  have hphase := (h.swapped_iff c.1 c.2).mp hc
  rcases hquiet c.1 with heq | ⟨call, heq⟩ | ⟨event, heq⟩ | heq
  · simp [heq, WritePhase.swappedCall] at hphase
  · obtain rfl : call = c.2 := by simpa [heq, WritePhase.swappedCall] using hphase
    exact h.mirrored c.1 c.2 heq
  · simp [heq, WritePhase.swappedCall] at hphase
  · simp [heq, WritePhase.swappedCall] at hphase

theorem Mirrors.pushed_subset (h : Mirrors store json env) : env.pushed ⊆ env.swapped := by
  intro c hc
  have hphase := (h.pushed_iff c.1 c.2).mp hc
  refine (h.swapped_iff c.1 c.2).mpr ?_
  cases heq : env.phase c.1 <;> rw [heq] at hphase <;> first | exact hphase | cases hphase

/-- The snapshot in place has the whole log. -/
theorem Mirrors.snapshot_of_quiet (h : Mirrors store json env) (hquiet : env.Quiet) :
    env.snapshot.writeLog = env.log := by
  refine h.snapshot_log.eq_of_length_le ?_
  have hsubset : env.pushed ⊆ env.pushed.take env.snapshot.writeLog.length :=
    fun c hc => h.mirrored_of_quiet hquiet (h.pushed_subset hc)
  have hlength := (List.subperm_of_subset h.pushed_nodup hsubset).length_le
  rw [List.length_take] at hlength
  rw [h.length_log]
  omega

/-- On each key the log has the order of the swaps. -/
theorem Mirrors.onKey_eq (h : Mirrors store json env) (hquiet : env.Quiet) (key : String) :
    onKey key env.pushed = onKey key env.swapped := by
  refine (h.ordered key).eq_of_length_le ?_
  have hsubset : onKey key env.swapped ⊆ onKey key env.pushed := by
    intro c hc
    obtain ⟨hswapped, hkey⟩ := List.mem_filter.mp hc
    have hpushed := List.mem_of_mem_take (h.mirrored_of_quiet hquiet hswapped)
    exact List.mem_filter.mpr ⟨hpushed, hkey⟩
  exact (List.subperm_of_subset (h.swapped_nodup.filter _) hsubset).length_le

theorem lastValue_eq_getLast? (writeLog : List (EnvironmentWrite Value)) (key : String) :
    lastValue writeLog key =
      ((writeLog.map (·.toWrite)).filter (·.key = key)).getLast?.map (·.value) := by
  rw [lastValue, ← List.head?_filter, List.filter_reverse, List.head?_reverse, List.filter_map,
    List.getLast?_map, Option.map_map]
  rfl

/-- The last value of a key is that of the last write on it. -/
theorem Mirrors.lastValue_log (h : Mirrors store json env) (key : String) :
    lastValue env.log key = (onKey key env.pushed).getLast?.map (·.2.value) := by
  rw [lastValue_eq_getLast?, h.log_eq, List.filter_map, List.getLast?_map, Option.map_map]
  rfl

theorem Mirrors.agrees (h : Mirrors store json env) : Agrees store json env where
  value hquiet key := by
    rw [h.snapshot_of_quiet hquiet, h.lastValue_log, h.onKey_eq hquiet, h.held, Option.map_map]
    rfl
  logged hquiet c hc := by
    rw [h.snapshot_of_quiet hquiet, h.log_eq]
    exact List.mem_map_of_mem (List.mem_of_mem_take (h.mirrored_of_quiet hquiet hc))
  kept := by
    intro older holder newer hnewer hlt write hwrite
    obtain ⟨pre, post, hsplit⟩ := List.append_of_mem hnewer
    have hpairwise := h.published
    rw [hsplit, List.pairwise_append, List.pairwise_cons] at hpairwise
    obtain ⟨-, ⟨hafter, -⟩, hbefore⟩ := hpairwise
    rw [hsplit, List.mem_append, List.mem_cons] at holder
    rcases holder with holder | rfl | holder
    · exact (hbefore older holder newer (List.mem_cons_self ..)).2.subset hwrite
    · exact absurd hlt (lt_irrefl _)
    · exact absurd hlt (hafter older holder).1.asymm

/-! ### The steps -/

variable [DecidableEq Id]

@[simp] theorem setPhase_self : (env.setPhase id phase).phase id = phase := by
  simp [setPhase]

@[simp] theorem setPhase_ne {id' : Id} (h : id' ≠ id) :
    (env.setPhase id phase).phase id' = env.phase id' := by
  simp [setPhase, h]

/-- A step of one call that leaves the store, the log and the snapshot alone. -/
theorem Mirrors.move (h : Mirrors store json env)
    (hswapped : phase.swappedCall = (env.phase id).swappedCall)
    (hpushed : phase.pushedCall = (env.phase id).pushedCall)
    (hserialized : ∀ call proposed, phase = .serialized call proposed →
      json.toVec call.value = .ok proposed)
    (hcaptured : ∀ call log, phase = .captured call log →
      log <+: env.log ∧ (id, call) ∈ env.pushed.take log.length)
    (hmirrored : ∀ call, phase ≠ .mirrored call) : Mirrors store json (env.setPhase id phase) where
  swapped_iff id' call := by
    refine (h.swapped_iff id' call).trans ?_
    by_cases hid : id' = id
    · rw [hid, setPhase_self, hswapped]
    · rw [setPhase_ne hid]
  pushed_iff id' call := by
    refine (h.pushed_iff id' call).trans ?_
    by_cases hid : id' = id
    · rw [hid, setPhase_self, hpushed]
    · rw [setPhase_ne hid]
  swapped_nodup := h.swapped_nodup
  pushed_nodup := h.pushed_nodup
  serialized id' call proposed hphase := by
    by_cases hid : id' = id
    · subst hid
      exact hserialized call proposed (setPhase_self.symm.trans hphase)
    · exact h.serialized id' call proposed ((setPhase_ne hid).symm.trans hphase)
  held := h.held
  log_eq := h.log_eq
  ordered := h.ordered
  snapshot_log := h.snapshot_log
  captured id' call log hphase := by
    by_cases hid : id' = id
    · subst hid
      exact hcaptured call log (setPhase_self.symm.trans hphase)
    · exact h.captured id' call log ((setPhase_ne hid).symm.trans hphase)
  mirrored id' call hphase := by
    by_cases hid : id' = id
    · subst hid
      exact absurd (setPhase_self.symm.trans hphase) (hmirrored call)
    · exact h.mirrored id' call ((setPhase_ne hid).symm.trans hphase)
  published := h.published
  latest := h.latest

theorem casEvent_eq_none_iff {tick : Nat} {writer : Uuid} {proposed : List UInt8}
    {outcome : CoopCasOutcome} :
    casEvent ids tick writer proposed outcome = none ↔ outcome = .applied := by
  cases outcome <;> simp [casEvent]

/-- A swap that succeeds. -/
theorem Mirrors.swap (h : Mirrors store json env) {proposed : List UInt8}
    (hphase : env.phase id = .serialized call proposed)
    (hcas : (store.casWrite env.coopWrites (storeCall ids call proposed)).2 = .applied) :
    Mirrors store json { env.setPhase id (.applied call) with
      coopWrites := (store.casWrite env.coopWrites (storeCall ids call proposed)).1
      swapped := env.swapped ++ [(id, call)] } where
  swapped_iff id' call' := by
    rw [List.mem_append, List.mem_singleton, h.swapped_iff]
    by_cases hid : id' = id
    · subst hid
      have hbefore : (env.phase id').swappedCall = none := by rw [hphase]; rfl
      rw [hbefore]
      simp [WritePhase.swappedCall, setPhase, eq_comm]
    · simp [hid, setPhase]
  pushed_iff id' call' := by
    refine (h.pushed_iff id' call').trans ?_
    by_cases hid : id' = id
    · subst hid
      simp [hphase, WritePhase.pushedCall, setPhase]
    · simp [hid, setPhase]
  swapped_nodup := by
    have hnew : (id, call) ∉ env.swapped := by
      rw [h.swapped_iff, hphase]
      simp [WritePhase.swappedCall]
    exact List.nodup_append.mpr ⟨h.swapped_nodup, List.nodup_singleton _, by
      rintro a ha b hb rfl
      exact hnew (List.mem_singleton.mp hb ▸ ha)⟩
  pushed_nodup := h.pushed_nodup
  serialized id' call' proposed' hphase' := by
    obtain ⟨-, hphase'⟩ := of_update hphase' (by simp)
    exact h.serialized id' call' proposed' hphase'
  held key := by
    by_cases hkey : key = call.key
    · have hmatches := casMatches_iff.mpr (store.isCas.applied_iff.mp hcas)
      have hget := store.isCas.get_self env.coopWrites (storeCall ids call proposed)
      rw [hmatches, if_pos rfl] at hget
      have hlast : (onKey key (env.swapped ++ [(id, call)])).getLast? = some (id, call) := by
        simp [onKey, hkey]
      rw [hkey] at hlast ⊢
      change Option.map _ (store.get _ (storeCall ids call proposed).key) = _
      rw [hget, hlast, Option.map_some, Option.map_some, h.serialized id call proposed hphase]
      rfl
    · have hget := store.isCas.get_other env.coopWrites (storeCall ids call proposed) key hkey
      have hother : onKey key (env.swapped ++ [(id, call)]) = onKey key env.swapped := by
        simp [onKey, Ne.symm hkey]
      rw [hget, hother]
      exact h.held key
  log_eq := h.log_eq
  ordered key := by
    refine (h.ordered key).trans ?_
    rw [onKey, onKey, List.filter_append]
    exact List.sublist_append_left _ _
  snapshot_log := h.snapshot_log
  captured id' call' log hphase' := by
    obtain ⟨-, hphase'⟩ := of_update hphase' (by simp)
    exact h.captured id' call' log hphase'
  mirrored id' call' hphase' := by
    obtain ⟨-, hphase'⟩ := of_update hphase' (by simp)
    exact h.mirrored id' call' hphase'
  published := h.published
  latest := h.latest

/-- A selection in order goes on with an element none of whose followers is in it. -/
theorem sublist_snoc {α : Type} {xs pre post : List α} {x : α}
    (hxs : xs.Sublist (pre ++ x :: post)) (hnew : ∀ y ∈ x :: post, y ∉ xs) :
    (xs ++ [x]).Sublist (pre ++ x :: post) := by
  obtain ⟨ys, zs, rfl, hys, hzs⟩ := List.sublist_append_iff.mp hxs
  have hnil : zs = [] := by
    rw [List.eq_nil_iff_forall_not_mem]
    intro z hz
    exact hnew z (hzs.subset hz) (List.mem_append_right _ hz)
  rw [hnil, List.append_nil]
  exact hys.append (List.singleton_sublist.mpr (List.mem_cons_self ..))

/-- The order of the swaps, split at a call. -/
theorem Mirrors.split (h : Mirrors store json env) (hmem : (id, call) ∈ env.swapped) :
    ∃ pre, onKey call.key env.swapped = pre ++ (id, call) :: env.later id call.key := by
  obtain ⟨pre, post, hsplit⟩ := List.append_of_mem hmem
  have hnodup := h.swapped_nodup
  rw [hsplit] at hnodup
  have hpre : ∀ c ∈ pre, c.1 ≠ id := by
    rintro ⟨id', call'⟩ hc rfl
    have hother := (h.swapped_iff id' call').mp (hsplit ▸ List.mem_append_left _ hc)
    rw [(h.swapped_iff id' call).mp hmem] at hother
    obtain rfl := Option.some.inj hother
    exact (List.nodup_append.mp hnodup).2.2 _ hc _ (List.mem_cons_self ..) rfl
  refine ⟨onKey call.key pre, ?_⟩
  have hdrop : env.swapped.dropWhile (fun c => c.1 ≠ id) = (id, call) :: post := by
    rw [hsplit, List.dropWhile_append_of_pos (by simpa using hpre)]
    simp
  rw [later, hdrop, hsplit, onKey, List.filter_append]
  simp [onKey]

/-- The write reaches the log, before the later ones on its key. -/
theorem Mirrors.push (h : Mirrors store json env) {now : Nat} (hphase : env.phase id = .applied call)
    (hlater : ∀ c ∈ env.later id call.key, c ∉ env.pushed) :
    Mirrors store json { env.setPhase id (.logged call) with
      log := env.log ++ [⟨call.toWrite, now⟩]
      pushed := env.pushed ++ [(id, call)] } where
  swapped_iff id' call' := by
    refine (h.swapped_iff id' call').trans ?_
    by_cases hid : id' = id
    · subst hid
      simp [hphase, WritePhase.swappedCall, setPhase]
    · simp [hid, setPhase]
  pushed_iff id' call' := by
    rw [List.mem_append, List.mem_singleton, h.pushed_iff]
    by_cases hid : id' = id
    · subst hid
      have hbefore : (env.phase id').pushedCall = none := by rw [hphase]; rfl
      rw [hbefore]
      simp [WritePhase.pushedCall, setPhase, eq_comm]
    · simp [hid, setPhase]
  swapped_nodup := h.swapped_nodup
  pushed_nodup := by
    have hnew : (id, call) ∉ env.pushed := by
      rw [h.pushed_iff, hphase]
      simp [WritePhase.pushedCall]
    exact List.nodup_append.mpr ⟨h.pushed_nodup, List.nodup_singleton _, by
      rintro a ha b hb rfl
      exact hnew (List.mem_singleton.mp hb ▸ ha)⟩
  serialized id' call' proposed' hphase' := by
    obtain ⟨-, hphase'⟩ := of_update hphase' (by simp)
    exact h.serialized id' call' proposed' hphase'
  held := h.held
  log_eq := by simp [h.log_eq]
  ordered key := by
    by_cases hkey : call.key = key
    · subst hkey
      have hmem : (id, call) ∈ env.swapped := by
        rw [h.swapped_iff, hphase]
        rfl
      have hnew : (id, call) ∉ env.pushed := by
        rw [h.pushed_iff, hphase]
        simp [WritePhase.pushedCall]
      obtain ⟨pre, hsplit⟩ := h.split hmem
      have hpush : onKey call.key (env.pushed ++ [(id, call)]) =
          onKey call.key env.pushed ++ [(id, call)] := by
        simp [onKey]
      have hordered := h.ordered call.key
      rw [hsplit] at hordered
      change (onKey call.key (env.pushed ++ [(id, call)])).Sublist (onKey call.key env.swapped)
      rw [hpush, hsplit]
      refine sublist_snoc hordered ?_
      intro c hc hcpushed
      have hcpushed := (List.mem_filter.mp hcpushed).1
      rcases List.mem_cons.mp hc with rfl | hc
      · exact hnew hcpushed
      · exact hlater c hc hcpushed
    · have hpush : onKey key (env.pushed ++ [(id, call)]) = onKey key env.pushed := by
        simp [onKey, hkey]
      exact hpush ▸ h.ordered key
  snapshot_log := h.snapshot_log.trans (List.prefix_append ..)
  captured id' call' log hphase' := by
    obtain ⟨-, hphase'⟩ := of_update hphase' (by simp)
    obtain ⟨hlog, hmem⟩ := h.captured id' call' log hphase'
    refine ⟨hlog.trans (List.prefix_append ..), ?_⟩
    rw [List.take_append_of_le_length (h.length_log ▸ hlog.length_le)]
    exact hmem
  mirrored id' call' hphase' := by
    obtain ⟨-, hphase'⟩ := of_update hphase' (by simp)
    have hmem := h.mirrored id' call' hphase'
    rw [List.take_append_of_le_length (h.length_log ▸ h.snapshot_log.length_le)]
    exact hmem
  published := h.published
  latest := h.latest

/-- A log no older than the snapshot's is swapped in. -/
theorem Mirrors.rcu (h : Mirrors store json env) {log : List (EnvironmentWrite Value)}
    (hphase : env.phase id = .captured call log)
    (hlength : env.snapshot.writeLog.length ≤ log.length) :
    Mirrors store json { env.setPhase id (.mirrored call) with
      snapshot := ⟨log, env.snapshot.surfaces, env.snapshot.version + 1⟩
      published := env.published ++ [⟨log, env.snapshot.surfaces, env.snapshot.version + 1⟩] } := by
  obtain ⟨hlog, hown⟩ := h.captured id call log hphase
  have hgrows : env.snapshot.writeLog <+: log :=
    List.prefix_of_prefix_length_le h.snapshot_log hlog hlength
  exact {
    swapped_iff := by
      intro id' call'
      refine (h.swapped_iff id' call').trans ?_
      by_cases hid : id' = id
      · subst hid
        simp [hphase, WritePhase.swappedCall, setPhase]
      · simp [hid, setPhase]
    pushed_iff := by
      intro id' call'
      refine (h.pushed_iff id' call').trans ?_
      by_cases hid : id' = id
      · subst hid
        simp [hphase, WritePhase.pushedCall, setPhase]
      · simp [hid, setPhase]
    swapped_nodup := h.swapped_nodup
    pushed_nodup := h.pushed_nodup
    serialized := by
      intro id' call' proposed' hphase'
      obtain ⟨-, hphase'⟩ := of_update hphase' (by simp)
      exact h.serialized id' call' proposed' hphase'
    held := h.held
    log_eq := h.log_eq
    ordered := h.ordered
    snapshot_log := hlog
    captured := by
      intro id' call' log' hphase'
      obtain ⟨-, hphase'⟩ := of_update hphase' (by simp)
      exact h.captured id' call' log' hphase'
    mirrored := by
      intro id' call' hphase'
      by_cases hid : id' = id
      · subst hid
        have heq : call = call' := by simpa [setPhase] using hphase'
        rw [← heq]
        exact hown
      · have hmem := h.mirrored id' call' (by simpa [setPhase, hid] using hphase')
        exact (List.take_prefix_take_left hlength).subset hmem
    published := by
      rw [List.pairwise_append]
      refine ⟨h.published, List.pairwise_singleton _ _, ?_⟩
      intro older holder newer hnewer
      obtain ⟨hversion, hpre⟩ := h.published_le older holder
      rw [List.mem_singleton.mp hnewer]
      exact ⟨Nat.lt_succ_of_le hversion, hpre.trans hgrows⟩
    latest := by simp }

/-- A swap that is refused. -/
theorem Mirrors.conflict (h : Mirrors store json env) {proposed : List UInt8}
    {event : InterferenceEvent} (hphase : env.phase id = .serialized call proposed)
    (hcas : (store.casWrite env.coopWrites (storeCall ids call proposed)).2 ≠ .applied) :
    Mirrors store json { env.setPhase id (.conflicted event) with
      coopWrites := (store.casWrite env.coopWrites (storeCall ids call proposed)).1 } := by
  have hmove : Mirrors store json (env.setPhase id (.conflicted event)) :=
    h.move (by rw [hphase]; rfl) (by rw [hphase]; rfl) (by simp) (by simp) (by simp)
  have hsame : ∀ key, store.get (store.casWrite env.coopWrites (storeCall ids call proposed)).1 key =
      store.get env.coopWrites key := by
    intro key
    by_cases hkey : key = (storeCall ids call proposed).key
    · have hmismatch : ¬ casMatches (storeCall ids call proposed).expected
          (store.get env.coopWrites (storeCall ids call proposed).key) = true := by
        rwa [casMatches_iff, ← store.isCas.applied_iff]
      rw [hkey, store.isCas.get_self, if_neg hmismatch]
    · rw [store.isCas.get_other _ _ key hkey]
  exact { hmove with held key := (congrArg _ (hsame key)).trans (h.held key) }

theorem Mirrors.next {step : EnvStep Id Value} {env' : SharedEnvironment Store Id Value Surface}
    (h : Mirrors store json env) (horder : env.inOrder step = true)
    (hnext : env.next store json ids step = some env') : Mirrors store json env' := by
  cases step with
  | casWrite id call =>
    cases hphase : env.phase id <;>
      simp only [SharedEnvironment.next, hphase, reduceCtorEq] at hnext
    cases hnext
    cases hvec : json.toVec call.value with
    | error message =>
      exact h.move (by rw [hphase]; rfl) (by rw [hphase]; rfl) (by simp) (by simp) (by simp)
    | ok proposed =>
      refine h.move (by rw [hphase]; rfl) (by rw [hphase]; rfl) ?_ (by simp) (by simp)
      rintro _ _ ⟨⟩
      exact hvec
  | casApply id =>
    cases hphase : env.phase id <;>
      simp only [SharedEnvironment.next, hphase, reduceCtorEq] at hnext
    cases hnext
    split
    next hevent => exact h.swap hphase (casEvent_eq_none_iff.mp hevent)
    next event hevent =>
      refine h.conflict hphase ?_
      intro happlied
      exact absurd (hevent.symm.trans (casEvent_eq_none_iff.mpr happlied))
        (Option.some_ne_none event)
  | storeError id =>
    cases hphase : env.phase id <;>
      simp only [SharedEnvironment.next, hphase, reduceCtorEq] at hnext
    cases hnext
    exact h.move (by rw [hphase]; rfl) (by rw [hphase]; rfl) (by simp) (by simp) (by simp)
  | push id now =>
    cases hphase : env.phase id <;>
      simp only [SharedEnvironment.next, hphase, reduceCtorEq] at hnext
    cases hnext
    refine h.push hphase ?_
    simp only [inOrder, hphase, List.all_eq_true] at horder
    intro c hc hpushed
    have hnone : ∀ id' call', (id', call') ∈ env.pushed → id' ≠ c.1 := by simpa using horder c hc
    exact hnone c.1 c.2 hpushed rfl
  | insert id =>
    cases hphase : env.phase id <;>
      simp only [SharedEnvironment.next, hphase, reduceCtorEq] at hnext
    cases hnext
    have hmove : Mirrors store json (env.setPhase id (.inserted _)) :=
      h.move (by rw [hphase]; rfl) (by rw [hphase]; rfl) (by simp) (by simp) (by simp)
    exact { hmove with }
  | writeLog id =>
    cases hphase : env.phase id <;>
      simp only [SharedEnvironment.next, hphase, reduceCtorEq] at hnext
    cases hnext
    refine h.move (by rw [hphase]; rfl) (by rw [hphase]; rfl) (by simp) ?_ (by simp)
    rintro _ _ ⟨⟩
    refine ⟨List.prefix_rfl, ?_⟩
    rw [h.length_log, List.take_length, h.pushed_iff, hphase]
    rfl
  | rcu id =>
    cases hphase : env.phase id <;>
      simp only [SharedEnvironment.next, hphase, reduceCtorEq] at hnext
    cases hnext
    simp only [inOrder, hphase, decide_eq_true_eq] at horder
    exact h.rcu hphase horder

theorem mirrors_of_reaches {start : Store} (hempty : ∀ key, store.get start key = none)
    (h : Reaches (Guarded (fun env step => env.inOrder step = true)
      fun env step env' => env.next store json ids step = some env') (new start) env) :
    Mirrors store json env :=
  h.invariant (Mirrors store json) (fun _ _ _ hstep hmirrors => hmirrors.next hstep.1 hstep.2)
    (mirrors_new hempty)

theorem agrees_of_reaches {start : Store} (hempty : ∀ key, store.get start key = none)
    (h : Reaches (Guarded (fun env step => env.inOrder step = true)
      fun env step env' => env.next store json ids step = some env') (new start) env) :
    env.Agrees store json :=
  (mirrors_of_reaches hempty h).agrees

section Sample

/-- The JSON text of a digit. -/
def digitJson : JsonBytes UInt8 :=
  ⟨fun n => .ok [n + 48], fun bytes => match bytes with
    | [n] => .ok (n - 48)
    | _ => .error "expected value"⟩

def plainIds : UuidText := ⟨fun _ => "agent", fun _ => none⟩

/-- Two writes on a key, the second of which expects what the first wrote. -/
def firstWrite : CasWrite UInt8 := ⟨⟨"k", 1, 1⟩, 1, none⟩

def secondWrite : CasWrite UInt8 := ⟨⟨"k", 2, 2⟩, 1, some [49]⟩

/-- The rest of a write whose swap succeeded. -/
def mirror (id : Bool) (now : Nat) : List (EnvStep Bool UInt8) :=
  [.push id now, .insert id, .writeLog id, .rcu id]

/-- Both swaps come first, then both writes are mirrored. -/
def swaps : List (EnvStep Bool UInt8) :=
  [.casWrite false firstWrite, .casWrite true secondWrite, .casApply false, .casApply true]

theorem agrees_inOrder :
    ∃ env : SharedEnvironment _ Bool UInt8 Unit,
      env.swapped = [(false, firstWrite), (true, secondWrite)] ∧ env.Agrees Sqlite.store digitJson := by
  obtain ⟨env, hrun, hswapped⟩ : ∃ env : SharedEnvironment _ Bool UInt8 Unit,
      runLabels (fun env step => if env.inOrder step then
          env.next Sqlite.store digitJson plainIds step else none)
        (new []) (swaps ++ mirror false 100 ++ mirror true 101) = some env ∧
      env.swapped = [(false, firstWrite), (true, secondWrite)] := ⟨_, rfl, rfl⟩
  exact ⟨env, hswapped, agrees_of_reaches (fun _ => rfl) (guarded_of_runLabels hrun)⟩

/-- The second write reaches the log before the first: the snapshot keeps the first value. -/
theorem not_agrees_outOfOrder :
    ¬ ∀ (steps : List (EnvStep Bool UInt8)) (env : SharedEnvironment _ Bool UInt8 Unit),
      runLabels (next Sqlite.store digitJson plainIds) (new []) steps = some env →
      env.Agrees Sqlite.store digitJson := by
  intro h
  have hagrees := h (swaps ++ mirror true 101 ++ mirror false 100) _ rfl
  have hvalue := hagrees.value (by rintro (_ | _) <;> exact .inr (.inl ⟨_, rfl⟩)) "k"
  exact absurd hvalue (by decide)

end Sample

end SharedEnvironment

end Springtale.Cooperation
