import Springtale.Beat.Losses

/-! Which steps of a beat lose a task or a permit: one condition on a step, and every run by it. -/
namespace Springtale.Beat

open Springtale.Core Springtale.Sentinel Springtale.Lib

namespace Formation

variable (member : Member) (senses : Senses) (formation : Formation)

theorem inbox_momentumTier :
    (formation.inbox member senses).2.momentumTier = formation.momentumTier := by
  unfold inbox pollAssigned
  split
  · rfl
  · cases hinbox : formation.directInbox member.agentId with
    | nil =>
      cases hassigned : minByKey (·.priority)
        ((formation.blackboard.scanTasks []).filter (·.assignedTo = some member.agentId)) <;> simp
    | cons task rest => simp

/-- A member chooses what it obtained, unless it yields. -/
theorem decide_eq :
    formation.decide member senses =
      (⟨member.agentId,
          if (formation.yieldsTo senses).isSome then none else formation.obtained member senses,
          formation.yieldsTo senses⟩,
        (formation.inbox member senses).2) := by
  simp only [decide, obtained, yieldsTo, inbox_momentumTier]
  rfl

end Formation

namespace Tracked

variable {s s' : Tracked}

/-- A step beside the calls that wait and the permits. -/
theorem NothingLost.keepsPermits (h : NothingLost s) (hconsumed : s'.consumed = s.consumed)
    (hdispatched : s'.dispatched = s.dispatched)
    (hqueued : s'.run.phase.queued = s.run.phase.queued)
    (happroved : s'.run.formation.consensusApproved = s.run.formation.consensusApproved) :
    ∀ taskId ∈ s'.consumed, taskId ∉ s'.dispatched →
      taskId ∈ s'.run.phase.queued.map (·.task.id) ∨
        taskId ∈ s'.run.formation.consensusApproved := by
  rw [hconsumed, hdispatched, hqueued, happroved]
  exact h.permits

/-- A step after which every hand holds what it held. -/
theorem NothingLost.keepsTasks (h : NothingLost s) (hobtained : s'.obtained = s.obtained)
    (hdispatched : s'.dispatched = s.dispatched)
    (hhand : ∀ taskId ∈ s.run.phase.inHand, taskId ∈ s'.run.phase.inHand)
    (hoffers : ∀ taskId, s.run.formation.offers taskId = true →
      s'.run.formation.offers taskId = true) :
    ∀ taskId ∈ s'.obtained, taskId ∉ s'.dispatched →
      taskId ∈ s'.run.phase.inHand ∨ s'.run.formation.offers taskId = true := by
  rw [hobtained, hdispatched]
  intro taskId hmem hdone
  rcases h.tasks taskId hmem hdone with hinhand | hoffered
  · exact .inl (hhand taskId hinhand)
  · exact .inr (hoffers taskId hoffered)

/-- A hand is emptied, and the formation offers no less than before. -/
theorem NothingLost.settles_iff (h : NothingLost s) (chosen : Option SubTask) (others : List Uuid)
    (free : SubTask → Bool) (hobtained : s'.obtained = s.obtained)
    (hdispatched : s'.dispatched = s.dispatched)
    (hbefore : s.run.phase.inHand = (chosen.map (·.id)).toList ++ others)
    (hafter : s'.run.phase.inHand = others)
    (hoffers : ∀ taskId, s.run.formation.offers taskId = true →
      s'.run.formation.offers taskId = true)
    (hleft : ∀ task ∈ chosen, s'.run.formation.offers task.id =
      (s.run.formation.waiting task.id || free task && s.run.formation.listed task.id)) :
    (∀ taskId ∈ s'.obtained, taskId ∉ s'.dispatched →
        taskId ∈ s'.run.phase.inHand ∨ s'.run.formation.offers taskId = true) ↔
      (chosen.all fun task => s.mayLeave task.id others (free task)) = true := by
  cases chosen with
  | none =>
    refine iff_of_true (h.keepsTasks hobtained hdispatched ?_ hoffers) rfl
    intro taskId hinhand
    rw [hafter]
    rw [hbefore] at hinhand
    simpa using hinhand
  | some task =>
    refine h.leaves_iff task.id others hobtained hdispatched ?_ hafter
      (fun other _ => hoffers other) (hleft task rfl)
    intro other hinhand
    rw [hbefore] at hinhand
    simpa using hinhand

/-- A decision obtains a task, which is then in hand, or where it can be obtained again. -/
theorem NothingLost.obtains_iff (h : NothingLost s) {task : SubTask} {hand : List Uuid}
    (hobtained : s'.obtained = s.obtained ++ [task.id])
    (hdispatched : s'.dispatched = s.dispatched)
    (hhand : s'.run.phase.inHand = s.run.phase.inHand ++ hand)
    (hwidens : ∀ other, other ≠ task.id → Widens other s.run.formation s'.run.formation) :
    (∀ other ∈ s'.obtained, other ∉ s'.dispatched →
        other ∈ s'.run.phase.inHand ∨ s'.run.formation.offers other = true) ↔
      task.id ∈ s.dispatched ∨ task.id ∈ s.run.phase.inHand ++ hand ∨
        s'.run.formation.offers task.id = true := by
  rw [hobtained, hdispatched, hhand]
  constructor
  · intro hkept
    by_cases hdone : task.id ∈ s.dispatched
    · exact .inl hdone
    · exact .inr (hkept task.id (by simp) hdone)
  · intro hkept other hmem hdone
    by_cases hsame : other = task.id
    · subst hsame
      rcases hkept with hdone' | hkept
      · exact absurd hdone' hdone
      · exact hkept
    · have hbefore : other ∈ s.obtained := by simpa [hsame] using hmem
      rcases h.tasks other hbefore hdone with hinhand | hoffers
      · exact .inl (List.mem_append_left _ hinhand)
      · exact .inr ((hwidens other hsame).offers hoffers)

theorem decide_cases {senses : Senses} (hstep : s.step (.decide senses) = some s') :
    ∃ agent undecided decisions member,
      s.run.phase = .deciding (agent :: undecided) decisions ∧
      s.run.formation.member agent = some member ∧
      s'.run.formation = (s.run.formation.inbox member senses).2 ∧
      s'.obtained = s.obtained ++
        ((s.run.formation.obtained member senses).map (·.id)).toList ∧
      s'.dispatched = s.dispatched ∧ s'.consumed = s.consumed ∧
      s'.run.phase.inHand = s.run.phase.inHand ++
        (if (s.run.formation.yieldsTo senses).isSome then []
          else ((s.run.formation.obtained member senses).map (·.id)).toList) ∧
      s'.run.phase.queued = s.run.phase.queued := by
  obtain ⟨run', hrun, rfl⟩ := Option.map_eq_some_iff.mp hstep
  simp only [Beat.step, Run.decide] at hrun
  split at hrun
  case h_2 => cases hrun
  case h_1 agent undecided decisions hphase =>
    obtain ⟨member, hmember, rfl⟩ := Option.map_eq_some_iff.mp hrun
    rw [Formation.decide_eq]
    refine ⟨agent, undecided, decisions, member, hphase, hmember, rfl, ?_, ?_, ?_, ?_, ?_⟩
    · simp [Run.obtains, hphase, hmember]
    · simp [Run.dispatches]
    · simp [Run.consumes]
    · by_cases hyields : (s.run.formation.yieldsTo senses).isSome = true
      · cases s.run.formation.obtained member senses <;> simp [hphase, hyields]
      · cases s.run.formation.obtained member senses <;> simp [hphase, hyields]
    · simp [hphase]

theorem NothingLost.decide_iff (h : NothingLost s) {senses : Senses}
    (hstep : s.step (.decide senses) = some s') :
    NothingLost s' ↔ s.keeps (.decide senses) = true := by
  obtain ⟨agent, undecided, decisions, member, hphase, hmember, hformation, hobtained,
    hdispatched, hconsumed, hhand, hqueued⟩ := decide_cases hstep
  have happroved : s'.run.formation.consensusApproved = s.run.formation.consensusApproved := by
    rw [hformation]
    exact (s.run.formation.decide_keepsVotes member senses).approved
  rw [nothingLost_iff, and_iff_left (h.keepsPermits hconsumed hdispatched hqueued happroved)]
  simp only [keeps, hphase, hmember, Option.all_some]
  cases htask : s.run.formation.obtained member senses with
  | none =>
    have hempty : (s.run.formation.inbox member senses).1 = none := by
      simp only [Formation.obtained, Option.or_eq_none_iff] at htask
      exact htask.1
    rw [htask, Option.map_none, Option.toList_none, List.append_nil] at hobtained
    refine iff_of_true (h.keepsTasks hobtained hdispatched ?_ ?_) (by simp)
    · intro taskId hinhand
      rw [hhand]
      exact List.mem_append_left _ hinhand
    · intro taskId hoffers
      rw [hformation]
      refine (Formation.inbox_widens taskId _ member senses ?_).offers hoffers
      intro task hfound
      rw [hempty] at hfound
      cases hfound
  | some task =>
    rw [htask] at hobtained hhand
    have hwidens : ∀ other, other ≠ task.id → Widens other s.run.formation s'.run.formation := by
      intro other hother
      rw [hformation]
      apply Formation.inbox_widens
      intro found hfound heq
      have hsame : found = task := by
        simpa [Formation.obtained, hfound] using htask
      exact hother (heq ▸ congrArg SubTask.id hsame)
    rw [h.obtains_iff hobtained hdispatched hhand hwidens, hformation, Formation.inbox_offers]
    cases hyields : s.run.formation.yieldsTo senses with
    | none => simp
    | some peer => simp [hphase, or_assoc]

theorem chosenTask_of_claimTarget {autonomy : AutonomyLevel} {hints : Option ActionHints}
    {decision : Decision} {member : Member} {formation : Formation} {task : SubTask}
    (htarget : formation.claimTarget autonomy hints decision member = some task) :
    decision.chosenTask = some task := by
  unfold Formation.claimTarget Formation.taskToClaim at htarget
  split at htarget
  · cases htarget
  · split at htarget
    · cases htarget
    · split at htarget
      · cases htarget
      · exact htarget

/-- A cleared call keeps its task in hand, and its permit waits with it. -/
theorem NothingLost.clears (h : NothingLost s) (task : SubTask) {used : List Uuid}
    (hobtained : s'.obtained = s.obtained) (hdispatched : s'.dispatched = s.dispatched)
    (hconsumed : s'.consumed = s.consumed ++ used) (hused : ∀ other ∈ used, other = task.id)
    (hhand : ∀ other ∈ s.run.phase.inHand, other ∈ s'.run.phase.inHand)
    (hqueued : s'.run.phase.queued.map (·.task.id) =
      s.run.phase.queued.map (·.task.id) ++ [task.id])
    (hcarried : task.id ∈ s'.run.phase.inHand)
    (hwidens : ∀ other, other ≠ task.id → Widens other s.run.formation s'.run.formation)
    (happroved : ∀ other, other ≠ task.id → other ∈ s.run.formation.consensusApproved →
      other ∈ s'.run.formation.consensusApproved) : NothingLost s' := by
  refine ⟨?_, ?_⟩
  · rw [hobtained, hdispatched]
    intro other hmem hdone
    by_cases hsame : other = task.id
    · exact .inl (hsame ▸ hcarried)
    · rcases h.tasks other hmem hdone with hinhand | hoffers
      · exact .inl (hhand other hinhand)
      · exact .inr ((hwidens other hsame).offers hoffers)
  · rw [hconsumed, hdispatched, hqueued]
    intro other hmem hdone
    by_cases hsame : other = task.id
    · exact .inl (by simp [hsame])
    · rcases List.mem_append.mp hmem with hmem | hmem
      · rcases h.permits other hmem hdone with hwaits | hpermit
        · exact .inl (List.mem_append_left _ hwaits)
        · exact .inr (happroved other hsame hpermit)
      · exact absurd (hused other hmem) hsame

/-- What the claim phase does for its next member. -/
inductive ClaimTurn (autonomy : AutonomyLevel) (hints : Option ActionHints) (decision : Decision)
    (decisions : List Decision) (settled : Outcomes) (jobs : List DispatchJob) (s s' : Tracked) :
    Prop
  | left (hmember : s.run.formation.member decision.agent = none)
      (hconsumed : s'.consumed = s.consumed)
      (hformation : s'.run.formation = s.run.formation)
      (hphase : s'.run.phase = .claiming decisions settled jobs)
  | exits (member : Member) (outcome : ExecuteOutcome)
      (hmember : s.run.formation.member decision.agent = some member)
      (hexits : s.run.formation.clears autonomy hints decision member = false)
      (hconsumed : s'.consumed = s.consumed)
      (hformation : s'.run.formation =
        (s.run.formation.prepare autonomy hints decision member).1)
      (hphase : s'.run.phase =
        .claiming decisions (settled ++ [(decision.agent, outcome)]) jobs)
  | clears (member : Member) (task : SubTask)
      (hmember : s.run.formation.member decision.agent = some member)
      (hclears : s.run.formation.clears autonomy hints decision member = true)
      (htarget : s.run.formation.claimTarget autonomy hints decision member = some task)
      (hconsumed : s'.consumed = s.consumed ++
        if s.run.formation.needsConsensus hints then [task.id] else [])
      (hformation : s'.run.formation =
        (s.run.formation.prepare autonomy hints decision member).1)
      (hphase : s'.run.phase =
        .claiming decisions settled (jobs ++ [⟨member.agentId, task⟩]))

theorem prepare_cases {autonomy : AutonomyLevel} {hints : Option ActionHints}
    (hstep : s.step (.prepare autonomy hints) = some s') :
    ∃ decision decisions settled jobs,
      s.run.phase = .claiming (decision :: decisions) settled jobs ∧
      s'.obtained = s.obtained ∧ s'.dispatched = s.dispatched ∧
      ClaimTurn autonomy hints decision decisions settled jobs s s' := by
  obtain ⟨run', hrun, rfl⟩ := Option.map_eq_some_iff.mp hstep
  simp only [Beat.step, Run.prepare] at hrun
  split at hrun
  case h_2 => cases hrun
  case h_1 decision decisions settled jobs hphase =>
    refine ⟨decision, decisions, settled, jobs, hphase, by simp [Run.obtains],
      by simp [Run.dispatches], ?_⟩
    cases hmember : s.run.formation.member decision.agent with
    | none =>
      rw [hmember] at hrun
      cases hrun
      refine .left hmember ?_ rfl rfl
      simp [Run.consumes, Run.claimTarget, hphase, hmember]
    | some member =>
      rw [hmember] at hrun
      dsimp only at hrun
      have htaken : s.run.claimTarget autonomy hints =
          s.run.formation.claimTarget autonomy hints decision member := by
        simp [Run.claimTarget, hphase, hmember]
      cases hclears : s.run.formation.clears autonomy hints decision member with
      | false =>
        obtain ⟨outcome, hsettled, -⟩ := Formation.prepare_exits _ hclears
        generalize hprepare : s.run.formation.prepare autonomy hints decision member = prepared
          at hrun hsettled
        obtain ⟨formation, result⟩ := prepared
        cases hsettled
        cases hrun
        refine .exits member outcome hmember hclears ?_ (by rw [hprepare]) rfl
        cases htarget : s.run.formation.claimTarget autonomy hints decision member with
        | none => simp [Run.consumes, htaken, htarget]
        | some task =>
          simp only [Formation.clears, htarget, Option.any_some, Bool.or_eq_false_iff,
            Bool.not_eq_false', decide_eq_false_iff_not] at hclears
          simp [Run.consumes, htaken, htarget, hclears]
      | true =>
        obtain ⟨task, htarget, hdispatch, -⟩ := Formation.prepare_clears _ hclears
        generalize hprepare : s.run.formation.prepare autonomy hints decision member = prepared
          at hrun hdispatch
        obtain ⟨formation, result⟩ := prepared
        cases hdispatch
        cases hrun
        refine .clears member task hmember hclears htarget ?_ (by rw [hprepare]) rfl
        simp only [Formation.clears, htarget, Option.any_some, Bool.or_eq_true, Bool.not_eq_true',
          decide_eq_true_eq] at hclears
        rcases hclears with hno | hpermit
        · simp [Run.consumes, htaken, htarget, hno]
        · by_cases hneeds : s.run.formation.needsConsensus hints = true <;>
            simp [Run.consumes, htaken, htarget, hpermit, hneeds]

theorem inHand_claiming (decision : Decision) (decisions : List Decision)
    (settled settled' : Outcomes) (jobs : List DispatchJob) :
    (Phase.claiming (decision :: decisions) settled jobs).inHand =
      (decision.chosenTask.map (·.id)).toList ++
        (Phase.claiming decisions settled' jobs).inHand := by
  cases h : decision.chosenTask <;> simp [h]

theorem NothingLost.prepare_iff (h : NothingLost s) {autonomy : AutonomyLevel}
    {hints : Option ActionHints} (hstep : s.step (.prepare autonomy hints) = some s') :
    NothingLost s' ↔ s.keeps (.prepare autonomy hints) = true := by
  obtain ⟨decision, decisions, settled, jobs, hphase, hobtained, hdispatched, hturn⟩ :=
    prepare_cases hstep
  have hbefore : s.run.phase.inHand = (decision.chosenTask.map (·.id)).toList ++
      (Phase.claiming decisions settled jobs).inHand := by
    rw [hphase]
    exact inHand_claiming ..
  cases hturn with
  | left hmember hconsumed hformation hafter =>
    have hpermits := h.keepsPermits hconsumed hdispatched (by simp [hphase, hafter])
      (by rw [hformation])
    have htasks := h.settles_iff _ _ _ hobtained hdispatched hbefore (by rw [hafter])
      (by simp [hformation]) (fun task _ => by rw [hformation]; rfl)
    rw [nothingLost_iff, and_iff_left hpermits, htasks]
    simp only [keeps, hphase, hmember]
  | exits member outcome hmember hexits hconsumed hformation hafter =>
    obtain ⟨-, -, happroved, hoffers⟩ := Formation.prepare_exits _ hexits
    rw [← hformation] at happroved hoffers
    have hpermits := h.keepsPermits hconsumed hdispatched (by simp [hphase, hafter]) happroved
    have hmore : ∀ taskId, s.run.formation.offers taskId = true →
        s'.run.formation.offers taskId = true := by
      intro taskId hoffered
      rw [hoffers]
      simp only [Formation.offers, Bool.or_eq_true, Bool.and_eq_true] at hoffered ⊢
      tauto
    have htasks := h.settles_iff _ _ _ hobtained hdispatched hbefore (by rw [hafter]; simp) hmore
      (fun task _ => hoffers task.id)
    rw [nothingLost_iff, and_iff_left hpermits, htasks]
    simp only [keeps, hphase, hmember, hexits, Bool.false_or]
  | clears member task hmember hclears htarget hconsumed hformation hafter =>
    obtain ⟨cleared, htarget', -, happroved, hwidens⟩ := Formation.prepare_clears _ hclears
    obtain rfl : cleared = task := Option.some.inj (htarget'.symm.trans htarget)
    rw [← hformation] at happroved hwidens
    have hchosen := chosenTask_of_claimTarget htarget
    refine iff_of_true (h.clears cleared hobtained hdispatched hconsumed ?_ ?_ ?_ ?_
      hwidens ?_) ?_
    · intro other hmem
      split at hmem
      · simpa using hmem
      · cases hmem
    · intro other hinhand
      rw [hbefore, hchosen] at hinhand
      simp only [hafter, Phase.inHand, Option.map_some, Option.toList_some, List.map_append,
        List.map_cons, List.map_nil, List.mem_append, List.mem_singleton] at hinhand ⊢
      tauto
    · simp [hphase, hafter]
    · simp [hafter]
    · intro other hother hpermit
      rw [happroved]
      split
      · exact List.mem_filter.mpr ⟨hpermit, by simpa using hother⟩
      · exact hpermit
    · simp [keeps, hphase, hmember, hclears]

theorem defer_cases (hstep : s.step .defer = some s') :
    ∃ job queue settled outcomes,
      s.run.phase = .closing [] (job :: queue) settled outcomes ∧
      s'.run.formation = s.run.formation.joinFailed job.agent job.task.id id ∧
      s'.run.phase = .closing [] queue settled (outcomes ++ [(job.agent, .settled)]) ∧
      s'.obtained = s.obtained ∧ s'.dispatched = s.dispatched ∧ s'.consumed = s.consumed := by
  obtain ⟨run', hrun, rfl⟩ := Option.map_eq_some_iff.mp hstep
  simp only [Beat.step, Run.defer] at hrun
  split at hrun
  case h_2 => cases hrun
  case h_1 job queue settled outcomes hphase =>
    cases hrun
    exact ⟨job, queue, settled, outcomes, hphase, rfl, rfl, by simp [Run.obtains],
      by simp [Run.dispatches], by simp [Run.consumes]⟩

theorem NothingLost.defer_iff (h : NothingLost s) (hstep : s.step .defer = some s') :
    NothingLost s' ↔ s.keeps .defer = true := by
  obtain ⟨job, queue, settled, outcomes, hphase, hformation, hafter, hobtained, hdispatched,
    hconsumed⟩ := defer_cases hstep
  have hwidens : ∀ taskId, Widens taskId s.run.formation s'.run.formation := by
    intro taskId
    rw [hformation]
    exact Formation.joinFailed_widens _ _ _ _ fun _ => ⟨rfl, rfl⟩
  have hleft : s'.run.formation.offers job.task.id =
      (s.run.formation.waiting job.task.id || true && s.run.formation.listed job.task.id) := by
    have hcleared : s'.run.formation.offers job.task.id =
        (s.run.formation.release job.agent job.task.id).offers job.task.id := by
      rw [hformation]
      exact Formation.memberMut_offers _ _ _ fun _ => ⟨rfl, rfl⟩
    rw [hcleared, Formation.release_offers]
    simp
  have htasks := h.settles_iff (some job.task) (queue.map (·.task.id)) (fun _ => true)
    hobtained hdispatched (by simp [hphase]) (by simp [hafter])
    (fun taskId => (hwidens taskId).offers) (by rintro _ ⟨⟩; exact hleft)
  have hpermits := h.forfeits_iff job.task.id (queue.map (·.task.id)) hconsumed hdispatched
    (by simp [hphase]) (by simp [hafter]) (by rw [hformation]; rfl)
  rw [nothingLost_iff, htasks, hpermits, ← Bool.and_eq_true]
  simp only [keeps, hphase, Option.all_some]

theorem post_cases (hstep : s.step .post = some s') :
    ∃ agent outcome outcomes proposals,
      s.run.phase = .gathering ((agent, outcome) :: outcomes) proposals ∧
      s'.run.formation = s.run.formation.post agent outcome ∧
      s'.run.phase = .gathering outcomes (proposals ++ outcome.consensusTask.toList) ∧
      s'.obtained = s.obtained ∧ s'.dispatched = s.dispatched ∧ s'.consumed = s.consumed := by
  obtain ⟨run', hrun, rfl⟩ := Option.map_eq_some_iff.mp hstep
  simp only [Beat.step, Run.post] at hrun
  split at hrun
  case h_2 => cases hrun
  case h_1 agent outcome outcomes proposals hphase =>
    cases hrun
    exact ⟨agent, outcome, outcomes, proposals, hphase, rfl, rfl, by simp [Run.obtains],
      by simp [Run.dispatches], by simp [Run.consumes]⟩

/-- A result lands where its member is there and the board has fuel for it. -/
theorem post_lands_or_widens (formation : Formation) (agent : Uuid) (outcome : ExecuteOutcome) :
    (∃ done, outcome.dispatched = some done ∧ (formation.member agent).isSome = true ∧
        formation.fuel ≠ 0) ∨
      ((outcome.dispatched.all fun _ =>
          (formation.member agent).isNone || decide (formation.fuel = 0)) = true ∧
        ∀ taskId, Widens taskId formation (formation.post agent outcome)) := by
  cases hdone : outcome.dispatched with
  | none =>
    refine .inr ⟨rfl, fun taskId => ?_⟩
    rw [Formation.post_of_nothing agent formation hdone]
    exact Widens.refl ..
  | some done =>
    cases hmember : formation.member agent with
    | none =>
      refine .inr ⟨rfl, fun taskId => ?_⟩
      rw [Formation.post_of_left outcome hmember]
      exact Widens.refl ..
    | some m =>
      by_cases hfuel : formation.fuel = 0
      · refine .inr ⟨by simp [hfuel], fun taskId => ?_⟩
        have hposted : formation.postResult
            ⟨done.task.id, agent, done.success, done.output, outcome.durationMs⟩ = formation := by
          simp [Formation.postResult, Blackboard.postResult, consume, hfuel]
        simp only [Formation.post, hmember, Option.isNone_some, Bool.false_eq_true, if_false, hdone,
          hposted]
        split
        · exact (Formation.handOver_widens ..).trans
            (Formation.memberMut_widens _ _ _ fun _ => ⟨rfl, rfl⟩)
        · exact Formation.memberMut_widens _ _ _ fun _ => ⟨rfl, rfl⟩
      · exact .inl ⟨done, rfl, rfl, hfuel⟩

theorem NothingLost.post_iff (h : NothingLost s) (hstep : s.step .post = some s') :
    NothingLost s' ↔ s.keeps .post = true := by
  obtain ⟨agent, outcome, outcomes, proposals, hphase, hformation, hafter, hobtained, hdispatched,
    hconsumed⟩ := post_cases hstep
  have hpermits := h.keepsPermits hconsumed hdispatched (by simp [hphase, hafter])
    (by rw [hformation]; exact (Formation.post_keepsVotes ..).approved)
  rw [nothingLost_iff, and_iff_left hpermits]
  simp only [keeps, hphase]
  rcases post_lands_or_widens s.run.formation agent outcome with
    ⟨done, hdone, hmember, hfuel⟩ | ⟨hnowhere, hwidens⟩
  · have hwaiting : s'.run.formation.offers done.task.id =
        (s.run.formation.waiting done.task.id ||
          false && s.run.formation.listed done.task.id) := by
      rw [hformation, Bool.false_and, Bool.or_false, Bool.eq_iff_iff]
      exact Formation.post_offers _ hmember hdone hfuel
    have hoffers : ∀ other, other ≠ done.task.id → s.run.formation.offers other = true →
        s'.run.formation.offers other = true := by
      intro other hother hoffered
      rw [hformation]
      refine (Formation.post_widens other _ agent outcome ?_).offers hoffered
      intro done' hdone'
      obtain rfl : done' = done := Option.some.inj (hdone'.symm.trans hdone)
      exact Ne.symm hother
    rw [h.leaves_iff done.task.id [] hobtained hdispatched
      (by simp [hphase]) (by simp [hafter]) hoffers hwaiting]
    have hpresent : (s.run.formation.member agent).isNone = false := by simpa using hmember
    simp [hdone, hpresent, hfuel]
  · refine iff_of_true (h.keepsTasks hobtained hdispatched (by simp [hphase]) ?_) ?_
    · intro taskId hoffered
      rw [hformation]
      exact (hwidens taskId).offers hoffered
    · cases hdone : outcome.dispatched with
      | none => rfl
      | some done =>
        rw [hdone, Option.all_some] at hnowhere
        rw [Option.all_some, hnowhere, Bool.true_or]

/-- A step loses nothing exactly when it meets the condition. -/
theorem NothingLost.step_iff {label : Label} (h : NothingLost s)
    (hstep : s.step label = some s') : NothingLost s' ↔ s.keeps label = true := by
  by_cases hlabel : label.letsGo = true
  · cases label with
    | decide senses => exact h.decide_iff hstep
    | prepare autonomy hints => exact h.prepare_iff hstep
    | defer => exact h.defer_iff hstep
    | post => exact h.post_iff hstep
    | beat tick =>
      obtain ⟨run', -, rfl⟩ := Option.map_eq_some_iff.mp hstep
      exact iff_of_true ⟨nofun, nofun⟩ rfl
    | upkeep u =>
      obtain ⟨run', -, rfl⟩ := Option.map_eq_some_iff.mp hstep
      exact iff_of_true ⟨nofun, nofun⟩ rfl
    | _ => cases hlabel
  · obtain ⟨run', hrun, rfl⟩ := Option.map_eq_some_iff.mp hstep
    have hpasses := step_passes (by simpa using hlabel) hrun
    cases label with
    | decide _ | prepare _ _ | defer | post | beat _ | upkeep _ => exact absurd rfl hlabel
    | _ =>
      refine iff_of_true (h.pass ?_ ?_ rfl hpasses) rfl
      · simp [Run.obtains]
      · simp [Run.consumes]

/-- A formation between two beats. -/
def atRest (formation : Formation) : Tracked := ⟨⟨formation, .idle⟩, [], [], []⟩

/-- A beat that has ended lost nothing: what it obtained and did not dispatch can be obtained
again, and the permits that it used up for no dispatch are available. -/
structure BeatLosesNothing (s : Tracked) : Prop where
  tasks : ∀ taskId ∈ s.obtained, taskId ∉ s.dispatched → s.run.formation.offers taskId = true
  permits : ∀ taskId ∈ s.consumed, taskId ∉ s.dispatched →
    taskId ∈ s.run.formation.consensusApproved

/-- Between two beats nothing is in hand and no call waits. -/
theorem NothingLost.beatLosesNothing (h : NothingLost s) (hidle : s.run.phase = .idle) :
    BeatLosesNothing s where
  tasks taskId hmem hdone := by
    have hkept := h.tasks taskId hmem hdone
    rw [hidle] at hkept
    simpa using hkept
  permits taskId hmem hdone := by
    have hkept := h.permits taskId hmem hdone
    rw [hidle] at hkept
    simpa using hkept

/-- Every step of a run that its state allows meets the condition. -/
def KeepsAll (formation : Formation) (labels : List Label) : Prop :=
  EachCall (fun pre label =>
    ((runLabels step (atRest formation) pre).all fun s =>
      (s.step label).isNone || s.keeps label) = true) labels

instance (formation : Formation) (labels : List Label) : Decidable (KeepsAll formation labels) :=
  inferInstanceAs (Decidable (EachCall _ labels))

/-- From any formation, a run loses nothing at any moment exactly when all its steps meet the
condition, and then none of its beats has lost anything when it ends. -/
theorem losesNothing_iff_keepsAll (formation : Formation) (labels : List Label) :
    (Throughout (fun pre => ∀ s, runLabels step (atRest formation) pre = some s → NothingLost s)
        labels ↔ KeepsAll formation labels) ∧
      (KeepsAll formation labels → ∀ s, runLabels step (atRest formation) labels = some s →
        s.run.phase = .idle → BeatLosesNothing s) := by
  have hexact : Throughout (fun pre => ∀ s, runLabels step (atRest formation) pre = some s →
      NothingLost s) labels ↔ KeepsAll formation labels :=
    throughout_runs_iff ⟨nofun, nofun⟩ (fun _ _ _ h hstep => h.step_iff hstep) labels
  refine ⟨hexact, ?_⟩
  intro hkeeps s hrun hidle
  exact ((hexact.mpr hkeeps).self s hrun).beatLosesNothing hidle

section Samples

/-- A beat of two members up to the calls that they were cleared for. -/
def claims (autonomy : AutonomyLevel) : List Label :=
  [.beat 1, .decide ⟨fun _ => 0, none, none⟩, .decide ⟨fun _ => 0, none, none⟩, .decided,
    .prepare autonomy none, .prepare autonomy none, .prepared, .collect none, .collect none,
    .collected]

/-- A beat of two members that dispatch nothing. -/
def idleBeat : List Label :=
  claims .observe ++ ([.windowClosed, .closed, .post, .post, .posted] : List Label)

/-- A beat of two members with two cleared calls, of which the window lets one start. -/
def cappedBeat : List Label :=
  claims .actAutonomously ++
    ([.spawn, .windowClosed, .carryOver, .defer, .closed, .post, .post, .posted] : List Label)

/-- A warming formation, with a task in the inbox of member 1. -/
def assigned : Formation :=
  { (crew "shell" "mail" []).formation with
    momentumTier := .warming
    directInbox := fun agent => if agent = 1 then [chore 7 "shell"] else [] }

/-- A formation that may run one call at a time, with two approved tasks. -/
def approved : Formation :=
  { (crew "shell" "mail" [chore 7 "shell", chore 8 "mail"]).formation with
    destructiveActionPolicy := .requireConsensus
    maxConcurrentActions := 1
    consensusApproved := [7, 8] }

/-- A member at `observe` takes a task out of its inbox and drops it; and a call held back by the
cap gives its claim up, but not its permit. -/
theorem task_and_permit_lost :
    (∃ s, runLabels step (atRest assigned) idleBeat = some s ∧ s.run.phase = .idle ∧
        s.obtained = [7] ∧ s.dispatched = [] ∧ ¬ BeatLosesNothing s) ∧
      ∃ s, runLabels step (atRest approved) cappedBeat = some s ∧ s.run.phase = .idle ∧
        s.consumed = [7, 8] ∧ s.dispatched = [7] ∧ ¬ BeatLosesNothing s := by
  obtain ⟨s, hrun, hidle, hobtained, hdispatched, hoffers⟩ : ∃ s,
      runLabels step (atRest assigned) idleBeat = some s ∧ s.run.phase = .idle ∧
        s.obtained = [7] ∧ s.dispatched = [] ∧ s.run.formation.offers 7 = false :=
    ⟨_, rfl, rfl, rfl, rfl, rfl⟩
  obtain ⟨t, hrun', hidle', hconsumed, hdispatched', hpermits⟩ : ∃ t,
      runLabels step (atRest approved) cappedBeat = some t ∧ t.run.phase = .idle ∧
        t.consumed = [7, 8] ∧ t.dispatched = [7] ∧ t.run.formation.consensusApproved = [] :=
    ⟨_, rfl, rfl, rfl, rfl, rfl⟩
  refine ⟨⟨s, hrun, hidle, hobtained, hdispatched, ?_⟩,
    ⟨t, hrun', hidle', hconsumed, hdispatched', ?_⟩⟩
  · intro h
    have hoffered := h.tasks 7 (by simp [hobtained]) (by simp [hdispatched])
    rw [hoffers] at hoffered
    cases hoffered
  · intro h
    have hpermit := h.permits 8 (by simp [hconsumed]) (by simp [hdispatched'])
    rw [hpermits] at hpermit
    cases hpermit

/-- The same beat of a member that finds its task on the board: the task stays there. -/
theorem losesNothing_observed :
    ∃ s, runLabels step (atRest (crew "shell" "mail" [chore 7 "shell"]).formation) idleBeat =
        some s ∧ s.obtained = [7] ∧ s.dispatched = [] ∧ BeatLosesNothing s := by
  obtain ⟨s, hrun, hidle, hobtained, hdispatched⟩ : ∃ s,
      runLabels step (atRest (crew "shell" "mail" [chore 7 "shell"]).formation) idleBeat =
        some s ∧ s.run.phase = .idle ∧ s.obtained = [7] ∧ s.dispatched = [] :=
    ⟨_, rfl, rfl, rfl, rfl⟩
  exact ⟨s, hrun, hobtained, hdispatched,
    (losesNothing_iff_keepsAll _ idleBeat).2 (by decide) s hrun hidle⟩

end Samples

end Tracked

end Springtale.Beat
