import Springtale.Cooperation.ContractNet

/-! What becomes of a takeover: the bids on a call are made when a later beat opens it, and by then
its round is over. -/
namespace Springtale.Cooperation

open Springtale.Core Springtale.Formation Springtale.Beat Springtale.Lib

section Selection

theorem Bid.not_exceeds_trans {a b c : Bid} (hab : ¬ b.exceeds a) (hbc : ¬ c.exceeds b) :
    ¬ c.exceeds a := by
  simp only [exceeds, not_or, not_and, not_lt] at hab hbc ⊢
  refine ⟨hbc.1.trans hab.1, ?_⟩
  intro hsame
  have hba : b.utility = a.utility := le_antisymm hab.1 (hsame ▸ hbc.1)
  exact (hbc.2 (hsame.trans hba.symm)).trans (hab.2 hba)

theorem Bid.not_exceeds_self (a : Bid) : ¬ a.exceeds a := by
  simp [exceeds]

theorem Bid.not_exceeds_of_exceeds {a b : Bid} (h : a.exceeds b) : ¬ b.exceeds a := by
  rcases h with hless | ⟨hsame, hless⟩
  · simp only [exceeds, not_or, not_and]
    exact ⟨not_lt_of_gt hless, fun heq => absurd heq (ne_of_lt hless)⟩
  · simp only [exceeds, not_or, not_and, hsame]
    exact ⟨lt_irrefl _, fun _ => not_lt_of_gt hless⟩

theorem highestUtility_foldl (bids : List Bid) (bid : Bid) :
    (bids.foldl (fun best bid => if best.exceeds bid then best else bid) bid ∈ bid :: bids) ∧
      ∀ b ∈ bid :: bids,
        ¬ b.exceeds (bids.foldl (fun best bid => if best.exceeds bid then best else bid) bid) := by
  induction bids generalizing bid with
  | nil =>
    refine ⟨List.mem_cons_self, ?_⟩
    intro b hb
    rw [List.mem_singleton.mp hb]
    exact Bid.not_exceeds_self bid
  | cons other bids ih =>
    rw [List.foldl_cons]
    obtain ⟨hmem, hbest⟩ := ih (if bid.exceeds other then bid else other)
    have hnext := hbest _ List.mem_cons_self
    by_cases hexceeds : bid.exceeds other
    · rw [if_pos hexceeds] at hmem hbest hnext ⊢
      refine ⟨?_, ?_⟩
      · rcases List.mem_cons.mp hmem with heq | hrest
        · rw [heq]
          exact List.mem_cons_self
        · exact List.mem_cons_of_mem _ (List.mem_cons_of_mem _ hrest)
      · intro b hb
        rcases List.mem_cons.mp hb with rfl | hb
        · exact hnext
        rcases List.mem_cons.mp hb with rfl | hb
        · exact Bid.not_exceeds_trans hnext (Bid.not_exceeds_of_exceeds hexceeds)
        · exact hbest b (List.mem_cons_of_mem _ hb)
    · rw [if_neg hexceeds] at hmem hbest hnext ⊢
      refine ⟨List.mem_cons_of_mem _ hmem, ?_⟩
      intro b hb
      rcases List.mem_cons.mp hb with rfl | hb
      · exact Bid.not_exceeds_trans hnext hexceeds
      · exact hbest b hb

/-- The selected bid is one of the bids, and none exceeds it. -/
theorem highestUtility_spec {bids : List Bid} {winning : Bid}
    (h : highestUtility bids = some winning) :
    winning ∈ bids ∧ ∀ b ∈ bids, ¬ b.exceeds winning := by
  cases bids with
  | nil => cases h
  | cons bid bids =>
    obtain rfl := Option.some.inj h
    exact highestUtility_foldl bids bid

end Selection

namespace ContractNet

variable {draw : Nat → Uuid} {net net' : ContractNet}

/-- What every step of every run keeps. -/
structure Rounds (draw : Nat → Uuid) (net : ContractNet) : Prop where
  subscribed : net.cfpReceivers ≠ 0
  announced : ∀ cfp ∈ net.cfps.sent, ∃ i < net.drawn, cfp.id = draw i
  bids : ∀ bid ∈ net.bids, ∃ i < net.drawn, bid.cfpId = draw i
  alone : ∀ cfp received, net.collecting = some (cfp, received) →
    received = [] ∧ ∀ bid ∈ net.bids, bid.cfpId ≠ cfp.id

theorem rounds_new (members : List Member) (tier : MomentumTier) (load : Uuid → Rat) :
    Rounds draw (new members tier load) := by
  refine ⟨Nat.one_ne_zero, ?_, ?_, ?_⟩
  · intro cfp hcfp
    cases hcfp
  · intro bid hbid
    cases hbid
  · intro cfp received hcollecting
    cases hcollecting

theorem drainOpenCfps_eq (net : ContractNet) : net.drainOpenCfps =
    { net with
      openCfps := net.cfps.keptFrom net.cfpRx.next
      cfpRx := ⟨max net.cfpRx.next net.cfps.tail⟩ } := by
  simp only [drainOpenCfps, Broadcast.recvAll_eq, List.filterMap_some]

/-- A bid of a beat is on a call that was announced. -/
theorem mem_bids_beat {bid : Bid} (h : bid ∈ net.beat.bids) :
    bid ∈ net.bids ∨ ∃ cfp ∈ net.cfps.sent, bid.cfpId = cfp.id := by
  simp only [beat, drainOpenCfps_eq] at h
  split at h
  case h_1 => exact .inl h
  case h_2 cfp hopen =>
    rcases List.mem_append.mp h with hbid | hbid
    · exact .inl hbid
    · obtain ⟨m, -, hrespond⟩ := List.mem_filterMap.mp hbid
      refine .inr ⟨cfp, List.mem_of_mem_drop (List.mem_of_mem_head? hopen), ?_⟩
      unfold respondCfp evaluate at hrespond
      split at hrespond
      case isFalse => cases hrespond
      case isTrue =>
        obtain ⟨utility, -, rfl⟩ := Option.map_eq_some_iff.mp hrespond
        rfl

theorem beat_frame (net : ContractNet) : net.beat.cfps = net.cfps ∧
    net.beat.cfpReceivers = net.cfpReceivers ∧ net.beat.drawn = net.drawn ∧
    net.beat.collecting = net.collecting := by
  simp only [beat, drainOpenCfps_eq]
  split <;> exact ⟨rfl, rfl, rfl, rfl⟩

theorem rounds_beat (h : Rounds draw net) (hidle : net.collecting = none) :
    Rounds draw net.beat := by
  obtain ⟨hcfps, hreceivers, hdrawn, hcollecting⟩ := net.beat_frame
  refine ⟨by rw [hreceivers]; exact h.subscribed, ?_, ?_, ?_⟩
  · rw [hcfps, hdrawn]
    exact h.announced
  · intro bid hbid
    rw [hdrawn]
    rcases mem_bids_beat hbid with hold | ⟨cfp, hcfp, hid⟩
    · exact h.bids bid hold
    · rw [hid]
      exact h.announced cfp hcfp
  · intro cfp received hround
    rw [hcollecting, hidle] at hround
    cases hround

theorem Rounds.resolve (h : Rounds draw net) (cfpId : Uuid) (outcome : RoundOutcome) :
    Rounds draw (net.resolve cfpId outcome) :=
  ⟨h.subscribed, h.announced, h.bids, fun _ _ hround => by cases hround⟩

/-- Drawing an id keeps what was drawn before. -/
theorem Rounds.draws (h : Rounds draw net) (hidle : net.collecting = none) :
    Rounds draw { net with drawn := net.drawn + 1 } := by
  refine ⟨h.subscribed, ?_, ?_, ?_⟩
  · intro cfp hcfp
    obtain ⟨i, hi, hid⟩ := h.announced cfp hcfp
    exact ⟨i, Nat.lt_succ_of_lt hi, hid⟩
  · intro bid hbid
    obtain ⟨i, hi, hid⟩ := h.bids bid hbid
    exact ⟨i, Nat.lt_succ_of_lt hi, hid⟩
  · intro cfp received hround
    rw [show net.collecting = some (cfp, received) from hround] at hidle
    cases hidle

theorem rounds_takeover (hdraw : Function.Injective draw) (h : Rounds draw net)
    (hidle : net.collecting = none) {failingAgent : Uuid}
    (hstart : net.runTakeoverCfp draw failingAgent = some net') : Rounds draw net' := by
  have hdraws := h.draws hidle
  simp only [runTakeoverCfp] at hstart
  split at hstart
  case h_1 => cases hstart
  case h_2 active hactive =>
    split at hstart
    case h_1 e herror =>
      obtain rfl := Option.some.inj hstart
      exact hdraws.resolve _ _
    case h_2 =>
      rw [if_neg h.subscribed] at hstart
      obtain rfl := Option.some.inj hstart
      refine ⟨h.subscribed, ?_, hdraws.bids, ?_⟩
      · intro cfp hcfp
        rcases List.mem_append.mp hcfp with hsent | hnew
        · exact hdraws.announced cfp hsent
        · obtain rfl := List.mem_singleton.mp hnew
          exact ⟨net.drawn, Nat.lt_succ_self _, rfl⟩
      · intro cfp received hround
        obtain ⟨rfl, rfl⟩ := Prod.mk.inj (Option.some.inj hround)
        refine ⟨rfl, ?_⟩
        intro bid hbid hsame
        obtain ⟨i, hi, hid⟩ := h.bids bid hbid
        have heq := hdraw (hid.symm.trans hsame)
        omega

theorem rounds_collectBid (h : Rounds draw net) (hcollect : net.collectBid = some net') :
    Rounds draw net' := by
  simp only [collectBid] at hcollect
  split at hcollect
  case h_2 => cases hcollect
  case h_1 cfp received bid rest hround hbids =>
    obtain rfl := Option.some.inj hcollect
    obtain ⟨hnone, hother⟩ := h.alone cfp received hround
    rw [hbids] at hother
    have hmem := h.bids
    rw [hbids] at hmem
    refine ⟨h.subscribed, h.announced, fun b hb => hmem b (List.mem_cons_of_mem _ hb), ?_⟩
    intro cfp' received' hround'
    obtain ⟨rfl, rfl⟩ := Prod.mk.inj (Option.some.inj hround')
    rw [if_neg (hother bid List.mem_cons_self)]
    exact ⟨hnone, fun b hb => hother b (List.mem_cons_of_mem _ hb)⟩

/-- A round that took no bid ends without one. -/
theorem close_of_rounds (h : Rounds draw net) {cfp : CallForProposals} {received : List Bid}
    (hround : net.collecting = some (cfp, received)) :
    net.close = some ({ net with state := .expired cfp.id }.resolve cfp.id .noBids) := by
  obtain ⟨rfl, -⟩ := h.alone cfp received hround
  rw [close, hround]
  rfl

theorem rounds_next (hdraw : Function.Injective draw) (h : Rounds draw net) {label : NetStep}
    (hnext : net.next draw label = some net') : Rounds draw net' := by
  cases label with
  | beat =>
    obtain ⟨hidle, heq⟩ := Option.ite_none_right_eq_some.mp hnext
    obtain rfl := Option.some.inj heq
    exact rounds_beat h (Option.isNone_iff_eq_none.mp hidle)
  | elsewhere members tier load =>
    obtain ⟨-, heq⟩ := Option.ite_none_right_eq_some.mp hnext
    obtain rfl := Option.some.inj heq
    exact ⟨h.subscribed, h.announced, h.bids, h.alone⟩
  | takeover failingAgent =>
    obtain ⟨hidle, hstart⟩ := Option.ite_none_right_eq_some.mp hnext
    exact rounds_takeover hdraw h (Option.isNone_iff_eq_none.mp hidle) hstart
  | collectBid => exact rounds_collectBid h hnext
  | close =>
    obtain ⟨⟨cfp, received⟩, hround, -⟩ := Option.map_eq_some_iff.mp hnext
    have hclose := close_of_rounds h hround
    obtain rfl := Option.some.inj (hclose.symm.trans hnext)
    have hexpired : Rounds draw { net with state := .expired cfp.id } :=
      ⟨h.subscribed, h.announced, h.bids, h.alone⟩
    exact hexpired.resolve _ _

theorem rounds_reaches (hdraw : Function.Injective draw) {members : List Member}
    {tier : MomentumTier} {load : Uuid → Rat}
    (h : Reaches (fun n label n' => next draw n label = some n') (new members tier load) net) :
    Rounds draw net :=
  h.invariant (Rounds draw) (fun _ _ _ hnext hinv => rounds_next hdraw hinv hnext)
    (rounds_new members tier load)

/-- A started round ends like this: some bids are taken, and the deadline comes. -/
def ResolvesTo (draw : Nat → Uuid) (net net' : ContractNet) : Prop :=
  ∃ waits, runLabels (next draw) net (List.replicate waits .collectBid ++ [.close]) = some net'

theorem collectBids_eq {cfp : CallForProposals} {received : List Bid} {waits : Nat}
    (hround : net.collecting = some (cfp, received))
    (hrun : runLabels (next draw) net (List.replicate waits .collectBid) = some net') :
    net' = { net with
      bids := net.bids.drop waits
      collecting := some
        (cfp, received ++ (net.bids.take waits).filter (·.cfpId = cfp.id)) } := by
  induction waits generalizing net received with
  | zero =>
    obtain rfl := Option.some.inj hrun
    cases net
    simp_all
  | succ waits ih =>
    obtain ⟨mid, hfirst, hrest⟩ := Option.bind_eq_some_iff.mp hrun
    cases hbids : net.bids with
    | nil => simp [next, collectBid, hround, hbids] at hfirst
    | cons bid rest =>
      simp only [next, collectBid, hround, hbids, Option.some.injEq] at hfirst
      subst hfirst
      rw [ih rfl hrest]
      by_cases hsame : bid.cfpId = cfp.id <;> simp [hsame]

/-- An award goes to a bid on the round's own call, and no bid on it that was taken exceeds it. -/
theorem awarded_of_round {cfp : CallForProposals} {waits seen : Nat} {award : Award}
    (hround : net.collecting = some (cfp, []))
    (hrun : runLabels (next draw) net (List.replicate waits .collectBid ++ [.close]) = some net')
    (hawarded : net'.resolved = net.resolved ++ [(cfp.id, .awarded award seen)]) :
    ∃ winning ∈ net.bids, winning.cfpId = cfp.id ∧ award.winner = winning.bidder ∧
      ∀ b ∈ net.bids.take waits, b.cfpId = cfp.id → ¬ b.exceeds winning := by
  rw [runLabels_snoc] at hrun
  obtain ⟨mid, hcollect, hclose⟩ := Option.bind_eq_some_iff.mp hrun
  obtain rfl := collectBids_eq hround hcollect
  simp only [next, close, Option.map_some, Option.some.injEq, List.nil_append] at hclose
  split at hclose
  case h_1 =>
    subst hclose
    simp [resolve] at hawarded
  case h_2 winning hwinning =>
    obtain ⟨hmem, hbest⟩ := highestUtility_spec hwinning
    obtain ⟨htaken, hid⟩ := List.mem_filter.mp hmem
    split at hclose
    case isTrue =>
      subst hclose
      simp [resolve] at hawarded
    case isFalse =>
      subst hclose
      simp only [resolve, List.append_cancel_left_eq, List.cons.injEq, Prod.mk.injEq,
        RoundOutcome.awarded.injEq, true_and, and_true] at hawarded
      refine ⟨winning, List.mem_of_mem_take htaken, by simpa using hid, ?_, ?_⟩
      · rw [← hawarded.1]
      · intro b hb hsame
        exact hbest b (List.mem_filter.mpr ⟨hb, by simpa using hsame⟩)

theorem exists_started (draw : Nat → Uuid) (hsubscribed : net.cfpReceivers ≠ 0) {failingAgent : Uuid}
    {active : ActiveTask}
    (hactive : (net.members.find? (·.agentId = failingAgent)).bind (·.activeTask) = some active)
    (hallowed : allows net.tier .l4Contested = true) :
    ∃ started cfp, net.runTakeoverCfp draw failingAgent = some started ∧
      cfp.id = draw net.drawn ∧ started.collecting = some (cfp, []) ∧
      started.resolved = net.resolved := by
  simp only [runTakeoverCfp, hactive, require, hallowed, if_true, if_neg hsubscribed]
  exact ⟨_, _, rfl, rfl, rfl, rfl⟩

/-- Every takeover that is started in any run ends without a bid, whoever could do the task. -/
theorem takeover_noBids (draw : Nat → Uuid) (hdraw : Function.Injective draw)
    (members : List Member) (tier : MomentumTier) (load : Uuid → Rat) (net : ContractNet)
    (hreach : Reaches (fun n label n' => next draw n label = some n') (new members tier load) net)
    (hidle : net.collecting = none) (failingAgent : Uuid) (active : ActiveTask)
    (hactive : (net.members.find? (·.agentId = failingAgent)).bind (·.activeTask) = some active)
    (hallowed : allows net.tier .l4Contested = true) :
    ∃ started, net.next draw (.takeover failingAgent) = some started ∧
      (∃ ended, ResolvesTo draw started ended) ∧
      ∀ ended, ResolvesTo draw started ended →
        ended.resolved = net.resolved ++ [(draw net.drawn, .noBids)] := by
  have hinv := rounds_reaches hdraw hreach
  obtain ⟨started, cfp, hstart, hid, hround, hresolved⟩ :=
    exists_started draw hinv.subscribed hactive hallowed
  have hnext : net.next draw (.takeover failingAgent) = some started := by
    simp only [next, hidle, Option.isNone_none, if_true, hstart]
  have hstarted := rounds_next hdraw hinv hnext
  have hclose := close_of_rounds hstarted hround
  have hnow : runLabels (next draw) started [.close] = started.close :=
    Option.bind_fun_some _
  refine ⟨started, hnext, ⟨_, 0, hnow.trans hclose⟩, ?_⟩
  · rintro ended ⟨waits, hrun⟩
    rw [runLabels_snoc] at hrun
    obtain ⟨mid, hcollect, hclose⟩ := Option.bind_eq_some_iff.mp hrun
    have hmid : Rounds draw mid := (reaches_of_runLabels hcollect).invariant (Rounds draw)
      (fun _ _ _ hstep h => rounds_next hdraw h hstep) hstarted
    obtain rfl := collectBids_eq hround hcollect
    obtain rfl := Option.some.inj ((close_of_rounds hmid rfl).symm.trans hclose)
    show started.resolved ++ [(cfp.id, _)] = _
    rw [hresolved, hid]

section Hot

def kv : CapabilityDecl := ⟨"kv", none, .null⟩

def hotTask : ActiveTask :=
  .new ⟨7, kv, "put", .object [], 5, none, "store the report", []⟩ 1 0

/-- The first member's task failed; the second is idle and has the capability. -/
def hotMembers : List Member := [⟨1, [kv], true, some hotTask, none⟩, ⟨2, [kv], true, none, none⟩]

def hotNet : ContractNet := new hotMembers .hot fun _ => 0

theorem takeover_noBids_hot : ∃ started, hotNet.next (· + 1) (.takeover 1) = some started ∧
    (∃ ended, ResolvesTo (· + 1) started ended) ∧
    ∀ ended, ResolvesTo (· + 1) started ended →
      ended.resolved = hotNet.resolved ++ [(hotNet.drawn + 1, .noBids)] :=
  takeover_noBids (· + 1) (fun _ _ h => Nat.succ.inj h) hotMembers .hot (fun _ => 0) hotNet
    (Reaches.refl _) rfl 1 hotTask rfl rfl

/-- The idle member would bid, and the round ends before it is asked. -/
theorem capable_peer_not_asked : ∃ started ended,
    hotNet.next (· + 1) (.takeover 1) = some started ∧
      allows hotNet.tier .l4Contested = true ∧
      (∃ m ∈ hotNet.members, m.operational = true ∧ m.agentId ≠ 1 ∧ kv ∈ m.capabilities) ∧
      started.close = some ended ∧ ended.bids = [] ∧ ended.resolved = [(1, .noBids)] := by
  refine ⟨_, _, rfl, rfl, ?_, rfl, rfl, rfl⟩
  exact ⟨⟨2, [kv], true, none, none⟩, by simp [hotNet, hotMembers, new], rfl, by decide,
    List.mem_singleton.mpr rfl⟩

end Hot

end ContractNet

end Springtale.Cooperation
