import Mathlib.Data.List.Dedup
import Mathlib.Data.List.Induction
import Springtale.Beat.Consensus

/-! What the resolution of a vote depends on: the ballots cast, the order in which they were cast
and listed, and who cast them for what. -/
namespace Springtale.Beat

open Springtale.Core Springtale.Formation

/-- A ballot, or an override, which counts where the agent has a token left. -/
inductive Cast where
  | vote (agent : Uuid) (choice : VoteChoice)
  | override (agent : Uuid) (choice : VoteChoice)

namespace Cast

def agent : Cast → Uuid
  | .vote agent _ | .override agent _ => agent

def choice : Cast → VoteChoice
  | .vote _ choice | .override _ choice => choice

end Cast

/-- An option of the question, or an abstention. -/
def DecisionDescriptor.lists (question : DecisionDescriptor) : VoteChoice → Bool
  | .option index => index < question.options.length
  | .abstain => true

namespace ConsensusVote

/-- The vote that `propose` opens. -/
def opened (question : DecisionDescriptor) (term deadline : Nat) (voters : List Uuid)
    (overrideTokens : Nat) : ConsensusVote where
  question := question
  term := term
  ballots := []
  deadline := deadline
  overridesRemaining := voters.map (·, overrideTokens)
  committed := none

/-- An override without a token is refused. -/
def cast (v : ConsensusVote) : Cast → ConsensusVote
  | .vote agent choice => v.vote agent choice
  | .override agent choice => ((v.tryOverride agent choice).map (·.2)).getD v

def castAll (v : ConsensusVote) (casts : List Cast) : ConsensusVote := casts.foldl cast v

def resolveExpired (listed : List VoteChoice) (v : ConsensusVote) : VoteResolution :=
  match v.committed with
  | some (ballot, choice) => .override ballot.voter choice
  | none => .timeout (v.winner listed)

/-- Both votes resolve in the same way at any time, however their counts are listed. -/
def Agree (v w : ConsensusVote) : Prop :=
  ∀ listed listed' : List VoteChoice, listed.Perm v.castChoices → listed'.Perm w.castChoices →
    (∀ now, v.resolve ⟨now, listed⟩ = w.resolve ⟨now, listed'⟩) ∧
      v.resolveExpired listed = w.resolveExpired listed'

/-- The override that stands, and its choice. -/
def standing (v : ConsensusVote) : Option (Uuid × VoteChoice) :=
  v.committed.map fun (ballot, choice) => (ballot.voter, choice)

/-- A choice with more ballots than any other. -/
structure Leads (choice : VoteChoice) (v : ConsensusVote) : Prop where
  cast : choice ≠ .abstain ∧ 0 < v.tally choice
  alone : ∀ other, other ≠ .abstain → other ≠ choice → v.tally other < v.tally choice

/-- One choice leads in both votes, or in both nothing was chosen. -/
def LedAlike (v w : ConsensusVote) : Prop :=
  v.castChoices = [] ∧ w.castChoices = [] ∨ ∃ choice, Leads choice v ∧ Leads choice w

/-- The quorum is there in both votes or in neither. -/
def QuorumAlike (v w : ConsensusVote) : Prop :=
  v.question.requiredParticipants ≤ v.ballots.length ↔
    v.question.requiredParticipants ≤ w.ballots.length

end ConsensusVote

section MaxByKey

variable {α : Type*} {key : α → Nat} {xs : List α} {x : α}

theorem maxByKey_eq_none : maxByKey key xs = none ↔ xs = [] := by
  cases xs with
  | nil => simp [maxByKey]
  | cons y ys =>
    simp only [maxByKey, reduceCtorEq, iff_false]
    split
    · simp
    · split <;> simp

theorem maxByKey_greatest (h : maxByKey key xs = some x) : x ∈ xs ∧ ∀ y ∈ xs, key y ≤ key x := by
  induction xs generalizing x with
  | nil => cases h
  | cons z zs ih =>
    rw [maxByKey] at h
    split at h
    · rename_i hnone
      cases h
      rw [maxByKey_eq_none.mp hnone]
      simp
    · rename_i best hbest
      obtain ⟨hmem, hbound⟩ := ih hbest
      split at h
      · cases h
        refine ⟨List.mem_cons_of_mem _ hmem, ?_⟩
        intro y hy
        rcases List.mem_cons.mp hy with rfl | hy
        · assumption
        · exact hbound y hy
      · cases h
        refine ⟨List.mem_cons_self, ?_⟩
        intro y hy
        rcases List.mem_cons.mp hy with rfl | hy
        · exact le_refl _
        · have hle := hbound y hy
          omega

/-- The last of the greatest is taken. -/
theorem maxByKey_concat (h : ∀ y ∈ xs, key y ≤ key x) : maxByKey key (xs ++ [x]) = some x := by
  induction xs with
  | nil => rfl
  | cons z zs ih =>
    have hrest := ih fun y hy => h y (List.mem_cons_of_mem _ hy)
    rw [List.cons_append, maxByKey, hrest]
    exact if_pos (h z List.mem_cons_self)

end MaxByKey

namespace ConsensusVote

variable {v w : ConsensusVote} {choice : VoteChoice} {listed : List VoteChoice}

theorem mem_castChoices : choice ∈ v.castChoices ↔ choice ≠ .abstain ∧ 0 < v.tally choice := by
  simp only [castChoices, List.mem_dedup, List.mem_filter, List.mem_map, tally, List.countP_pos_iff,
    decide_eq_true_eq]
  tauto

theorem tally_eq_zero (hother : choice ≠ .abstain) (hnot : choice ∉ v.castChoices) :
    v.tally choice = 0 := by
  by_contra hsome
  exact hnot (mem_castChoices.mpr ⟨hother, by omega⟩)

theorem winner_of_nil (hnil : v.castChoices = []) (hperm : listed.Perm v.castChoices) :
    v.winner listed = .abstain := by
  rw [hnil] at hperm
  rw [List.perm_nil.mp hperm]
  rfl

theorem winner_of_leads (hleads : Leads choice v) (hperm : listed.Perm v.castChoices) :
    v.winner listed = choice := by
  have hmem : choice ∈ listed := hperm.mem_iff.mpr (mem_castChoices.mpr hleads.cast)
  cases hmax : maxByKey v.tally listed with
  | none =>
    rw [maxByKey_eq_none.mp hmax] at hmem
    cases hmem
  | some best =>
    obtain ⟨hbest, hbound⟩ := maxByKey_greatest hmax
    have hcast := (mem_castChoices.mp (hperm.mem_iff.mp hbest)).1
    have hle := hbound choice hmem
    have hsame : best = choice := by
      by_contra hother
      have hless := hleads.alone best hcast hother
      omega
    simp [winner, hmax, hsame]

/-- Any choice with the most ballots wins when it is listed last. -/
theorem exists_winner (hcast : choice ∈ v.castChoices)
    (hmost : ∀ other ∈ v.castChoices, v.tally other ≤ v.tally choice) :
    ∃ listed : List VoteChoice, listed.Perm v.castChoices ∧ v.winner listed = choice := by
  refine ⟨v.castChoices.erase choice ++ [choice], ?_, ?_⟩
  · exact (List.perm_append_singleton _ _).trans (List.perm_cons_erase hcast).symm
  · have hmax : maxByKey v.tally (v.castChoices.erase choice ++ [choice]) = some choice :=
      maxByKey_concat fun other hother => hmost other (List.mem_of_mem_erase hother)
    simp [winner, hmax]

/-- A winner that no listing changes leads, or nothing was chosen. -/
theorem leads_of_winner (hwinner : ∀ listed : List VoteChoice, listed.Perm v.castChoices →
    v.winner listed = choice) : v.castChoices = [] ∧ choice = .abstain ∨ Leads choice v := by
  cases hmax : maxByKey v.tally v.castChoices with
  | none =>
    have hnil := maxByKey_eq_none.mp hmax
    refine .inl ⟨hnil, ?_⟩
    rw [← hwinner _ (List.Perm.refl _), winner_of_nil hnil (List.Perm.refl _)]
  | some best =>
    obtain ⟨hbest, hbound⟩ := maxByKey_greatest hmax
    have hsame : ∀ other ∈ v.castChoices, v.tally other = v.tally best → other = choice := by
      intro other hother htie
      have hmost : ∀ third ∈ v.castChoices, v.tally third ≤ v.tally other := by
        rw [htie]
        exact hbound
      obtain ⟨listed, hperm, hwins⟩ := exists_winner hother hmost
      exact hwins.symm.trans (hwinner listed hperm)
    obtain rfl : best = choice := hsame best hbest rfl
    refine .inr ⟨mem_castChoices.mp hbest, ?_⟩
    intro other habstain hother
    by_cases hcast : other ∈ v.castChoices
    · have hle := hbound other hcast
      have hne : v.tally other ≠ v.tally best := fun htie => hother (hsame other hcast htie)
      omega
    · rw [tally_eq_zero habstain hcast]
      exact (mem_castChoices.mp hbest).2

/-- The winners are the same for all listings exactly if one choice leads in both votes. -/
theorem winner_iff : (∀ listed listed' : List VoteChoice, listed.Perm v.castChoices →
    listed'.Perm w.castChoices → v.winner listed = w.winner listed') ↔ v.LedAlike w := by
  constructor
  · intro hsame
    have hv := leads_of_winner fun listed hperm =>
      hsame listed w.castChoices hperm (List.Perm.refl _)
    have hw := leads_of_winner fun listed hperm =>
      (hsame v.castChoices listed (List.Perm.refl _) hperm).symm.trans
        (hsame v.castChoices w.castChoices (List.Perm.refl _) (List.Perm.refl _))
    rcases hv with ⟨hnil, habstain⟩ | hleads
    · rcases hw with ⟨hnil', -⟩ | hleads'
      · exact .inl ⟨hnil, hnil'⟩
      · exact absurd habstain hleads'.cast.1
    · rcases hw with ⟨-, habstain⟩ | hleads'
      · exact absurd habstain hleads.cast.1
      · exact .inr ⟨_, hleads, hleads'⟩
  · rintro (⟨hnil, hnil'⟩ | ⟨leader, hleads, hleads'⟩) listed listed' hperm hperm'
    · rw [winner_of_nil hnil hperm, winner_of_nil hnil' hperm']
    · rw [winner_of_leads hleads hperm, winner_of_leads hleads' hperm']

theorem standing_eq_none : v.standing = none ↔ v.committed = none := Option.map_eq_none_iff

/-- Without an override, votes resolve alike exactly if they are led alike, with the quorum in both
or without a time before the deadline. -/
theorem agree_open_iff (hquestion : w.question = v.question) (hdeadline : w.deadline = v.deadline)
    (hv : v.committed = none) (hw : w.committed = none) :
    v.Agree w ↔ v.LedAlike w ∧ (v.deadline = 0 ∨ v.QuorumAlike w) := by
  rw [← winner_iff]
  constructor
  · intro hagree
    refine ⟨?_, ?_⟩
    · intro listed listed' hperm hperm'
      have hexpired := (hagree listed listed' hperm hperm').2
      simpa [resolveExpired, hv, hw] using hexpired
    · by_cases hzero : v.deadline = 0
      · exact .inl hzero
      · refine .inr ?_
        -- before the deadline only a quorum resolves the vote
        have hresolve := (hagree _ _ (List.Perm.refl _) (List.Perm.refl _)).1 0
        have hopen : ¬ v.deadline ≤ 0 := by omega
        unfold QuorumAlike
        simp only [resolve, hv, hw, hdeadline, hquestion, hopen, if_false] at hresolve
        by_cases hthere : v.question.requiredParticipants ≤ v.ballots.length
        · by_cases hthere' : v.question.requiredParticipants ≤ w.ballots.length
          · exact iff_of_true hthere hthere'
          · rw [if_pos hthere, if_neg hthere'] at hresolve
            cases hresolve
        · by_cases hthere' : v.question.requiredParticipants ≤ w.ballots.length
          · rw [if_neg hthere, if_pos hthere'] at hresolve
            cases hresolve
          · exact iff_of_false hthere hthere'
  · rintro ⟨hwinner, hquorum⟩ listed listed' hperm hperm'
    have hsame := hwinner listed listed' hperm hperm'
    constructor
    · intro now
      simp only [resolve, hv, hw, hdeadline, hquestion, hsame]
      by_cases hover : v.deadline ≤ now
      · simp [hover]
      · have hquorum' : v.QuorumAlike w := hquorum.resolve_left (by omega)
        simp only [hover, if_false]
        by_cases hthere : v.question.requiredParticipants ≤ v.ballots.length
        · rw [if_pos hthere, if_pos (hquorum'.mp hthere)]
        · rw [if_neg hthere, if_neg fun h => hthere (hquorum'.mpr h)]
    · simp [resolveExpired, hv, hw, hsame]

/-- Two votes on one question resolve alike exactly if the same override stands, or none does and
one choice leads in both, with the quorum in both. -/
theorem agree_iff (hquestion : w.question = v.question) (hdeadline : w.deadline = v.deadline) :
    v.Agree w ↔ v.standing = w.standing ∧
      (v.standing = none → v.LedAlike w ∧ (v.deadline = 0 ∨ v.QuorumAlike w)) := by
  cases hv : v.committed with
  | some committed =>
    obtain ⟨ballot, choice⟩ := committed
    have hstanding : v.standing = some (ballot.voter, choice) := by simp [standing, hv]
    cases hw : w.committed with
    | none =>
      refine iff_of_false ?_ ?_
      · intro hagree
        have hexpired := (hagree _ _ (List.Perm.refl _) (List.Perm.refl _)).2
        simp [resolveExpired, hv, hw] at hexpired
      · rintro ⟨hsame, -⟩
        rw [hstanding, standing_eq_none.mpr hw] at hsame
        cases hsame
    | some committed' =>
      obtain ⟨ballot', choice'⟩ := committed'
      have hstanding' : w.standing = some (ballot'.voter, choice') := by simp [standing, hw]
      rw [hstanding, hstanding']
      constructor
      · intro hagree
        have hexpired := (hagree _ _ (List.Perm.refl _) (List.Perm.refl _)).2
        simp only [resolveExpired, hv, hw, VoteResolution.override.injEq] at hexpired
        exact ⟨by rw [hexpired.1, hexpired.2], fun hnone => by cases hnone⟩
      · rintro ⟨hsame, -⟩ listed listed' - -
        obtain ⟨hvoter, hchoice⟩ := Prod.mk.inj (Option.some.inj hsame)
        simp [resolve, resolveExpired, hv, hw, hvoter, hchoice]
  | none =>
    have hstanding := standing_eq_none.mpr hv
    cases hw : w.committed with
    | some committed' =>
      obtain ⟨ballot', choice'⟩ := committed'
      refine iff_of_false ?_ ?_
      · intro hagree
        have hexpired := (hagree _ _ (List.Perm.refl _) (List.Perm.refl _)).2
        simp [resolveExpired, hv, hw] at hexpired
      · rintro ⟨hsame, -⟩
        rw [hstanding] at hsame
        have hnone := standing_eq_none.mp hsame.symm
        rw [hw] at hnone
        cases hnone
    | none =>
      rw [hstanding, standing_eq_none.mpr hw, agree_open_iff hquestion hdeadline hv hw]
      exact ⟨fun h => ⟨rfl, fun _ => h⟩, fun h => h.2 rfl⟩

/-- An override that stands outranks an agent, or is its own. -/
def Reached (agent : Uuid) (v : ConsensusVote) : Prop := ∃ b, v.standing = some b ∧ agent ≤ b.1

/-- The first override of an agent. -/
def firstOverride (agent : Uuid) : List Cast → Option VoteChoice
  | [] => none
  | .override other choice :: casts =>
    if other = agent then some choice else firstOverride agent casts
  | .vote _ _ :: casts => firstOverride agent casts

theorem firstOverride_append (agent : Uuid) (casts casts' : List Cast) :
    firstOverride agent (casts ++ casts') =
      (firstOverride agent casts).or (firstOverride agent casts') := by
  induction casts with
  | nil => rfl
  | cons c casts ih =>
    cases c with
    | vote other choice => exact ih
    | override other choice =>
      by_cases hsame : other = agent
      · simp [firstOverride, hsame]
      · simpa [firstOverride, hsame] using ih

theorem firstOverride_mem {agent : Uuid} {casts : List Cast}
    (h : firstOverride agent casts = some choice) : .override agent choice ∈ casts := by
  induction casts with
  | nil => cases h
  | cons c casts ih =>
    cases c with
    | vote other other' => exact List.mem_cons_of_mem _ (ih h)
    | override other other' =>
      by_cases hsame : other = agent
      · subst hsame
        simp only [firstOverride, if_true, Option.some.injEq] at h
        rw [h]
        exact List.mem_cons_self
      · simp only [firstOverride, if_neg hsame] at h
        exact List.mem_cons_of_mem _ (ih h)

theorem firstOverride_isSome {agent : Uuid} {casts : List Cast}
    (h : .override agent choice ∈ casts) : (firstOverride agent casts).isSome = true := by
  induction casts with
  | nil => cases h
  | cons c casts ih =>
    cases c with
    | vote other other' =>
      rcases List.mem_cons.mp h with heq | h
      · cases heq
      · exact ih h
    | override other other' =>
      by_cases hsame : other = agent
      · simp [firstOverride, hsame]
      · rcases List.mem_cons.mp h with heq | h
        · cases heq
          exact absurd rfl hsame
        · simpa [firstOverride, hsame] using ih h

/-- Leaving casts out keeps a first override that is not left out. -/
theorem firstOverride_filter {agent : Uuid} {casts : List Cast} {keep : Cast → Bool}
    (h : firstOverride agent casts = some choice) (hkeep : keep (.override agent choice) = true) :
    firstOverride agent (casts.filter keep) = some choice := by
  induction casts with
  | nil => cases h
  | cons c casts ih =>
    cases c with
    | vote other other' =>
      rw [List.filter_cons]
      split
      · exact ih h
      · exact ih h
    | override other other' =>
      by_cases hsame : other = agent
      · subst hsame
        simp only [firstOverride, if_true, Option.some.injEq] at h
        subst h
        simp [firstOverride, hkeep]
      · simp only [firstOverride, if_neg hsame] at h
        rw [List.filter_cons]
        split
        · simpa [firstOverride, hsame] using ih h
        · exact ih h

/-- How the overrides of a history come out: the highest agent that had a token stands, with the
choice of its first override. -/
structure Overridden (voters : List Uuid) (tokens : Nat) (casts : List Cast) (v : ConsensusVote) :
    Prop where
  stamped : ∀ ballot choice, v.committed = some (ballot, choice) →
    ballot.term = v.term ∧ ballot.committed = true
  keys : ∀ agent, (v.overridesRemaining.lookup agent).isSome = true ↔ agent ∈ voters
  unspent : ∀ agent, agent ∈ voters → ¬ v.Reached agent →
    v.overridesRemaining.lookup agent = some tokens
  reached : ∀ agent choice, .override agent choice ∈ casts → agent ∈ voters → 0 < tokens →
    v.Reached agent
  origin : ∀ agent choice, v.standing = some (agent, choice) →
    firstOverride agent casts = some choice ∧ agent ∈ voters ∧ 0 < tokens

theorem lookup_const (voters : List Uuid) (tokens : Nat) (agent : Uuid) :
    (voters.map fun voter => (voter, tokens)).lookup agent =
      if agent ∈ voters then some tokens else none := by
  induction voters with
  | nil => rfl
  | cons voter voters ih =>
    by_cases hsame : agent = voter
    · simp [hsame]
    · have hother : (agent == voter) = false := by simpa using hsame
      simp [List.lookup_cons, hother, hsame, ih]

theorem lookup_spend (table : List (Uuid × Nat)) (spender agent : Uuid) (left : Nat) :
    (table.map fun (key, tokens) =>
        if key = spender then (key, left) else (key, tokens)).lookup agent =
      if agent = spender then (table.lookup agent).map fun _ => left else table.lookup agent := by
  induction table with
  | nil => simp
  | cons entry table ih =>
    obtain ⟨key, tokens⟩ := entry
    have hhead : (if key = spender then (key, left) else (key, tokens)).1 = key := by
      split <;> rfl
    by_cases hkey : agent = key
    · subst hkey
      by_cases hsame : agent = spender <;> simp [hsame]
    · have hother : (agent == key) = false := by simpa using hkey
      rw [List.map_cons, List.lookup_cons]
      simp only [hhead, hother, List.lookup_cons, ih]

/-- Ballots of one term that are both committed are ranked by their voters. -/
theorem cmp_committed (agent : Uuid) {term : Nat} {ballot : Ballot}
    (hstamped : ballot.term = term ∧ ballot.committed = true) :
    Ballot.cmp ⟨term, agent, true⟩ ballot = .gt ↔ ballot.voter < agent := by
  obtain ⟨hterm, hcommitted⟩ := hstamped
  simp [Ballot.cmp, hterm, hcommitted, compare_gt_iff_gt]

/-- An override without a token changes nothing; one with a token stands if none outranks it. -/
theorem cast_override (v : ConsensusVote) (agent : Uuid) (choice : VoteChoice) :
    (v.cast (.override agent choice) = v ∧
        (v.overridesRemaining.lookup agent = none ∨
          v.overridesRemaining.lookup agent = some 0)) ∨
      ∃ left, v.overridesRemaining.lookup agent = some (left + 1) ∧
        (v.cast (.override agent choice)).overridesRemaining =
          (v.overridesRemaining.map fun (key, tokens) =>
            if key = agent then (key, left) else (key, tokens)) ∧
        (v.cast (.override agent choice)).term = v.term ∧
        (v.cast (.override agent choice)).committed =
          if v.committed.all (fun (existing, _) => Ballot.cmp ⟨v.term, agent, true⟩ existing = .gt)
          then some (⟨v.term, agent, true⟩, choice) else v.committed := by
  cases hlookup : v.overridesRemaining.lookup agent with
  | none =>
    refine .inl ⟨?_, .inl rfl⟩
    simp [cast, tryOverride, hlookup]
  | some tokens =>
    cases tokens with
    | zero =>
      refine .inl ⟨?_, .inr rfl⟩
      simp [cast, tryOverride, hlookup]
    | succ left =>
      refine .inr ⟨left, rfl, ?_⟩
      simp [cast, tryOverride, hlookup, insertBallot]

theorem overridden_opened (question : DecisionDescriptor) (term deadline : Nat)
    (voters : List Uuid) (tokens : Nat) :
    Overridden voters tokens [] (opened question term deadline voters tokens) := by
  refine ⟨?_, ?_, ?_, ?_, ?_⟩
  · intro ballot choice h
    cases h
  · intro agent
    simp [opened, lookup_const]
  · intro agent hvoter _
    simp [opened, lookup_const, hvoter]
  · intro agent choice h
    cases h
  · intro agent choice h
    cases h

theorem firstOverride_concat {agent : Uuid} {casts : List Cast} (c : Cast)
    (h : firstOverride agent casts = some choice) :
    firstOverride agent (casts ++ [c]) = some choice := by
  rw [firstOverride_append, h]
  rfl

/-- A cast that changes no override, and is none that should have stood. -/
theorem Overridden.pass {voters : List Uuid} {tokens : Nat} {casts : List Cast}
    (h : Overridden voters tokens casts v) {c : Cast} {v' : ConsensusVote}
    (hterm : v'.term = v.term) (hcommitted : v'.committed = v.committed)
    (htokens : v'.overridesRemaining = v.overridesRemaining)
    (hc : ∀ agent choice, c = .override agent choice → agent ∈ voters → 0 < tokens →
      v.Reached agent) : Overridden voters tokens (casts ++ [c]) v' := by
  have hstanding : v'.standing = v.standing := by
    unfold standing
    rw [hcommitted]
  have hreached : ∀ agent, v'.Reached agent ↔ v.Reached agent := by
    intro agent
    unfold Reached
    rw [hstanding]
  refine ⟨?_, ?_, ?_, ?_, ?_⟩
  · rw [hcommitted, hterm]
    exact h.stamped
  · rw [htokens]
    exact h.keys
  · intro agent hvoter hnot
    rw [htokens]
    exact h.unspent agent hvoter fun hold => hnot ((hreached agent).mpr hold)
  · intro agent choice hmem hvoter hpositive
    rw [hreached]
    rcases List.mem_append.mp hmem with hold | hnew
    · exact h.reached agent choice hold hvoter hpositive
    · exact hc agent choice (List.mem_singleton.mp hnew).symm hvoter hpositive
  · intro agent choice hstands
    rw [hstanding] at hstands
    obtain ⟨hfirst, hrest⟩ := h.origin agent choice hstands
    exact ⟨firstOverride_concat c hfirst, hrest⟩

/-- An override stands if none stands that outranks its agent. -/
theorem Overridden.commits {voters : List Uuid} {tokens : Nat} {casts : List Cast}
    (h : Overridden voters tokens casts v) {agent : Uuid} {choice : VoteChoice}
    {v' : ConsensusVote} (hcommitted : v'.committed =
      if v.committed.all (fun (existing, _) => Ballot.cmp ⟨v.term, agent, true⟩ existing = .gt)
      then some (⟨v.term, agent, true⟩, choice) else v.committed) :
    (v'.committed = some (⟨v.term, agent, true⟩, choice) ∧ ¬ v.Reached agent) ∨
      (v'.committed = v.committed ∧ v.Reached agent) := by
  cases hv : v.committed with
  | none =>
    refine .inl ⟨by simpa [hv] using hcommitted, ?_⟩
    rintro ⟨b, hb, -⟩
    rw [standing_eq_none.mpr hv] at hb
    cases hb
  | some committed =>
    obtain ⟨ballot, other⟩ := committed
    have hstanding : v.standing = some (ballot.voter, other) := by simp [standing, hv]
    have hgt := cmp_committed agent (h.stamped ballot other hv)
    by_cases hlower : ballot.voter < agent
    · refine .inl ⟨by simpa [hv, hgt.mpr hlower] using hcommitted, ?_⟩
      rintro ⟨b, hb, hle⟩
      rw [hstanding] at hb
      cases hb
      exact absurd hle (by simpa using hlower)
    · refine .inr ⟨?_, ⟨_, hstanding, by simpa using hlower⟩⟩
      have hnot : Ballot.cmp ⟨v.term, agent, true⟩ ballot ≠ .gt := fun heq => hlower (hgt.mp heq)
      simpa [hv, hnot] using hcommitted

/-- Whoever was reached by the override that stands stays so. -/
theorem reached_of_commits {agent : Uuid} {choice : VoteChoice} {v' : ConsensusVote}
    (hcases : (v'.committed = some (⟨v.term, agent, true⟩, choice) ∧ ¬ v.Reached agent) ∨
      (v'.committed = v.committed ∧ v.Reached agent)) :
    v'.Reached agent ∧ ∀ other, v.Reached other → v'.Reached other := by
  rcases hcases with ⟨hnew, hnot⟩ | ⟨hsame, hold⟩
  · have hstanding : v'.standing = some (agent, choice) := by simp [standing, hnew]
    refine ⟨⟨_, hstanding, le_refl _⟩, ?_⟩
    rintro other ⟨b, hb, hle⟩
    -- who stood before ranks below the agent
    have hbelow : b.1 < agent := by
      by_contra hnotlower
      exact hnot ⟨b, hb, by simpa using hnotlower⟩
    exact ⟨_, hstanding, hle.trans hbelow.le⟩
  · have hstanding : v'.standing = v.standing := by simp only [standing, hsame]
    have hsame' : ∀ other, v.Reached other → v'.Reached other := by
      unfold Reached
      rw [hstanding]
      exact fun _ h => h
    exact ⟨hsame' agent hold, hsame'⟩

/-- A token that is spent lets its agent stand, or leaves one standing that outranks it. -/
theorem Overridden.spent {voters : List Uuid} {tokens : Nat} {casts : List Cast}
    (h : Overridden voters tokens casts v) {agent : Uuid} {choice : VoteChoice} {left : Nat}
    {v' : ConsensusVote} (hleft : v.overridesRemaining.lookup agent = some (left + 1))
    (htokens : v'.overridesRemaining = v.overridesRemaining.map fun (key, tokens) =>
      if key = agent then (key, left) else (key, tokens))
    (hterm : v'.term = v.term)
    (hcommitted : v'.committed =
      if v.committed.all (fun (existing, _) => Ballot.cmp ⟨v.term, agent, true⟩ existing = .gt)
      then some (⟨v.term, agent, true⟩, choice) else v.committed) :
    Overridden voters tokens (casts ++ [.override agent choice]) v' := by
  have hcases := h.commits hcommitted
  have hreached := reached_of_commits hcases
  refine ⟨?_, ?_, ?_, ?_, ?_⟩
  · intro ballot other hb
    rw [hterm]
    rcases hcases with ⟨hnew, -⟩ | ⟨hsame, -⟩
    · rw [hnew] at hb
      cases hb
      exact ⟨rfl, rfl⟩
    · rw [hsame] at hb
      exact h.stamped ballot other hb
  · intro other
    rw [htokens, lookup_spend, ← h.keys other]
    split <;> simp
  · intro other hvoter hnot
    have hother : other ≠ agent := by
      rintro rfl
      exact hnot hreached.1
    rw [htokens, lookup_spend, if_neg hother]
    exact h.unspent other hvoter fun hold => hnot (hreached.2 other hold)
  · intro other choice' hmem hvoter hpositive
    rcases List.mem_append.mp hmem with hold | hnew
    · exact hreached.2 other (h.reached other choice' hold hvoter hpositive)
    · cases List.mem_singleton.mp hnew
      exact hreached.1
  · intro other choice' hstands
    rcases hcases with ⟨hnew, hnot⟩ | ⟨hsame, -⟩
    · have hvoter : agent ∈ voters := (h.keys agent).mp (by simp [hleft])
      have hpositive : 0 < tokens := by
        have hunspent := h.unspent agent hvoter hnot
        rw [hleft] at hunspent
        have heq := Option.some.inj hunspent
        omega
      have hfirst : firstOverride agent casts = none := by
        by_contra hsome
        obtain ⟨earlier, hearlier⟩ := Option.ne_none_iff_exists'.mp hsome
        exact hnot (h.reached agent earlier (firstOverride_mem hearlier) hvoter hpositive)
      simp only [standing, hnew, Option.map_some, Option.some.injEq, Prod.mk.injEq] at hstands
      obtain ⟨rfl, rfl⟩ := hstands
      refine ⟨?_, hvoter, hpositive⟩
      rw [firstOverride_append, hfirst]
      simp [firstOverride]
    · have hstanding : v'.standing = v.standing := by simp only [standing, hsame]
      rw [hstanding] at hstands
      obtain ⟨hfirst, hrest⟩ := h.origin other choice' hstands
      exact ⟨firstOverride_concat _ hfirst, hrest⟩

theorem Overridden.cast_snoc {voters : List Uuid} {tokens : Nat} {casts : List Cast}
    (h : Overridden voters tokens casts v) (c : Cast) :
    Overridden voters tokens (casts ++ [c]) (v.cast c) := by
  cases c with
  | vote agent choice =>
    refine h.pass rfl rfl rfl ?_
    intro other choice' heq
    cases heq
  | override agent choice =>
    rcases cast_override v agent choice with ⟨hsame, hempty⟩ | ⟨left, hleft, htokens, hterm, hnext⟩
    · rw [hsame]
      refine h.pass rfl rfl rfl ?_
      intro other choice' heq hvoter hpositive
      cases heq
      by_contra hnot
      rw [h.unspent agent hvoter hnot] at hempty
      rcases hempty with hnone | hzero
      · cases hnone
      · have htokens := Option.some.inj hzero
        omega
    · exact h.spent hleft htokens hterm hnext

theorem overridden_castAll (question : DecisionDescriptor) (term deadline : Nat)
    (voters : List Uuid) (tokens : Nat) (casts : List Cast) :
    Overridden voters tokens casts
      ((opened question term deadline voters tokens).castAll casts) := by
  induction casts using List.reverseRecOn with
  | nil => exact overridden_opened question term deadline voters tokens
  | append_singleton casts c ih =>
    unfold castAll at ih ⊢
    rw [List.foldl_append]
    exact ih.cast_snoc c

/-- A cast that may count: by a voter, for an option of the question or none. -/
def countable (question : DecisionDescriptor) (voters : List Uuid) (c : Cast) : Bool :=
  decide (c.agent ∈ voters) && question.lists c.choice

theorem cast_keeps (v : ConsensusVote) (c : Cast) :
    (v.cast c).question = v.question ∧ (v.cast c).deadline = v.deadline := by
  cases c with
  | vote agent choice => exact ⟨rfl, rfl⟩
  | override agent choice =>
    simp only [cast, tryOverride]
    split <;> exact ⟨rfl, rfl⟩

theorem castAll_keeps (v : ConsensusVote) (casts : List Cast) :
    (v.castAll casts).question = v.question ∧ (v.castAll casts).deadline = v.deadline := by
  induction casts generalizing v with
  | nil => exact ⟨rfl, rfl⟩
  | cons c casts ih =>
    obtain ⟨hquestion, hdeadline⟩ := ih (v.cast c)
    obtain ⟨hquestion', hdeadline'⟩ := cast_keeps v c
    exact ⟨hquestion.trans hquestion', hdeadline.trans hdeadline'⟩

/-- The same ballots have the same tallies, and lead alike with any third vote. -/
theorem ledAlike_of_perm {v' : ConsensusVote} (hballots : v.ballots.Perm v'.ballots)
    (hled : v.LedAlike w) : v.LedAlike v' := by
  have htally : ∀ choice, v.tally choice = v'.tally choice :=
    fun choice => hballots.countP_eq _
  rcases hled with ⟨hnil, -⟩ | ⟨choice, hleads, -⟩
  · refine .inl ⟨hnil, List.eq_nil_iff_forall_not_mem.mpr ?_⟩
    intro choice hcast
    have hcast' : choice ∈ v.castChoices := by
      rw [mem_castChoices, htally, ← mem_castChoices]
      exact hcast
    rw [hnil] at hcast'
    cases hcast'
  · refine .inr ⟨choice, hleads, ⟨hleads.cast.1, htally choice ▸ hleads.cast.2⟩, ?_⟩
    intro other habstain hother
    rw [← htally, ← htally]
    exact hleads.alone other habstain hother

section Poll

variable (question : DecisionDescriptor) (term deadline : Nat) (voters : List Uuid) (tokens : Nat)

/-- A proposed vote after the given casts. -/
def poll (casts : List Cast) : ConsensusVote :=
  (opened question term deadline voters tokens).castAll casts

theorem poll_keeps (casts : List Cast) :
    (poll question term deadline voters tokens casts).question = question ∧
      (poll question term deadline voters tokens casts).deadline = deadline :=
  castAll_keeps _ casts

theorem poll_overridden (casts : List Cast) :
    Overridden voters tokens casts (poll question term deadline voters tokens casts) :=
  overridden_castAll question term deadline voters tokens casts

/-- Casts that may not count leave the standing override alone, unless it is one of them. -/
theorem standing_countable (casts : List Cast) :
    (poll question term deadline voters tokens casts).standing =
        (poll question term deadline voters tokens
          (casts.filter (countable question voters))).standing ↔
      ∀ b, (poll question term deadline voters tokens casts).standing = some b →
        question.lists b.2 = true := by
  have hall := poll_overridden question term deadline voters tokens casts
  have hcount := poll_overridden question term deadline voters tokens
    (casts.filter (countable question voters))
  generalize poll question term deadline voters tokens casts = v at hall ⊢
  generalize poll question term deadline voters tokens _ = w at hcount ⊢
  -- an override that counts has been cast
  have hbelow : ∀ a c, w.standing = some (a, c) → v.Reached a := by
    intro a c hstands
    obtain ⟨hfirst, hvoter, hpositive⟩ := hcount.origin a c hstands
    exact hall.reached a c (List.mem_of_mem_filter (firstOverride_mem hfirst)) hvoter hpositive
  constructor
  · rintro hsame ⟨agent, choice⟩ hstands
    rw [hsame] at hstands
    have hmem := firstOverride_mem (hcount.origin agent choice hstands).1
    have hcountable := (List.mem_filter.mp hmem).2
    simp only [countable, Bool.and_eq_true] at hcountable
    exact hcountable.2
  · intro hlisted
    cases hv : v.standing with
    | none =>
      cases hw : w.standing with
      | none => rfl
      | some b =>
        obtain ⟨b', hb', -⟩ := hbelow b.1 b.2 hw
        rw [hv] at hb'
        cases hb'
    | some b =>
      obtain ⟨agent, choice⟩ := b
      obtain ⟨hfirst, hvoter, hpositive⟩ := hall.origin agent choice hv
      have hcountable : countable question voters (.override agent choice) = true := by
        have hlists := hlisted _ hv
        simp only [countable, Bool.and_eq_true, decide_eq_true_eq]
        exact ⟨hvoter, hlists⟩
      have hkept := firstOverride_filter hfirst hcountable
      obtain ⟨⟨agent', choice'⟩, hw, hle⟩ :=
        hcount.reached agent choice (firstOverride_mem hkept) hvoter hpositive
      obtain ⟨b, hb, hle'⟩ := hbelow agent' choice' hw
      rw [hv] at hb
      cases hb
      obtain rfl : agent' = agent := le_antisymm hle' hle
      have hfirst' := (hcount.origin agent' choice' hw).1
      rw [hkept] at hfirst'
      rw [hw, Option.some.inj hfirst']

/-- Of overrides by distinct agents the highest stands, in every order. -/
theorem standing_highest {casts : List Cast} {agent : Uuid} {choice : VoteChoice}
    (hcast : .override agent choice ∈ casts) (hvoter : agent ∈ voters) (hpositive : 0 < tokens)
    (hhighest : ∀ other choice', .override other choice' ∈ casts → other ∈ voters → other ≤ agent)
    (honly : ∀ choice', .override agent choice' ∈ casts → choice' = choice) :
    (poll question term deadline voters tokens casts).standing = some (agent, choice) := by
  have hall := poll_overridden question term deadline voters tokens casts
  obtain ⟨⟨agent', choice'⟩, hstands, hle⟩ := hall.reached agent choice hcast hvoter hpositive
  obtain ⟨hfirst, hvoter', -⟩ := hall.origin agent' choice' hstands
  have hmem := firstOverride_mem hfirst
  obtain rfl : agent' = agent := le_antisymm (hhighest agent' choice' hmem hvoter') hle
  rw [hstands, honly choice' hmem]

/-- A vote depends on its ballots alone exactly if the standing override is the same and for an
option of the question, or else one choice leads, among all ballots as among those that may count,
and the quorum does not hang on the others. -/
theorem resolution_iff :
    (∀ casts casts' : List Cast,
      (poll question term deadline voters tokens casts).ballots.Perm
          (poll question term deadline voters tokens casts').ballots →
        ((poll question term deadline voters tokens casts).Agree
              (poll question term deadline voters tokens casts') ∧
            (poll question term deadline voters tokens casts).Agree
              (poll question term deadline voters tokens
                (casts.filter (countable question voters))) ↔
          (poll question term deadline voters tokens casts).standing =
              (poll question term deadline voters tokens casts').standing ∧
            (∀ b, (poll question term deadline voters tokens casts).standing = some b →
              question.lists b.2 = true) ∧
            ((poll question term deadline voters tokens casts).standing = none →
              (poll question term deadline voters tokens casts).LedAlike
                  (poll question term deadline voters tokens
                    (casts.filter (countable question voters))) ∧
                (deadline = 0 ∨
                  (poll question term deadline voters tokens casts).QuorumAlike
                    (poll question term deadline voters tokens
                      (casts.filter (countable question voters))))))) ∧
      ∀ casts agent choice, .override agent choice ∈ casts → agent ∈ voters → 0 < tokens →
        (∀ other choice', .override other choice' ∈ casts → other ∈ voters → other ≤ agent) →
          (∀ choice', .override agent choice' ∈ casts → choice' = choice) →
            (poll question term deadline voters tokens casts).standing = some (agent, choice) := by
  refine ⟨?_, fun casts agent choice hcast hvoter hpositive hhighest honly =>
    standing_highest question term deadline voters tokens hcast hvoter hpositive hhighest honly⟩
  intro casts casts' hballots
  have hstanding := standing_countable question term deadline voters tokens casts
  obtain ⟨hquestion, hdeadline⟩ := poll_keeps question term deadline voters tokens casts
  obtain ⟨hquestion', hdeadline'⟩ := poll_keeps question term deadline voters tokens casts'
  obtain ⟨hquestion'', hdeadline''⟩ := poll_keeps question term deadline voters tokens
    (casts.filter (countable question voters))
  generalize poll question term deadline voters tokens casts = v at *
  generalize poll question term deadline voters tokens casts' = v' at *
  generalize poll question term deadline voters tokens _ = w at *
  rw [agree_iff (hquestion'.trans hquestion.symm) (hdeadline'.trans hdeadline.symm),
    agree_iff (hquestion''.trans hquestion.symm) (hdeadline''.trans hdeadline.symm), hstanding,
    hdeadline]
  constructor
  · rintro ⟨⟨hsame, -⟩, hlisted, hopen⟩
    exact ⟨hsame, hlisted, hopen⟩
  · rintro ⟨hsame, hlisted, hopen⟩
    refine ⟨⟨hsame, fun hnone => ⟨ledAlike_of_perm hballots (hopen hnone).1, .inr ?_⟩⟩,
      hlisted, hopen⟩
    unfold QuorumAlike
    rw [hballots.length_eq]

end Poll

section Sample

/-- Whether a task may run, to be decided by two members. -/
def approval : DecisionDescriptor :=
  ⟨["approve", "deny"], 2,
    .destructiveAction ⟨7, ⟨"shell", none, .null⟩, "run", .null, 1, none, "", []⟩⟩

/-- The vote of members 1 and 2 on it. -/
def approvalPoll : List Cast → ConsensusVote := poll approval 1 5000 [1, 2] 1

def approve : VoteChoice := .option 0

def deny : VoteChoice := .option 1

/-- A tie goes as the counts are listed, and agents that are no voters outvote the voters. -/
theorem tie_and_strangers :
    ((approvalPoll [.vote 1 approve, .vote 2 deny]).ballots.Perm
        (approvalPoll [.vote 2 deny, .vote 1 approve]).ballots ∧
      ¬ (approvalPoll [.vote 1 approve, .vote 2 deny]).Agree
        (approvalPoll [.vote 2 deny, .vote 1 approve])) ∧
    ¬ (approvalPoll [.vote 1 approve, .vote 8 deny, .vote 9 deny]).Agree
      (approvalPoll ([Cast.vote 1 approve, .vote 8 deny, .vote 9 deny].filter
        (countable approval [1, 2]))) := by
  refine ⟨⟨List.Perm.swap .., ?_⟩, ?_⟩
  · intro hagree
    have hresolve := (hagree [approve, deny] [deny, approve] (by decide) (by decide)).1 0
    have hdeny : (approvalPoll [.vote 1 approve, .vote 2 deny]).resolve ⟨0, [approve, deny]⟩ =
        some (.majority deny) := rfl
    have happrove : (approvalPoll [.vote 2 deny, .vote 1 approve]).resolve
        ⟨0, [deny, approve]⟩ = some (.majority approve) := rfl
    rw [hdeny, happrove] at hresolve
    cases hresolve
  · intro hagree
    have hresolve := (hagree [approve, deny] [approve] (by decide) (by decide)).1 0
    have hdeny : (approvalPoll [.vote 1 approve, .vote 8 deny, .vote 9 deny]).resolve
        ⟨0, [approve, deny]⟩ = some (.majority deny) := rfl
    have hopen : (approvalPoll ([Cast.vote 1 approve, .vote 8 deny, .vote 9 deny].filter
        (countable approval [1, 2]))).resolve ⟨0, [approve]⟩ = none := rfl
    rw [hdeny, hopen] at hresolve
    cases hresolve

/-- Two ballots for one option decide the vote in either order. -/
theorem resolution_approved :
    (approvalPoll [.vote 1 approve, .vote 2 approve]).Agree
        (approvalPoll [.vote 2 approve, .vote 1 approve]) ∧
      (approvalPoll [.vote 1 approve, .vote 2 approve]).Agree
        (approvalPoll ([Cast.vote 1 approve, .vote 2 approve].filter
          (countable approval [1, 2]))) := by
  have hleads : Leads approve (approvalPoll [.vote 1 approve, .vote 2 approve]) := by
    refine ⟨by decide, ?_⟩
    intro other _ hother
    have hnone : (approvalPoll [.vote 1 approve, .vote 2 approve]).tally other = 0 := by
      simp [approvalPoll, poll, castAll, cast, vote, insertBallot, opened, tally, Ne.symm hother]
    rw [hnone]
    decide
  have hballots : (approvalPoll [.vote 1 approve, .vote 2 approve]).ballots.Perm
      (approvalPoll [.vote 2 approve, .vote 1 approve]).ballots := List.Perm.swap ..
  refine ((resolution_iff approval 1 5000 [1, 2] 1).1 _ _ hballots).mpr ⟨rfl, ?_, ?_⟩
  · intro b hb
    cases hb
  · intro _
    exact ⟨.inr ⟨approve, hleads, hleads⟩, .inr Iff.rfl⟩

end Sample

end ConsensusVote

end Springtale.Beat
