import Mathlib.Data.List.InsertIdx
import Springtale.Runtime.TokenQuota

/-! The guardrail adapter's calls on one quota in the course of a day: what each entry point reserves,
and what it settles when the inner call has ended. -/
namespace Springtale.Ai.Guardrail

open Springtale.Lib Springtale.Runtime

inductive AiError where
  | timeout
  | quotaExceeded (agentId : String) (used limit : Nat)
  | sanitizationBlocked
  | inferenceFailed (message : String)
deriving DecidableEq

inductive Entry where
  | complete
  | completeWithTools
  | stream
  | parseRule
deriving DecidableEq

/-- A call, with the tokens that it reserves. -/
structure Call where
  entry : Entry
  agentId : String
  reserved : Nat

/-- How the inner call ends, fenced by the timeout: with the total of the usage that an answer reports,
or with an error. -/
abbrev Inner := Except AiError (Option UInt32)

/-- `AiOptions::default().max_tokens`. -/
def defaultMaxTokens : UInt32 := 4096

/-- The quota, the calls whose inner call is not back, those that have returned, and the refusal
counters. -/
structure State where
  table : InMemoryUsage.Table
  running : List Call
  returned : List (Call × Inner)
  totalCalls : Nat
  totalRefusals : Nat

def start : State := ⟨inMemoryUsage.empty, [], [], 0, 0⟩

inductive Label where
  | call (entry : Entry) (agentId : String) (maxTokens : UInt32)
  | back (n : Nat) (inner : Inner)

section Calls

variable (limit : Option Nat) (today : UtcDay)

/-- What an entry point reserves: `parse_rule` has no options. -/
def requested (entry : Entry) (maxTokens : UInt32) : Nat :=
  match entry with
  | .parseRule => defaultMaxTokens.toNat
  | .complete | .completeWithTools | .stream => maxTokens.toNat

def preCheckQuota (table : InMemoryUsage.Table) (agentId : String) (requested : Nat) :
    Except AiError Unit × InMemoryUsage.Table :=
  match inMemoryUsage.checkAndReserve limit table agentId requested today with
  | (.allowed _, table) => (.ok (), table)
  | (.denied used limit, table) => (.error (.quotaExceeded agentId used limit), table)

def commitQuota (table : InMemoryUsage.Table) (call : Call) (usage : Option UInt32) :
    InMemoryUsage.Table :=
  let actual := (usage.map (·.toNat)).getD 0
  inMemoryUsage.commitTokens table call.agentId call.reserved actual today

def refusals : AiError → Nat
  | .sanitizationBlocked => 1
  | .timeout | .quotaExceeded .. | .inferenceFailed _ => 0

namespace State

/-- Up to the inner call; a refused reservation is the call's answer. -/
def begin (s : State) (entry : Entry) (agentId : String) (maxTokens : UInt32) : State :=
  let call : Call := ⟨entry, agentId, requested entry maxTokens⟩
  match preCheckQuota limit today s.table agentId call.reserved with
  | (.ok (), table) =>
    { s with table, running := s.running ++ [call], totalCalls := s.totalCalls + 1 }
  | (.error e, table) =>
    { s with table, returned := s.returned ++ [(call, .error e)], totalCalls := s.totalCalls + 1 }

/-- After the inner call. A stream commits nothing, whether it came about or not. -/
def settle (s : State) (call : Call) (inner : Inner) : State :=
  match call.entry, inner with
  | .complete, .ok usage | .completeWithTools, .ok usage =>
    { s with table := commitQuota today s.table call usage }
  | .complete, .error e | .completeWithTools, .error e =>
    { s with
      table := commitQuota today s.table call none
      totalRefusals := s.totalRefusals + refusals e }
  | .stream, _ => s
  | .parseRule, _ => { s with table := commitQuota today s.table call none }

def next (s : State) : Label → Option State
  | .call entry agentId maxTokens => some (s.begin limit today entry agentId maxTokens)
  | .back n inner =>
    s.running[n]?.map fun call =>
      { s.settle today call inner with
        running := s.running.eraseIdx n
        returned := s.returned ++ [(call, inner)] }

def usage (s : State) (agentId : String) : Nat := inMemoryUsage.usage s.table agentId today

end State

end Calls

/-- The tokens that a returned call reported: for a stream those it reserved, and none where it failed.
A rule comes without a usage. -/
def reported : Call × Inner → Nat
  | (call, .ok usage) =>
    match call.entry with
    | .complete | .completeWithTools => (usage.map (·.toNat)).getD 0
    | .stream => call.reserved
    | .parseRule => 0
  | (_, .error _) => 0

section Property

variable (limit : Option Nat) (today : UtcDay) (s : State)

def reservedBy : List Charge := s.running.map fun call => ⟨call.agentId, today, call.reserved⟩

def reportedBy : List Charge :=
  s.returned.map fun r => ⟨r.1.agentId, today, reported r⟩

/-- Once all calls are back, the counter is what the successful ones reported. -/
def Accounted : Prop :=
  s.running = [] → ∀ agentId, s.usage today agentId = charged agentId today (reportedBy today s)

/-- No stream fails after its reservation, and the counter has room: it does not pass 64 bits, or the
limit refuses what would. -/
def Meets : Label → Prop
  | .call entry agentId maxTokens =>
    s.usage today agentId + requested entry maxTokens ≤ u64Max ∨
      ∃ cap, limit = some cap ∧ cap < u64Max
  | .back n inner =>
    ∀ call ∈ s.running[n]?,
      (call.entry = .stream → ∃ usage, inner = .ok usage) ∧
        s.usage today call.agentId - call.reserved + reported (call, inner) ≤ u64Max

/-- The counter holds the open reservations and what the returned calls reported. -/
def Balanced : Prop :=
  ∀ agentId, s.usage today agentId =
    charged agentId today (reservedBy today s) + charged agentId today (reportedBy today s)

end Property

section Steps

variable {limit : Option Nat} {today : UtcDay} {s t : State}

theorem charged_append (agentId : String) (xs ys : List Charge) :
    charged agentId today (xs ++ ys) =
      charged agentId today xs + charged agentId today ys := by
  induction xs with
  | nil => rw [List.nil_append, charged, Nat.zero_add]
  | cons x xs ih => rw [List.cons_append, charged, charged, ih, Nat.add_assoc]

theorem charged_single (agentId agentId' : String) (tokens : Nat) :
    charged agentId' today [⟨agentId, today, tokens⟩] = if agentId = agentId' then tokens else 0 := by
  simp [charged]

theorem usage_update (table : InMemoryUsage.Table) (agentId agentId' : String) (n : Nat) :
    inMemoryUsage.usage (Function.update table (agentId, today.key) (some n)) agentId' today =
      if agentId = agentId' then n else inMemoryUsage.usage table agentId' today := by
  simp only [UsageStore.usage, InMemoryUsage.get]
  by_cases h : agentId = agentId'
  · rw [if_pos h, ← h, Function.update_self]
    rfl
  · have hne : (agentId', today.key) ≠ (agentId, today.key) :=
      fun heq => h (congrArg Prod.fst heq).symm
    rw [if_neg h, Function.update_of_ne hne]

/-- With room a reservation is refused and nothing happens, or it is added to the counter. -/
theorem preCheckQuota_cases {table : InMemoryUsage.Table} {agentId : String} {requested : Nat}
    (hroom : inMemoryUsage.usage table agentId today + requested ≤ u64Max ∨
      ∃ cap, limit = some cap ∧ cap < u64Max) :
    (∃ e, preCheckQuota limit today table agentId requested = (.error e, table)) ∨
      preCheckQuota limit today table agentId requested = (.ok (), Function.update table
        (agentId, today.key) (some (inMemoryUsage.usage table agentId today + requested))) := by
  have hsum : (∀ cap, limit = some cap →
      saturatingAdd (InMemoryUsage.get table agentId today.key) requested ≤ cap) →
      saturatingAdd (InMemoryUsage.get table agentId today.key) requested =
        InMemoryUsage.get table agentId today.key + requested := by
    intro hallowed
    rcases hroom with hroom | ⟨cap, hcap, hlt⟩
    · exact Nat.min_eq_left hroom
    · have hle := hallowed cap hcap
      rw [saturatingAdd] at hle ⊢
      omega
  simp only [preCheckQuota, UsageStore.checkAndReserve, InMemoryUsage.reserve, reserveOutcome]
  cases limit with
  | none =>
    right
    rw [hsum (by intro cap hcap; cases hcap)]
    rfl
  | some cap =>
    by_cases hcap : saturatingAdd (InMemoryUsage.get table agentId today.key) requested > cap
    · left
      simp only [if_pos hcap]
      exact ⟨_, rfl⟩
    · right
      simp only [if_neg hcap]
      rw [hsum (fun _ h => Option.some.inj h ▸ Nat.not_lt.mp hcap)]
      rfl

theorem usage_commitQuota {table : InMemoryUsage.Table} {call : Call} (usage : Option UInt32)
    (hroom : inMemoryUsage.usage table call.agentId today - call.reserved +
      (usage.map (·.toNat)).getD 0 ≤ u64Max) (agentId : String) :
    inMemoryUsage.usage (commitQuota today table call usage) agentId today =
      if call.agentId = agentId then
        inMemoryUsage.usage table call.agentId today - call.reserved +
          (usage.map (·.toNat)).getD 0
      else inMemoryUsage.usage table agentId today := by
  simp only [commitQuota, UsageStore.commitTokens, InMemoryUsage.commit, usage_update]
  by_cases h : call.agentId = agentId
  · rw [if_pos h, if_pos h, saturatingAdd]
    exact Nat.min_eq_left hroom
  · rw [if_neg h, if_neg h]

/-- What is settled takes the reservation out and puts in what was reported. -/
theorem usage_settle {call : Call} {inner : Inner}
    (hstream : call.entry = .stream → ∃ usage, inner = .ok usage)
    (hroom : s.usage today call.agentId - call.reserved + reported (call, inner) ≤ u64Max)
    (hreserved : call.reserved ≤ s.usage today call.agentId) (agentId : String) :
    (s.settle today call inner).usage today agentId =
      if call.agentId = agentId then
        s.usage today call.agentId - call.reserved + reported (call, inner)
      else s.usage today agentId := by
  obtain ⟨entry, owner, reserved⟩ := call
  cases entry with
  | complete =>
    cases inner with
    | ok usage => exact usage_commitQuota usage hroom agentId
    | error e => exact usage_commitQuota none hroom agentId
  | completeWithTools =>
    cases inner with
    | ok usage => exact usage_commitQuota usage hroom agentId
    | error e => exact usage_commitQuota none hroom agentId
  | stream =>
    obtain ⟨usage, rfl⟩ := hstream rfl
    by_cases h : owner = agentId
    · subst h
      rw [if_pos rfl]
      exact (Nat.sub_add_cancel hreserved).symm
    · rw [if_neg h]
      rfl
  | parseRule =>
    cases inner with
    | ok usage => exact usage_commitQuota none hroom agentId
    | error e => exact usage_commitQuota none hroom agentId

theorem balanced_begin {entry : Entry} {agentId : String} {maxTokens : UInt32} (h : Balanced today s)
    (hmeets : Meets limit today s (.call entry agentId maxTokens)) :
    Balanced today (s.begin limit today entry agentId maxTokens) := by
  intro agentId'
  have hbalanced := h agentId'
  rcases preCheckQuota_cases hmeets with ⟨e, hrefused⟩ | hallowed
  · simp only [State.begin, hrefused, State.usage, reservedBy, reportedBy, List.map_append,
      List.map_cons, List.map_nil, charged_append, charged_single, reported] at hbalanced ⊢
    split <;> omega
  · simp only [State.begin, hallowed, State.usage, reservedBy, reportedBy, List.map_append,
      List.map_cons, List.map_nil, charged_append, charged_single, usage_update] at hbalanced ⊢
    split
    · rename_i heq
      rw [heq]
      omega
    · omega

theorem balanced_back {n : Nat} {call : Call} {inner : Inner} (h : Balanced today s)
    (hmeets : Meets limit today s (.back n inner)) (hcall : s.running[n]? = some call) :
    Balanced today { s.settle today call inner with
      running := s.running.eraseIdx n
      returned := s.returned ++ [(call, inner)] } := by
  obtain ⟨hstream, hroom⟩ := hmeets call hcall
  have hopen : ∀ agentId, charged agentId today ((reservedBy today s).eraseIdx n) +
      (if call.agentId = agentId then call.reserved else 0) =
        charged agentId today (reservedBy today s) := by
    intro agentId
    have hcharge : (reservedBy today s)[n]? = some ⟨call.agentId, today, call.reserved⟩ := by
      rw [reservedBy, List.getElem?_map, hcall]
      rfl
    simpa using @charged_eraseIdx agentId today _ _ _ hcharge
  have hreserved : call.reserved ≤ s.usage today call.agentId := by
    have hself := hopen call.agentId
    rw [if_pos rfl] at hself
    rw [h call.agentId]
    omega
  have hsettled := usage_settle hstream hroom hreserved
  intro agentId
  have hbalanced := h agentId
  have hself := hopen agentId
  have husage := hsettled agentId
  rw [State.usage] at husage
  rw [State.usage, husage]
  simp only [reservedBy, reportedBy, List.map_append, List.map_cons, List.map_nil,
    charged_append, charged_single, List.eraseIdx_map] at hbalanced hself ⊢
  by_cases howner : call.agentId = agentId
  · rw [if_pos howner] at hself ⊢
    rw [if_pos howner]
    rw [howner] at hreserved ⊢
    omega
  · rw [if_neg howner] at hself ⊢
    rw [if_neg howner]
    omega

theorem balanced_next {a : Label} (h : Balanced today s) (hmeets : Meets limit today s a)
    (hstep : s.next limit today a = some t) : Balanced today t := by
  cases a with
  | call entry agentId maxTokens =>
    cases hstep
    exact balanced_begin h hmeets
  | back n inner =>
    obtain ⟨call, hcall, rfl⟩ := Option.map_eq_some_iff.mp hstep
    exact balanced_back h hmeets hcall

end Steps

/-- In a day's run in which no stream fails after its reservation the counter is, once all calls are
back, what the successful calls reported. -/
theorem failed_calls_cost_nothing (limit : Option Nat) (today : UtcDay) (s : State)
    (hrun : Reaches (Guarded (Meets limit today) fun s a t => s.next limit today a = some t)
      start s) : Accounted today s := by
  have hbalanced : Balanced today s := by
    apply hrun.invariant (Balanced today)
    · rintro s a t ⟨hmeets, hstep⟩ h
      exact balanced_next h hmeets hstep
    · intro agentId
      rfl
  intro hnone agentId
  rw [hbalanced agentId, reservedBy, hnone]
  exact Nat.zero_add _

/-- Two completions in flight. -/
def inFlight : State :=
  (start.begin (some 10000) secondOfJune .complete "bot-1" 4096).begin (some 10000) secondOfJune
    .complete "bot-1" 1000

/-- The second comes back with what it has used. -/
def oneBack : State :=
  { inFlight.settle secondOfJune ⟨.complete, "bot-1", 1000⟩ (.ok (some 700)) with
    running := [⟨.complete, "bot-1", 4096⟩]
    returned := [(⟨.complete, "bot-1", 1000⟩, .ok (some 700))] }

theorem inFlight_meets :
    Meets (some 10000) secondOfJune inFlight (.back 1 (.ok (some 700))) := by
  intro call hcall
  obtain rfl : (⟨.complete, "bot-1", 1000⟩ : Call) = call := Option.some.inj hcall
  exact ⟨fun hstream => (nomatch hstream), by decide⟩

theorem oneBack_meets : Meets (some 10000) secondOfJune oneBack (.back 0 (.error .timeout)) := by
  intro call hcall
  obtain rfl : (⟨.complete, "bot-1", 4096⟩ : Call) = call := Option.some.inj hcall
  exact ⟨fun hstream => (nomatch hstream), by decide⟩

/-- Of two calls at a time one succeeds and one times out: the counter is what the first reported. -/
theorem timed_out_call_free :
    ∃ s : State, s.returned = [(⟨.complete, "bot-1", 1000⟩, .ok (some 700)),
        (⟨.complete, "bot-1", 4096⟩, .error .timeout)] ∧
      s.usage secondOfJune "bot-1" = 700 := by
  have hcalls : Reaches (Guarded (Meets (some 10000) secondOfJune)
      fun s a t => s.next (some 10000) secondOfJune a = some t) start inFlight :=
    ((Reaches.refl _).snoc (a := .call .complete "bot-1" 4096)
      ⟨.inr ⟨10000, rfl, by decide⟩, rfl⟩).snoc (a := .call .complete "bot-1" 1000)
        ⟨.inr ⟨10000, rfl, by decide⟩, rfl⟩
  have hone : Reaches (Guarded (Meets (some 10000) secondOfJune)
      fun s a t => s.next (some 10000) secondOfJune a = some t) start oneBack :=
    hcalls.snoc (a := .back 1 (.ok (some 700))) ⟨inFlight_meets, rfl⟩
  have hrun : Reaches (Guarded (Meets (some 10000) secondOfJune)
      fun s a t => s.next (some 10000) secondOfJune a = some t) start _ :=
    hone.snoc (a := .back 0 (.error .timeout)) ⟨oneBack_meets, rfl⟩
  exact ⟨_, rfl, failed_calls_cost_nothing (some 10000) secondOfJune _ hrun rfl "bot-1"⟩

/-- A stream that fails keeps its reservation. -/
theorem failed_stream_keeps_quota :
    ∃ s : State, Reaches (fun s a t => s.next (some 10000) secondOfJune a = some t) start s ∧
      s.returned = [(⟨.stream, "bot-1", 4096⟩, .error .timeout)] ∧
      s.usage secondOfJune "bot-1" = 4096 ∧ ¬ Accounted secondOfJune s := by
  have hlabels : runLabels (State.next (some 10000) secondOfJune) start
      [.call .stream "bot-1" 4096, .back 0 (.error .timeout)] = some _ := rfl
  refine ⟨_, reaches_of_runLabels hlabels, rfl, rfl, ?_⟩
  intro haccounted
  exact absurd (haccounted rfl "bot-1") (by decide)

end Springtale.Ai.Guardrail
