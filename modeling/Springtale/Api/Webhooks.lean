import Mathlib.Logic.Function.Basic
import Springtale.Connector.Replay
import Springtale.Core.Engine
import Springtale.Lib.Transition

/-! The webhook ingress: one request, and the deliveries of one connector over sequences of
requests and retries. -/
namespace Springtale.Api

open Springtale.Core Springtale.Connector Springtale.Lib

abbrev Headers := List (String × String)

structure ChatMessage where
  raw : Value
  deliverToBot : Bool

/-- What a verified payload means: chat messages, further rule events, acknowledgements. -/
structure WebhookIngest where
  messages : List ChatMessage
  events : List (String × Value)
  acks : List (String × Value)

/-- What the connector tells the ingress of a request. -/
structure WebhookHost where
  webhookReplayKey : Headers → Option String
  ingestWebhook : String → Headers → Value → WebhookIngest

/-- A request; the body is what it parses to as JSON. -/
structure WebhookRequest where
  connectorName : String
  triggerName : String
  headers : Headers
  body : Option Value

/-- The result of `try_send`. -/
inductive SendOutcome where
  | sent
  | full
  | closed
deriving DecidableEq

/-- What a request meets: the registry's entry (whether it is enabled), the signature check, the
store, and the room in the channels. -/
structure Surroundings where
  entry : Option Bool
  verified : Bool
  storeWorks : Bool
  logged : Bool
  now : Int
  botRoom : Nat → Bool
  extraRoom : Nat → SendOutcome
  room : SendOutcome

/-- An event on the trigger channel. The tags are history: the delivery id of the request, and
whether it is the event of the request's own path. -/
structure Emission where
  key : Option String
  own : Bool
  event : TriggerEvent

structure EventEntry where
  connectorName : String
  triggerType : String
  actionTaken : String

/-- What the ingress writes to. -/
structure IngressState where
  dedupe : DedupeSeen
  eventLog : List EventEntry
  broadcast : List EventEntry
  botMessages : List ChatMessage
  acks : List (String × Value)
  channel : List Emission

inductive WebhookAnswer where
  | received
  | duplicate
  | error (status : Nat)
deriving DecidableEq

def WebhookAnswer.status : WebhookAnswer → Nat
  | .received | .duplicate => 200
  | .error status => status

def maxPathSegmentLen : Nat := 256

def maxJsonDepth : Nat := 64

mutual

/-- The nesting depth; a scalar has depth one. -/
def jsonDepth : Value → Nat
  | .array items => 1 + jsonDepthItems items
  | .object fields => 1 + jsonDepthFields fields
  | _ => 1

def jsonDepthItems : List Value → Nat
  | [] => 0
  | item :: items => max (jsonDepth item) (jsonDepthItems items)

def jsonDepthFields : List (String × Value) → Nat
  | [] => 0
  | (_, value) :: fields => max (jsonDepth value) (jsonDepthFields fields)

end

/-- The checks up to the signature: the payload, or the status of the refusal. -/
def verifyRequest (sur : Surroundings) (req : WebhookRequest) : Except Nat Value :=
  if req.connectorName.utf8ByteSize > maxPathSegmentLen then .error 400
  else if req.triggerName.utf8ByteSize > maxPathSegmentLen then .error 400
  else
    match sur.entry with
    | none | some false => .error 404
    | some true =>
      match req.body with
      | none => .error 400
      | some payload =>
        if jsonDepth payload > maxJsonDepth then .error 400
        else if sur.verified then .ok payload
        else .error 401

/-- The elements whose send, by their index, goes through. -/
def sentOf {α : Type} (room : Nat → Bool) (items : List α) : List α :=
  (items.zipIdx.filter fun item => room item.2).map Prod.fst

def connectorEvent (req : WebhookRequest) (event : String) (payload : Value) : TriggerEvent :=
  ⟨"ConnectorEvent", some req.connectorName, some event, payload⟩

section Receive

variable (blake3 : String → String) (host : WebhookHost)

/-- All that is written before the request's own event: the event log, the dashboard, the bot's
messages, the further events and the acknowledgements. -/
def ingest (sur : Surroundings) (s : IngressState) (req : WebhookRequest) (payload : Value) :
    IngressState :=
  let entry : EventEntry := ⟨req.connectorName, req.triggerName, "webhook_received"⟩
  let meaning := host.ingestWebhook req.triggerName req.headers payload
  let extras := sentOf (sur.extraRoom · = .sent) meaning.events
  { s with
    eventLog := if sur.logged then s.eventLog ++ [entry] else s.eventLog
    broadcast := s.broadcast ++ [entry]
    botMessages := s.botMessages ++ sentOf sur.botRoom (meaning.messages.filter (·.deliverToBot))
    acks := s.acks ++ meaning.acks
    channel := s.channel ++ extras.map fun extra =>
      ⟨host.webhookReplayKey req.headers, false, connectorEvent req extra.1 extra.2⟩ }

/-- The request's own event comes last. -/
def sendOwn (sur : Surroundings) (s : IngressState) (req : WebhookRequest) (payload : Value) :
    WebhookAnswer × IngressState :=
  match sur.room with
  | .sent =>
    (.received, { s with
      channel := s.channel ++
        [⟨host.webhookReplayKey req.headers, true, connectorEvent req req.triggerName payload⟩] })
  | .full => (.error 503, s)
  | .closed => (.error 500, s)

def receive (sur : Surroundings) (s : IngressState) (req : WebhookRequest) :
    WebhookAnswer × IngressState :=
  match verifyRequest sur req with
  | .error status => (.error status, s)
  | .ok payload =>
    match host.webhookReplayKey req.headers with
    | none => sendOwn host sur (ingest host sur s req payload) req payload
    | some replayKey =>
      if sur.storeWorks then
        match checkAndRecord blake3 s.dedupe req.connectorName replayKey sur.now with
        | (.replay, _) => (.duplicate, s)
        | (.fresh, dedupe) =>
          sendOwn host sur (ingest host sur { s with dedupe } req payload) req payload
      else (.error 500, s)

end Receive

/-- A signed request with a delivery id to one connector, and what it meets. -/
structure Delivery (host : WebhookHost) (connector : String) where
  req : WebhookRequest
  sur : Surroundings
  key : String
  toConnector : req.connectorName = connector
  signed : sur.verified = true
  hasKey : host.webhookReplayKey req.headers = some key

/-- How often the own event of a delivery id was put on the trigger channel. -/
def IngressState.puts (s : IngressState) (key : String) : Nat :=
  s.channel.countP fun e => e.key = some key && e.own

/-- The ingress with a history: the last answer to each delivery id, the ids that were refused as
duplicates right after an error, and the ids whose last request got through (the checks passed,
the store worked, and the id was on record or the trigger channel had room). -/
structure IngressRun where
  state : IngressState
  lastAnswer : String → Option WebhookAnswer
  refusedRetries : List String
  through : String → Bool

namespace IngressRun

variable {host : WebhookHost} {connector : String} (blake3 : String → String)

def new (dedupe : DedupeSeen) : IngressRun :=
  ⟨⟨dedupe, [], [], [], [], []⟩, fun _ => none, [], fun _ => false⟩

/-- The request gets as far as the replay check, and the store answers it. -/
def isChecked (d : Delivery host connector) : Bool :=
  (verifyRequest d.sur d.req).isOk && d.sur.storeWorks

def onRecord (s : IngressRun) (d : Delivery host connector) : Bool :=
  Connector.onRecord blake3 s.state.dedupe connector d.key

def getsThrough (s : IngressRun) (d : Delivery host connector) : Bool :=
  isChecked d && (s.onRecord blake3 d || d.sur.room = .sent)

def receive (s : IngressRun) (d : Delivery host connector) : IngressRun :=
  let (answer, state) := Api.receive blake3 host d.sur s.state d.req
  { state
    lastAnswer := Function.update s.lastAnswer d.key (some answer)
    refusedRetries :=
      if answer = .duplicate ∧ (s.lastAnswer d.key).any (·.status ≠ 200) then
        s.refusedRetries ++ [d.key]
      else s.refusedRetries
    through := Function.update s.through d.key (s.getsThrough blake3 d) }

/-- A delivery whose last answer is 200 has had its event on the trigger channel once, and no retry
of one that was answered with an error was refused as a duplicate. -/
structure NeitherLostNorDoubled (s : IngressRun) : Prop where
  once : ∀ key answer, s.lastAnswer key = some answer → answer.status = 200 → s.state.puts key = 1
  retried : s.refusedRetries = []

/-- A request that finds its id on record follows one that got through, and one that puts the
event of an id on the channel is the first to do so. -/
def keeps (s : IngressRun) (d : Delivery host connector) : Bool :=
  if isChecked d then
    if s.onRecord blake3 d then s.through d.key
    else d.sur.room = .sent → s.state.puts d.key = 0
  else true

theorem verifyRequest_error {sur : Surroundings} {req : WebhookRequest} {status : Nat}
    (h : verifyRequest sur req = .error status) : status ≠ 200 := by
  unfold verifyRequest at h
  rintro rfl
  repeat' split at h
  all_goals cases h

theorem puts_ingest (host : WebhookHost) (sur : Surroundings) (s : IngressState)
    (req : WebhookRequest) (payload : Value) (key : String) :
    (ingest host sur s req payload).puts key = s.puts key := by
  unfold IngressState.puts ingest
  rw [List.countP_append, List.countP_map, Nat.add_eq_left, List.countP_eq_zero]
  intro extra _
  simp

/-- The last step sends the event and answers 200, or answers with an error. -/
theorem sendOwn_cases (host : WebhookHost) (sur : Surroundings) (s : IngressState)
    (req : WebhookRequest) (payload : Value) :
    (sur.room = .sent ∧ (sendOwn host sur s req payload).1 = .received ∧
      ∀ key, (sendOwn host sur s req payload).2.puts key =
        s.puts key + if host.webhookReplayKey req.headers = some key then 1 else 0) ∨
    (sur.room ≠ .sent ∧ ∃ status, status ≠ 200 ∧
      sendOwn host sur s req payload = (.error status, s)) := by
  cases hroom : sur.room with
  | sent =>
    left
    refine ⟨rfl, by rw [sendOwn, hroom], ?_⟩
    intro key
    rw [sendOwn, hroom]
    unfold IngressState.puts
    rw [List.countP_append, List.countP_singleton]
    simp
  | full => exact .inr ⟨by simp, 503, by simp, by rw [sendOwn, hroom]⟩
  | closed => exact .inr ⟨by simp, 500, by simp, by rw [sendOwn, hroom]⟩

/-- What a request with a delivery id does, by how far it comes. -/
inductive Outcome (blake3 : String → String) (s : IngressRun) (d : Delivery host connector) :
    WebhookAnswer → IngressState → Prop where
  | refused {status : Nat} (hchecked : isChecked d = false) (hstatus : status ≠ 200) :
      Outcome blake3 s d (.error status) s.state
  | duplicate (hchecked : isChecked d = true) (hrecord : s.onRecord blake3 d = true) :
      Outcome blake3 s d .duplicate s.state
  | received {state : IngressState} (hchecked : isChecked d = true)
      (hrecord : s.onRecord blake3 d = false) (hroom : d.sur.room = .sent)
      (hputs : ∀ key, state.puts key = s.state.puts key + if d.key = key then 1 else 0) :
      Outcome blake3 s d .received state
  | dropped {status : Nat} {state : IngressState} (hchecked : isChecked d = true)
      (hrecord : s.onRecord blake3 d = false) (hroom : d.sur.room ≠ .sent)
      (hstatus : status ≠ 200) (hputs : ∀ key, state.puts key = s.state.puts key) :
      Outcome blake3 s d (.error status) state

theorem receive_outcome (s : IngressRun) (d : Delivery host connector) :
    Outcome blake3 s d (Api.receive blake3 host d.sur s.state d.req).1
      (Api.receive blake3 host d.sur s.state d.req).2 := by
  unfold Api.receive
  cases hverify : verifyRequest d.sur d.req with
  | error status =>
    exact .refused (by simp [isChecked, hverify, Except.isOk, Except.toBool])
      (verifyRequest_error hverify)
  | ok payload =>
    dsimp only
    rw [d.hasKey]
    dsimp only
    cases hstore : d.sur.storeWorks with
    | false => exact .refused (by simp [isChecked, hstore]) (by decide)
    | true =>
      have hchecked : isChecked d = true := by
        simp [isChecked, hverify, hstore, Except.isOk, Except.toBool]
      rw [if_pos rfl, d.toConnector]
      rcases checkAndRecord_cases blake3 s.state.dedupe connector d.key d.sur.now with
        ⟨hrecord, hcheck⟩ | ⟨hrecord, dedupe, hcheck⟩
      · rw [hcheck]
        exact .duplicate hchecked hrecord
      · rw [hcheck]
        dsimp only
        have hingest := puts_ingest host d.sur { s.state with dedupe } d.req payload
        rcases sendOwn_cases host d.sur (ingest host d.sur { s.state with dedupe } d.req payload)
            d.req payload with ⟨hroom, hanswer, hputs⟩ | ⟨hroom, status, hstatus, hsend⟩
        · rw [hanswer]
          refine .received hchecked hrecord hroom ?_
          intro key
          rw [hputs, hingest, d.hasKey]
          simp [IngressState.puts]
        · rw [hsend]
          exact .dropped hchecked hrecord hroom hstatus hingest

/-- The ids whose last request got through are those last answered with 200, and no event is sent
under an id that was not requested. -/
structure Tracked (s : IngressRun) : Prop where
  through_iff : ∀ key, s.through key = true ↔
    ∃ answer, s.lastAnswer key = some answer ∧ answer.status = 200
  unasked : ∀ key, s.lastAnswer key = none → s.state.puts key = 0

theorem tracked_new (dedupe : DedupeSeen) : Tracked (new dedupe) where
  through_iff := by simp [new]
  unasked := fun _ _ => rfl

section Step

variable {blake3} {s : IngressRun} {d : Delivery host connector}

theorem Outcome.getsThrough_iff {answer : WebhookAnswer} {state : IngressState}
    (h : Outcome blake3 s d answer state) :
    s.getsThrough blake3 d = true ↔ answer.status = 200 := by
  cases h with
  | refused hchecked hstatus => simp [getsThrough, hchecked, WebhookAnswer.status, hstatus]
  | duplicate hchecked hrecord => simp [getsThrough, hchecked, hrecord, WebhookAnswer.status]
  | received hchecked hrecord hroom =>
    simp [getsThrough, hchecked, hroom, WebhookAnswer.status]
  | dropped hchecked hrecord hroom hstatus =>
    simp [getsThrough, hrecord, hroom, WebhookAnswer.status, hstatus]

theorem Outcome.puts_of_ne {answer : WebhookAnswer} {state : IngressState}
    (h : Outcome blake3 s d answer state) {key : String} (hkey : key ≠ d.key) :
    state.puts key = s.state.puts key := by
  cases h with
  | refused => rfl
  | duplicate => rfl
  | received _ _ _ hputs => rw [hputs, if_neg (Ne.symm hkey), Nat.add_zero]
  | dropped _ _ _ _ hputs => exact hputs key

theorem Tracked.receive (h : Tracked s) (d : Delivery host connector) :
    Tracked (s.receive blake3 d) where
  through_iff := by
    intro key
    change Function.update s.through d.key (s.getsThrough blake3 d) key = true ↔
      ∃ answer, Function.update s.lastAnswer d.key (some _) key = some answer ∧ _
    by_cases hkey : key = d.key
    · subst hkey
      rw [Function.update_self, Function.update_self,
        (receive_outcome blake3 s d).getsThrough_iff]
      constructor
      · intro hstatus
        exact ⟨_, rfl, hstatus⟩
      · rintro ⟨answer, heq, hstatus⟩
        cases heq
        exact hstatus
    · rw [Function.update_of_ne hkey, Function.update_of_ne hkey]
      exact h.through_iff key
  unasked := by
    intro key hnone
    change Function.update s.lastAnswer d.key (some _) key = none at hnone
    have hkey : key ≠ d.key := by
      rintro rfl
      rw [Function.update_self] at hnone
      cases hnone
    rw [Function.update_of_ne hkey] at hnone
    exact ((receive_outcome blake3 s d).puts_of_ne hkey).trans (h.unasked key hnone)

/-- The law after a request speaks of its own id only. -/
theorem NeitherLostNorDoubled.receive_iff (hlaw : NeitherLostNorDoubled s) :
    NeitherLostNorDoubled (s.receive blake3 d) ↔
      ((Api.receive blake3 host d.sur s.state d.req).1.status = 200 →
        (Api.receive blake3 host d.sur s.state d.req).2.puts d.key = 1) ∧
      ((Api.receive blake3 host d.sur s.state d.req).1 = .duplicate →
        (s.lastAnswer d.key).any (·.status ≠ 200) = false) := by
  have hout := receive_outcome blake3 s d
  generalize hresult : Api.receive blake3 host d.sur s.state d.req = result at hout ⊢
  obtain ⟨answer, state⟩ := result
  have hreceive : s.receive blake3 d =
      { state
        lastAnswer := Function.update s.lastAnswer d.key (some answer)
        refusedRetries :=
          if answer = .duplicate ∧ (s.lastAnswer d.key).any (·.status ≠ 200) then
            s.refusedRetries ++ [d.key]
          else s.refusedRetries
        through := Function.update s.through d.key (s.getsThrough blake3 d) } := by
    rw [IngressRun.receive, hresult]
  rw [hreceive]
  constructor
  · rintro ⟨honce, hretried⟩
    refine ⟨honce d.key answer (Function.update_self ..), ?_⟩
    intro hduplicate
    rw [Bool.eq_false_iff]
    intro hafter
    dsimp only at hretried
    rw [if_pos ⟨hduplicate, hafter⟩] at hretried
    simp at hretried
  · rintro ⟨honce, hretried⟩
    constructor
    · intro key last hlast hstatus
      by_cases hkey : key = d.key
      · subst hkey
        change Function.update s.lastAnswer d.key (some answer) d.key = some last at hlast
        rw [Function.update_self] at hlast
        cases hlast
        exact honce hstatus
      · change Function.update s.lastAnswer d.key (some answer) key = some last at hlast
        rw [Function.update_of_ne hkey] at hlast
        exact (hout.puts_of_ne hkey).trans (hlaw.once key last hlast hstatus)
    · dsimp only
      rw [if_neg, hlaw.retried]
      rintro ⟨hduplicate, hafter⟩
      rw [hretried hduplicate] at hafter
      cases hafter

/-- A request keeps the law exactly under the condition on the state before it. -/
theorem receive_law_iff (htracked : Tracked s) (hlaw : NeitherLostNorDoubled s) :
    NeitherLostNorDoubled (s.receive blake3 d) ↔ s.keeps blake3 d = true := by
  rw [hlaw.receive_iff]
  have hout := receive_outcome blake3 s d
  generalize Api.receive blake3 host d.sur s.state d.req = result at hout ⊢
  obtain ⟨answer, state⟩ := result
  dsimp only at hout ⊢
  unfold keeps
  cases hout with
  | refused hchecked hstatus => simp [hchecked, WebhookAnswer.status, hstatus]
  | dropped hchecked hrecord hroom hstatus =>
    simp [hchecked, hrecord, hroom, WebhookAnswer.status, hstatus]
  | received hchecked hrecord hroom hputs =>
    rw [hputs d.key]
    simp [hchecked, hrecord, hroom, WebhookAnswer.status]
  | duplicate hchecked hrecord =>
    simp only [hchecked, hrecord, if_true]
    rw [htracked.through_iff d.key]
    constructor
    · rintro ⟨honce, hretried⟩
      have hputs : s.state.puts d.key = 1 := honce rfl
      cases hlast : s.lastAnswer d.key with
      | none => rw [htracked.unasked d.key hlast] at hputs; cases hputs
      | some last => exact ⟨last, rfl, by simpa [hlast] using hretried⟩
    · rintro ⟨last, hlast, hstatus⟩
      refine ⟨fun _ => hlaw.once d.key last hlast hstatus, fun _ => ?_⟩
      simp [hlast, hstatus]

end Step

/-- The deliveries of one connector. -/
def run (blake3 : String → String) (dedupe : DedupeSeen)
    (deliveries : List (Delivery host connector)) : IngressRun :=
  deliveries.foldl (receive blake3) (new dedupe)

theorem run_snoc (blake3 : String → String) (dedupe : DedupeSeen)
    (deliveries : List (Delivery host connector)) (d : Delivery host connector) :
    run blake3 dedupe (deliveries ++ [d]) = (run blake3 dedupe deliveries).receive blake3 d := by
  rw [run, List.foldl_append]
  rfl

theorem tracked_run (blake3 : String → String) (dedupe : DedupeSeen)
    (deliveries : List (Delivery host connector)) :
    Tracked (run blake3 dedupe deliveries) := by
  induction deliveries using List.reverseRecOn with
  | nil => exact tracked_new dedupe
  | append_singleton deliveries d ih =>
    rw [run_snoc]
    exact ih.receive d

/-- Deliveries are neither lost nor doubled throughout a sequence of requests exactly when each
request meets its condition. -/
theorem deliveries_kept_iff (blake3 : String → String) (host : WebhookHost) (connector : String)
    (dedupe : DedupeSeen) (deliveries : List (Delivery host connector)) :
    Throughout (fun pre => NeitherLostNorDoubled (run blake3 dedupe pre)) deliveries ↔
      EachCall (fun pre d => (run blake3 dedupe pre).keeps blake3 d = true) deliveries := by
  apply throughout_iff_eachCall
  · refine ⟨?_, rfl⟩
    intro key answer hlast
    cases hlast
  · intro deliveries d hpre
    rw [run_snoc]
    exact receive_law_iff (tracked_run blake3 dedupe deliveries) hpre.self

/-- A delivery that met a full channel is swallowed when it is retried. -/
theorem retry_swallowed :
    let host : WebhookHost :=
      ⟨fun headers => headers.lookup "kick-event-message-id", fun _ _ _ => ⟨[], [], []⟩⟩
    let delivery (room : SendOutcome) : Delivery host "connector-kick" :=
      ⟨⟨"connector-kick", "channel_followed", [("kick-event-message-id", "msg-1")], some .null⟩,
        ⟨some true, true, true, true, 0, fun _ => true, fun _ => .sent, room⟩,
        "msg-1", rfl, rfl, rfl⟩
    ¬ NeitherLostNorDoubled (run id (.sqlite []) [delivery .full, delivery .sent]) := by
  intro host delivery hlaw
  have honce := hlaw.once "msg-1" .duplicate rfl rfl
  cases honce

end IngressRun

end Springtale.Api
