import Springtale.Bot.SetupFrames

/-! The engine of the setup dialogue: it keeps a frame in the session between messages, and deploys the
recipe when the user confirms it. -/
namespace Springtale.Bot.Setup

open Springtale.Core Springtale.Lib Springtale.Recipes
open Springtale.Formation (isBlankChar)

structure CatalogSnapshot where
  intents : List IntentDoc

def CatalogSnapshot.find (catalog : CatalogSnapshot) (recipeId : String) : Option IntentDoc :=
  catalog.intents.find? (·.recipeId = recipeId)

inductive IntentDecision where
  | confident (recipeId : String)
  | ambiguous (candidates : List (String × String))
  | noMatch

inductive PreflightStatus where
  | blocking
  | warning
  | verified
  | pending
deriving DecidableEq

structure PreflightItem where
  status : PreflightStatus
  detail : Option String

structure PreflightReport where
  items : List PreflightItem
  deployable : Bool

/-- What the runtime answers, an error as `none`, and the summary of what it deployed. -/
structure RecipeDeployer where
  preflight : String → RecipeInputs → Option PreflightReport
  deploy : String → RecipeInputs → Except String String

/-- The ranking of the recipes, and the platform verbs. -/
structure Intents where
  decide : List Char → CatalogSnapshot → IntentDecision
  dispatch : IntentDoc → List Char → Option String

inductive Reply where
  | say (move : Move) (seq : Nat)
  | ran (reply : String)
  | recipeGone
  | optionGone
  | blocked (blockers : List String)
  | failed (error : String)

def Reply.summary : Reply → Option (List SummaryLine)
  | .say move _ => move.summary
  | _ => none

/-- What a call saves in the session, if it saves it, what it replies, if it takes the message, and what
it deploys. -/
structure Turn where
  session : Option (Option Frame)
  reply : Option Reply
  deploy : Option (String × RecipeInputs)

def Turn.unhandled : Turn := ⟨none, none, none⟩

inductive DeployOutcome where
  | done (reply : Reply)
  | blocked (reply : Reply)

section Engine

variable (deployer : Option RecipeDeployer) (frame : Frame)

def PreflightReport.blockers (report : PreflightReport) : List String :=
  (report.items.filter (·.status == .blocking)).filterMap PreflightItem.detail

/-- A blocker without a text does not stop a deployment. -/
def preflightBlockers (deployer : RecipeDeployer) (recipeId : String) (inputs : RecipeInputs) :
    List String :=
  match deployer.preflight recipeId inputs with
  | some report => if report.deployable then [] else report.blockers
  | none => []

def deployNow (doc : IntentDoc) : DeployOutcome × Option (String × RecipeInputs) :=
  let inputs := frame.toRecipeInputs
  match deployer with
  | none => (.done (.say .deployUnavailable frame.seq), none)
  | some deployer =>
    match preflightBlockers deployer doc.recipeId inputs with
    | blocker :: blockers => (.blocked (.blocked (blocker :: blockers)), none)
    | [] =>
      match deployer.deploy doc.recipeId inputs with
      | .ok summary => (.done (.say (.deployed summary) frame.seq), some (doc.recipeId, inputs))
      | .error e => (.blocked (.failed e), some (doc.recipeId, inputs))

variable (jsonText : Value → String) (readers : Readers) (catalog : CatalogSnapshot)

def handoffMove (doc : IntentDoc) : Move :=
  if doc.requiresSecret then .secretHandoff doc.name doc.requiredSecretLabels
  else .libraryHandoff doc.name doc.handoffLabels

/-- A number counts from one; otherwise the candidate whose name shares most words with the text. -/
def pickCandidate (candidates : List String) (text : List Char) : Option String :=
  match (parseUsize (strip isBlankChar text)).bind fun n =>
      if 1 ≤ n then candidates[n - 1]? else none with
  | some id => some id
  | none =>
    let stems := tokenize readers text
    let hits := fun (doc : IntentDoc) => (doc.nameStems.filter stems.contains).length
    let scored := candidates.filterMap fun id => (catalog.find id).map fun doc => (hits doc, id)
    (bestOf (fun a b => decide (b.1 < a.1)) (scored.filter (0 < ·.1))).map (·.2)

def startFrame (stored : Option Frame) (doc : IntentDoc) (text : List Char) (now : Int) : Turn :=
  if doc.requiresHandoff then ⟨some stored, some (.say (handoffMove doc) 0), none⟩
  else
    let (frame, inner) := seedAndAdvance jsonText readers
      (Frame.collecting doc.recipeId text now) doc text
    ⟨some (some frame), some (.say (.ack doc.name inner) frame.seq), none⟩

def resolveClarify (text : List Char) (now : Int) : Turn :=
  if isCancel readers text then ⟨some none, some (.say .cancelled frame.seq), none⟩
  else
    match pickCandidate readers catalog frame.candidates text with
    | none =>
      let names := frame.candidates.filterMap fun id => (catalog.find id).map IntentDoc.name
      ⟨some (some frame), some (.say (.clarify names) frame.seq), none⟩
    | some recipeId =>
      match catalog.find recipeId with
      | none => ⟨some none, some .optionGone, none⟩
      | some doc =>
        if doc.requiresHandoff then
          ⟨some none, some (.say (handoffMove doc) frame.seq), none⟩
        else
          let (fresh, inner) := seedAndAdvance jsonText readers
            { Frame.collecting recipeId frame.originalUtterance now with seq := frame.seq }
            doc frame.originalUtterance
          ⟨some (some fresh), some (.say (.ack doc.name inner) fresh.seq), none⟩

/-- A message to a frame that is past the choice of a recipe. -/
def driveSetup (text : List Char) : Turn :=
  match frame.recipeId.bind catalog.find with
  | none => ⟨some none, some .recipeGone, none⟩
  | some doc =>
    match step jsonText readers frame doc text with
    | (frame, .speak move) => ⟨some (some frame), some (.say move frame.seq), none⟩
    | (frame, .cancel move) => ⟨some none, some (.say move frame.seq), none⟩
    | (frame, .deploy) =>
      match deployNow deployer frame doc with
      | (.done reply, deploy) => ⟨some none, some reply, deploy⟩
      | (.blocked reply, deploy) => ⟨some (some frame), some reply, deploy⟩

def drive (text : List Char) (now : Int) : Turn :=
  if frame.step = .clarifying then resolveClarify frame jsonText readers catalog text now
  else driveSetup deployer frame jsonText readers catalog text

end Engine

/-- A call of the engine, with what it reads: the clock, at the start and later, the catalogue, the
deployer, and whether the session is saved. -/
structure Call where
  now : Int
  later : Int
  catalog : CatalogSnapshot
  deployer : Option RecipeDeployer
  saved : Bool

inductive Message where
  | continueActive (text : List Char)
  | tryStart (text : List Char)
  | startRecipe (recipeId : String) (utterance : List Char)

section Calls

variable (jsonText : Value → String) (readers : Readers) (intents : Intents) (call : Call)
variable (stored : Option Frame)

/-- The frame of the session, unless it has expired. -/
def loadFrame : Option Frame := stored.filter (!·.isExpired call.now)

def continueActive (text : List Char) : Turn :=
  match loadFrame call stored with
  | none => .unhandled
  | some frame =>
    drive call.deployer frame.bumpSeq jsonText readers call.catalog text call.later

def tryStart (text : List Char) : Turn :=
  match intents.decide text call.catalog with
  | .confident recipeId =>
    match call.catalog.find recipeId with
    | none => .unhandled
    | some doc =>
      if doc.platformVerb.isSome then ⟨none, (intents.dispatch doc text).map .ran, none⟩
      else startFrame jsonText readers stored doc text call.now
  | .ambiguous candidates =>
    let frame := Frame.clarifying (candidates.map (·.1)) text call.now
    ⟨some (some frame), some (.say (.clarify (candidates.map (·.2))) frame.seq), none⟩
  | .noMatch => .unhandled

def startRecipe (recipeId : String) (utterance : List Char) : Turn :=
  match call.catalog.find recipeId with
  | none => .unhandled
  | some doc => startFrame jsonText readers stored doc utterance call.now

def handle : Message → Turn
  | .continueActive text => continueActive jsonText readers call stored text
  | .tryStart text => tryStart jsonText readers intents call stored text
  | .startRecipe recipeId utterance => startRecipe jsonText readers call stored recipeId utterance

end Calls

/-- Values handed to the runtime, and the summary that was last shown before. -/
structure Deploy where
  recipeId : String
  inputs : RecipeInputs
  shown : Option (CatalogSnapshot × List SummaryLine)

/-- A session: its frame, what was said, and what was deployed, the latest first. -/
structure Conversation where
  stored : Option Frame
  said : List (CatalogSnapshot × Reply)
  deploys : List Deploy

namespace Conversation

def start : Conversation := ⟨none, [], []⟩

def lastSummary (c : Conversation) : Option (CatalogSnapshot × List SummaryLine) :=
  c.said.findSome? fun (catalog, reply) => (Reply.summary reply).map fun lines => (catalog, lines)

variable (c : Conversation) (call : Call) (turn : Turn)

def record : List Deploy :=
  turn.deploy.toList.map (fun d => ⟨d.1, d.2, c.lastSummary⟩) ++ c.deploys

/-- Without the session a reply is lost. -/
def after : Conversation :=
  match turn.session, call.saved with
  | some _, false => { c with deploys := c.record turn }
  | session, _ => ⟨session.getD c.stored, turn.reply.toList.map (call.catalog, ·) ++ c.said,
      c.record turn⟩

end Conversation

section Runs

variable (jsonText : Value → String) (readers : Readers) (intents : Intents)

def turn (c : Conversation) (e : Call × Message) : Conversation :=
  c.after e.1 (handle jsonText readers intents e.1 c.stored e.2)

def run (calls : List (Call × Message)) : Conversation :=
  calls.foldl (turn jsonText readers intents) .start

end Runs

section Turns

variable {jsonText : Value → String} {readers : Readers} {intents : Intents} {call : Call}
variable {stored : Option Frame}

/-- The summary in the reply, if there is one. -/
def Turn.summary (turn : Turn) : Option (List SummaryLine) := turn.reply.bind Reply.summary

theorem find_recipeId {catalog : CatalogSnapshot} {id : String} {doc : IntentDoc}
    (h : catalog.find id = some doc) : doc.recipeId = id := by
  simpa using List.find?_some h

/-- What a call may do with the session. -/
inductive TurnOf (jsonText : Value → String) (readers : Readers) (call : Call)
    (stored : Option Frame) : Turn → Prop
  | kept {session : Option (Option Frame)} {reply : Option Reply}
      (hsession : session = none ∨ session = some none ∨ session = some stored)
      (hreply : Turn.summary ⟨session, reply, none⟩ = none) :
      TurnOf jsonText readers call stored ⟨session, reply, none⟩
  | asked {frame : Frame} {reply : Option Reply} (hstep : frame.step = .clarifying)
      (hfilled : (∃ asked ∈ stored, asked.filled = frame.filled ∧
        asked.recipeId = frame.recipeId) ∨ ∀ key, frame.filled.get key = none)
      (hreply : Turn.summary ⟨some (some frame), reply, none⟩ = none) :
      TurnOf jsonText readers call stored ⟨some (some frame), reply, none⟩
  | started {id name : String} {base fresh : Frame} {doc : IntentDoc} {text : List Char}
      {move : Move} (hfind : call.catalog.find id = some doc)
      (hhandoff : doc.requiresHandoff = false) (hid : base.recipeId = some id)
      (hfilled : ∀ key, base.filled.get key = none)
      (hseed : seedAndAdvance jsonText readers base doc text = (fresh, move)) :
      TurnOf jsonText readers call stored
        ⟨some (some fresh), some (.say (.ack name move) fresh.seq), none⟩
  | spoke {frame frame' : Frame} {doc : IntentDoc} {text : List Char} {move : Move}
      (hstored : stored = some frame) (hstep : frame.step ≠ .clarifying)
      (hfind : frame.recipeId.bind call.catalog.find = some doc)
      (hmove : step jsonText readers frame.bumpSeq doc text = (frame', .speak move)) :
      TurnOf jsonText readers call stored
        ⟨some (some frame'), some (.say move frame'.seq), none⟩
  | confirmed {frame : Frame} {doc : IntentDoc} {session : Option Frame} {reply : Reply}
      {deploy : Option (String × RecipeInputs)} (hstored : stored = some frame)
      (hstep : frame.step = .confirming)
      (hfind : frame.recipeId.bind call.catalog.find = some doc)
      (hsession : session = none ∨ session = some frame.bumpSeq)
      (hreply : Turn.summary ⟨some session, some reply, deploy⟩ = none)
      (hdeploy : ∀ d ∈ deploy, d = (doc.recipeId, frame.toRecipeInputs)) :
      TurnOf jsonText readers call stored ⟨some session, some reply, deploy⟩

theorem startFrame_turnOf {id : String} {doc : IntentDoc} {text : List Char} {now : Int}
    (hfind : call.catalog.find id = some doc) :
    TurnOf jsonText readers call stored (startFrame jsonText readers stored doc text now) := by
  rw [startFrame]
  split
  · refine .kept (.inr (.inr rfl)) ?_
    rw [handoffMove]
    split <;> rfl
  · rename_i hhandoff
    generalize hseed : seedAndAdvance jsonText readers
      (Frame.collecting doc.recipeId text now) doc text = seeded
    obtain ⟨fresh, move⟩ := seeded
    exact .started hfind (by simpa using hhandoff) (by rw [find_recipeId hfind]; rfl)
      (fun _ => rfl) hseed

theorem resolveClarify_turnOf {frame : Frame} {text : List Char} {now : Int}
    (hstored : stored = some frame) (hstep : frame.step = .clarifying) :
    TurnOf jsonText readers call stored
      (resolveClarify frame.bumpSeq jsonText readers call.catalog text now) := by
  rw [resolveClarify]
  split
  · exact .kept (.inr (.inl rfl)) rfl
  · split
    · exact .asked hstep (.inl ⟨frame, hstored, rfl, rfl⟩) rfl
    · split
      · exact .kept (.inr (.inl rfl)) rfl
      · rename_i recipeId _ _ doc hfind
        split
        · refine .kept (.inr (.inl rfl)) ?_
          rw [handoffMove]
          split <;> rfl
        · rename_i hhandoff
          generalize hseed : seedAndAdvance jsonText readers
            { Frame.collecting recipeId frame.bumpSeq.originalUtterance now with
              seq := frame.bumpSeq.seq } doc frame.bumpSeq.originalUtterance = seeded
          obtain ⟨fresh, move⟩ := seeded
          exact .started hfind (by simpa using hhandoff) rfl (fun _ => rfl) hseed

theorem deployNow_cases (deployer : Option RecipeDeployer) (frame : Frame) (doc : IntentDoc) :
    ∃ reply deploy, ((deployNow deployer frame doc = (.done reply, deploy)) ∨
        deployNow deployer frame doc = (.blocked reply, deploy)) ∧
      Reply.summary reply = none ∧
      ∀ d ∈ deploy, d = (doc.recipeId, frame.toRecipeInputs) := by
  cases deployer with
  | none => exact ⟨_, _, .inl rfl, rfl, by simp⟩
  | some deployer =>
    simp only [deployNow]
    cases preflightBlockers deployer doc.recipeId frame.toRecipeInputs with
    | cons blocker blockers => exact ⟨_, _, .inr rfl, rfl, by simp⟩
    | nil =>
      cases deployer.deploy doc.recipeId frame.toRecipeInputs with
      | ok summary => exact ⟨_, _, .inl rfl, rfl, by simp⟩
      | error e => exact ⟨_, _, .inr rfl, rfl, by simp⟩

theorem driveSetup_turnOf {frame : Frame} {text : List Char} (hstored : stored = some frame)
    (hstep : frame.step ≠ .clarifying) :
    TurnOf jsonText readers call stored
      (driveSetup call.deployer frame.bumpSeq jsonText readers call.catalog text) := by
  rw [driveSetup]
  split
  · exact .kept (.inr (.inl rfl)) rfl
  · rename_i doc hfind
    split
    · rename_i frame' move hmove
      exact .spoke hstored hstep hfind hmove
    · rename_i move hmove
      obtain rfl := step_cancel hmove
      exact .kept (.inr (.inl rfl)) rfl
    · rename_i frame' hmove
      obtain ⟨rfl, hconfirming⟩ := step_deploy hmove
      obtain ⟨reply, deploy, houtcome | houtcome, hreply, hdeploy⟩ :=
        deployNow_cases call.deployer frame.bumpSeq doc
      · rw [houtcome]
        exact .confirmed hstored hconfirming hfind (.inl rfl) hreply hdeploy
      · rw [houtcome]
        exact .confirmed hstored hconfirming hfind (.inr rfl) hreply hdeploy

theorem continueActive_turnOf {text : List Char} :
    TurnOf jsonText readers call stored
      (continueActive jsonText readers call stored text) := by
  rw [continueActive]
  split
  · exact .kept (.inl rfl) rfl
  · rename_i frame hload
    obtain ⟨hstored, -⟩ := Option.filter_eq_some_iff.mp hload
    rw [drive]
    split
    · rename_i hstep
      exact resolveClarify_turnOf hstored hstep
    · rename_i hstep
      exact driveSetup_turnOf hstored hstep

theorem tryStart_turnOf {text : List Char} :
    TurnOf jsonText readers call stored
      (tryStart jsonText readers intents call stored text) := by
  rw [tryStart]
  split
  · split
    · exact .kept (.inl rfl) rfl
    · rename_i doc hfind
      split
      · refine .kept (.inl rfl) ?_
        cases intents.dispatch doc text <;> rfl
      · exact startFrame_turnOf hfind
  · exact .asked rfl (.inr fun _ => rfl) rfl
  · exact .kept (.inl rfl) rfl

theorem handle_turnOf (message : Message) :
    TurnOf jsonText readers call stored
      (handle jsonText readers intents call stored message) := by
  cases message with
  | continueActive text => exact continueActive_turnOf
  | tryStart text => exact tryStart_turnOf
  | startRecipe recipeId utterance =>
    rw [handle, startRecipe]
    split
    · exact .kept (.inl rfl) rfl
    · rename_i doc hfind
      exact startFrame_turnOf hfind

end Turns

section Shown

variable {jsonText : Value → String} {readers : Readers} {intents : Intents} {call : Call}
variable {c : Conversation} {turn : Turn}

/-- What the call leaves in the session. -/
def Turn.stored (turn : Turn) (call : Call) (before : Option Frame) : Option Frame :=
  if call.saved then turn.session.getD before else before

theorem after_stored : (c.after call turn).stored = turn.stored call c.stored := by
  rw [Conversation.after, Turn.stored]
  cases hsession : turn.session <;> cases call.saved <;> rfl

theorem after_deploys : (c.after call turn).deploys = c.record turn := by
  rw [Conversation.after]
  cases hsession : turn.session <;> cases call.saved <;> rfl

theorem after_lastSummary_none (h : turn.summary = none) :
    (c.after call turn).lastSummary = c.lastSummary := by
  have hreply : (turn.reply.toList.map (call.catalog, ·)).findSome? (fun (catalog, reply) =>
      (Reply.summary reply).map fun lines => (catalog, lines)) = none := by
    cases hturn : turn.reply with
    | none => rfl
    | some reply =>
      have hnone : Reply.summary reply = none := by
        simpa [Turn.summary, hturn] using h
      simp [hnone]
  rw [Conversation.after]
  split
  · rfl
  · rw [Conversation.lastSummary, List.findSome?_append, hreply]
    rfl

theorem after_lastSummary_some {lines : List SummaryLine} (hsaved : call.saved = true)
    (h : turn.summary = some lines) :
    (c.after call turn).lastSummary = some (call.catalog, lines) := by
  obtain ⟨reply, hreply, hlines⟩ := Option.bind_eq_some_iff.mp h
  rw [Conversation.after, hreply, hsaved]
  cases turn.session <;> simp [Conversation.lastSummary, hlines]

/-- The summary last shown is that of a frame with these values. -/
def Conversation.Shows (c : Conversation) (frame : Frame) : Prop :=
  ∃ catalog doc, frame.recipeId.bind catalog.find = some doc ∧
    c.lastSummary = some (catalog, summaryLines frame doc)

def Conversation.ShowsConfirming (c : Conversation) : Prop :=
  ∀ frame ∈ c.stored, frame.step = .confirming → c.Shows frame

/-- The user was last shown the values, under the recipe as it was then. -/
def Deploy.WasShown (d : Deploy) : Prop :=
  ∃ catalog doc frame, CatalogSnapshot.find catalog d.recipeId = some doc ∧
    d.shown = some (catalog, summaryLines frame doc) ∧ d.inputs = frame.toRecipeInputs

/-- A reply that is lost shows nothing. -/
theorem after_lastSummary_unsaved (hturn : TurnOf jsonText readers call c.stored turn)
    (hsaved : call.saved = false) : (c.after call turn).lastSummary = c.lastSummary := by
  cases hturn with
  | kept hsession hreply => exact after_lastSummary_none hreply
  | asked | started | spoke | confirmed =>
    rw [Conversation.after, hsaved]
    rfl

theorem after_shows (hturn : TurnOf jsonText readers call c.stored turn)
    (h : c.ShowsConfirming) : (c.after call turn).ShowsConfirming := by
  intro frame hframe hstep
  rw [Option.mem_def, after_stored, Turn.stored] at hframe
  cases hsaved : call.saved with
  | false =>
    rw [hsaved] at hframe
    rw [Conversation.Shows, after_lastSummary_unsaved hturn hsaved]
    exact h frame hframe hstep
  | true =>
    rw [hsaved, if_pos rfl] at hframe
    cases hturn with
    | kept hsession hreply =>
      rw [Conversation.Shows, after_lastSummary_none hreply]
      rcases hsession with rfl | rfl | rfl
      · exact h frame hframe hstep
      · cases hframe
      · exact h frame hframe hstep
    | asked hclarifying _ _ =>
      cases hframe
      rw [hclarifying] at hstep
      cases hstep
    | @started id name base fresh doc text move hfind hhandoff hid hfilled hseed =>
      cases hframe
      have hrecipe : (seedAndAdvance jsonText readers base doc text).1.recipeId = base.recipeId :=
        seedAndAdvance_recipeId
      rw [hseed, hid] at hrecipe
      rcases advance_summary hseed with hsummary | ⟨-, hne⟩
      · exact ⟨call.catalog, doc, by rw [hrecipe]; exact hfind,
          after_lastSummary_some hsaved hsummary⟩
      · exact absurd hstep hne
    | @spoke asked frame' doc text move hstored hne hfind hmove =>
      cases hframe
      have hrecipe : (step jsonText readers asked.bumpSeq doc text).1.recipeId =
          asked.recipeId := step_recipeId
      rw [hmove] at hrecipe
      rcases step_summary hmove with hsummary | ⟨hsummary, rfl | hne⟩
      · exact ⟨call.catalog, doc, by rw [hrecipe]; exact hfind,
          after_lastSummary_some hsaved hsummary⟩
      · have hnone : Turn.summary ⟨some (some asked.bumpSeq),
            some (.say move asked.bumpSeq.seq), none⟩ = none := hsummary
        rw [Conversation.Shows, after_lastSummary_none hnone]
        exact h asked hstored hstep
      · exact absurd hstep hne
    | @confirmed asked _ _ _ _ hstored _ _ hsession hreply _ =>
      rcases hsession with rfl | rfl
      · cases hframe
      · cases hframe
        rw [Conversation.Shows, after_lastSummary_none hreply]
        exact h asked hstored hstep

/-- What is deployed is what the user was last shown. -/
theorem record_wasShown (hturn : TurnOf jsonText readers call c.stored turn)
    (h : c.ShowsConfirming) (hold : ∀ d ∈ c.deploys, d.WasShown) :
    ∀ d ∈ (c.after call turn).deploys, d.WasShown := by
  intro d hd
  rw [after_deploys, Conversation.record, List.mem_append] at hd
  rcases hd with hd | hd
  · obtain ⟨deploy, hdeploy, rfl⟩ := List.mem_map.mp hd
    rw [Option.mem_toList] at hdeploy
    cases hturn with
    | kept | asked | started | spoke => cases hdeploy
    | confirmed hstored hstep hfind _ _ hall =>
      obtain rfl := hall deploy hdeploy
      obtain ⟨catalog, doc, hshown, hlast⟩ := h _ hstored hstep
      obtain ⟨id, hid, hdoc⟩ := Option.bind_eq_some_iff.mp hfind
      rw [hid] at hshown
      exact ⟨catalog, doc, _, (find_recipeId hdoc).symm ▸ hshown, hlast, rfl⟩
  · exact hold d hd

theorem run_concat (calls : List (Call × Message)) (e : Call × Message) :
    run jsonText readers intents (calls ++ [e]) =
      Setup.turn jsonText readers intents (run jsonText readers intents calls) e := by
  rw [run, List.foldl_concat, run]

theorem run_shown (calls : List (Call × Message)) :
    (run jsonText readers intents calls).ShowsConfirming ∧
      ∀ d ∈ (run jsonText readers intents calls).deploys, d.WasShown := by
  induction calls using List.reverseRecOn with
  | nil => exact ⟨fun _ h => (by cases h), fun _ h => (by cases h)⟩
  | append_singleton calls e ih =>
    rw [run_concat]
    exact ⟨after_shows (handle_turnOf e.2) ih.1, record_wasShown (handle_turnOf e.2) ih.1 ih.2⟩

end Shown

section Sourced

variable {jsonText : Value → String} {readers : Readers} {intents : Intents} {call : Call}
variable {c : Conversation} {turn : Turn} {seen : List CatalogSnapshot}

/-- A recipe of this id, in a catalogue that was seen, has a slot for the value. -/
def SourcedValue (readers : Readers) (seen : List CatalogSnapshot) (recipeId : Option String)
    (id : String) (filled : FilledSlot) : Prop :=
  ∃ catalog ∈ seen, ∃ doc, recipeId.bind catalog.find = some doc ∧ FromDoc readers doc id filled

def Sourced (readers : Readers) (seen : List CatalogSnapshot) (frame : Frame) : Prop :=
  ∀ id filled, frame.filled.get id = some filled →
    SourcedValue readers seen frame.recipeId id filled

theorem SourcedValue.mono {recipeId : Option String} {id : String} {filled : FilledSlot}
    (h : SourcedValue readers seen recipeId id filled) (catalog : CatalogSnapshot) :
    SourcedValue readers (catalog :: seen) recipeId id filled := by
  obtain ⟨catalog', hmem, hdoc⟩ := h
  exact ⟨catalog', List.mem_cons_of_mem _ hmem, hdoc⟩

theorem Sourced.mono {frame : Frame} (h : Sourced readers seen frame)
    (catalog : CatalogSnapshot) : Sourced readers (catalog :: seen) frame :=
  fun id filled hget => (h id filled hget).mono catalog

/-- Filling slots from a recipe of the catalogue keeps where the values are from. -/
theorem Sourced.filledUp {frame frame' : Frame} {catalog : CatalogSnapshot} {doc : IntentDoc}
    (h : Sourced readers seen frame) (hid : frame'.recipeId = frame.recipeId)
    (hfind : frame.recipeId.bind catalog.find = some doc)
    (hup : FilledUp readers doc frame.filled frame'.filled) :
    Sourced readers (catalog :: seen) frame' := by
  intro id filled hget
  rw [hid]
  rcases hup.get hget with hbefore | hfrom
  · exact (h id filled hbefore).mono catalog
  · exact ⟨catalog, List.mem_cons_self, doc, hfind, hfrom⟩

theorem Sourced.empty {frame : Frame} (h : ∀ key, frame.filled.get key = none) :
    Sourced readers seen frame := by
  intro id filled hget
  rw [h] at hget
  cases hget

/-- The values in the session and in what was deployed. -/
structure Conversation.Sourced (readers : Readers) (seen : List CatalogSnapshot)
    (c : Conversation) : Prop where
  stored : ∀ frame ∈ c.stored, Setup.Sourced readers seen frame
  deploys : ∀ d ∈ c.deploys, ∃ frame, d.inputs = Frame.toRecipeInputs frame ∧
    frame.recipeId = some d.recipeId ∧ Setup.Sourced readers seen frame

theorem session_sourced {session : Option Frame} {deploy : Option (String × RecipeInputs)}
    {reply : Option Reply} (hturn : TurnOf jsonText readers call c.stored ⟨some session, reply, deploy⟩)
    (h : c.Sourced readers seen) : ∀ frame ∈ session, Sourced readers (call.catalog :: seen) frame := by
  intro frame hframe
  cases hturn with
  | kept hsession _ =>
    rcases hsession with hsession | hsession | hsession <;> cases hsession
    · cases hframe
    · exact (h.stored frame hframe).mono _
  | asked _ hfilled _ =>
    cases hframe
    rcases hfilled with ⟨asked, hasked, heq, hid⟩ | hempty
    · intro id filled hget
      rw [← hid]
      exact ((h.stored asked hasked) id filled (heq ▸ hget)).mono _
    · exact .empty hempty
  | @started id name base fresh doc text move hfind hhandoff hid hfilled hseed =>
    cases hframe
    have hrecipe : (seedAndAdvance jsonText readers base doc text).1.recipeId = base.recipeId :=
      seedAndAdvance_recipeId
    have hup : FilledUp readers doc base.filled
        (seedAndAdvance jsonText readers base doc text).1.filled := seedAndAdvance_filledUp
    rw [hseed] at hrecipe hup
    exact (Sourced.empty hfilled).filledUp hrecipe (by rw [hid]; exact hfind) hup
  | @spoke asked frame' doc text move hstored hne hfind hmove =>
    cases hframe
    have hrecipe : (step jsonText readers asked.bumpSeq doc text).1.recipeId =
        asked.recipeId := step_recipeId
    have hup : FilledUp readers doc asked.bumpSeq.filled
        (step jsonText readers asked.bumpSeq doc text).1.filled := step_filledUp
    rw [hmove] at hrecipe hup
    exact (h.stored asked hstored).filledUp hrecipe hfind hup
  | @confirmed asked _ _ _ _ hstored _ _ hsession _ _ =>
    rcases hsession with rfl | rfl
    · cases hframe
    · cases hframe
      exact (h.stored asked hstored).mono _

theorem after_sourced (hturn : TurnOf jsonText readers call c.stored turn)
    (h : c.Sourced readers seen) :
    (c.after call turn).Sourced readers (call.catalog :: seen) where
  stored frame hframe := by
    rw [Option.mem_def, after_stored, Turn.stored] at hframe
    obtain ⟨session, reply, deploy⟩ := turn
    cases session with
    | none =>
      have hstored : c.stored = some frame := by
        split at hframe <;> exact hframe
      exact (h.stored frame hstored).mono _
    | some session =>
      split at hframe
      · exact session_sourced hturn h frame hframe
      · exact (h.stored frame hframe).mono _
  deploys d hd := by
    rw [after_deploys, Conversation.record, List.mem_append] at hd
    rcases hd with hd | hd
    · obtain ⟨deploy, hdeploy, rfl⟩ := List.mem_map.mp hd
      rw [Option.mem_toList] at hdeploy
      cases hturn with
      | kept | asked | started | spoke => cases hdeploy
      | @confirmed asked doc _ _ _ hstored _ hfind _ _ hall =>
        obtain rfl := hall deploy hdeploy
        obtain ⟨id, hid, hdoc⟩ := Option.bind_eq_some_iff.mp hfind
        exact ⟨asked, rfl, (find_recipeId hdoc).symm ▸ hid, (h.stored asked hstored).mono _⟩
    · obtain ⟨frame, hinputs, hid, hsourced⟩ := h.deploys d hd
      exact ⟨frame, hinputs, hid, hsourced.mono _⟩

def catalogs (calls : List (Call × Message)) : List CatalogSnapshot :=
  calls.reverse.map fun e => e.1.catalog

theorem run_sourced (calls : List (Call × Message)) :
    (run jsonText readers intents calls).Sourced readers (catalogs calls) := by
  induction calls using List.reverseRecOn with
  | nil => exact ⟨fun _ h => (by cases h), fun _ h => (by cases h)⟩
  | append_singleton calls e ih =>
    rw [run_concat, catalogs, List.reverse_concat, List.map_cons]
    exact after_sourced (handle_turnOf e.2) ih

end Sourced

section Complete

variable {jsonText : Value → String} {readers : Readers} {intents : Intents} {call : Call}
variable {c : Conversation} {turn : Turn} {catalog : CatalogSnapshot}

/-- A frame of a recipe that the chat can set up, between two messages. -/
def Ready (catalog : CatalogSnapshot) (frame : Frame) (doc : IntentDoc) : Prop :=
  frame.recipeId.bind catalog.find = some doc ∧ doc.requiresHandoff = false ∧ Settled frame doc

theorem Ready.bumpSeq {frame : Frame} {doc : IntentDoc} (h : Ready catalog frame doc) :
    Ready catalog frame.bumpSeq doc :=
  ⟨h.1, h.2.1, h.2.2.defaults, h.2.2.asks⟩

theorem Ready.step {frame : Frame} {doc : IntentDoc} {text : List Char}
    (h : Ready catalog frame doc) :
    Ready catalog (step jsonText readers frame doc text).1 doc :=
  ⟨step_recipeId.symm ▸ h.1, h.2.1, step_settled h.2.2⟩

/-- Over one catalogue, the session holds a choice of recipes or a frame that is ready. -/
def Conversation.Ready (catalog : CatalogSnapshot) (c : Conversation) : Prop :=
  ∀ frame ∈ c.stored, frame.step ≠ .clarifying → ∃ doc, Setup.Ready catalog frame doc

theorem session_ready {session : Option Frame} {deploy : Option (String × RecipeInputs)}
    {reply : Option Reply} (hcatalog : call.catalog = catalog)
    (hturn : TurnOf jsonText readers call c.stored ⟨some session, reply, deploy⟩)
    (h : c.Ready catalog) :
    ∀ frame ∈ session, frame.step ≠ .clarifying → ∃ doc, Setup.Ready catalog frame doc := by
  intro frame hframe hstep
  subst hcatalog
  cases hturn with
  | kept hsession _ =>
    rcases hsession with hsession | hsession | hsession <;> cases hsession
    · cases hframe
    · exact h frame hframe hstep
  | asked hclarifying _ _ =>
    cases hframe
    exact absurd hclarifying hstep
  | @started id name base fresh doc text move hfind hhandoff hid hfilled hseed =>
    cases hframe
    have hrecipe : (seedAndAdvance jsonText readers base doc text).1.recipeId = base.recipeId :=
      seedAndAdvance_recipeId
    have hsettled : Settled (seedAndAdvance jsonText readers base doc text).1 doc :=
      advance_settled
    rw [hseed] at hrecipe hsettled
    exact ⟨doc, by rw [hrecipe, hid]; exact hfind, hhandoff, hsettled⟩
  | @spoke asked frame' doc text move hstored hne hfind hmove =>
    cases hframe
    obtain ⟨doc', hready⟩ := h asked hstored hne
    obtain rfl : doc = doc' := Option.some.inj (hfind.symm.trans hready.1)
    have hnext : Setup.Ready call.catalog
        (Setup.step jsonText readers asked.bumpSeq doc text).1 doc := hready.bumpSeq.step
    rw [hmove] at hnext
    exact ⟨doc, hnext⟩
  | @confirmed asked _ _ _ _ hstored _ _ hsession _ _ =>
    rcases hsession with rfl | rfl
    · cases hframe
    · cases hframe
      obtain ⟨doc, hready⟩ := h asked hstored hstep
      exact ⟨doc, hready.bumpSeq⟩

theorem after_ready (hcatalog : call.catalog = catalog)
    (hturn : TurnOf jsonText readers call c.stored turn) (h : c.Ready catalog) :
    (c.after call turn).Ready catalog := by
  intro frame hframe hstep
  rw [Option.mem_def, after_stored, Turn.stored] at hframe
  obtain ⟨session, reply, deploy⟩ := turn
  cases session with
  | none =>
    have hstored : c.stored = some frame := by
      split at hframe <;> exact hframe
    exact h frame hstored hstep
  | some session =>
    split at hframe
    · exact session_ready hcatalog hturn h frame hframe hstep
    · exact h frame hframe hstep

/-- The document has a value for each of its required inputs, and needs nothing the chat cannot ask. It
is a recipe, or a platform verb that was picked among several or named by its identifier: only an
utterance that is taken for a verb with confidence runs it instead. -/
def Deploy.Complete (catalog : CatalogSnapshot) (d : Deploy) : Prop :=
  ∃ doc, catalog.find d.recipeId = some doc ∧ doc.requiresHandoff = false ∧
    ∀ slot ∈ doc.slots, slot.isRequired = true → (d.inputs.get slot.id.toList).isSome = true

theorem record_complete (hcatalog : call.catalog = catalog)
    (hturn : TurnOf jsonText readers call c.stored turn) (h : c.Ready catalog)
    (hold : ∀ d ∈ c.deploys, d.Complete catalog) :
    ∀ d ∈ (c.after call turn).deploys, d.Complete catalog := by
  intro d hd
  subst hcatalog
  rw [after_deploys, Conversation.record, List.mem_append] at hd
  rcases hd with hd | hd
  · obtain ⟨deploy, hdeploy, rfl⟩ := List.mem_map.mp hd
    rw [Option.mem_toList] at hdeploy
    cases hturn with
    | kept | asked | started | spoke => cases hdeploy
    | @confirmed asked doc _ _ _ hstored hstep hfind _ _ hall =>
      obtain rfl := hall deploy hdeploy
      obtain ⟨doc', hfind', hhandoff, hsettled⟩ := h asked hstored (by rw [hstep]; intro h; cases h)
      obtain rfl : doc = doc' := Option.some.inj (hfind.symm.trans hfind')
      obtain ⟨id, hid, hdoc⟩ := Option.bind_eq_some_iff.mp hfind
      refine ⟨doc, (find_recipeId hdoc).symm ▸ hdoc, hhandoff, fun slot hmem hrequired => ?_⟩
      have hmissing : firstMissingRequired asked doc = none := by
        rcases hsettled.asks with ⟨-, hnone⟩ | ⟨hcollecting, -⟩
        · exact hnone
        · rw [hstep] at hcollecting
          cases hcollecting
      rw [toRecipeInputs_get, Option.isSome_map]
      exact hsettled.complete hhandoff hmissing hmem hrequired
  · exact hold d hd

/-- Calls that all see one catalogue. -/
def onCatalog (catalog : CatalogSnapshot) (calls : List (Call × Message)) :
    List (Call × Message) :=
  calls.map fun (call, message) => ({ call with catalog }, message)

theorem run_complete (calls : List (Call × Message)) :
    (run jsonText readers intents (onCatalog catalog calls)).Ready catalog ∧
      ∀ d ∈ (run jsonText readers intents (onCatalog catalog calls)).deploys,
        d.Complete catalog := by
  induction calls using List.reverseRecOn with
  | nil => exact ⟨fun _ h => (by cases h), fun _ h => (by cases h)⟩
  | append_singleton calls e ih =>
    rw [onCatalog, List.map_append, ← onCatalog, List.map_singleton, run_concat]
    exact ⟨after_ready rfl (handle_turnOf e.2) ih.1,
      record_complete rfl (handle_turnOf e.2) ih.1 ih.2⟩

end Complete

section Continued

variable (jsonText : Value → String) (readers : Readers) (intents : Intents)

/-- The session after a message that answers in it. -/
def continued (c : Conversation) (e : Call × List Char) : Conversation :=
  turn jsonText readers intents c (e.1, .continueActive e.2)

/-- Whether the message is taken for the answer to the question last asked. -/
def takesAnswer (c : Conversation) (e : Call × List Char) : Bool :=
  e.1.saved && ((loadFrame e.1 c.stored).any fun frame =>
    (frame.recipeId.bind e.1.catalog.find).any fun doc => answersAsked readers frame doc e.2)

def answersTaken : Conversation → List (Call × List Char) → Nat
  | _, [] => 0
  | c, e :: calls => (takesAnswer readers c e).toNat +
      answersTaken (continued jsonText readers intents c e) calls

variable {jsonText readers intents} {c c' c'' : Conversation} {catalog : CatalogSnapshot}
variable {call : Call} {text : List Char}

/-- As long as the setup goes on, it keeps its recipe and its filled slots, each answer leaves one slot
less to be asked for, and it waits for a confirmation exactly when none is left. -/
def Conversation.Progress (catalog : CatalogSnapshot) (c c' : Conversation) (answers : Nat) : Prop :=
  ∀ frame ∈ c.stored, frame.step ≠ .clarifying → ∀ frame' ∈ c'.stored,
    ∃ doc, frame.recipeId.bind catalog.find = some doc ∧ frame'.recipeId = frame.recipeId ∧
      frame'.step ≠ .clarifying ∧ (∀ id, frame.has id = true → frame'.has id = true) ∧
      answers + (missing frame' doc).length ≤ (missing frame doc).length ∧
      (frame'.step = .confirming ↔ missing frame' doc = [])

theorem Settled.step_ne_clarifying {frame : Frame} {doc : IntentDoc} (h : Settled frame doc) :
    frame.step ≠ .clarifying := by
  rcases h.asks with ⟨hstep, -⟩ | ⟨hstep, -⟩ <;> rw [hstep] <;> intro h <;> cases h

theorem Conversation.Progress.refl (hready : c.Ready catalog) : c.Progress catalog c 0 := by
  intro frame hframe hstep frame' hframe'
  obtain rfl : frame = frame' := Option.some.inj (hframe.symm.trans hframe')
  obtain ⟨doc, hfind, -, hsettled⟩ := hready frame hframe hstep
  exact ⟨doc, hfind, rfl, hstep, fun _ h => h, by omega, hsettled.confirming_iff⟩

theorem Conversation.Progress.trans {m n : Nat} (h : c.Progress catalog c' m) (h' : c'.Progress catalog c'' n)
    (hkept : c'.stored = none → c''.stored = none) : c.Progress catalog c'' (m + n) := by
  intro frame hframe hstep frame'' hframe''
  cases hstored : c'.stored with
  | none =>
    rw [Option.mem_def, hkept hstored] at hframe''
    cases hframe''
  | some frame' =>
    obtain ⟨doc, hfind, hid, hstep', hhas, hless, -⟩ := h frame hframe hstep frame' hstored
    obtain ⟨doc', hfind', hid', hstep'', hhas', hless', hiff⟩ := h' frame' hstored hstep' frame'' hframe''
    obtain rfl : doc = doc' := Option.some.inj (hfind.symm.trans (hid ▸ hfind'))
    exact ⟨doc, hfind, hid'.trans hid, hstep'', fun id hget => hhas' id (hhas id hget), by omega, hiff⟩

theorem driveSetup_session (deployer : Option RecipeDeployer) (text : List Char) {frame : Frame}
    {doc : IntentDoc} (hfind : frame.recipeId.bind catalog.find = some doc) :
    (driveSetup deployer frame jsonText readers catalog text).session = some none ∨
      (driveSetup deployer frame jsonText readers catalog text).session =
        some (some (step jsonText readers frame doc text).1) := by
  simp only [driveSetup, hfind]
  generalize step jsonText readers frame doc text = stepped
  obtain ⟨frame', action⟩ := stepped
  cases action with
  | speak move => exact .inr rfl
  | cancel move => exact .inl rfl
  | deploy =>
    obtain ⟨reply, deploy, houtcome | houtcome, -⟩ :=
      deployNow_cases deployer frame' doc
    · left
      dsimp only
      rw [houtcome]
    · right
      dsimp only
      rw [houtcome]

theorem continued_stored_none (e : Call × List Char) (h : c.stored = none) :
    (continued jsonText readers intents c e).stored = none := by
  rw [continued, turn, after_stored, handle, continueActive, loadFrame, h]
  simp [Turn.stored, Turn.unhandled]

theorem continued_stored (e : Call × List Char) {frame : Frame} {doc : IntentDoc}
    (hstored : c.stored = some frame) (hstep : frame.step ≠ .clarifying)
    (hfind : frame.recipeId.bind e.1.catalog.find = some doc) :
    (continued jsonText readers intents c e).stored = none ∨
      ((continued jsonText readers intents c e).stored = some frame ∧
        takesAnswer readers c e = false) ∨
      (continued jsonText readers intents c e).stored =
        some (step jsonText readers frame.bumpSeq doc e.2).1 := by
  rw [continued, turn, after_stored, handle, continueActive, takesAnswer, hstored, Turn.stored]
  cases hsaved : e.1.saved with
  | false => exact .inr (.inl ⟨rfl, rfl⟩)
  | true =>
    cases hload : loadFrame e.1 (some frame) with
    | none => exact .inr (.inl ⟨rfl, rfl⟩)
    | some loaded =>
      obtain rfl : frame = loaded := Option.some.inj (Option.filter_eq_some_iff.mp hload).1
      have hbump : frame.bumpSeq.step ≠ .clarifying := hstep
      have hdrive : (driveSetup e.1.deployer frame.bumpSeq jsonText readers e.1.catalog
          e.2).session = some none ∨ (driveSetup e.1.deployer frame.bumpSeq jsonText readers
          e.1.catalog e.2).session = some (some (step jsonText readers frame.bumpSeq doc e.2).1) :=
        driveSetup_session e.1.deployer e.2 hfind
      simp only [drive, if_neg hbump, if_true]
      rcases hdrive with hsession | hsession
      · rw [hsession]
        exact .inl rfl
      · rw [hsession]
        exact .inr (.inr rfl)

theorem answersAsked_of_takesAnswer {e : Call × List Char} {frame : Frame} {doc : IntentDoc}
    (hstored : c.stored = some frame)
    (hfind : frame.recipeId.bind e.1.catalog.find = some doc)
    (h : takesAnswer readers c e = true) : answersAsked readers frame doc e.2 = true := by
  obtain ⟨-, hany⟩ := Bool.and_eq_true_iff.mp h
  cases hload : loadFrame e.1 c.stored with
  | none =>
    rw [hload] at hany
    cases hany
  | some loaded =>
    have hloaded : c.stored = some loaded := (Option.filter_eq_some_iff.mp hload).1
    obtain rfl : frame = loaded := Option.some.inj (hstored.symm.trans hloaded)
    rw [hload] at hany
    simpa [hfind] using hany

theorem continued_progress (e : Call × List Char) (hcatalog : e.1.catalog = catalog)
    (hready : c.Ready catalog) :
    c.Progress catalog (continued jsonText readers intents c e)
      (takesAnswer readers c e).toNat := by
  subst hcatalog
  intro frame hframe hstep frame' hframe'
  obtain ⟨doc, hfind, hhandoff, hsettled⟩ := hready frame hframe hstep
  have hnext : (continued jsonText readers intents c e).stored = none ∨ _ ∨ _ :=
    continued_stored e hframe hstep hfind
  rcases hnext with h | ⟨h, hanswer⟩ | h <;> rw [Option.mem_def, h] at hframe'
  · cases hframe'
  · cases hframe'
    rw [hanswer]
    exact ⟨doc, hfind, rfl, hstep, fun _ h => h, by simp, hsettled.confirming_iff⟩
  · cases hframe'
    have hsettled' : Settled (step jsonText readers frame.bumpSeq doc e.2).1 doc :=
      step_settled ⟨hsettled.defaults, hsettled.asks⟩
    have hup : FilledUp readers doc frame.bumpSeq.filled
        (step jsonText readers frame.bumpSeq doc e.2).1.filled := step_filledUp
    have hless : (answersAsked readers frame.bumpSeq doc e.2).toNat +
        (missing (step jsonText readers frame.bumpSeq doc e.2).1 doc).length ≤
          (missing frame.bumpSeq doc).length := step_missing ⟨hsettled.defaults, hsettled.asks⟩
    have hrecipe : (step jsonText readers frame.bumpSeq doc e.2).1.recipeId =
        frame.bumpSeq.recipeId := step_recipeId
    refine ⟨doc, hfind, hrecipe, hsettled'.step_ne_clarifying, fun _ h => hup.get_isSome h,
      ?_, hsettled'.confirming_iff⟩
    have hsame : answersAsked readers frame.bumpSeq doc e.2 = answersAsked readers frame doc e.2 :=
      rfl
    have hmissing : missing frame.bumpSeq doc = missing frame doc := rfl
    rw [hsame, hmissing] at hless
    cases htakes : takesAnswer readers c e with
    | false =>
      simp only [Bool.toNat_false]
      omega
    | true =>
      rw [answersAsked_of_takesAnswer hframe hfind htakes] at hless
      exact hless

def continueAll (jsonText : Value → String) (readers : Readers) (intents : Intents)
    (c : Conversation) (calls : List (Call × List Char)) : Conversation :=
  calls.foldl (continued jsonText readers intents) c

theorem continueAll_stored_none (calls : List (Call × List Char)) (h : c.stored = none) :
    (continueAll jsonText readers intents c calls).stored = none := by
  induction calls generalizing c with
  | nil => exact h
  | cons e calls ih => exact ih (continued_stored_none e h)

theorem continueAll_progress (calls : List (Call × List Char))
    (hcatalog : ∀ e ∈ calls, e.1.catalog = catalog) (hready : c.Ready catalog) :
    c.Progress catalog (continueAll jsonText readers intents c calls)
      (answersTaken jsonText readers intents c calls) := by
  induction calls generalizing c with
  | nil => exact .refl hready
  | cons e calls ih =>
    obtain ⟨he, hcalls⟩ := List.forall_mem_cons.mp hcatalog
    exact (continued_progress e he hready).trans
      (ih hcalls (after_ready he (handle_turnOf _) hready)) (continueAll_stored_none calls)

end Continued

section Results

variable (jsonText : Value → String) (readers : Readers) (intents : Intents)

/-- What was deployed has the values of a frame whose summary is the last the user was shown, under the
recipe as its catalogue then had it; of the inputs that this recipe has and shows, each value that the
user gave or the recipe requires has a line in that summary; and each of its lines is such a value of
the deployment. -/
def Conversation.DeploysWhatItShowed (c : Conversation) : Prop :=
  ∀ d ∈ c.deploys, ∃ catalog doc, CatalogSnapshot.find catalog d.recipeId = some doc ∧
    ∃ frame, d.shown = some (catalog, summaryLines frame doc) ∧
      (∀ id : String, d.inputs.get id.toList = (frame.filled.get id).map FilledSlot.value) ∧
      (∀ slot ∈ doc.slots, slot.isUserFacing = true → ∀ filled : FilledSlot,
        frame.filled.get slot.id = some filled →
        slot.isRequired = true ∨ filled.source ≠ .default →
        ⟨slot.label, filled.display, filled.source == .default⟩ ∈ summaryLines frame doc) ∧
      ∀ line ∈ summaryLines frame doc, ∃ slot ∈ doc.slots, slot.isUserFacing = true ∧
        ∃ filled : FilledSlot, frame.filled.get slot.id = some filled ∧
          line = ⟨slot.label, filled.display, filled.source == .default⟩ ∧
          (slot.isRequired = true ∨ filled.source ≠ .default)

/-- Whatever messages come, however the catalogue changes, and whichever replies are lost. -/
theorem run_deploysWhatItShowed (calls : List (Call × Message)) :
    (run jsonText readers intents calls).DeploysWhatItShowed := by
  intro d hd
  obtain ⟨catalog, doc, frame, hfind, hshown, hinputs⟩ := (run_shown calls).2 d hd
  refine ⟨catalog, doc, hfind, frame, hshown, fun id => ?_,
    fun slot hmem huser filled hget hline => ?_, fun line hline => ?_⟩
  · rw [hinputs, toRecipeInputs_get]
  · exact mem_summaryLines hmem huser hget hline
  · exact of_mem_summaryLines hline

def Conversation.DeploysComplete (catalog : CatalogSnapshot) (c : Conversation) : Prop :=
  ∀ d ∈ c.deploys, d.Complete catalog

/-- Over one catalogue, whatever is deployed has all that the recipe requires. -/
theorem run_deploysComplete (catalog : CatalogSnapshot) (calls : List (Call × Message)) :
    (run jsonText readers intents (onCatalog catalog calls)).DeploysComplete catalog :=
  (run_complete calls).2

/-- A value in the session or in what was deployed is one that a catalogue declares for the slot, or it
passed the check of the slot's kind, which is no secret; recipe, slot and kind are those that the
catalogue of that turn had. -/
def Conversation.HoldsChecked (seen : List CatalogSnapshot) (c : Conversation) : Prop :=
  (∀ frame ∈ c.stored, ∀ id filled, frame.filled.get id = some filled →
    ∃ catalog ∈ seen, ∃ doc, frame.recipeId.bind catalog.find = some doc ∧ ∃ slot ∈ doc.slots,
      slot.id = id ∧ (slot.default = some filled.value ∨ slot.tag ≠ .secret ∧ slot.tag ≠ .other ∧
        validateKind readers slot.field.kind filled.value = .ok ())) ∧
  ∀ d ∈ c.deploys, ∀ (id : String) value, d.inputs.get id.toList = some value →
    ∃ catalog ∈ seen, ∃ doc, catalog.find d.recipeId = some doc ∧ ∃ slot ∈ doc.slots,
      slot.id = id ∧ (slot.default = some value ∨ slot.tag ≠ .secret ∧ slot.tag ≠ .other ∧
        validateKind readers slot.field.kind value = .ok ())

theorem run_holdsChecked (calls : List (Call × Message)) :
    (run jsonText readers intents calls).HoldsChecked readers (catalogs calls) := by
  have hsourced : (run jsonText readers intents calls).Sourced readers (catalogs calls) :=
    run_sourced calls
  constructor
  · intro frame hframe id filled hget
    exact hsourced.stored frame hframe id filled hget
  · intro d hd id value hget
    obtain ⟨frame, hinputs, hid, hframe⟩ := hsourced.deploys d hd
    rw [hinputs, toRecipeInputs_get] at hget
    obtain ⟨filled, hfilled, rfl⟩ := Option.map_eq_some_iff.mp hget
    obtain ⟨catalog, hseen, doc, hfind, slot, hslot⟩ := hframe id filled hfilled
    rw [hid] at hfind
    exact ⟨catalog, hseen, doc, hfind, slot, hslot⟩

/-- Whatever came before, over one catalogue. -/
theorem run_progress (catalog : CatalogSnapshot) (calls : List (Call × Message))
    (answers : List (Call × List Char)) :
    (run jsonText readers intents (onCatalog catalog calls)).Progress catalog
      (continueAll jsonText readers intents
        (run jsonText readers intents (onCatalog catalog calls))
        (answers.map fun (call, text) => ({ call with catalog }, text)))
      (answersTaken jsonText readers intents
        (run jsonText readers intents (onCatalog catalog calls))
        (answers.map fun (call, text) => ({ call with catalog }, text))) := by
  refine continueAll_progress _ (fun e he => ?_) (run_complete calls).1
  obtain ⟨answer, -, rfl⟩ := List.mem_map.mp he
  rfl

end Results

end Springtale.Bot.Setup
