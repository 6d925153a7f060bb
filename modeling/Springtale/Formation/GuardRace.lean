import Mathlib.Logic.Function.Basic
import Springtale.Formation.Live
import Springtale.Lib.Transition

/-! Interleaved guard toggles and deploys, and when the guard row and the live flag agree. -/
namespace Springtale.Formation.GuardRace

open Springtale.Core Springtale.Formation Springtale.Lib

/-- Where one call of the toggle stands: its read done, or its row written and not yet sent. -/
inductive Call where
  | idle
  | read (id : Uuid) (isEnabled : Bool)
  | written (id : Uuid) (engaged : Bool)

/-- The guard rows, the calls in flight, and the bot with the deploy it may be working on. -/
structure State (Caller : Type) where
  row : Uuid → Bool
  calls : Caller → Call
  channel : List FormationCommand
  spawning : Option (Uuid × Option Bool)
  live : List LiveFormation

inductive Action (Caller : Type) where
  | readRow (i : Caller) (id : Uuid)
  | writeRow (i : Caller)
  | failWrite (i : Caller)
  | send (i : Caller)
  | post (cmd : FormationCommand)
  | takeDeploy
  | readGuard
  | push (f : LiveFormation)
  | failSpawn
  | handle

variable {Caller : Type}

/-- All calls have returned and the bot has drained its channel. -/
structure Quiescent (s : State Caller) : Prop where
  calls : ∀ i, s.calls i = .idle
  channel : s.channel = []
  spawning : s.spawning = none

/-- Every live copy carries the flag that its row holds. -/
def Agreement (s : State Caller) : Prop :=
  ∀ f ∈ s.live, f.guardMode = s.row f.id

def copies (id : Uuid) (live : List LiveFormation) : List LiveFormation :=
  live.filter (·.id = id)

/-- The last flag on its way to a formation. -/
def lastGuard (id : Uuid) : List FormationCommand → Option Bool
  | [] => none
  | .setGuard id' e :: rest => (lastGuard id rest).or (if id' = id then some e else none)
  | _ :: rest => lastGuard id rest

/-- What the copies and the pending commands of a formation come to is its row. -/
def Settled (s : State Caller) (id : Uuid) : Prop :=
  match lastGuard id s.channel with
  | some e => e = s.row id
  | none =>
    (∀ f ∈ s.live, f.id = id → f.guardMode = s.row id) ∧
      ∀ b, s.spawning = some (id, some b) → b = s.row id

/-- A formation is settled, or a call that wrote its present row has yet to send. -/
def Inv (s : State Caller) : Prop :=
  ∀ id, Settled s id ∨ ∃ i, s.calls i = .written id (s.row id)

theorem lastGuard_append_setGuard (id id' : Uuid) (e : Bool) (channel : List FormationCommand) :
    lastGuard id (channel ++ [.setGuard id' e]) =
      if id' = id then some e else lastGuard id channel := by
  induction channel with
  | nil => simp [lastGuard]
  | cons cmd rest ih =>
    cases cmd <;> simp [lastGuard, ih]
    split <;> simp

theorem lastGuard_append {cmd : FormationCommand} (h : ∀ id e, cmd ≠ .setGuard id e) (id : Uuid)
    (channel : List FormationCommand) :
    lastGuard id (channel ++ [cmd]) = lastGuard id channel := by
  induction channel with
  | nil => cases cmd <;> simp_all [lastGuard]
  | cons c rest ih => cases c <;> simp [lastGuard, ih]

theorem lastGuard_cons {cmd : FormationCommand} (h : ∀ id e, cmd ≠ .setGuard id e) (id : Uuid)
    (channel : List FormationCommand) :
    lastGuard id (cmd :: channel) = lastGuard id channel := by
  cases cmd <;> simp_all [lastGuard]

/-- A change of the first copy that keeps ids and flags keeps those of the whole set. -/
theorem mem_onFirst {id : Uuid} {f : LiveFormation → LiveFormation}
    (hf : ∀ x, (f x).id = x.id ∧ (f x).guardMode = x.guardMode) {live : List LiveFormation}
    {y : LiveFormation} (hy : y ∈ onFirst id f live) :
    ∃ x ∈ live, x.id = y.id ∧ x.guardMode = y.guardMode := by
  induction live with
  | nil => cases hy
  | cons x xs ih =>
    by_cases hid : x.id = id
    · rw [onFirst, if_pos hid, List.mem_cons] at hy
      rcases hy with rfl | hy
      · exact ⟨x, by simp, (hf x).1.symm, (hf x).2.symm⟩
      · exact ⟨y, List.mem_cons_of_mem x hy, rfl, rfl⟩
    · rw [onFirst, if_neg hid, List.mem_cons] at hy
      rcases hy with rfl | hy
      · exact ⟨y, by simp, rfl, rfl⟩
      · obtain ⟨z, hz, hsame⟩ := ih hy
        exact ⟨z, List.mem_cons_of_mem x hz, hsame⟩

theorem guarded_keeps {f : LiveFormation → LiveFormation}
    (hf : ∀ x, (f x).id = x.id ∧ (f x).guardMode = x.guardMode) (x : LiveFormation) :
    (guarded f x).id = x.id ∧ (guarded f x).guardMode = x.guardMode := by
  unfold guarded
  split
  · exact ⟨rfl, rfl⟩
  · exact hf x

theorem recruit_keeps (connectorName : String) (agentId : Uuid) (x : LiveFormation) :
    (recruit connectorName agentId x).id = x.id ∧
      (recruit connectorName agentId x).guardMode = x.guardMode := by
  unfold recruit
  split
  · exact ⟨rfl, rfl⟩
  · exact guarded_keeps (f := join ⟨agentId, [connectorName], true⟩) (fun _ => ⟨rfl, rfl⟩) x

theorem removeFirstWith_keeps (connectorName : String) (x : LiveFormation) :
    (removeFirstWith connectorName x).id = x.id ∧
      (removeFirstWith connectorName x).guardMode = x.guardMode := by
  unfold removeFirstWith
  split <;> exact ⟨rfl, rfl⟩

theorem selfRally_keeps (x : LiveFormation) :
    (selfRally x).id = x.id ∧ (selfRally x).guardMode = x.guardMode := by
  unfold selfRally
  split <;> exact ⟨rfl, rfl⟩

/-- Only a guard command writes the flag of a live formation. -/
theorem handleFormationCommand_keeps {cmd : FormationCommand}
    (hguard : ∀ id e, cmd ≠ .setGuard id e) (hdeploy : ∀ id, cmd ≠ .deploy id)
    {live : List LiveFormation} {y : LiveFormation}
    (hy : y ∈ handleFormationCommand (fun _ => none) live cmd) :
    ∃ x ∈ live, x.id = y.id ∧ x.guardMode = y.guardMode := by
  cases cmd with
  | deploy id => exact absurd rfl (hdeploy id)
  | setGuard id e => exact absurd rfl (hguard id e)
  | dissolve id reason =>
    have hmem : y ∈ live := by
      simp only [handleFormationCommand, dissolve] at hy
      split at hy
      · split at hy
        · exact hy
        · exact List.mem_of_mem_filter hy
      · exact List.mem_of_mem_filter hy
    exact ⟨y, hmem, rfl, rfl⟩
  | pause id =>
    exact mem_onFirst (f := fun f => { f with paused := true }) (fun _ => ⟨rfl, rfl⟩) hy
  | resume id =>
    exact mem_onFirst (f := fun f => { f with paused := false }) (fun _ => ⟨rfl, rfl⟩) hy
  | changeIntent id intent =>
    exact mem_onFirst (guarded_keeps (f := applyIntent intent) fun _ => ⟨rfl, rfl⟩) hy
  | addMember id connectorName agentId =>
    exact mem_onFirst (f := join ⟨agentId, [connectorName], true⟩) (fun _ => ⟨rfl, rfl⟩) hy
  | recruit id connectorName agentId => exact mem_onFirst (recruit_keeps connectorName agentId) hy
  | removeMember id connectorName =>
    exact mem_onFirst (guarded_keeps (removeFirstWith_keeps connectorName)) hy
  | rally id => exact mem_onFirst (guarded_keeps selfRally_keeps) hy

/-- A guard command writes the first copy; the others have its flag by assumption. -/
theorem onFirst_setGuard {id : Uuid} {e : Bool} {live : List LiveFormation}
    (h : ∀ f ∈ (copies id live).drop 1, f.guardMode = e) :
    ∀ f ∈ onFirst id (setGuard e) live, f.id = id → f.guardMode = e := by
  induction live with
  | nil => intro f hf; cases hf
  | cons x xs ih =>
    intro f hf hid
    by_cases hx : x.id = id
    · rw [onFirst, if_pos hx, List.mem_cons] at hf
      rcases hf with rfl | hf
      · rfl
      · refine h f ?_
        simp [copies, hx, hf, hid]
    · rw [onFirst, if_neg hx, List.mem_cons] at hf
      rcases hf with rfl | hf
      · exact absurd hid hx
      · refine ih ?_ f hf hid
        simpa [copies, hx] using h

/-- A guard command for another formation leaves this one's copies alone. -/
theorem onFirst_setGuard_of_ne {id id' : Uuid} {e : Bool} (hne : id' ≠ id)
    {live : List LiveFormation} {f : LiveFormation} (hf : f ∈ onFirst id' (setGuard e) live)
    (hid : f.id = id) : f ∈ live := by
  induction live with
  | nil => cases hf
  | cons x xs ih =>
    by_cases hx : x.id = id'
    · rw [onFirst, if_pos hx, List.mem_cons] at hf
      rcases hf with rfl | hf
      · exact absurd (hx.symm.trans hid) hne
      · exact List.mem_cons_of_mem x hf
    · rw [onFirst, if_neg hx, List.mem_cons] at hf
      rcases hf with rfl | hf
      · exact List.mem_cons_self
      · exact List.mem_cons_of_mem x (ih hf)

theorem Settled.congr {s t : State Caller} {id : Uuid} (h : Settled s id)
    (hchannel : lastGuard id t.channel = lastGuard id s.channel) (hrow : t.row id = s.row id)
    (hlive : ∀ f ∈ t.live, f.id = id → ∃ x ∈ s.live, x.id = id ∧ x.guardMode = f.guardMode)
    (hspawn : ∀ b, t.spawning = some (id, some b) → s.spawning = some (id, some b)) :
    Settled t id := by
  unfold Settled at h ⊢
  rw [hchannel, hrow]
  cases hlast : lastGuard id s.channel with
  | some e => simpa [hlast] using h
  | none =>
    rw [hlast] at h
    refine ⟨?_, fun b hb => h.2 b (hspawn b hb)⟩
    intro f hf hid
    obtain ⟨x, hx, hxid, hflag⟩ := hlive f hf hid
    rw [← hflag]
    exact h.1 x hx hxid

theorem Settled.readGuard {s : State Caller} {id id' : Uuid} (h : Settled s id) :
    Settled { s with spawning := some (id', some (s.row id')) } id := by
  unfold Settled at h ⊢
  cases hlast : lastGuard id s.channel with
  | some e => simpa [hlast] using h
  | none =>
    rw [hlast] at h
    refine ⟨h.1, ?_⟩
    intro b hb
    obtain ⟨rfl, rfl⟩ : id' = id ∧ s.row id' = b := by simpa using hb
    rfl

theorem Settled.push {s : State Caller} {id : Uuid} {b : Bool} {f : LiveFormation}
    (h : Settled s id) (hspawn : s.spawning = some (f.id, some b)) (hguard : f.guardMode = b) :
    Settled { s with spawning := none, live := s.live ++ [f] } id := by
  unfold Settled at h ⊢
  cases hlast : lastGuard id s.channel with
  | some e => simpa [hlast] using h
  | none =>
    rw [hlast] at h
    refine ⟨?_, by simp⟩
    intro x hx hxid
    rcases List.mem_append.mp hx with hx | hx
    · exact h.1 x hx hxid
    · obtain rfl : x = f := by simpa using hx
      rw [hguard]
      exact h.2 b (by rw [hspawn, hxid])

/-- The bot's next guard command settles a formation's copies, or another command changes no flag. -/
theorem settled_handle {s : State Caller} {id : Uuid} {cmd : FormationCommand}
    {rest : List FormationCommand} (hidle : s.spawning = none) (hchannel : s.channel = cmd :: rest)
    (hcmd : ∀ id, cmd ≠ .deploy id)
    (hcopies : ∀ id e, cmd = .setGuard id e → ∀ f ∈ (copies id s.live).drop 1, f.guardMode = e)
    (h : Settled s id) :
    Settled { s with
      channel := rest
      live := handleFormationCommand (fun _ => none) s.live cmd } id := by
  by_cases hset : ∃ id' e, cmd = .setGuard id' e
  · obtain ⟨id', e, rfl⟩ := hset
    by_cases hid : id' = id
    · subst hid
      unfold Settled at h ⊢
      simp only [hchannel, lastGuard, if_true] at h
      cases hlast : lastGuard id' rest with
      | some e' => simpa [hlast] using h
      | none =>
        simp only [hlast, Option.none_or] at h
        refine ⟨fun f hf hfid => ?_, fun b hb => ?_⟩
        · rw [← h]
          exact onFirst_setGuard (hcopies id' e rfl) f hf hfid
        · simp [hidle] at hb
    · refine h.congr ?_ rfl ?_ fun b hb => hb
      · simp [hchannel, lastGuard, hid]
      · intro f hf hfid
        exact ⟨f, onFirst_setGuard_of_ne hid hf hfid, hfid, rfl⟩
  · have hne : ∀ id e, cmd ≠ .setGuard id e := fun id e heq => hset ⟨id, e, heq⟩
    refine h.congr ?_ rfl ?_ fun b hb => hb
    · rw [hchannel, lastGuard_cons hne]
    · intro f hf hfid
      obtain ⟨x, hx, hxid, hflag⟩ := handleFormationCommand_keeps hne hcmd hf
      exact ⟨x, hx, hxid.trans hfid, hflag⟩

theorem inv_of_agreement {s : State Caller} (hs : Quiescent s) (h : Agreement s) : Inv s := by
  intro id
  left
  simp only [Settled, hs.channel, lastGuard, hs.spawning]
  refine ⟨?_, by simp⟩
  rintro f hf rfl
  exact h f hf

theorem agreement_of_inv {s : State Caller} (hs : Quiescent s) (h : Inv s) : Agreement s := by
  intro f hf
  rcases h f.id with hsettled | ⟨i, hi⟩
  · simp only [Settled, hs.channel, lastGuard] at hsettled
    exact hsettled.1 f hf rfl
  · simp [hs.calls i] at hi

variable [DecidableEq Caller]

inductive Step : State Caller → Action Caller → State Caller → Prop where
  | readRow {s : State Caller} {i : Caller} {id : Uuid} (h : s.calls i = .idle) :
      Step s (.readRow i id)
        { s with calls := Function.update s.calls i (.read id (s.row id)) }
  | writeRow {s : State Caller} {i : Caller} {id : Uuid} {isEnabled : Bool}
      (h : s.calls i = .read id isEnabled) :
      Step s (.writeRow i)
        { s with
          row := Function.update s.row id (!isEnabled)
          calls := Function.update s.calls i (.written id (!isEnabled)) }
  | failWrite {s : State Caller} {i : Caller} {id : Uuid} {isEnabled : Bool}
      (h : s.calls i = .read id isEnabled) :
      Step s (.failWrite i) { s with calls := Function.update s.calls i .idle }
  | send {s : State Caller} {i : Caller} {id : Uuid} {engaged : Bool}
      (h : s.calls i = .written id engaged) :
      Step s (.send i)
        { s with
          calls := Function.update s.calls i .idle
          channel := s.channel ++ [.setGuard id engaged] }
  | post {s : State Caller} {cmd : FormationCommand} (h : ∀ id e, cmd ≠ .setGuard id e) :
      Step s (.post cmd) { s with channel := s.channel ++ [cmd] }
  | takeDeploy {s : State Caller} {id : Uuid} {rest : List FormationCommand}
      (hidle : s.spawning = none) (h : s.channel = .deploy id :: rest) :
      Step s .takeDeploy { s with channel := rest, spawning := some (id, none) }
  | readGuard {s : State Caller} {id : Uuid} (h : s.spawning = some (id, none)) :
      Step s .readGuard { s with spawning := some (id, some (s.row id)) }
  | push {s : State Caller} {id : Uuid} {b : Bool} {f : LiveFormation}
      (h : s.spawning = some (id, some b)) (hid : f.id = id) (hguard : f.guardMode = b) :
      Step s (.push f) { s with spawning := none, live := s.live ++ [f] }
  | failSpawn {s : State Caller} (h : s.spawning ≠ none) :
      Step s .failSpawn { s with spawning := none }
  | handle {s : State Caller} {cmd : FormationCommand} {rest : List FormationCommand}
      (hidle : s.spawning = none) (h : s.channel = cmd :: rest) (hcmd : ∀ id, cmd ≠ .deploy id) :
      Step s .handle
        { s with
          channel := rest
          live := handleFormationCommand (fun _ => none) s.live cmd }

/-- A toggle sends while the row still holds what it wrote, and a guard command finds every copy
after the first one with its flag already. -/
def InOrder (s : State Caller) : Action Caller → Prop
  | .send i => ∀ id e, s.calls i = .written id e → s.row id = e
  | .handle => ∀ id e rest, s.channel = .setGuard id e :: rest →
      ∀ f ∈ (copies id s.live).drop 1, f.guardMode = e
  | _ => True

/-- A call that has yet to send still has to, when another one moves. -/
theorem owed_of_other {s : State Caller} {i : Caller} {call : Call} {id : Uuid} {b : Bool}
    (howed : ∃ j, s.calls j = .written id b) (hi : s.calls i ≠ .written id b) :
    ∃ j, Function.update s.calls i call j = .written id b := by
  obtain ⟨j, hj⟩ := howed
  refine ⟨j, ?_⟩
  have hne : j ≠ i := by
    rintro rfl
    exact hi hj
  rw [Function.update_of_ne hne]
  exact hj

theorem inv_step {s t : State Caller} {a : Action Caller} (hok : InOrder s a) (h : Step s a t)
    (hinv : Inv s) : Inv t := by
  intro id
  have hid := hinv id
  cases h with
  | @readRow i id' hcall =>
    refine hid.imp (·.congr rfl rfl (fun f hf hf' => ⟨f, hf, hf', rfl⟩) fun _ hb => hb) ?_
    intro howed
    exact owed_of_other howed (by simp [hcall])
  | @writeRow i id' isEnabled hcall =>
    by_cases hsame : id = id'
    · subst hsame
      exact .inr ⟨i, by simp⟩
    · refine hid.imp (·.congr rfl (by simp [hsame])
        (fun f hf hf' => ⟨f, hf, hf', rfl⟩) fun _ hb => hb) ?_
      intro howed
      have hrow : Function.update s.row id' (!isEnabled) id = s.row id :=
        Function.update_of_ne hsame _ _
      simp only [hrow]
      exact owed_of_other howed (by simp [hcall])
  | @failWrite i id' isEnabled hcall =>
    refine hid.imp (·.congr rfl rfl (fun f hf hf' => ⟨f, hf, hf', rfl⟩) fun _ hb => hb) ?_
    intro howed
    exact owed_of_other howed (by simp [hcall])
  | @send i id' engaged hcall =>
    have hrow := hok id' engaged hcall
    by_cases hsame : id' = id
    · subst hsame
      left
      simp [Settled, lastGuard_append_setGuard, hrow]
    · refine hid.imp (·.congr (by simp [lastGuard_append_setGuard, hsame]) rfl
        (fun f hf hf' => ⟨f, hf, hf', rfl⟩) fun _ hb => hb) ?_
      intro howed
      exact owed_of_other howed (by simp [hcall, hsame])
  | post hcmd =>
    exact hid.imp_left (·.congr (lastGuard_append hcmd id _) rfl
      (fun f hf hf' => ⟨f, hf, hf', rfl⟩) fun _ hb => hb)
  | takeDeploy hidle hchannel =>
    refine hid.imp_left (·.congr ?_ rfl (fun f hf hf' => ⟨f, hf, hf', rfl⟩) ?_)
    · rw [hchannel, lastGuard_cons (by simp)]
    · intro b hb
      simp at hb
  | readGuard hspawn => exact hid.imp_left (·.readGuard)
  | @push id' b f hspawn hfid hguard =>
    subst hfid
    exact hid.imp_left (·.push hspawn hguard)
  | failSpawn hspawn =>
    exact hid.imp_left (·.congr rfl rfl (fun f hf hf' => ⟨f, hf, hf', rfl⟩) (by simp))
  | @handle cmd rest hidle hchannel hcmd =>
    refine hid.imp_left (settled_handle hidle hchannel hcmd ?_)
    intro id' e hset f hf
    exact hok id' e rest (by rw [hchannel, hset]) f hf

/-- Row and flag agree whenever the calls have returned and the channel is drained, in every run
whose sends and guard commands come in order. -/
theorem agreement_of_inOrder {s t : State Caller} (hs : Quiescent s) (hagree : Agreement s)
    (hrun : Reaches (Guarded InOrder Step) s t) (ht : Quiescent t) : Agreement t := by
  have hinv : Inv t :=
    hrun.invariant Inv (fun _ _ _ h => inv_step h.1 h.2) (inv_of_agreement hs hagree)
  exact agreement_of_inv ht hinv

/-- One formation, live and unguarded, with no call in flight. -/
def oneUnguarded : State Bool where
  row _ := false
  calls _ := .idle
  channel := []
  spawning := none
  live := [⟨1, .execute none, [], false, false, .cold, 0, 3⟩]

theorem oneUnguarded_quiescent : Quiescent oneUnguarded := ⟨fun _ => rfl, rfl, rfl⟩

theorem oneUnguarded_agreement : Agreement oneUnguarded := by
  simp [Agreement, oneUnguarded]

/-- A single toggle: both copies of the flag are engaged in the end. -/
theorem agreement_after_toggle : ∃ t : State Bool,
    Reaches (Guarded InOrder Step) oneUnguarded t ∧ t.row 1 = true ∧ Agreement t := by
  have hstart : Reaches (Guarded InOrder Step) oneUnguarded oneUnguarded := .refl _
  have hread := hstart.snoc (a := .readRow true 1) ⟨trivial, .readRow rfl⟩
  have hwrite := hread.snoc (a := .writeRow true) ⟨trivial, .writeRow rfl⟩
  have hsend := hwrite.snoc (a := .send true) ⟨by
    intro id e h
    obtain ⟨rfl, rfl⟩ : 1 = id ∧ true = e := by simpa [oneUnguarded] using h
    rfl, .send rfl⟩
  have hhandle := hsend.snoc (a := .handle) ⟨by
    intro id e rest h
    obtain ⟨⟨rfl, rfl⟩, rfl⟩ : (1 = id ∧ true = e) ∧ [] = rest := by
      simpa [oneUnguarded] using h
    decide, .handle rfl rfl (by simp)⟩
  refine ⟨_, hhandle, rfl, agreement_of_inOrder oneUnguarded_quiescent oneUnguarded_agreement
    hhandle ⟨?_, rfl, rfl⟩⟩
  intro i
  cases i <;> rfl

/-- Two toggles whose commands overtake each other leave the row off and the live flag on. -/
theorem toggles_can_disagree :
    ¬ ∀ s t : State Bool, Quiescent s → Agreement s → Reaches Step s t → Quiescent t →
      Agreement t := by
  intro hall
  have hstart : Reaches Step oneUnguarded oneUnguarded := .refl _
  have hread₁ := hstart.snoc (a := .readRow true 1) (.readRow rfl)
  have hwrite₁ := hread₁.snoc (a := .writeRow true) (.writeRow rfl)
  have hread₂ := hwrite₁.snoc (a := .readRow false 1) (.readRow rfl)
  have hwrite₂ := hread₂.snoc (a := .writeRow false) (.writeRow rfl)
  have hsend₂ := hwrite₂.snoc (a := .send false) (.send rfl)
  have hsend₁ := hsend₂.snoc (a := .send true) (.send rfl)
  have hhandle₂ := hsend₁.snoc (.handle rfl rfl (by simp))
  have hhandle₁ := hhandle₂.snoc (.handle rfl rfl (by simp))
  have hagree := hall _ _ oneUnguarded_quiescent oneUnguarded_agreement hhandle₁
    ⟨by intro i; cases i <;> rfl, rfl, rfl⟩
  have hflag := hagree ⟨1, .execute none, [], true, false, .cold, 0, 3⟩ (List.mem_singleton.mpr rfl)
  exact absurd hflag (by decide)

end Springtale.Formation.GuardRace
