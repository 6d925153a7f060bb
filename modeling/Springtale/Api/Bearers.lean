import Springtale.Api.AuthHistory

/-! Bearers and stream tickets over every run: acceptance and redemption follow the history. -/
namespace Springtale.Api

open Springtale.Lib

/-- The daemon's maps and table against its history, and the law for each event so far. -/
structure Tracks (cfg : AuthConfig) (ephemeral : Bool) (s : Daemon) : Prop where
  sessions : SessionsTrack cfg s.sessions s.trace s.clock
  tickets : TicketsTrack s.streamTickets s.trace s.clock
  tokens : TokensTrack ephemeral s.tokens s.trace
  unlocked : s.live.isSome = true ↔ Unlocked s.trace
  lawful : EachCall (Lawful cfg ephemeral) s.trace

theorem unlocked_snoc {trace : History} {e : Stamped} (hlocked : e.event ≠ .locked)
    (hunlocked : e.event ≠ .unlocked) : Unlocked (trace ++ [e]) ↔ Unlocked trace := by
  exact not_congr (since_snoc_of_not hlocked hunlocked)

namespace Daemon

variable {cfg : AuthConfig} {s : Daemon} {live : Live}

theorem sessions_of_live (hlive : s.live = some live) : s.sessions = live.sessions := by
  rw [sessions, hlive, Option.elim_some]

theorem streamTickets_of_live (hlive : s.live = some live) :
    s.streamTickets = live.streamTickets := by
  rw [streamTickets, hlive, Option.elim_some]

theorem setSessions_sessions (hlive : s.live = some live) (map : SessionMap) :
    (s.setSessions map).sessions = map := by
  simp [setSessions, sessions, hlive]

theorem setSessions_streamTickets (map : SessionMap) :
    (s.setSessions map).streamTickets = s.streamTickets := by
  cases hlive : s.live <;> simp [setSessions, streamTickets, hlive]

theorem setStreamTickets_sessions (map : TicketMap) :
    (s.setStreamTickets map).sessions = s.sessions := by
  cases hlive : s.live <;> simp [setStreamTickets, sessions, hlive]

theorem setStreamTickets_streamTickets (hlive : s.live = some live) (map : TicketMap) :
    (s.setStreamTickets map).streamTickets = map := by
  simp [setStreamTickets, streamTickets, hlive]

theorem setStreamTickets_live (hlive : s.live = some live) (map : TicketMap) :
    (s.setStreamTickets map).live = some { live with streamTickets := map } := by
  simp [setStreamTickets, hlive]

theorem setSessions_isSome (map : SessionMap) :
    (s.setSessions map).live.isSome = s.live.isSome := by
  simp [setSessions]

theorem setStreamTickets_isSome (map : TicketMap) :
    (s.setStreamTickets map).live.isSome = s.live.isSome := by
  simp [setStreamTickets]

end Daemon

namespace Tracks

variable {cfg : AuthConfig} {ephemeral : Bool} {s : Daemon} (h : Tracks cfg ephemeral s)

theorem boot (passphrase : Text) :
    Tracks cfg ephemeral (.boot cfg passphrase ephemeral) where
  sessions := .empty fun _ _ hat => not_since_nil hat.1
  tickets := .empty fun _ _ => not_since_nil
  tokens := by
    cases ephemeral with
    | true => rfl
    | false =>
      refine ⟨rfl, fun id hash => ?_⟩
      exact iff_of_false (by simp) not_since_nil
  unlocked := iff_of_true rfl not_since_nil
  lawful := eachCall_nil

include h

theorem wait (elapsed : Nat) : Tracks cfg ephemeral { s with clock := s.clock + elapsed } where
  sessions := h.sessions.wait elapsed
  tickets := h.tickets.wait elapsed
  tokens := h.tokens
  unlocked := h.unlocked
  lawful := h.lawful

theorem unlocked_of {s' : Daemon} {event : AuthEvent} (hlive : s'.live.isSome = s.live.isSome)
    (hlock : event ≠ .locked ∧ event ≠ .unlocked) :
    s'.live.isSome = true ↔ Unlocked (s.trace ++ [⟨s.clock, event⟩]) := by
  rw [hlive, h.unlocked]
  exact (unlocked_snoc hlock.1 hlock.2).symm

/-- One more event, and the maps and the table that go with it. -/
theorem record {s' : Daemon} {event : AuthEvent}
    (hclock : s'.clock = s.clock) (htrace : s'.trace = s.trace)
    (hsessions : SessionsTrack cfg s'.sessions (s.trace ++ [⟨s.clock, event⟩]) s.clock)
    (htickets : TicketsTrack s'.streamTickets (s.trace ++ [⟨s.clock, event⟩]) s.clock)
    (htokens : TokensTrack ephemeral s'.tokens (s.trace ++ [⟨s.clock, event⟩]))
    (hunlocked : s'.live.isSome = true ↔ Unlocked (s.trace ++ [⟨s.clock, event⟩]))
    (hlawful : Lawful cfg ephemeral s.trace ⟨s.clock, event⟩) :
    Tracks cfg ephemeral (s'.emit event) := by
  rw [← htrace, ← hclock] at hsessions htickets htokens hunlocked
  refine ⟨hsessions, htickets, htokens, hunlocked, eachCall_snoc.mpr ?_⟩
  rw [htrace, hclock]
  exact ⟨h.lawful, hlawful⟩

/-- A new session map, with the event that goes with it. -/
theorem setSessions {map : SessionMap} {event : AuthEvent}
    (hmap : SessionsTrack cfg (s.setSessions map).sessions (s.trace ++ [⟨s.clock, event⟩]) s.clock)
    (hlawful : Lawful cfg ephemeral s.trace ⟨s.clock, event⟩)
    (htickets : ∀ ticket, ¬ EndsTicket ticket ⟨s.clock, event⟩)
    (htokens : (∀ id hash, event ≠ .created id hash) ∧ ∀ id, event ≠ .revoked id)
    (hlock : event ≠ .locked ∧ event ≠ .unlocked) :
    Tracks cfg ephemeral ((s.setSessions map).emit event) := by
  apply h.record
  · rfl
  · rfl
  · exact hmap
  · rw [Daemon.setSessions_streamTickets]
    exact h.tickets.apart htickets
  · exact h.tokens.quiet htokens.1 htokens.2
  · exact h.unlocked_of (Daemon.setSessions_isSome map) hlock
  · exact hlawful

/-- A refused bearer that leaves the session map alone. -/
theorem refuse {presented : Option TokenHash} {reads : Bool}
    (hlawful : Lawful cfg ephemeral s.trace ⟨s.clock, .bearer presented false false reads⟩) :
    Tracks cfg ephemeral (s.emit (.bearer presented false false reads)) := by
  apply h.record
  · rfl
  · rfl
  · exact h.sessions.apart (by simp [EndsSession]) (by simp [Uses])
  · exact h.tickets.apart (by simp [EndsTicket])
  · exact h.tokens.quiet (by simp) (by simp)
  · exact h.unlocked_of rfl (by simp)
  · exact hlawful

theorem not_sessionValid (hlive : s.live = none) (hash : TokenHash) :
    ¬ SessionValid cfg s.trace hash s.clock := by
  rintro ⟨rec, hat, hwithin⟩
  have hkept := h.sessions.kept hash rec hat (sessionAlive_iff.mpr hwithin)
  simp [Daemon.sessions, hlive] at hkept

/-- Whether a looked up bearer is good. -/
theorem accepts_iff {live : Live} (hlive : s.live = some live) (hash : TokenHash) (reads : Bool)
    (refresh : Bool) :
    ((sessionLookup cfg live.sessions hash refresh s.clock).1 ||
      tokenLookup s.tokens hash reads) = true ↔
      Accepts cfg ephemeral s.trace hash s.clock reads := by
  have hsessions := h.sessions
  rw [Daemon.sessions_of_live hlive] at hsessions
  rw [Bool.or_eq_true, hsessions.lookup_iff, h.tokens.lookup_iff, Accepts]

theorem lookUp (presented : Option TokenHash) (reads : Bool) :
    Tracks cfg ephemeral (s.lookUp cfg presented reads).2 := by
  unfold Daemon.lookUp
  cases presented with
  | none =>
    cases s.live with
    | none => exact h.refuse rfl
    | some live => exact h.refuse rfl
  | some hash =>
    cases hlive : s.live with
    | none =>
      refine h.refuse ⟨?_, iff_of_false Bool.false_ne_true (h.not_sessionValid hlive hash)⟩
      refine iff_of_false Bool.false_ne_true ?_
      rintro ⟨hunlocked, -⟩
      have hsome := h.unlocked.mpr hunlocked
      simp [hlive] at hsome
    | some live =>
      have hsessions := h.sessions
      rw [Daemon.sessions_of_live hlive] at hsessions
      have hunlocked : Unlocked s.trace := h.unlocked.mp (by simp [hlive])
      apply h.setSessions
      · rw [Daemon.setSessions_sessions hlive]
        cases hsession : (sessionLookup cfg live.sessions hash true s.clock).1 with
        | true => exact hsessions.hit hsession reads
        | false =>
          apply (hsessions.miss hsession).apart
          · simp [EndsSession]
          · simp [Uses]
      · refine ⟨?_, hsessions.lookup_iff true⟩
        rw [and_iff_right hunlocked]
        exact h.accepts_iff hlive hash reads true
      · simp [EndsTicket]
      · simp
      · simp

theorem login (passphrase : Text) (minted : TokenBytes) :
    Tracks cfg ephemeral (s.login cfg passphrase minted) := by
  unfold Daemon.login
  cases hlive : s.live with
  | none => exact h
  | some live =>
    have hsessions := h.sessions
    rw [Daemon.sessions_of_live hlive] at hsessions
    simp only
    split
    · apply h.setSessions
      · rw [Daemon.setSessions_sessions hlive]
        exact hsessions.mint _
      · trivial
      · simp [EndsTicket]
      · simp
      · simp
    · exact h

theorem logout (authorization : Option Text) :
    Tracks cfg ephemeral (s.logout cfg authorization) := by
  unfold Daemon.logout
  split
  · rename_i live hash hlive _
    have hsessions := h.sessions
    rw [Daemon.sessions_of_live hlive] at hsessions
    apply h.setSessions
    · rw [Daemon.setSessions_sessions hlive]
      exact hsessions.logout hash
    · trivial
    · simp [EndsTicket]
    · simp
    · simp
  · exact h

/-- A new token table, with the event that goes with it. -/
theorem setTokens {tokens : ApiTokens} {event : AuthEvent}
    (htokens : TokensTrack ephemeral tokens (s.trace ++ [⟨s.clock, event⟩]))
    (hsessions : ∀ hash, ¬ EndsSession hash ⟨s.clock, event⟩ ∧ ¬ Uses hash ⟨s.clock, event⟩)
    (htickets : ∀ ticket, ¬ EndsTicket ticket ⟨s.clock, event⟩)
    (hlawful : Lawful cfg ephemeral s.trace ⟨s.clock, event⟩)
    (hlock : event ≠ .locked ∧ event ≠ .unlocked) :
    Tracks cfg ephemeral ({ s with tokens }.emit event) := by
  apply h.record
  · rfl
  · rfl
  · exact h.sessions.apart (fun hash => (hsessions hash).1) (fun hash => (hsessions hash).2)
  · exact h.tickets.apart htickets
  · exact htokens
  · exact h.unlocked_of rfl hlock
  · exact hlawful

theorem createToken (name : Text) (id : String) (minted : TokenBytes) (writes : Bool) :
    Tracks cfg ephemeral (s.createToken cfg name id minted writes) := by
  unfold Daemon.createToken
  simp only
  split
  · exact h
  · split
    · rename_i tokens hinsert
      split at hinsert
      · apply h.setTokens (h.tokens.insert hinsert)
        · simp [EndsSession, Uses]
        · simp [EndsTicket]
        · trivial
        · simp
      · cases hinsert
    · exact h

theorem deleteToken (id : String) (writes : Bool) :
    Tracks cfg ephemeral (s.deleteToken id writes) := by
  unfold Daemon.deleteToken
  split
  · exact h
  · split
    · split
      · rename_i tokens hdelete
        apply h.setTokens (h.tokens.delete hdelete)
        · simp [EndsSession, Uses]
        · simp [EndsTicket]
        · trivial
        · simp
      · rename_i tokens hdelete
        exact ⟨h.sessions, h.tickets, h.tokens.delete_none hdelete, h.unlocked, h.lawful⟩
    · exact h

/-- A new ticket map, with the event that goes with it. -/
theorem setStreamTickets {map : TicketMap} {event : AuthEvent}
    (hmap : TicketsTrack (s.setStreamTickets map).streamTickets
      (s.trace ++ [⟨s.clock, event⟩]) s.clock)
    (hlawful : Lawful cfg ephemeral s.trace ⟨s.clock, event⟩)
    (hsessions : ∀ hash, ¬ EndsSession hash ⟨s.clock, event⟩ ∧ ¬ Uses hash ⟨s.clock, event⟩)
    (htokens : (∀ id hash, event ≠ .created id hash) ∧ ∀ id, event ≠ .revoked id)
    (hlock : event ≠ .locked ∧ event ≠ .unlocked) :
    Tracks cfg ephemeral ((s.setStreamTickets map).emit event) := by
  apply h.record
  · rfl
  · rfl
  · rw [Daemon.setStreamTickets_sessions]
    exact h.sessions.apart (fun hash => (hsessions hash).1) (fun hash => (hsessions hash).2)
  · exact hmap
  · exact h.tokens.quiet htokens.1 htokens.2
  · exact h.unlocked_of (Daemon.setStreamTickets_isSome map) hlock
  · exact hlawful

theorem issueStreamTicket (authorization : Option Text) (reads : Bool) (bytes : TokenBytes) :
    Tracks cfg ephemeral (s.issueStreamTicket cfg authorization reads bytes) := by
  have hlookUp := h.lookUp ((bearer authorization).bind (presentedHash cfg)) reads
  unfold Daemon.issueStreamTicket Daemon.authenticate
  split
  · rename_i s' hanswer
    rw [hanswer] at hlookUp
    exact hlookUp
  · rename_i principal s' hanswer
    rw [hanswer] at hlookUp
    split
    · exact hlookUp
    · rename_i live hlive
      have htickets := hlookUp.tickets
      rw [Daemon.streamTickets_of_live hlive] at htickets
      apply hlookUp.setStreamTickets
      · rw [Daemon.setStreamTickets_streamTickets hlive]
        exact htickets.issued _ principal
      · trivial
      · simp [EndsSession, Uses]
      · simp
      · simp

theorem request (authorization : Option Text) (reads : Bool) (route : Route) :
    Tracks cfg ephemeral (s.request cfg authorization reads route) := by
  have hlookUp := h.lookUp ((bearer authorization).bind (presentedHash cfg)) reads
  unfold Daemon.request Daemon.authenticate
  split
  · rename_i s' hanswer
    rw [hanswer] at hlookUp
    exact hlookUp
  · rename_i principal s' hanswer
    rw [hanswer] at hlookUp
    cases route with
    | other => exact hlookUp
    | logout => exact hlookUp.logout authorization
    | createToken name id minted writes => exact hlookUp.createToken name id minted writes
    | deleteToken id writes => exact hlookUp.deleteToken id writes
    | issueStreamTicket bytes => exact hlookUp.issueStreamTicket authorization reads bytes

/-- A presented ticket is gone, whatever becomes of the request. -/
theorem present {s' : Daemon} {map : TicketMap} {ticket : Text} {redeemed reads : Bool}
    (hlive : s'.live.isSome = s.live.isSome) (htokens : s'.tokens = s.tokens)
    (hclock : s'.clock = s.clock) (htrace : s'.trace = s.trace)
    (hsessions : SessionsTrack cfg s'.sessions s.trace s.clock)
    (htickets : TicketsTrack map s.trace s.clock)
    (hmap : s'.streamTickets = Function.update map ticket none)
    (hlawful : Lawful cfg ephemeral s.trace ⟨s.clock, .ticket ticket redeemed reads⟩) :
    Tracks cfg ephemeral (s'.emit (.ticket ticket redeemed reads)) := by
  apply h.record hclock htrace
  · exact hsessions.apart (by simp [EndsSession]) (by simp [Uses])
  · rw [hmap]
    exact htickets.present ticket redeemed reads
  · rw [htokens]
    exact h.tokens.quiet (by simp) (by simp)
  · exact h.unlocked_of hlive (by simp)
  · exact hlawful

theorem requireStreamTicket (query : Option Text) (reads : Bool) :
    Tracks cfg ephemeral (s.requireStreamTicket cfg query reads) := by
  unfold Daemon.requireStreamTicket
  cases query.bind queryTicket with
  | none => exact h
  | some ticket =>
    cases hlive : s.live with
    | none =>
      have hnone : s.streamTickets ticket = none := by simp [Daemon.streamTickets, hlive]
      apply h.present rfl rfl rfl rfl h.sessions h.tickets
      · rw [← hnone, Function.update_eq_self]
      · refine iff_of_false Bool.false_ne_true ?_
        rintro ⟨issue, hat, hlife, -⟩
        have hkept := h.tickets.kept ticket issue hat (decide_eq_true hlife)
        rw [hnone] at hkept
        cases hkept
    | some live =>
      have htickets := h.tickets
      rw [Daemon.streamTickets_of_live hlive] at htickets
      have hsessions := h.sessions
      rw [Daemon.sessions_of_live hlive] at hsessions
      simp only
      cases hfound : retainFresh live.streamTickets s.clock ticket with
      | none =>
        refine h.present (Daemon.setStreamTickets_isSome _) rfl rfl rfl ?_ htickets.fresh ?_ ?_
        · rw [Daemon.setStreamTickets_sessions]
          exact h.sessions
        · rw [Daemon.setStreamTickets_streamTickets hlive, ← hfound, Function.update_eq_self]
        · refine iff_of_false Bool.false_ne_true ?_
          rintro ⟨issue, hat, hlife, -⟩
          have hkept := htickets.fresh_iff.mpr ⟨hat, hlife⟩
          rw [hfound] at hkept
          cases hkept
      | some issue =>
        obtain ⟨hat, hlife⟩ := htickets.fresh_iff.mp hfound
        refine h.present ?_ rfl rfl rfl ?_ htickets.fresh ?_ ?_
        · exact (Daemon.setSessions_isSome _).trans (Daemon.setStreamTickets_isSome _)
        · simp only [Daemon.principalValid]
          rw [Daemon.setSessions_sessions (Daemon.setStreamTickets_live hlive _)]
          exact hsessions.peek
        · simp only [Daemon.principalValid]
          rw [Daemon.setSessions_streamTickets, Daemon.setStreamTickets_streamTickets hlive]
        · refine (h.accepts_iff hlive issue.principal reads false).trans ?_
          constructor
          · intro haccepts
            exact ⟨issue, hat, hlife, haccepts⟩
          · rintro ⟨issue', hat', -, haccepts⟩
            rw [hat.unique hat']
            exact haccepts

theorem guardLock : Tracks cfg ephemeral s.guardLock := by
  unfold Daemon.guardLock
  cases s.live with
  | none => exact h
  | some live =>
    apply h.record
    · rfl
    · rfl
    · exact .locked
    · exact .locked
    · exact h.tokens.quiet (by simp) (by simp)
    · refine iff_of_false Bool.false_ne_true ?_
      exact not_not.mpr (since_snoc.mpr (.inl rfl))
    · trivial

theorem lock (authorization : Option Text) (reads : Bool) :
    Tracks cfg ephemeral (s.lock cfg authorization reads) := by
  have hlookUp := h.lookUp ((bearer authorization).bind (presentedHash cfg)) reads
  unfold Daemon.lock Daemon.authenticate
  split
  · exact h
  · split
    · rename_i s' hanswer
      rw [hanswer] at hlookUp
      exact hlookUp
    · rename_i principal s' hanswer
      rw [hanswer] at hlookUp
      exact hlookUp.guardLock

theorem unlock (passphrase : Text) (opens : Bool) :
    Tracks cfg ephemeral (s.unlock cfg passphrase opens) := by
  unfold Daemon.unlock
  cases hlive : s.live with
  | some live => exact h
  | none =>
    cases opens with
    | false => exact h
    | true =>
      have hsessions := h.sessions
      rw [Daemon.sessions, hlive] at hsessions
      have htickets := h.tickets
      rw [Daemon.streamTickets, hlive] at htickets
      simp only [if_true]
      apply h.record
      · rfl
      · rfl
      · exact hsessions.apart (by simp [EndsSession]) (by simp [Uses])
      · exact htickets.apart (by simp [EndsTicket])
      · exact h.tokens.quiet (by simp) (by simp)
      · refine iff_of_true rfl ?_
        exact not_since_snoc (by simp) rfl
      · trivial

theorem apply (step : AuthStep) : Tracks cfg ephemeral (s.apply cfg step) := by
  cases step with
  | wait elapsed => exact h.wait elapsed
  | login passphrase minted => exact h.login passphrase minted
  | request authorization reads route => exact h.request authorization reads route
  | stream query reads => exact h.requireStreamTicket query reads
  | lock authorization reads => exact h.lock authorization reads
  | autoLock => exact h.guardLock
  | unlock passphrase opens => exact h.unlock passphrase opens

end Tracks

variable {cfg : AuthConfig} {ephemeral : Bool}

theorem tracks_run (passphrase : Text) (steps : List AuthStep) :
    Tracks cfg ephemeral (.run cfg passphrase ephemeral steps) := by
  induction steps using List.reverseRecOn with
  | nil => exact Tracks.boot passphrase
  | append_singleton steps step ih =>
    rw [Daemon.run, List.foldl_append]
    exact ih.apply step

/-- The ticket is redeemed. -/
def redeems (ticket : Text) (e : Stamped) : Bool :=
  match e.event with
  | .ticket presented redeemed _ => presented = ticket && redeemed
  | _ => false

/-- The ticket is issued. -/
def issues (ticket : Text) (e : Stamped) : Bool :=
  match e.event with
  | .issued issued _ => issued = ticket
  | _ => false

theorem redeems_iff {ticket : Text} {e : Stamped} :
    redeems ticket e = true ↔ ∃ reads, e.event = .ticket ticket true reads := by
  unfold redeems
  split
  · rename_i presented redeemed reads hevent
    rw [hevent]
    simp
  · rename_i hother
    refine iff_of_false Bool.false_ne_true ?_
    rintro ⟨reads, hevent⟩
    exact hother _ _ _ hevent

theorem issues_iff {ticket : Text} {e : Stamped} :
    issues ticket e = true ↔ ∃ principal, e.event = .issued ticket principal := by
  unfold issues
  split
  · rename_i issued principal hevent
    rw [hevent]
    simp
  · rename_i hother
    refine iff_of_false Bool.false_ne_true ?_
    rintro ⟨principal, hevent⟩
    exact hother _ _ hevent

/-- No issue of a ticket is redeemed twice. -/
theorem redeemed_le_issued {trace : History} (h : EachCall (Lawful cfg ephemeral) trace)
    (ticket : Text) : trace.countP (redeems ticket) ≤ trace.countP (issues ticket) := by
  apply countP_le_of_since (q := EndsTicket ticket)
  · intro e he
    obtain ⟨reads, hevent⟩ := redeems_iff.mp he
    exact .inr (.inl ⟨true, reads, hevent⟩)
  · intro e he
    obtain ⟨principal, hevent⟩ := issues_iff.mp he
    simp [redeems, hevent]
  · intro pre e hpre he
    obtain ⟨reads, hevent⟩ := redeems_iff.mp he
    have hlawful := h pre e hpre
    rw [Lawful, hevent] at hlawful
    obtain ⟨issue, hat, -⟩ := hlawful.mp rfl
    exact hat.imp fun x hx => issues_iff.mpr ⟨issue.principal, hx.1⟩

theorem retainAlive_some {sessions : SessionMap} {now : Nat} {hash : TokenHash}
    {rec : SessionRecord} (h : retainAlive cfg sessions now hash = some rec) :
    sessions hash = some rec := by
  rw [retainAlive, Option.filter_eq_some_iff] at h
  exact h.1

theorem peeked_some {sessions : SessionMap} {now : Nat} {principal hash : TokenHash}
    {rec : SessionRecord}
    (h : (sessionLookup cfg sessions principal false now).2 hash = some rec) :
    sessions hash = some rec := by
  cases hfound : retainAlive cfg sessions now principal with
  | some found =>
    rw [sessionLookup_some hfound] at h
    exact retainAlive_some h
  | none =>
    rw [sessionLookup_none hfound] at h
    exact retainAlive_some h

/-- A presented ticket changes no session: the records that are left are as they were. -/
theorem requireStreamTicket_sessions {s : Daemon} {query : Option Text} {reads : Bool}
    {hash : TokenHash} {rec : SessionRecord}
    (h : (s.requireStreamTicket cfg query reads).sessions hash = some rec) :
    s.sessions hash = some rec := by
  unfold Daemon.requireStreamTicket at h
  cases hticket : query.bind queryTicket with
  | none =>
    rw [hticket] at h
    exact h
  | some ticket =>
    cases hlive : s.live with
    | none =>
      rw [hticket, hlive] at h
      exact h
    | some live =>
      rw [hticket, hlive] at h
      simp only at h
      split at h
      · change (s.setStreamTickets _).sessions hash = some rec at h
        rwa [Daemon.setStreamTickets_sessions] at h
      · simp only [Daemon.principalValid] at h
        change (Daemon.setSessions _ _).sessions hash = some rec at h
        rw [Daemon.setSessions_sessions (Daemon.setStreamTickets_live hlive _)] at h
        rw [Daemon.sessions_of_live hlive]
        exact peeked_some h

/-- What holds of bearers and tickets after the steps. -/
structure Upheld (cfg : AuthConfig) (passphrase : Text) (ephemeral : Bool)
    (steps : List AuthStep) : Prop where
  lawful : EachCall (Lawful cfg ephemeral) (Daemon.run cfg passphrase ephemeral steps).trace
  once : ∀ ticket, (Daemon.run cfg passphrase ephemeral steps).trace.countP (redeems ticket) ≤
    (Daemon.run cfg passphrase ephemeral steps).trace.countP (issues ticket)
  unextended : ∀ query reads hash rec,
    (Daemon.run cfg passphrase ephemeral (steps ++ [.stream query reads])).sessions hash =
      some rec →
    (Daemon.run cfg passphrase ephemeral steps).sessions hash = some rec

/-- Every run accepts the bearers and redeems the tickets that its history says. -/
theorem bearers_upheld (cfg : AuthConfig) (passphrase : Text) (ephemeral : Bool)
    (steps : List AuthStep) : Upheld cfg passphrase ephemeral steps where
  lawful := (tracks_run passphrase steps).lawful
  once := redeemed_le_issued (tracks_run passphrase steps).lawful
  unextended := by
    intro query reads hash rec h
    rw [Daemon.run, List.foldl_append] at h
    exact requireStreamTicket_sessions h

section Locked

/-- A hash that tells tokens apart. -/
def exampleConfig : AuthConfig where
  hashToken bytes := Vector.ofFn fun i => bytes.getD i 0
  deriveApiTokenHash passphrase :=
    Vector.ofFn fun i => UInt8.ofNat ((passphrase.map Char.toNat).getD i 0)
  sessionIdle := 1800000000000
  sessionAbsolute := 43200000000000

def header (minted : TokenBytes) : Option Text :=
  some ("Bearer ".toList ++ hexEncode minted.toList)

/-- A login creates a long-lived token; the daemon locks; the token is presented. -/
def tokenWhileLocked : List AuthStep :=
  [.login "passphrase".toList (Vector.replicate 32 1),
    .request (header (Vector.replicate 32 1)) true
      (.createToken "cli".toList "a" (Vector.replicate 32 2) true),
    .autoLock,
    .request (header (Vector.replicate 32 2)) true .other]

/-- A locked daemon refuses a long-lived token that exists. -/
theorem locked_refuses_token :
    ¬ ∀ (cfg : AuthConfig) (passphrase : Text) (ephemeral : Bool) (steps : List AuthStep),
      EachCall (fun pre e => ∀ hash accepted session reads,
        e.event = .bearer (some hash) accepted session reads →
          (accepted = true ↔ Accepts cfg ephemeral pre hash e.time reads))
        (Daemon.run cfg passphrase ephemeral steps).trace := by
  intro hall
  have htrace : (Daemon.run exampleConfig "passphrase".toList false tokenWhileLocked).trace =
      [⟨0, .minted (Vector.replicate 32 1)⟩,
        ⟨0, .bearer (some (Vector.replicate 32 1)) true true true⟩,
        ⟨0, .created "a" (Vector.replicate 32 2)⟩, ⟨0, .locked⟩] ++
      [⟨0, .bearer (some (Vector.replicate 32 2)) false false true⟩] := by
    decide
  have hclaim := hall exampleConfig "passphrase".toList false tokenWhileLocked
  rw [htrace, eachCall_snoc] at hclaim
  have haccepted := (hclaim.2 _ _ _ _ rfl).mpr (.inr ⟨rfl, rfl, "a", ?_⟩)
  · cases haccepted
  · exact ⟨[_, _], ⟨0, .created "a" (Vector.replicate 32 2)⟩, [⟨0, .locked⟩], rfl, rfl, by simp⟩

end Locked

end Springtale.Api
