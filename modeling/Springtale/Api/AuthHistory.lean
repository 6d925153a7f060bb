import Springtale.Api.Login
import Springtale.Lib.Since
import Springtale.Lib.Transition

/-! Which bearers are accepted and which tickets redeemed, by the history of a daemon. -/
namespace Springtale.Api

open Springtale.Lib

abbrev History := List Stamped

/-- A session of the hash starts or ends. -/
def EndsSession (hash : TokenHash) (e : Stamped) : Prop :=
  e.event = .minted hash ∨ e.event = .loggedOut hash ∨ e.event = .locked

/-- The session of the hash is minted, or accepted for a request. -/
def Uses (hash : TokenHash) (e : Stamped) : Prop :=
  e.event = .minted hash ∨ ∃ reads, e.event = .bearer (some hash) true true reads

/-- The session was minted, with neither a logout nor a lock since, and was last accepted at its
`lastSeen`. -/
def SessionAt (trace : History) (hash : TokenHash) (rec : SessionRecord) : Prop :=
  Since (fun e => e.event = .minted hash ∧ e.time = rec.issuedAt) (EndsSession hash) trace ∧
    Since (fun e => Uses hash e ∧ e.time = rec.lastSeen) (Uses hash) trace

/-- A session within both timeouts. -/
def SessionValid (cfg : AuthConfig) (trace : History) (hash : TokenHash) (now : Nat) : Prop :=
  ∃ rec, SessionAt trace hash rec ∧
    now - rec.lastSeen < cfg.sessionIdle ∧ now - rec.issuedAt < cfg.sessionAbsolute

/-- The token was created under the id, which was not revoked since. -/
def CreatedAt (trace : History) (id : String) (hash : TokenHash) : Prop :=
  Since (fun e => e.event = .created id hash) (fun e => e.event = .revoked id) trace

/-- A long-lived token that was created and not revoked. The ephemeral store keeps none. -/
def TokenExists (ephemeral : Bool) (trace : History) (hash : TokenHash) : Prop :=
  ephemeral = false ∧ ∃ id, CreatedAt trace id hash

/-- A bearer that is good, where a read of the token table succeeds or not. -/
def Accepts (cfg : AuthConfig) (ephemeral : Bool) (trace : History) (hash : TokenHash) (now : Nat)
    (reads : Bool) : Prop :=
  SessionValid cfg trace hash now ∨ reads = true ∧ TokenExists ephemeral trace hash

def Unlocked (trace : History) : Prop :=
  ¬ Since (fun e => e.event = .locked) (fun e => e.event = .unlocked) trace

/-- The ticket is issued anew, presented, or dropped by a lock. -/
def EndsTicket (ticket : Text) (e : Stamped) : Prop :=
  (∃ principal, e.event = .issued ticket principal) ∨
    (∃ redeemed reads, e.event = .ticket ticket redeemed reads) ∨ e.event = .locked

/-- The ticket was issued and not presented since. -/
def TicketAt (trace : History) (ticket : Text) (issue : StreamTicket) : Prop :=
  Since (fun e => e.event = .issued ticket issue.principal ∧ e.time = issue.issuedAt)
    (EndsTicket ticket) trace

/-- A presented bearer is accepted exactly when the daemon is unlocked and the bearer is good; a
presented ticket is redeemed exactly when it was not presented before, within its lifetime, and its
bearer is good. -/
def Lawful (cfg : AuthConfig) (ephemeral : Bool) (pre : History) (e : Stamped) : Prop :=
  match e.event with
  | .bearer (some hash) accepted session reads =>
    (accepted = true ↔ Unlocked pre ∧ Accepts cfg ephemeral pre hash e.time reads) ∧
      (session = true ↔ SessionValid cfg pre hash e.time)
  | .bearer none accepted _ _ => accepted = false
  | .ticket ticket redeemed reads =>
    redeemed = true ↔ ∃ issue, TicketAt pre ticket issue ∧
      e.time - issue.issuedAt < streamTicketTtl ∧
        Accepts cfg ephemeral pre issue.principal e.time reads
  | _ => True

variable {cfg : AuthConfig} {ephemeral : Bool} {trace : History} {hash : TokenHash} {now : Nat}

section Sessions

variable {rec rec' : SessionRecord} {e : Stamped}

theorem SessionAt.unique (h : SessionAt trace hash rec) (h' : SessionAt trace hash rec') :
    rec = rec' := by
  obtain ⟨x, ⟨-, hissued⟩, -, hissued'⟩ := h.1.meet h'.1 (fun _ hx => .inl hx.1)
    (fun _ hx => .inl hx.1)
  obtain ⟨y, ⟨-, hseen⟩, -, hseen'⟩ := h.2.meet h'.2 (fun _ hy => hy.1) (fun _ hy => hy.1)
  cases rec
  cases rec'
  simp_all

theorem sessionAt_snoc_of_not (hends : ¬ EndsSession hash e) (huses : ¬ Uses hash e) :
    SessionAt (trace ++ [e]) hash rec ↔ SessionAt trace hash rec := by
  have hmints : e.event ≠ .minted hash := fun h => hends (.inl h)
  unfold SessionAt
  rw [since_snoc_of_not (fun h => hmints h.1) hends, since_snoc_of_not (fun h => huses h.1) huses]

theorem sessionAt_snoc_minted :
    SessionAt (trace ++ [⟨now, .minted hash⟩]) hash rec ↔ rec = ⟨now, now⟩ := by
  unfold SessionAt
  rw [since_snoc, since_snoc]
  cases rec
  simp [EndsSession, Uses, eq_comm]

theorem sessionAt_snoc_used {reads : Bool} :
    SessionAt (trace ++ [⟨now, .bearer (some hash) true true reads⟩]) hash rec ↔
      Since (fun e => e.event = .minted hash ∧ e.time = rec.issuedAt) (EndsSession hash) trace ∧
        rec.lastSeen = now := by
  unfold SessionAt
  rw [since_snoc, since_snoc]
  simp [EndsSession, Uses, eq_comm]

theorem not_sessionAt_snoc_loggedOut :
    ¬ SessionAt (trace ++ [⟨now, .loggedOut hash⟩]) hash rec := by
  rintro ⟨h, -⟩
  exact not_since_snoc (by simp) (.inr (.inl rfl)) h

theorem not_sessionAt_snoc_locked : ¬ SessionAt (trace ++ [⟨now, .locked⟩]) hash rec := by
  rintro ⟨h, -⟩
  exact not_since_snoc (by simp) (.inr (.inr rfl)) h

theorem sessionAlive_iff : sessionAlive cfg rec now = true ↔
    now - rec.lastSeen < cfg.sessionIdle ∧ now - rec.issuedAt < cfg.sessionAbsolute := by
  simp [sessionAlive]

theorem sessionLookup_some {sessions : SessionMap} {refresh : Bool}
    (hfound : retainAlive cfg sessions now hash = some rec) :
    sessionLookup cfg sessions hash refresh now =
      (true, if refresh then
        Function.update (retainAlive cfg sessions now) hash (some { rec with lastSeen := now })
      else retainAlive cfg sessions now) := by
  simp [sessionLookup, hfound]

theorem sessionLookup_none {sessions : SessionMap} {refresh : Bool}
    (hfound : retainAlive cfg sessions now hash = none) :
    sessionLookup cfg sessions hash refresh now = (false, retainAlive cfg sessions now) := by
  simp [sessionLookup, hfound]

/-- The session map against the history: its records are right, and none is missing that could
still be accepted. -/
abbrev SessionsTrack (cfg : AuthConfig) (sessions : SessionMap) (trace : History) (now : Nat) :
    Prop :=
  TracksAlive (SessionAt trace) (sessionAlive cfg · now) sessions

namespace SessionsTrack

variable {sessions : SessionMap} (h : SessionsTrack cfg sessions trace now)
include h

theorem wait (elapsed : Nat) : SessionsTrack cfg sessions trace (now + elapsed) := by
  apply h.later
  intro rec halive
  rw [sessionAlive_iff] at halive ⊢
  omega

/-- What a lookup leaves of the map: the sessions that are still alive. -/
theorem alive : SessionsTrack cfg (retainAlive cfg sessions now) trace now := h.retain

theorem alive_iff : retainAlive cfg sessions now hash = some rec ↔
    SessionAt trace hash rec ∧ sessionAlive cfg rec now = true :=
  h.retained_iff

/-- An event that is about no session. -/
theorem apart (hends : ∀ hash, ¬ EndsSession hash e) (huses : ∀ hash, ¬ Uses hash e) :
    SessionsTrack cfg sessions (trace ++ [e]) now :=
  h.quiet fun hash _ => sessionAt_snoc_of_not (hends hash) (huses hash)

theorem mint (hash : TokenHash) :
    SessionsTrack cfg (Function.update sessions hash (some ⟨now, now⟩))
      (trace ++ [⟨now, .minted hash⟩]) now := by
  apply h.update hash
  · intro other hother rec
    apply sessionAt_snoc_of_not
    · simp [EndsSession, Ne.symm hother]
    · simp [Uses, Ne.symm hother]
  · intro rec
    rw [sessionAt_snoc_minted, Option.some.injEq, eq_comm]

theorem refresh (hat : SessionAt trace hash rec) (reads : Bool) :
    SessionsTrack cfg (Function.update sessions hash (some { rec with lastSeen := now }))
      (trace ++ [⟨now, .bearer (some hash) true true reads⟩]) now := by
  apply h.update hash
  · intro other hother rec'
    apply sessionAt_snoc_of_not
    · simp [EndsSession]
    · simp [Uses, Ne.symm hother]
  · intro rec'
    refine ⟨?_, fun hat' => ?_⟩
    · rintro ⟨⟩
      exact sessionAt_snoc_used.mpr ⟨hat.1, rfl⟩
    obtain ⟨hissued, hseen⟩ := sessionAt_snoc_used.mp hat'
    obtain ⟨x, ⟨-, hx⟩, -, hx'⟩ := hat.1.meet hissued (fun _ hx => .inl hx.1)
      (fun _ hx => .inl hx.1)
    cases rec'
    simp_all

theorem logout (hash : TokenHash) :
    SessionsTrack cfg (Function.update sessions hash none)
      (trace ++ [⟨now, .loggedOut hash⟩]) now := by
  apply h.update hash
  · intro other hother rec
    apply sessionAt_snoc_of_not
    · simp [EndsSession, Ne.symm hother]
    · simp [Uses]
  · intro rec
    exact iff_of_false (by simp) not_sessionAt_snoc_loggedOut

theorem lookup_iff (refresh : Bool) :
    (sessionLookup cfg sessions hash refresh now).1 = true ↔ SessionValid cfg trace hash now := by
  cases hfound : retainAlive cfg sessions now hash with
  | some rec =>
    obtain ⟨hat, halive⟩ := h.alive_iff.mp hfound
    rw [sessionLookup_some hfound]
    exact iff_of_true rfl ⟨rec, hat, sessionAlive_iff.mp halive⟩
  | none =>
    rw [sessionLookup_none hfound]
    refine iff_of_false Bool.false_ne_true ?_
    rintro ⟨rec, hat, hwithin⟩
    have hfound' := h.alive_iff.mpr ⟨hat, sessionAlive_iff.mpr hwithin⟩
    rw [hfound] at hfound'
    cases hfound'

/-- A lookup that refreshes nothing. -/
theorem peek : SessionsTrack cfg (sessionLookup cfg sessions hash false now).2 trace now := by
  cases hfound : retainAlive cfg sessions now hash with
  | some rec =>
    rw [sessionLookup_some hfound]
    exact h.alive
  | none =>
    rw [sessionLookup_none hfound]
    exact h.alive

theorem miss {refresh : Bool} (hmiss : (sessionLookup cfg sessions hash refresh now).1 = false) :
    SessionsTrack cfg (sessionLookup cfg sessions hash refresh now).2 trace now := by
  cases hfound : retainAlive cfg sessions now hash with
  | some rec =>
    rw [sessionLookup_some hfound] at hmiss
    cases hmiss
  | none =>
    rw [sessionLookup_none hfound]
    exact h.alive

theorem hit (hhit : (sessionLookup cfg sessions hash true now).1 = true) (reads : Bool) :
    SessionsTrack cfg (sessionLookup cfg sessions hash true now).2
      (trace ++ [⟨now, .bearer (some hash) true true reads⟩]) now := by
  cases hfound : retainAlive cfg sessions now hash with
  | some rec =>
    rw [sessionLookup_some hfound, if_pos rfl]
    exact h.alive.refresh (h.alive_iff.mp hfound).1 reads
  | none =>
    rw [sessionLookup_none hfound] at hhit
    cases hhit

end SessionsTrack

theorem SessionsTrack.locked :
    SessionsTrack cfg (fun _ => none) (trace ++ [⟨now, .locked⟩]) now :=
  .empty fun _ _ => not_sessionAt_snoc_locked

end Sessions

section Tickets

variable {ticket : Text} {issue issue' : StreamTicket} {e : Stamped}

theorem TicketAt.unique (h : TicketAt trace ticket issue) (h' : TicketAt trace ticket issue') :
    issue = issue' := by
  obtain ⟨x, ⟨hevent, htime⟩, hevent', htime'⟩ := h.meet h' (fun _ hx => .inl ⟨_, hx.1⟩)
    (fun _ hx => .inl ⟨_, hx.1⟩)
  rw [hevent] at hevent'
  cases issue
  cases issue'
  simp_all

theorem ticketAt_snoc_of_not (hends : ¬ EndsTicket ticket e) :
    TicketAt (trace ++ [e]) ticket issue ↔ TicketAt trace ticket issue :=
  since_snoc_of_not (fun h => hends (.inl ⟨_, h.1⟩)) hends

theorem ticketAt_snoc_issued :
    TicketAt (trace ++ [⟨now, .issued ticket hash⟩]) ticket issue ↔ issue = ⟨now, hash⟩ := by
  unfold TicketAt
  rw [since_snoc]
  cases issue
  simp [EndsTicket, eq_comm, and_comm]

theorem not_ticketAt_snoc_ticket {redeemed reads : Bool} :
    ¬ TicketAt (trace ++ [⟨now, .ticket ticket redeemed reads⟩]) ticket issue :=
  not_since_snoc (by simp) (.inr (.inl ⟨_, _, rfl⟩))

theorem not_ticketAt_snoc_locked : ¬ TicketAt (trace ++ [⟨now, .locked⟩]) ticket issue :=
  not_since_snoc (by simp) (.inr (.inr rfl))

/-- The ticket map against the history. -/
abbrev TicketsTrack (tickets : TicketMap) (trace : History) (now : Nat) : Prop :=
  TracksAlive (TicketAt trace) (now - ·.issuedAt < streamTicketTtl) tickets

namespace TicketsTrack

variable {tickets : TicketMap} (h : TicketsTrack tickets trace now)
include h

theorem wait (elapsed : Nat) : TicketsTrack tickets trace (now + elapsed) := by
  apply h.later
  intro issue halive
  rw [decide_eq_true_eq] at halive ⊢
  omega

theorem fresh : TicketsTrack (retainFresh tickets now) trace now := h.retain

theorem fresh_iff : retainFresh tickets now ticket = some issue ↔
    TicketAt trace ticket issue ∧ now - issue.issuedAt < streamTicketTtl :=
  h.retained_iff.trans (and_congr_right fun _ => decide_eq_true_iff)

/-- An event that is about no ticket. -/
theorem apart (hends : ∀ ticket, ¬ EndsTicket ticket e) :
    TicketsTrack tickets (trace ++ [e]) now :=
  h.quiet fun ticket _ => ticketAt_snoc_of_not (hends ticket)

theorem issued (ticket : Text) (principal : TokenHash) :
    TicketsTrack (Function.update tickets ticket (some ⟨now, principal⟩))
      (trace ++ [⟨now, .issued ticket principal⟩]) now := by
  apply h.update ticket
  · intro other hother issue
    apply ticketAt_snoc_of_not
    simp [EndsTicket, Ne.symm hother]
  · intro issue
    rw [ticketAt_snoc_issued, Option.some.injEq, eq_comm]

theorem present (ticket : Text) (redeemed reads : Bool) :
    TicketsTrack (Function.update tickets ticket none)
      (trace ++ [⟨now, .ticket ticket redeemed reads⟩]) now := by
  apply h.update ticket
  · intro other hother issue
    apply ticketAt_snoc_of_not
    simp [EndsTicket, Ne.symm hother]
  · intro issue
    exact iff_of_false (by simp) not_ticketAt_snoc_ticket

end TicketsTrack

theorem TicketsTrack.locked :
    TicketsTrack (fun _ => none) (trace ++ [⟨now, .locked⟩]) now :=
  .empty fun _ _ => not_ticketAt_snoc_locked

end Tickets

section Tokens

variable {e : Stamped} {rows : List ApiTokenRow} {id : String}

/-- The token table against the history. -/
def TokensTrack (ephemeral : Bool) (tokens : ApiTokens) (trace : History) : Prop :=
  match tokens with
  | .sqlite rows => ephemeral = false ∧
      ∀ id hash, (∃ row ∈ rows, row.id = id ∧ row.tokenHash = hash.toList) ↔
        CreatedAt trace id hash
  | .inMemory => ephemeral = true

namespace TokensTrack

variable {tokens : ApiTokens} (h : TokensTrack ephemeral tokens trace)
include h

theorem quiet (hcreated : ∀ id hash, e.event ≠ .created id hash)
    (hrevoked : ∀ id, e.event ≠ .revoked id) : TokensTrack ephemeral tokens (trace ++ [e]) := by
  cases tokens with
  | inMemory => exact h
  | sqlite rows =>
    refine ⟨h.1, fun id hash => ?_⟩
    rw [h.2 id hash, CreatedAt, CreatedAt, since_snoc_of_not]
    · exact hcreated id hash
    · exact hrevoked id

theorem insert {tokens' : ApiTokens} {name : Text}
    (hinsert : tokens.insertApiToken ⟨id, name, hash.toList⟩ = some tokens') :
    TokensTrack ephemeral tokens' (trace ++ [⟨now, .created id hash⟩]) := by
  cases tokens with
  | inMemory =>
    cases hinsert
    exact h
  | sqlite rows =>
    simp only [ApiTokens.insertApiToken] at hinsert
    split at hinsert
    · cases hinsert
    · cases hinsert
      refine ⟨h.1, fun id' hash' => ?_⟩
      have hbefore := h.2 id' hash'
      unfold CreatedAt at hbefore ⊢
      rw [since_snoc, ← hbefore]
      constructor
      · rintro ⟨row, hrow, hid, hhash⟩
        rcases List.mem_append.mp hrow with hrow | hrow
        · exact .inr ⟨by simp, row, hrow, hid, hhash⟩
        · rw [List.mem_singleton.mp hrow] at hid hhash
          left
          rw [← hid, Vector.toList_inj.mp hhash]
      · rintro (heq | ⟨-, row, hrow, hid, hhash⟩)
        · cases heq
          exact ⟨⟨id, name, hash.toList⟩, by simp, rfl, rfl⟩
        · exact ⟨row, List.mem_append_left _ hrow, hid, hhash⟩

theorem delete {tokens' : ApiTokens} (hdelete : tokens.deleteApiToken id = (true, tokens')) :
    TokensTrack ephemeral tokens' (trace ++ [⟨now, .revoked id⟩]) := by
  cases tokens with
  | inMemory => cases hdelete
  | sqlite rows =>
    simp only [ApiTokens.deleteApiToken, Prod.mk.injEq] at hdelete
    obtain ⟨-, rfl⟩ := hdelete
    refine ⟨h.1, fun id' hash' => ?_⟩
    have hbefore := h.2 id' hash'
    unfold CreatedAt at hbefore ⊢
    rw [since_snoc, or_iff_right (by simp), ← hbefore]
    constructor
    · rintro ⟨row, hrow, rfl, hhash⟩
      obtain ⟨hrow, hid⟩ := List.mem_filter.mp hrow
      refine ⟨?_, row, hrow, rfl, hhash⟩
      intro heq
      cases heq
      simp at hid
    · rintro ⟨hne, row, hrow, rfl, hhash⟩
      refine ⟨row, List.mem_filter.mpr ⟨hrow, ?_⟩, rfl, hhash⟩
      simpa using fun heq : row.id = id => hne (by rw [heq])

/-- A revocation of an unknown id. -/
theorem delete_none {tokens' : ApiTokens}
    (hdelete : tokens.deleteApiToken id = (false, tokens')) : TokensTrack ephemeral tokens' trace := by
  cases tokens with
  | inMemory =>
    cases hdelete
    exact h
  | sqlite rows =>
    simp only [ApiTokens.deleteApiToken, Prod.mk.injEq] at hdelete
    obtain ⟨hnone, rfl⟩ := hdelete
    rw [List.filter_eq_self.mpr]
    · exact h
    · intro row hrow
      simpa using List.any_eq_false.mp hnone row hrow

theorem lookup_iff (reads : Bool) :
    tokenLookup tokens hash reads = true ↔ reads = true ∧ TokenExists ephemeral trace hash := by
  cases reads with
  | false => simp [tokenLookup]
  | true =>
    cases tokens with
    | inMemory =>
      have hephemeral : ephemeral = true := h
      simp [tokenLookup, ApiTokens.findApiTokenByHash, TokenExists, hephemeral]
    | sqlite rows =>
      have hexists : TokenExists ephemeral trace hash ↔
          ∃ row ∈ rows, row.tokenHash = hash.toList := by
        constructor
        · rintro ⟨-, id, hcreated⟩
          obtain ⟨row, hrow, -, hhash⟩ := (h.2 id hash).mpr hcreated
          exact ⟨row, hrow, hhash⟩
        · rintro ⟨row, hrow, hhash⟩
          exact ⟨h.1, row.id, (h.2 row.id hash).mp ⟨row, hrow, rfl, hhash⟩⟩
      rw [hexists, tokenLookup, if_pos rfl]
      simp only [ApiTokens.findApiTokenByHash]
      cases hfind : rows.find? (·.tokenHash = hash.toList) with
      | none =>
        rw [List.find?_eq_none] at hfind
        simpa using hfind
      | some row =>
        have hhash : row.tokenHash = hash.toList := by simpa using List.find?_some hfind
        simp only [hhash, Vector.length_toList, true_and]
        simpa using ⟨row, List.mem_of_find?_eq_some hfind, hhash⟩

end TokensTrack

end Tokens

end Springtale.Api
