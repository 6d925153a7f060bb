import Mathlib.Logic.Function.Basic
import Springtale.Api.Webhooks
import Springtale.Formation.Operations
import Springtale.Lib.TextCodec

/-! Bearers and stream tickets: the session map, the table of long-lived tokens, the ticket map, and
the lock that drops the process state. -/
namespace Springtale.Api

open Springtale.Lib

abbrev Text := List Char

/-- What is minted from the random source. -/
abbrev TokenBytes := Vector UInt8 32

/-- The only form in which a token is stored. -/
abbrev TokenHash := Vector UInt8 32

/-- The hash functions, and the timeouts of the settings. Times are nanoseconds. -/
structure AuthConfig where
  hashToken : List UInt8 → TokenHash
  deriveApiTokenHash : Text → TokenHash
  sessionIdle : Nat
  sessionAbsolute : Nat

structure SessionRecord where
  issuedAt : Nat
  lastSeen : Nat
deriving DecidableEq

abbrev SessionMap := TokenHash → Option SessionRecord

structure StreamTicket where
  issuedAt : Nat
  principal : TokenHash
deriving DecidableEq

abbrev TicketMap := Text → Option StreamTicket

structure ApiTokenRow where
  id : String
  name : Text
  tokenHash : List UInt8

/-- The table of the SQLite backend; the ephemeral backend keeps no tokens. -/
inductive ApiTokens where
  | sqlite (rows : List ApiTokenRow)
  | inMemory

namespace ApiTokens

/-- Ids and hashes are unique. -/
def insertApiToken (tokens : ApiTokens) (row : ApiTokenRow) : Option ApiTokens :=
  match tokens with
  | .sqlite rows =>
    if rows.any fun old => old.id = row.id || old.tokenHash = row.tokenHash then none
    else some (.sqlite (rows ++ [row]))
  | .inMemory => some .inMemory

def findApiTokenByHash (tokens : ApiTokens) (hash : List UInt8) : Option ApiTokenRow :=
  match tokens with
  | .sqlite rows => rows.find? (·.tokenHash = hash)
  | .inMemory => none

/-- Whether there was such a row. -/
def deleteApiToken (tokens : ApiTokens) (id : String) : Bool × ApiTokens :=
  match tokens with
  | .sqlite rows => (rows.any (·.id = id), .sqlite (rows.filter (·.id ≠ id)))
  | .inMemory => (false, .inMemory)

end ApiTokens

/-- What happens, in the words of the law. A `bearer` was presented: its hash, where it is the
hexadecimal text of 32 bytes; whether it was accepted; whether the session map had it; and whether
the token table could be read. A `ticket` was presented: whether it was redeemed, and the same of
the table. -/
inductive AuthEvent where
  | bearer (hash : Option TokenHash) (accepted session reads : Bool)
  | ticket (ticket : Text) (redeemed reads : Bool)
  | minted (hash : TokenHash)
  | loggedOut (hash : TokenHash)
  | created (id : String) (hash : TokenHash)
  | revoked (id : String)
  | issued (ticket : Text) (principal : TokenHash)
  | locked
  | unlocked
deriving DecidableEq

structure Stamped where
  time : Nat
  event : AuthEvent
deriving DecidableEq

/-- What an unlocked daemon holds for its logins. -/
structure Live where
  apiTokenHash : TokenHash
  sessions : SessionMap
  streamTickets : TicketMap

/-- Locked is no live state. -/
structure Daemon where
  live : Option Live
  tokens : ApiTokens
  clock : Nat
  trace : List Stamped

/-- The routes behind the bearer check. -/
inductive Route where
  | other
  | logout
  | createToken (name : Text) (id : String) (minted : TokenBytes) (writes : Bool)
  | deleteToken (id : String) (writes : Bool)
  | issueStreamTicket (bytes : TokenBytes)

/-- Requests with their header or query, the lock and its timer, and time that passes. -/
inductive AuthStep where
  | wait (elapsed : Nat)
  | login (passphrase : Text) (minted : TokenBytes)
  | request (authorization : Option Text) (reads : Bool) (route : Route)
  | stream (query : Option Text) (reads : Bool)
  | lock (authorization : Option Text) (reads : Bool)
  | autoLock
  | unlock (passphrase : Text) (opens : Bool)

def maxTokenNameLen : Nat := 128

/-- Thirty seconds. -/
def streamTicketTtl : Nat := 30000000000

def sessionAlive (cfg : AuthConfig) (rec : SessionRecord) (now : Nat) : Bool :=
  now - rec.lastSeen < cfg.sessionIdle && now - rec.issuedAt < cfg.sessionAbsolute

def retainAlive (cfg : AuthConfig) (sessions : SessionMap) (now : Nat) : SessionMap :=
  fun key => (sessions key).filter (sessionAlive cfg · now)

/-- Every expired session is dropped, and a hit refreshed. -/
def sessionLookup (cfg : AuthConfig) (sessions : SessionMap) (hash : TokenHash) (refresh : Bool)
    (now : Nat) : Bool × SessionMap :=
  let retained := retainAlive cfg sessions now
  match retained hash with
  | some rec =>
    (true, if refresh then Function.update retained hash (some { rec with lastSeen := now })
      else retained)
  | none => (false, retained)

/-- `reads`: the store answers the query. -/
def tokenLookup (tokens : ApiTokens) (hash : TokenHash) (reads : Bool) : Bool :=
  match if reads then tokens.findApiTokenByHash hash.toList else none with
  | some row => !(row.tokenHash.length ≠ 32 || row.tokenHash ≠ hash.toList)
  | none => false

/-- The bearer in the `Authorization` header. -/
def bearer (authorization : Option Text) : Option Text :=
  authorization.bind (Codec.expect "Bearer ".toList)

def presentedHash (cfg : AuthConfig) (presented : Text) : Option TokenHash :=
  match hexDecode presented with
  | some bytes => if bytes.length = 32 then some (cfg.hashToken bytes) else none
  | none => none

/-- The first `ticket=` of a query. -/
def queryTicket (query : Text) : Option Text :=
  (query.splitOn '&').findSome? (Codec.expect "ticket=".toList)

def retainFresh (tickets : TicketMap) (now : Nat) : TicketMap :=
  fun key => (tickets key).filter (now - ·.issuedAt < streamTicketTtl)

def trim (name : Text) : Text :=
  ((name.dropWhile Formation.isBlankChar).reverse.dropWhile Formation.isBlankChar).reverse

def byteLength (text : Text) : Nat := (String.ofList text).utf8ByteSize

namespace Daemon

variable (cfg : AuthConfig)

/-- A started daemon with no tokens. -/
def boot (passphrase : Text) (ephemeral : Bool) : Daemon where
  live := some ⟨cfg.deriveApiTokenHash passphrase, fun _ => none, fun _ => none⟩
  tokens := if ephemeral then .inMemory else .sqlite []
  clock := 0
  trace := []

def emit (s : Daemon) (event : AuthEvent) : Daemon :=
  { s with trace := s.trace ++ [⟨s.clock, event⟩] }

def setSessions (s : Daemon) (sessions : SessionMap) : Daemon :=
  { s with live := s.live.map fun live => { live with sessions } }

def setStreamTickets (s : Daemon) (streamTickets : TicketMap) : Daemon :=
  { s with live := s.live.map fun live => { live with streamTickets } }

/-- The session map first, then the token table. A locked daemon refuses every request. -/
def lookUp (s : Daemon) (presented : Option TokenHash) (reads : Bool) :
    Option TokenHash × Daemon :=
  match s.live, presented with
  | some live, some hash =>
    let (session, sessions) := sessionLookup cfg live.sessions hash true s.clock
    let accepted := session || tokenLookup s.tokens hash reads
    (if accepted then some hash else none,
      (s.setSessions sessions).emit (.bearer (some hash) accepted session reads))
  | _, _ => (none, s.emit (.bearer presented false false reads))

/-- The bearer of a request's header. -/
def authenticate (s : Daemon) (authorization : Option Text) (reads : Bool) :
    Option TokenHash × Daemon :=
  s.lookUp cfg ((bearer authorization).bind (presentedHash cfg)) reads

/-- The same without a refresh. -/
def principalValid (s : Daemon) (live : Live) (hash : TokenHash) (reads : Bool) : Bool × Daemon :=
  let (session, sessions) := sessionLookup cfg live.sessions hash false s.clock
  (session || tokenLookup s.tokens hash reads, s.setSessions sessions)

def login (s : Daemon) (passphrase : Text) (minted : TokenBytes) : Daemon :=
  match s.live with
  | none => s
  | some live =>
    if cfg.deriveApiTokenHash passphrase = live.apiTokenHash then
      let hash := cfg.hashToken minted.toList
      (s.setSessions (Function.update live.sessions hash (some ⟨s.clock, s.clock⟩))).emit
        (.minted hash)
    else s

def logout (s : Daemon) (authorization : Option Text) : Daemon :=
  match s.live, (bearer authorization).bind (presentedHash cfg) with
  | some live, some hash =>
    (s.setSessions (Function.update live.sessions hash none)).emit (.loggedOut hash)
  | _, _ => s

def createToken (s : Daemon) (name : Text) (id : String) (minted : TokenBytes) (writes : Bool) :
    Daemon :=
  let name := trim name
  if name = [] || byteLength name > maxTokenNameLen then s
  else
    let hash := cfg.hashToken minted.toList
    match if writes then s.tokens.insertApiToken ⟨id, name, hash.toList⟩ else none with
    | some tokens => { s with tokens }.emit (.created id hash)
    | none => s

def deleteToken (s : Daemon) (id : String) (writes : Bool) : Daemon :=
  if id.utf8ByteSize > maxPathSegmentLen then s
  else if writes then
    match s.tokens.deleteApiToken id with
    | (true, tokens) => { s with tokens }.emit (.revoked id)
    | (false, tokens) => { s with tokens }
  else s

/-- The ticket is bound to the bearer that asked for it. -/
def issueStreamTicket (s : Daemon) (authorization : Option Text) (reads : Bool)
    (bytes : TokenBytes) : Daemon :=
  match s.authenticate cfg authorization reads with
  | (none, s) => s
  | (some principal, s) =>
    match s.live with
    | none => s
    | some live =>
      let ticket := hexEncode bytes.toList
      (s.setStreamTickets (Function.update live.streamTickets ticket
        (some ⟨s.clock, principal⟩))).emit (.issued ticket principal)

/-- The bearer check in front of a route, then the route. -/
def request (s : Daemon) (authorization : Option Text) (reads : Bool) (route : Route) : Daemon :=
  match s.authenticate cfg authorization reads with
  | (none, s) => s
  | (some _, s) =>
    match route with
    | .other => s
    | .logout => s.logout cfg authorization
    | .createToken name id minted writes => s.createToken cfg name id minted writes
    | .deleteToken id writes => s.deleteToken id writes
    | .issueStreamTicket bytes => s.issueStreamTicket cfg authorization reads bytes

/-- A ticket goes on its first use, whether its bearer is still good or not. -/
def requireStreamTicket (s : Daemon) (query : Option Text) (reads : Bool) : Daemon :=
  match query.bind queryTicket, s.live with
  | none, _ => s
  | some ticket, none => s.emit (.ticket ticket false reads)
  | some ticket, some live =>
    let tickets := retainFresh live.streamTickets s.clock
    match tickets ticket with
    | none => (s.setStreamTickets tickets).emit (.ticket ticket false reads)
    | some redeemed =>
      let (valid, s) := (s.setStreamTickets (Function.update tickets ticket none)).principalValid
        cfg live redeemed.principal reads
      s.emit (.ticket ticket valid reads)

/-- `RuntimeGuard::lock`. -/
def guardLock (s : Daemon) : Daemon :=
  match s.live with
  | none => s
  | some _ => { s with live := none }.emit .locked

/-- Locking a locked daemon asks for no bearer. -/
def lock (s : Daemon) (authorization : Option Text) (reads : Bool) : Daemon :=
  match s.live with
  | none => s
  | some _ =>
    match s.authenticate cfg authorization reads with
    | (none, s) => s
    | (some _, s) => s.guardLock

/-- `opens`: the vault opens with the passphrase and the runtime starts. -/
def unlock (s : Daemon) (passphrase : Text) (opens : Bool) : Daemon :=
  match s.live with
  | some _ => s
  | none =>
    if opens then
      { s with live := some ⟨cfg.deriveApiTokenHash passphrase, fun _ => none, fun _ => none⟩ }.emit
        .unlocked
    else s

def apply (s : Daemon) : AuthStep → Daemon
  | .wait elapsed => { s with clock := s.clock + elapsed }
  | .login passphrase minted => s.login cfg passphrase minted
  | .request authorization reads route => s.request cfg authorization reads route
  | .stream query reads => s.requireStreamTicket cfg query reads
  | .lock authorization reads => s.lock cfg authorization reads
  | .autoLock => s.guardLock
  | .unlock passphrase opens => s.unlock cfg passphrase opens

def run (passphrase : Text) (ephemeral : Bool) (steps : List AuthStep) : Daemon :=
  steps.foldl (apply cfg) (boot cfg passphrase ephemeral)

def sessions (s : Daemon) : SessionMap := s.live.elim (fun _ => none) Live.sessions

def streamTickets (s : Daemon) : TicketMap := s.live.elim (fun _ => none) Live.streamTickets

end Daemon

/-- What a login or a token's creation hands out is read back as the bearer that was minted. -/
theorem presentedHash_hexEncode (cfg : AuthConfig) (minted : TokenBytes) :
    (bearer (some ("Bearer ".toList ++ hexEncode minted.toList))).bind (presentedHash cfg) =
      some (cfg.hashToken minted.toList) := by
  rw [bearer, Option.bind_some, Codec.expect_append, Option.bind_some, presentedHash,
    hexDecode_hexEncode]
  exact if_pos minted.length_toList

end Springtale.Api
