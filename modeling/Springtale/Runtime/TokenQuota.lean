import Mathlib.Data.List.Basic
import Mathlib.Logic.Function.Basic
import Springtale.Lib.Transition

/-! The daily token quota over its two usage tables: reservations, commits and the day's
counters. -/
namespace Springtale.Runtime

open Springtale.Lib

/-- A day of the UTC calendar, with the years a `chrono` date has from 0 on. -/
structure UtcDay where
  year : Nat
  ordinal : Nat
  inRange : year ≤ 262142 ∧ ordinal ≤ 366
deriving DecidableEq

def u64Max : Nat := 18446744073709551615

/-- The first number that an `i64` cannot hold. -/
def i64Bound : Nat := 9223372036854775808

/-- `YYYY*1000 + ordinal`, in 32 bits. -/
def UtcDay.key (day : UtcDay) : Nat := min (day.year * 1000) 4294967295 + day.ordinal

theorem UtcDay.key_injective : Function.Injective UtcDay.key := by
  intro a b h
  obtain ⟨year, ordinal, hrange⟩ := a
  obtain ⟨year', ordinal', hrange'⟩ := b
  simp only [key] at h
  obtain rfl : year = year' := by omega
  obtain rfl : ordinal = ordinal' := by omega
  rfl

def saturatingAdd (a b : Nat) : Nat := min (a + b) u64Max

/-- `as i64` of an unsigned number. -/
def asI64 (n : Nat) : Int := if n < i64Bound then n else n - 18446744073709551616

def fitsI64 (n : Int) : Bool := -9223372036854775808 ≤ n && n < 9223372036854775808

/-- SQLite's doubles, as far as a counter can meet them. -/
structure SqlReals where
  Real : Type
  ofInt : Int → Real
  add : Real → Real → Real
  sub : Real → Real → Real
  positive : Real → Bool
  /-- A real stored in an INTEGER column becomes an integer when nothing is lost. -/
  toInteger : Real → Option Int

/-- A number in an SQLite cell. -/
inductive SqlNumber (reals : SqlReals) where
  | integer (n : Int)
  | real (x : reals.Real)

namespace SqlNumber

variable {reals : SqlReals}

def toReal : SqlNumber reals → reals.Real
  | .integer n => reals.ofInt n
  | .real x => x

/-- Integers that leave 64 bits go on as doubles. -/
def arith (op : Int → Int → Int) (opReal : reals.Real → reals.Real → reals.Real) :
    SqlNumber reals → SqlNumber reals → SqlNumber reals
  | .integer m, .integer n =>
    if fitsI64 (op m n) then .integer (op m n) else .real (opReal (reals.ofInt m) (reals.ofInt n))
  | a, b => .real (opReal a.toReal b.toReal)

def positive : SqlNumber reals → Bool
  | .integer n => 0 < n
  | .real x => reals.positive x

/-- The affinity of the column. -/
def stored : SqlNumber reals → SqlNumber reals
  | .integer n => .integer n
  | .real x =>
    match reals.toInteger x with
    | some n => .integer n
    | none => .real x

end SqlNumber

inductive AiTokenReserveOutcome where
  | reserved (totalAfter : Nat)
  | denied (used limit : Nat)
deriving DecidableEq

/-- The decision that both backends take on what they read. -/
def reserveOutcome (used requested : Nat) (limit : Option Nat) : AiTokenReserveOutcome :=
  match limit with
  | some cap =>
    if saturatingAdd used requested > cap then .denied used cap
    else .reserved (saturatingAdd used requested)
  | none => .reserved (saturatingAdd used requested)

/-- A backend's usage table, with calls by agent and day key. -/
structure UsageStore where
  Table : Type
  empty : Table
  get : Table → String → Nat → Nat
  reserve : Table → String → Nat → Nat → Option Nat → AiTokenReserveOutcome × Table
  commit : Table → String → Nat → Nat → Nat → Table

namespace SqliteUsage

abbrev Table (reals : SqlReals) := String × Nat → Option (SqlNumber reals)

variable {reals : SqlReals}

/-- Reading a real as an `i64` fails, which counts as no row. -/
def get (table : Table reals) (agentId : String) (dayYmd : Nat) : Nat :=
  match table (agentId, dayYmd) with
  | some (.integer n) => n.toNat
  | some (.real _) | none => 0

def reserve (table : Table reals) (agentId : String) (dayYmd requested : Nat)
    (limit : Option Nat) : AiTokenReserveOutcome × Table reals :=
  match reserveOutcome (get table agentId dayYmd) requested limit with
  | .denied used cap => (.denied used cap, table)
  | .reserved total =>
    (.reserved total, Function.update table (agentId, dayYmd) (some (.integer (asI64 total))))

/-- Adjusts a row that is there, or inserts the actual tokens. -/
def commit (table : Table reals) (agentId : String) (dayYmd prior actual : Nat) : Table reals :=
  match table (agentId, dayYmd) with
  | none => Function.update table (agentId, dayYmd) (some (.integer (asI64 actual)))
  | some used =>
    let released := SqlNumber.arith (· - ·) reals.sub used (.integer (asI64 prior))
    let adjusted := SqlNumber.arith (· + ·) reals.add released (.integer (asI64 actual))
    let clamped := if adjusted.positive then adjusted else .integer 0
    Function.update table (agentId, dayYmd) (some clamped.stored)

end SqliteUsage

abbrev sqliteUsage (reals : SqlReals) : UsageStore where
  Table := SqliteUsage.Table reals
  empty _ := none
  get := SqliteUsage.get
  reserve := SqliteUsage.reserve
  commit := SqliteUsage.commit

namespace InMemoryUsage

abbrev Table := String × Nat → Option Nat

def get (map : Table) (agentId : String) (dayYmd : Nat) : Nat := (map (agentId, dayYmd)).getD 0

def reserve (map : Table) (agentId : String) (dayYmd requested : Nat) (limit : Option Nat) :
    AiTokenReserveOutcome × Table :=
  match reserveOutcome (get map agentId dayYmd) requested limit with
  | .denied used cap => (.denied used cap, map)
  | .reserved total => (.reserved total, Function.update map (agentId, dayYmd) (some total))

def commit (map : Table) (agentId : String) (dayYmd prior actual : Nat) : Table :=
  let adjusted := saturatingAdd (get map agentId dayYmd - prior) actual
  Function.update map (agentId, dayYmd) (some adjusted)

end InMemoryUsage

abbrev inMemoryUsage : UsageStore where
  Table := InMemoryUsage.Table
  empty _ := none
  get := InMemoryUsage.get
  reserve := InMemoryUsage.reserve
  commit := InMemoryUsage.commit

inductive QuotaCheck where
  | allowed (remaining : Nat)
  | denied (used limit : Nat)
deriving DecidableEq

def QuotaCheck.isDenied : QuotaCheck → Bool
  | .allowed _ => false
  | .denied .. => true

namespace UsageStore

variable (store : UsageStore)

def checkAndReserve (limit : Option Nat) (table : store.Table) (agentId : String)
    (requested : Nat) (today : UtcDay) : QuotaCheck × store.Table :=
  match store.reserve table agentId today.key requested limit with
  | (.reserved total, table) =>
    (.allowed (match limit with
      | some limit => limit - total
      | none => u64Max), table)
  | (.denied used limit, table) => (.denied used limit, table)

def usage (table : store.Table) (agentId : String) (today : UtcDay) : Nat :=
  store.get table agentId today.key

def commitTokens (table : store.Table) (agentId : String) (prior actual : Nat) (today : UtcDay) :
    store.Table :=
  store.commit table agentId today.key prior actual

end UsageStore

/-- Tokens booked for an agent on a day. -/
structure Charge where
  agentId : String
  day : UtcDay
  tokens : Nat
deriving DecidableEq

def charged (agentId : String) (day : UtcDay) : List Charge → Nat
  | [] => 0
  | c :: cs => (if c.agentId = agentId ∧ c.day = day then c.tokens else 0) + charged agentId day cs

/-- The answer to a reserve, with the counter that the backend had before it. -/
structure CheckRecord where
  used : Nat
  requested : Nat
  check : QuotaCheck

/-- Refused exactly when the counter and the request exceed the limit. -/
def CheckRecord.Exact (limit : Option Nat) (record : CheckRecord) : Prop :=
  record.check.isDenied = true ↔ ∃ cap, limit = some cap ∧ cap < record.used + record.requested

/-- A call on the day that its clock shows. A commit names one of the open reservations. -/
inductive QuotaCall where
  | reserve (agentId : String) (requested : UInt64) (today : UtcDay)
  | commit (n : Nat) (actual : UInt64) (today : UtcDay)

/-- The same calls on both backends, with the reservations granted, the tokens committed and the
answers given. -/
structure QuotaRun (reals : SqlReals) where
  sqlite : SqliteUsage.Table reals
  memory : InMemoryUsage.Table
  now : UtcDay
  outstanding : List Charge
  committed : List Charge
  checks : List CheckRecord

namespace QuotaRun

variable {reals : SqlReals}

def start (now : UtcDay) : QuotaRun reals :=
  ⟨(sqliteUsage reals).empty, inMemoryUsage.empty, now, [], [], []⟩

def reserve (limit : Option Nat) (s : QuotaRun reals) (agentId : String) (requested : Nat)
    (today : UtcDay) : QuotaRun reals :=
  let (sqliteCheck, sqlite) :=
    (sqliteUsage reals).checkAndReserve limit s.sqlite agentId requested today
  let (memoryCheck, memory) := inMemoryUsage.checkAndReserve limit s.memory agentId requested today
  { s with
    sqlite
    memory
    now := today
    outstanding :=
      if sqliteCheck.isDenied then s.outstanding else ⟨agentId, today, requested⟩ :: s.outstanding
    checks :=
      ⟨(sqliteUsage reals).usage s.sqlite agentId today, requested, sqliteCheck⟩ ::
        ⟨inMemoryUsage.usage s.memory agentId today, requested, memoryCheck⟩ :: s.checks }

def commit (s : QuotaRun reals) (n : Nat) (r : Charge) (actual : Nat) (today : UtcDay) :
    QuotaRun reals :=
  { s with
    sqlite := (sqliteUsage reals).commitTokens s.sqlite r.agentId r.tokens actual today
    memory := inMemoryUsage.commitTokens s.memory r.agentId r.tokens actual today
    now := today
    outstanding := s.outstanding.eraseIdx n
    committed := ⟨r.agentId, today, actual⟩ :: s.committed }

/-- The clock does not go back. -/
def next (limit : Option Nat) (s : QuotaRun reals) : QuotaCall → Option (QuotaRun reals)
  | .reserve agentId requested today =>
    if s.now.key ≤ today.key then some (s.reserve limit agentId requested.toNat today) else none
  | .commit n actual today =>
    if s.now.key ≤ today.key then
      s.outstanding[n]?.map fun r => s.commit n r actual.toNat today
    else none

/-- A reserve that is refused below the largest limit, or fits the counter; a commit on the day of
its reserve that fits the counter. -/
def inBounds (limit : Option Nat) (s : QuotaRun reals) : QuotaCall → Bool
  | .reserve agentId requested today =>
    let total := (sqliteUsage reals).usage s.sqlite agentId today + requested.toNat
    total < i64Bound || limit.any fun cap => cap < total && cap < u64Max
  | .commit n actual today =>
    s.outstanding[n]?.all fun r =>
      today = r.day &&
        (sqliteUsage reals).usage s.sqlite r.agentId today - r.tokens + actual.toNat < i64Bound

/-- What the quota promises of every state that a run reaches. -/
structure Accounted (limit : Option Nat) (s : QuotaRun reals) : Prop where
  settled : s.outstanding = [] → ∀ agentId day,
    (sqliteUsage reals).usage s.sqlite agentId day = charged agentId day s.committed ∧
      inMemoryUsage.usage s.memory agentId day = charged agentId day s.committed
  sameCounter : ∀ agentId day,
    (sqliteUsage reals).usage s.sqlite agentId day = inMemoryUsage.usage s.memory agentId day
  refusals : ∀ record ∈ s.checks, record.Exact limit

end QuotaRun

theorem charged_eraseIdx {agentId : String} {day : UtcDay} {charges : List Charge} {n : Nat}
    {r : Charge} (h : charges[n]? = some r) :
    charged agentId day (charges.eraseIdx n) +
        (if r.agentId = agentId ∧ r.day = day then r.tokens else 0) =
      charged agentId day charges := by
  induction charges generalizing n with
  | nil => simp at h
  | cons c cs ih =>
    cases n with
    | zero =>
      obtain rfl := Option.some.inj h
      rw [List.eraseIdx_cons_zero, charged]
      omega
    | succ n =>
      rw [List.eraseIdx_cons_succ, charged, charged, ← ih h]
      omega

/-- Within bounds, a request is refused when it exceeds the limit and booked in full otherwise. -/
theorem reserveOutcome_cases {used requested : Nat} {limit : Option Nat}
    (h : used + requested < i64Bound ∨
      ∃ cap, limit = some cap ∧ cap < used + requested ∧ cap < u64Max) :
    (∃ cap, limit = some cap ∧ cap < used + requested ∧
        reserveOutcome used requested limit = .denied used cap) ∨
      ((∀ cap, limit = some cap → used + requested ≤ cap) ∧ used + requested < i64Bound ∧
        reserveOutcome used requested limit = .reserved (used + requested)) := by
  have hsmall : i64Bound ≤ u64Max := by decide
  by_cases hexceeds : ∃ cap, limit = some cap ∧ cap < used + requested
  · obtain ⟨cap, rfl, hcap⟩ := hexceeds
    have hmax : cap < saturatingAdd used requested := by
      rcases h with hbound | ⟨cap', hcap', -, hmax⟩
      · rw [saturatingAdd]
        omega
      · obtain rfl := Option.some.inj hcap'
        rw [saturatingAdd]
        omega
    left
    exact ⟨cap, rfl, hcap, by simp [reserveOutcome, hmax]⟩
  · have hfits : ∀ cap, limit = some cap → used + requested ≤ cap := by
      intro cap hcap
      by_contra hlt
      exact hexceeds ⟨cap, hcap, by omega⟩
    have hbound : used + requested < i64Bound := by
      rcases h with hbound | ⟨cap, hcap, hlt, -⟩
      · exact hbound
      · exact absurd ⟨cap, hcap, hlt⟩ hexceeds
    have hsum : saturatingAdd used requested = used + requested := by
      rw [saturatingAdd]
      omega
    right
    refine ⟨hfits, hbound, ?_⟩
    cases limit with
    | none => simp [reserveOutcome, hsum]
    | some cap => simp [reserveOutcome, hsum, Nat.not_lt.mpr (hfits cap rfl)]

/-- The cell holds the number, or is missing where the number is zero. -/
def SqlNumber.Holds {reals : SqlReals} (cell : Option (SqlNumber reals)) (n : Nat) : Prop :=
  cell = some (.integer n) ∨ (cell = none ∧ n = 0)

theorem asI64_of_lt {n : Nat} (h : n < i64Bound) : asI64 n = n := if_pos h

namespace SqliteUsage

variable {reals : SqlReals} {table : Table reals} {agentId : String} {dayYmd n : Nat}

theorem get_of_holds (h : SqlNumber.Holds (table (agentId, dayYmd)) n) :
    get table agentId dayYmd = n := by
  rcases h with h | ⟨h, rfl⟩ <;> simp [get, h]

/-- A commit of tokens that were booked leaves the counter without them and with the actual ones. -/
theorem commit_of_holds (h : SqlNumber.Holds (table (agentId, dayYmd)) n) (hn : n < i64Bound)
    {prior actual : Nat} (hprior : prior ≤ n) (hfits : n - prior + actual < i64Bound) :
    commit table agentId dayYmd prior actual =
      Function.update table (agentId, dayYmd)
        (some (.integer ((n - prior + actual : Nat) : Int))) := by
  have hactual : asI64 actual = actual := asI64_of_lt (by omega)
  have hpriorI : asI64 prior = prior := asI64_of_lt (by omega)
  have hi64 : i64Bound = 9223372036854775808 := rfl
  rcases h with h | ⟨h, rfl⟩
  · have hreleased : fitsI64 ((n : Int) - prior) = true := by
      simp only [fitsI64, Bool.and_eq_true, decide_eq_true_eq]
      omega
    have hadjusted : fitsI64 ((n : Int) - prior + actual) = true := by
      simp only [fitsI64, Bool.and_eq_true, decide_eq_true_eq]
      omega
    simp only [commit, h, hactual, hpriorI, SqlNumber.arith, hreleased, if_true, hadjusted]
    by_cases hpositive : 0 < (n : Int) - prior + actual
    · simp only [SqlNumber.positive, hpositive, decide_true, if_true, SqlNumber.stored]
      congr 3
      omega
    · simp only [SqlNumber.positive, hpositive, decide_false, Bool.false_eq_true, if_false,
        SqlNumber.stored]
      congr 3
      omega
  · simp only [commit, h, hactual]
    congr 3
    omega

end SqliteUsage

namespace QuotaRun

variable {reals : SqlReals} {limit : Option Nat} {s t : QuotaRun reals}

/-- What is booked for an agent on a day: open reservations and committed tokens. -/
def booked (s : QuotaRun reals) (agentId : String) (day : UtcDay) : Nat :=
  charged agentId day s.outstanding + charged agentId day s.committed

/-- Both backends count what is booked. -/
structure Balanced (limit : Option Nat) (s : QuotaRun reals) : Prop where
  sqlite : ∀ agentId day, SqlNumber.Holds (s.sqlite (agentId, day.key)) (s.booked agentId day)
  memory : ∀ agentId day, (s.memory (agentId, day.key)).getD 0 = s.booked agentId day
  fits : ∀ agentId day, s.booked agentId day < i64Bound
  refusals : ∀ record ∈ s.checks, record.Exact limit

theorem Balanced.sqlite_usage (h : Balanced limit s) (agentId : String) (day : UtcDay) :
    (sqliteUsage reals).usage s.sqlite agentId day = s.booked agentId day :=
  SqliteUsage.get_of_holds (h.sqlite agentId day)

theorem Balanced.memory_usage (h : Balanced limit s) (agentId : String) (day : UtcDay) :
    inMemoryUsage.usage s.memory agentId day = s.booked agentId day :=
  h.memory agentId day

theorem Balanced.accounted (h : Balanced limit s) : Accounted limit s where
  settled hnil agentId day := by
    rw [h.sqlite_usage, h.memory_usage, booked, hnil, charged, Nat.zero_add]
    exact ⟨rfl, rfl⟩
  sameCounter agentId day := by rw [h.sqlite_usage, h.memory_usage]
  refusals := h.refusals

theorem balanced_start (now : UtcDay) : Balanced limit (start now : QuotaRun reals) where
  sqlite _ _ := .inr ⟨rfl, rfl⟩
  memory _ _ := rfl
  fits _ _ := by simp [booked, start, charged, i64Bound]
  refusals _ h := nomatch h

/-- Two days have the same key in a table only if they are the same day. -/
theorem key_pair_eq {agentId agentId' : String} {day day' : UtcDay} :
    (agentId, day.key) = (agentId', day'.key) ↔ agentId' = agentId ∧ day' = day := by
  rw [Prod.mk.injEq, UtcDay.key_injective.eq_iff]
  exact and_congr eq_comm eq_comm

/-- A counter moves on in both backends as the booking does. -/
theorem balanced_update (h : Balanced limit s) {agentId : String} {day : UtcDay} {n : Nat}
    (hn : n < i64Bound)
    (hsqlite : t.sqlite = Function.update s.sqlite (agentId, day.key) (some (.integer n)))
    (hmemory : t.memory = Function.update s.memory (agentId, day.key) (some n))
    (hself : t.booked agentId day = n)
    (hother : ∀ agentId' day', ¬ (agentId = agentId' ∧ day = day') →
      t.booked agentId' day' = s.booked agentId' day')
    (hrefusals : ∀ record ∈ t.checks, record.Exact limit) : Balanced limit t := by
  have hsplit : ∀ agentId' day', (agentId = agentId' ∧ day = day') ∨
      (¬ (agentId = agentId' ∧ day = day') ∧ (agentId', day'.key) ≠ (agentId, day.key)) := by
    intro agentId' day'
    by_cases heq : agentId = agentId' ∧ day = day'
    · exact .inl heq
    · exact .inr ⟨heq, fun hkey => heq (key_pair_eq.mp hkey)⟩
  constructor
  · intro agentId' day'
    rcases hsplit agentId' day' with ⟨rfl, rfl⟩ | ⟨hne, hkey⟩
    · left
      rw [hsqlite, Function.update_self, hself]
    · rw [hsqlite, Function.update_of_ne hkey, hother _ _ hne]
      exact h.sqlite agentId' day'
  · intro agentId' day'
    rcases hsplit agentId' day' with ⟨rfl, rfl⟩ | ⟨hne, hkey⟩
    · rw [hmemory, Function.update_self, hself]
      rfl
    · rw [hmemory, Function.update_of_ne hkey, hother _ _ hne]
      exact h.memory agentId' day'
  · intro agentId' day'
    rcases hsplit agentId' day' with ⟨rfl, rfl⟩ | ⟨hne, -⟩
    · rw [hself]
      exact hn
    · rw [hother _ _ hne]
      exact h.fits agentId' day'
  · exact hrefusals

/-- A refusal only moves the clock and the log of answers. -/
theorem balanced_denied (h : Balanced limit s) {agentId : String} {requested cap : Nat}
    {today : UtcDay} (hlimit : limit = some cap)
    (hexceeds : cap < s.booked agentId today + requested)
    (houtcome : reserveOutcome (s.booked agentId today) requested limit =
      .denied (s.booked agentId today) cap) :
    Balanced limit (s.reserve limit agentId requested today) := by
  have hsqlite := h.sqlite_usage agentId today
  have hmemory := h.memory_usage agentId today
  simp only [UsageStore.usage] at hsqlite hmemory
  have hreserve : s.reserve limit agentId requested today =
      { s with
        now := today
        checks :=
          ⟨s.booked agentId today, requested, .denied (s.booked agentId today) cap⟩ ::
            ⟨s.booked agentId today, requested, .denied (s.booked agentId today) cap⟩ ::
              s.checks } := by
    simp only [reserve, UsageStore.checkAndReserve, UsageStore.usage, SqliteUsage.reserve,
      InMemoryUsage.reserve, hsqlite, hmemory, houtcome, QuotaCheck.isDenied, if_true]
  have hexact : CheckRecord.Exact limit
      ⟨s.booked agentId today, requested, .denied (s.booked agentId today) cap⟩ :=
    iff_of_true rfl ⟨cap, hlimit, hexceeds⟩
  rw [hreserve]
  refine ⟨h.sqlite, h.memory, h.fits, ?_⟩
  intro record hrecord
  rcases List.mem_cons.mp hrecord with rfl | hrecord
  · exact hexact
  · rcases List.mem_cons.mp hrecord with rfl | hrecord
    · exact hexact
    · exact h.refusals record hrecord

/-- A grant books the request in both counters. -/
theorem balanced_reserved (h : Balanced limit s) {agentId : String} {requested : Nat}
    {today : UtcDay} (hallowed : ∀ cap, limit = some cap → s.booked agentId today + requested ≤ cap)
    (hfits : s.booked agentId today + requested < i64Bound)
    (houtcome : reserveOutcome (s.booked agentId today) requested limit =
      .reserved (s.booked agentId today + requested)) :
    Balanced limit (s.reserve limit agentId requested today) := by
  have hsqlite := h.sqlite_usage agentId today
  have hmemory := h.memory_usage agentId today
  simp only [UsageStore.usage] at hsqlite hmemory
  obtain ⟨remaining, hreserve⟩ : ∃ remaining, s.reserve limit agentId requested today =
      { s with
        sqlite := Function.update s.sqlite (agentId, today.key)
          (some (.integer ((s.booked agentId today + requested : Nat) : Int)))
        memory := Function.update s.memory (agentId, today.key)
          (some (s.booked agentId today + requested))
        now := today
        outstanding := ⟨agentId, today, requested⟩ :: s.outstanding
        checks :=
          ⟨s.booked agentId today, requested, .allowed remaining⟩ ::
            ⟨s.booked agentId today, requested, .allowed remaining⟩ :: s.checks } := by
    simp only [reserve, UsageStore.checkAndReserve, UsageStore.usage, SqliteUsage.reserve,
      InMemoryUsage.reserve, hsqlite, hmemory, houtcome, QuotaCheck.isDenied, asI64_of_lt hfits,
      Bool.false_eq_true, if_false]
    exact ⟨_, rfl⟩
  have hexact : CheckRecord.Exact limit
      ⟨s.booked agentId today, requested, .allowed remaining⟩ := by
    refine iff_of_false Bool.false_ne_true ?_
    rintro ⟨cap, hcap, hlt⟩
    exact absurd hlt (Nat.not_lt.mpr (hallowed cap hcap))
  rw [hreserve]
  refine balanced_update h hfits rfl rfl ?_ ?_ ?_
  · simp only [booked, charged, and_self, if_true]
    omega
  · intro agentId' day hne
    simp only [booked, charged, if_neg hne, Nat.zero_add]
  · intro record hrecord
    rcases List.mem_cons.mp hrecord with rfl | hrecord
    · exact hexact
    · rcases List.mem_cons.mp hrecord with rfl | hrecord
      · exact hexact
      · exact h.refusals record hrecord

/-- A commit on the day of its reserve exchanges the request for the actual tokens. -/
theorem balanced_commit (h : Balanced limit s) {n actual : Nat} {r : Charge} {today : UtcDay}
    (hr : s.outstanding[n]? = some r) (htoday : today = r.day)
    (hfits : s.booked r.agentId today - r.tokens + actual < i64Bound) :
    Balanced limit (s.commit n r actual today) := by
  subst htoday
  have hleft : ∀ agentId day, charged agentId day (s.outstanding.eraseIdx n) +
      (if r.agentId = agentId ∧ r.day = day then r.tokens else 0) =
        charged agentId day s.outstanding := fun agentId day => charged_eraseIdx hr
  have hprior : r.tokens ≤ s.booked r.agentId r.day := by
    have hself := hleft r.agentId r.day
    simp only [and_self, if_true] at hself
    rw [booked]
    omega
  have hmemory := h.memory_usage r.agentId r.day
  simp only [UsageStore.usage] at hmemory
  have hsum : saturatingAdd (s.booked r.agentId r.day - r.tokens) actual =
      s.booked r.agentId r.day - r.tokens + actual := by
    have hsmall : i64Bound ≤ u64Max := by decide
    rw [saturatingAdd]
    omega
  refine @balanced_update _ _ _ _ h r.agentId r.day _ hfits ?_ ?_ ?_ ?_ h.refusals
  · exact SqliteUsage.commit_of_holds (h.sqlite r.agentId r.day) (h.fits _ _) hprior hfits
  · simp only [commit, UsageStore.commitTokens, InMemoryUsage.commit, hmemory, hsum]
  · have hself := hleft r.agentId r.day
    simp only [and_self, if_true] at hself
    simp only [booked, commit, charged, and_self, if_true]
    omega
  · intro agentId day hne
    have hsame := hleft agentId day
    simp only [if_neg hne] at hsame
    simp only [booked, commit, charged, if_neg hne]
    omega

theorem balanced_next (h : Balanced limit s) {c : QuotaCall} (hbounds : s.inBounds limit c = true)
    (hnext : s.next limit c = some t) : Balanced limit t := by
  cases c with
  | reserve agentId requested today =>
    simp only [next] at hnext
    split at hnext
    · obtain rfl := Option.some.inj hnext
      simp only [inBounds, h.sqlite_usage, Bool.or_eq_true, decide_eq_true_eq,
        Option.any_eq_true, Bool.and_eq_true] at hbounds
      rcases reserveOutcome_cases (hbounds.imp_right fun ⟨cap, hcap, hlt, hmax⟩ =>
          ⟨cap, hcap, hlt, hmax⟩) with ⟨cap, hlimit, hlt, houtcome⟩ | ⟨hallowed, hfits, houtcome⟩
      · exact balanced_denied h hlimit hlt houtcome
      · exact balanced_reserved h hallowed hfits houtcome
    · cases hnext
  | commit n actual today =>
    simp only [next] at hnext
    split at hnext
    · obtain ⟨r, hr, rfl⟩ := Option.map_eq_some_iff.mp hnext
      simp only [inBounds, hr, Option.all_some, h.sqlite_usage, Bool.and_eq_true,
        decide_eq_true_eq] at hbounds
      exact balanced_commit h hr hbounds.1 hbounds.2
    · cases hnext

/-- In every run whose calls are in bounds the counters account for the tokens, in both backends. -/
theorem accounted_of_reaches (limit : Option Nat) {now : UtcDay} {s : QuotaRun reals}
    (h : Reaches (Guarded (fun s c => s.inBounds limit c = true)
      fun s c t => s.next limit c = some t) (start now) s) : Accounted limit s := by
  have hbalanced : Balanced limit s := by
    refine h.invariant (Balanced limit) ?_ (balanced_start now)
    intro s c t hstep hs
    exact balanced_next hs hstep.1 hstep.2
  exact hbalanced.accounted

end QuotaRun

/-- Doubles that are integers of any size. -/
def exactReals : SqlReals := ⟨Int, id, (· + ·), (· - ·), (0 < ·), fun _ => none⟩

def secondOfJune : UtcDay := ⟨2026, 153, by decide⟩

def thirdOfJune : UtcDay := ⟨2026, 154, by decide⟩

namespace QuotaRun

theorem accounted_sameDay : ∃ s : QuotaRun exactReals,
    s.committed = [⟨"bot-1", secondOfJune, 30⟩] ∧ Accounted (some 100) s := by
  have hrun : runLabels (fun s c => if inBounds (some 100) s c then next (some 100) s c else none)
      (start secondOfJune : QuotaRun exactReals)
      [.reserve "bot-1" 80 secondOfJune, .commit 0 30 secondOfJune] = some _ := rfl
  exact ⟨_, rfl, accounted_of_reaches (some 100) (guarded_of_runLabels hrun)⟩

set_option maxRecDepth 10000 in
/-- A call over midnight leaves its reservation on the day before. -/
theorem not_accounted_midnight :
    ¬ ∀ (limit : Option Nat) (now : UtcDay) (s : QuotaRun exactReals),
      Reaches (fun s c t => next limit s c = some t) (start now) s → Accounted limit s := by
  intro h
  have hrun : runLabels (next (some 100)) (start secondOfJune : QuotaRun exactReals)
      [.reserve "bot-1" 80 secondOfJune, .commit 0 30 thirdOfJune] = some _ := rfl
  have haccounted := h (some 100) secondOfJune _ (reaches_of_runLabels hrun)
  exact absurd (haccounted.settled rfl "bot-1" secondOfJune).1 (by decide)

end QuotaRun

end Springtale.Runtime
