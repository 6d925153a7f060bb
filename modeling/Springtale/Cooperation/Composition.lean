import Mathlib.Data.List.Basic
import Springtale.Cooperation.Surfaces

/-! How a new surface reacts with the surfaces that are there: a table of pairwise rules, each of
which may consume either side, change it, or make a new surface. -/
namespace Springtale.Cooperation

open Springtale.Core Springtale.Beat

inductive ReactionOutput where
  | transform (newSurface : String)
  | consumeA (modifyB : Option String)
  | consumeB (modifyA : Option String)
  | spawn (newSurface : String)
  | inert
deriving DecidableEq

structure SurfaceReaction where
  inputA : String
  inputB : String
  output : ReactionOutput
deriving DecidableEq

/-- A rule applies to its pair of tags in either order. -/
def SurfaceReaction.matchesTags (r : SurfaceReaction) (a b : String) : Bool :=
  (r.inputA = a && r.inputB = b) || (r.inputA = b && r.inputB = a)

def surfaceTag : SurfaceType → String
  | .substrate => "substrate"
  | .primed trigger => trigger.kind
  | .active _ => "active"

abbrev ReactionTable := List SurfaceReaction

namespace ReactionTable

/-- The first rule that applies wins. -/
def lookup (table : ReactionTable) (a b : String) : Option SurfaceReaction :=
  table.find? fun r => r.matchesTags a b

def cooperationDefaults : ReactionTable :=
  [⟨"fresh_input", "high_attention", .transform "urgent_response"⟩,
    ⟨"rally_beacon", "fatigue", .transform "cooldown"⟩,
    ⟨"rally_beacon", "high_attention", .transform "urgent_response"⟩,
    ⟨"handoff_ready", "role_vacancy", .transform "consensus_call"⟩,
    ⟨"urgent_response", "cooldown", .consumeB none⟩,
    ⟨"fatigue", "fresh_input", .transform "cooldown"⟩]

end ReactionTable

structure CompositionResult where
  surviving : List Surface
  spawned : List Surface
  consumed : List Uuid
deriving DecidableEq

/-- The loop's variables: the result so far, the flag, and how many identities were drawn. -/
structure Composing extends CompositionResult where
  incomingConsumed : Bool
  drawn : Nat

/-- A surface whose type primes it for actions of a kind. -/
def Surface.primedFor (surface : Surface) (kind : String) : Surface :=
  { surface with surfaceType := .primed ⟨kind, none, 0⟩ }

/-- The surface a reaction makes, active for half a minute. -/
def reactionSurface (id author : Uuid) (newSurface tagA tagB : String) : Surface where
  id := id
  createdBy := author
  surfaceType := .active 30000000000
  data := .object [("from_a", .string tagA), ("from_b", .string tagB),
    ("origin", .string newSurface)]
  expires := none
  capability := none

section Compose

variable (draw : Nat → Uuid) (table : ReactionTable) (author : Uuid) (incoming : Surface)

/-- The rule's output for an existing surface and the incoming one. -/
def reactionOf (existing : Surface) : Option ReactionOutput :=
  (table.lookup (surfaceTag existing.surfaceType) (surfaceTag incoming.surfaceType)).map (·.output)

/-- One turn of the loop over the existing surfaces. -/
def composeStep (c : Composing) (existing : Surface) : Composing :=
  match reactionOf table incoming existing with
  | some (.transform newSurface) =>
    { c with
      consumed := c.consumed ++ [existing.id]
      incomingConsumed := true
      spawned := c.spawned ++ [reactionSurface (draw c.drawn) author newSurface
        (surfaceTag existing.surfaceType) (surfaceTag incoming.surfaceType)]
      drawn := c.drawn + 1 }
  | some (.consumeA modifyB) =>
    let c := { c with consumed := c.consumed ++ [existing.id] }
    match modifyB with
    | some newType =>
      if !c.incomingConsumed then
        { c with spawned := c.spawned ++ [incoming.primedFor newType], incomingConsumed := true }
      else c
    | none => c
  | some (.consumeB modifyA) =>
    let c := { c with incomingConsumed := true }
    match modifyA with
    | some newType => { c with surviving := c.surviving ++ [existing.primedFor newType] }
    | none => { c with surviving := c.surviving ++ [existing] }
  | some (.spawn newSurface) =>
    { c with
      surviving := c.surviving ++ [existing]
      spawned := c.spawned ++ [reactionSurface (draw c.drawn) author newSurface
        (surfaceTag existing.surfaceType) (surfaceTag incoming.surfaceType)]
      drawn := c.drawn + 1 }
  | some .inert => { c with surviving := c.surviving ++ [existing] }
  | none => { c with surviving := c.surviving ++ [existing] }

def composeAll (existing : List Surface) : Composing :=
  existing.foldl (composeStep draw table author incoming) ⟨⟨[], [], []⟩, false, 0⟩

def composeSurfaces (existing : List Surface) : CompositionResult :=
  let c := composeAll draw table author incoming existing
  if !c.incomingConsumed then { c.toCompositionResult with surviving := c.surviving ++ [incoming] }
  else c.toCompositionResult

/-! ### What each existing surface undergoes -/

/-- Whether a surface is consumed by its reaction. -/
def isConsumed (existing : Surface) : Bool :=
  match reactionOf table incoming existing with
  | some (.transform _) | some (.consumeA _) => true
  | _ => false

/-- What a surface that is not consumed becomes. -/
def afterReaction (existing : Surface) : Surface :=
  match reactionOf table incoming existing with
  | some (.consumeB (some newType)) => existing.primedFor newType
  | _ => existing

/-- The new surface that a surface's reaction makes, but for its identity. -/
def madeBy (existing : Surface) : Option (Uuid → Surface) :=
  match reactionOf table incoming existing with
  | some (.transform newSurface) | some (.spawn newSurface) =>
    some fun id => reactionSurface id author newSurface (surfaceTag existing.surfaceType)
      (surfaceTag incoming.surfaceType)
  | _ => none

/-- The new surfaces of all reactions, in the order of the existing ones. -/
def madeSurfaces (existing : List Surface) : List Surface :=
  (existing.filterMap (madeBy table author incoming)).mapIdx fun k surface => surface (draw k)

/-- Whether a reaction takes the incoming surface away as it is. -/
def takesIncoming (existing : Surface) : Bool :=
  match reactionOf table incoming existing with
  | some (.transform _) | some (.consumeA (some _)) | some (.consumeB _) => true
  | _ => false

variable {draw table author incoming}

theorem madeSurfaces_snoc (existing : List Surface) (e : Surface) :
    madeSurfaces draw table author incoming (existing ++ [e]) =
      madeSurfaces draw table author incoming existing ++
        ((madeBy table author incoming e).map fun surface =>
          surface (draw (existing.filterMap (madeBy table author incoming)).length)).toList := by
  rw [madeSurfaces, madeSurfaces, List.filterMap_append]
  cases hmade : madeBy table author incoming e with
  | none => simp [hmade]
  | some surface => simp [hmade, List.mapIdx_append]

variable (table incoming) in
/-- The first reaction that takes the incoming surface primes it for a kind of actions. -/
def PrimesFor (existing : List Surface) (kind : String) : Prop :=
  ∃ front e rest, existing = front ++ e :: rest ∧
    (∀ other ∈ front, takesIncoming table incoming other = false) ∧
      reactionOf table incoming e = some (.consumeA (some kind))

variable (table incoming) in
/-- The spawned surfaces are those the reactions make, in order, and once the incoming surface as a
reaction changed it, if one has. -/
def SpawnedAs (existing spawned madeOnes : List Surface) (flag : Bool) : Prop :=
  ∃ pre primed post, spawned = pre ++ primed ++ post ∧ pre ++ post = madeOnes ∧
    (primed = [] ∨ flag = true ∧ ∃ kind, PrimesFor table incoming existing kind ∧
      primed = [incoming.primedFor kind])

section SpawnedAs

variable {existing spawned madeOnes : List Surface} {flag : Bool}

theorem PrimesFor.snoc {kind : String} (h : PrimesFor table incoming existing kind) (e : Surface) :
    PrimesFor table incoming (existing ++ [e]) kind := by
  obtain ⟨front, first, rest, rfl, hfront, hreaction⟩ := h
  exact ⟨front, first, rest ++ [e], by simp, hfront, hreaction⟩

/-- One more existing surface whose reaction spawns nothing. -/
theorem SpawnedAs.same (h : SpawnedAs table incoming existing spawned madeOnes flag) (e : Surface) :
    SpawnedAs table incoming (existing ++ [e]) spawned madeOnes flag := by
  obtain ⟨pre, primed, post, hspawned, hmade, hprimed⟩ := h
  refine ⟨pre, primed, post, hspawned, hmade, hprimed.imp_right ?_⟩
  rintro ⟨hflag, kind, hkind, hprimed⟩
  exact ⟨hflag, kind, hkind.snoc e, hprimed⟩

theorem SpawnedAs.snoc (h : SpawnedAs table incoming existing spawned madeOnes flag)
    (surface : Surface) :
    SpawnedAs table incoming existing (spawned ++ [surface]) (madeOnes ++ [surface]) flag := by
  obtain ⟨pre, primed, post, rfl, rfl, hprimed⟩ := h
  exact ⟨pre, primed, post ++ [surface], by simp, by simp, hprimed⟩

theorem SpawnedAs.consumed (h : SpawnedAs table incoming existing spawned madeOnes flag) :
    SpawnedAs table incoming existing spawned madeOnes true := by
  obtain ⟨pre, primed, post, hspawned, hmade, hprimed⟩ := h
  exact ⟨pre, primed, post, hspawned, hmade, hprimed.imp_right fun hkind => ⟨rfl, hkind.2⟩⟩

/-- The incoming surface is primed by the first reaction that takes it. -/
theorem SpawnedAs.prime (h : SpawnedAs table incoming existing spawned madeOnes false)
    {kind : String} (hkind : PrimesFor table incoming existing kind) :
    SpawnedAs table incoming existing (spawned ++ [incoming.primedFor kind]) madeOnes true := by
  obtain ⟨pre, primed, post, rfl, rfl, rfl | ⟨hflag, -⟩⟩ := h
  · exact ⟨pre ++ post, [incoming.primedFor kind], [], by simp, by simp,
      .inr ⟨rfl, kind, hkind, rfl⟩⟩
  · cases hflag

end SpawnedAs

/-- The loop's variables after some existing surfaces. -/
structure Composed (draw : Nat → Uuid) (table : ReactionTable) (author : Uuid) (incoming : Surface)
    (existing : List Surface) (c : Composing) : Prop where
  surviving : c.surviving = (existing.filter fun e => !isConsumed table incoming e).map
    (afterReaction table incoming)
  consumed : c.consumed = (existing.filter (isConsumed table incoming)).map (·.id)
  drawn : c.drawn = (existing.filterMap (madeBy table author incoming)).length
  flag : c.incomingConsumed = existing.any (takesIncoming table incoming)
  spawned : SpawnedAs table incoming existing c.spawned (madeSurfaces draw table author incoming existing)
    c.incomingConsumed

theorem composed_nil : Composed draw table author incoming [] ⟨⟨[], [], []⟩, false, 0⟩ where
  surviving := rfl
  consumed := rfl
  drawn := rfl
  flag := rfl
  spawned := ⟨[], [], [], rfl, rfl, .inl rfl⟩

section Step

variable {c : Composing} {e : Surface}

theorem composeStep_surviving : (composeStep draw table author incoming c e).surviving =
    c.surviving ++ if isConsumed table incoming e then [] else [afterReaction table incoming e] := by
  rw [composeStep, isConsumed, afterReaction]
  cases reactionOf table incoming e with
  | none => rfl
  | some output =>
    cases output with
    | transform newSurface => exact (List.append_nil _).symm
    | consumeA modifyB =>
      cases modifyB with
      | none => exact (List.append_nil _).symm
      | some newType => cases c.incomingConsumed <;> exact (List.append_nil _).symm
    | consumeB modifyA => cases modifyA <;> rfl
    | spawn newSurface => rfl
    | inert => rfl

theorem composeStep_consumed : (composeStep draw table author incoming c e).consumed =
    c.consumed ++ if isConsumed table incoming e then [e.id] else [] := by
  rw [composeStep, isConsumed]
  cases reactionOf table incoming e with
  | none => exact (List.append_nil _).symm
  | some output =>
    cases output with
    | transform newSurface => rfl
    | consumeA modifyB =>
      cases modifyB with
      | none => rfl
      | some newType => cases c.incomingConsumed <;> rfl
    | consumeB modifyA => cases modifyA <;> exact (List.append_nil _).symm
    | spawn newSurface => exact (List.append_nil _).symm
    | inert => exact (List.append_nil _).symm

theorem composeStep_flag : (composeStep draw table author incoming c e).incomingConsumed =
    (c.incomingConsumed || takesIncoming table incoming e) := by
  rw [composeStep, takesIncoming]
  cases reactionOf table incoming e with
  | none => exact (Bool.or_false _).symm
  | some output =>
    cases output with
    | transform newSurface => exact (Bool.or_true _).symm
    | consumeA modifyB =>
      cases modifyB with
      | none => exact (Bool.or_false _).symm
      | some newType => cases c.incomingConsumed <;> rfl
    | consumeB modifyA => cases modifyA <;> exact (Bool.or_true _).symm
    | spawn newSurface => exact (Bool.or_false _).symm
    | inert => exact (Bool.or_false _).symm

theorem composeStep_drawn : (composeStep draw table author incoming c e).drawn =
    c.drawn + (madeBy table author incoming e).toList.length := by
  rw [composeStep, madeBy]
  cases reactionOf table incoming e with
  | none => rfl
  | some output =>
    cases output with
    | transform newSurface => rfl
    | consumeA modifyB =>
      cases modifyB with
      | none => rfl
      | some newType => cases c.incomingConsumed <;> rfl
    | consumeB modifyA => cases modifyA <;> rfl
    | spawn newSurface => rfl
    | inert => rfl

/-- A step adds what its reaction makes, or primes the incoming surface if nothing has taken it. -/
theorem composeStep_spawned {existing madeOnes : List Surface}
    (hflag : c.incomingConsumed = existing.any (takesIncoming table incoming))
    (h : SpawnedAs table incoming existing c.spawned madeOnes c.incomingConsumed) :
    SpawnedAs table incoming (existing ++ [e]) (composeStep draw table author incoming c e).spawned
      (madeOnes ++ ((madeBy table author incoming e).map fun surface =>
        surface (draw c.drawn)).toList)
      (composeStep draw table author incoming c e).incomingConsumed := by
  have h := h.same e
  have hsame : SpawnedAs table incoming (existing ++ [e]) c.spawned (madeOnes ++ [])
      c.incomingConsumed := by rwa [List.append_nil]
  rw [composeStep, madeBy]
  cases hreaction : reactionOf table incoming e with
  | none => exact hsame
  | some output =>
    cases output with
    | transform newSurface => exact (h.snoc _).consumed
    | consumeA modifyB =>
      cases modifyB with
      | none => exact hsame
      | some newType =>
        cases htaken : c.incomingConsumed with
        | false =>
          rw [htaken] at hsame hflag
          refine hsame.prime ⟨existing, e, [], rfl, ?_, hreaction⟩
          intro other hother
          exact Bool.eq_false_iff.mpr (List.any_eq_false.mp hflag.symm other hother)
        | true =>
          rw [htaken] at hsame
          exact hsame
    | consumeB modifyA => cases modifyA <;> exact hsame.consumed
    | spawn newSurface => exact h.snoc _
    | inert => exact hsame

end Step

/-- One more existing surface, by what its reaction is. -/
theorem composed_step {existing : List Surface} {c : Composing}
    (h : Composed draw table author incoming existing c) (e : Surface) :
    Composed draw table author incoming (existing ++ [e])
      (composeStep draw table author incoming c e) where
  surviving := by
    rw [composeStep_surviving, h.surviving, List.filter_append, List.map_append,
      List.filter_singleton]
    cases isConsumed table incoming e <;> rfl
  consumed := by
    rw [composeStep_consumed, h.consumed, List.filter_append, List.map_append,
      List.filter_singleton]
    cases isConsumed table incoming e <;> rfl
  drawn := by
    rw [composeStep_drawn, h.drawn, List.filterMap_append, List.length_append]
    cases hmade : madeBy table author incoming e <;> simp [hmade]
  flag := by
    rw [composeStep_flag, h.flag, List.any_append, List.any_cons, List.any_nil, Bool.or_false]
  spawned := by
    rw [madeSurfaces_snoc, ← h.drawn]
    exact composeStep_spawned h.flag h.spawned

theorem composed_all (existing : List Surface) :
    Composed draw table author incoming existing
      (composeAll draw table author incoming existing) := by
  induction existing using List.reverseRecOn with
  | nil => exact composed_nil
  | append_singleton existing e ih =>
    rw [composeAll, List.foldl_concat]
    exact composed_step ih e

end Compose

/-- Each existing surface survives, as its reaction leaves it, or is consumed; the incoming surface
is kept at most once, as it is or as the first reaction to take it primes it; and each existing
surface that has a reaction undergoes it, whatever the surfaces before it have done to the incoming
one. -/
theorem compose_partitions (draw : Nat → Uuid) (table : ReactionTable) (author : Uuid)
    (existing : List Surface) (incoming : Surface) :
    let result := composeSurfaces draw table author incoming existing
    result.consumed = (existing.filter (isConsumed table incoming)).map (·.id) ∧
    ∃ kept pre primed post,
      result.surviving = (existing.filter fun e => !isConsumed table incoming e).map
        (afterReaction table incoming) ++ kept ∧
      result.spawned = pre ++ primed ++ post ∧
      pre ++ post = madeSurfaces draw table author incoming existing ∧
      (kept = [] ∨ kept = [incoming]) ∧
      (primed = [] ∨ ∃ kind, PrimesFor table incoming existing kind ∧
        primed = [incoming.primedFor kind]) ∧
      kept.length + primed.length ≤ 1 := by
  intro result
  obtain ⟨hsurviving, hconsumed, -, -, pre, primed, post, hspawned, hmade, hprimed⟩ :=
    @composed_all draw table author incoming existing
  cases hflag : (composeAll draw table author incoming existing).incomingConsumed with
  | false =>
    have hresult : result = { (composeAll draw table author incoming existing).toCompositionResult
        with surviving :=
          (composeAll draw table author incoming existing).surviving ++ [incoming] } := by
      simp [result, composeSurfaces, hflag]
    have hnone : primed = [] := hprimed.resolve_right fun h => by simp [hflag] at h
    rw [hresult]
    exact ⟨hconsumed, [incoming], pre, primed, post, by rw [hsurviving], hspawned, hmade,
      .inr rfl, .inl hnone, by simp [hnone]⟩
  | true =>
    have hresult : result =
        (composeAll draw table author incoming existing).toCompositionResult := by
      simp [result, composeSurfaces, hflag]
    rw [hresult]
    refine ⟨hconsumed, [], pre, primed, post, by rw [hsurviving, List.append_nil], hspawned, hmade,
      .inl rfl, hprimed.imp_right And.right, ?_⟩
    rcases hprimed with rfl | ⟨-, kind, -, rfl⟩ <;> simp

/-- Two fresh inputs and one bout of attention: the first input consumes the attention, and the
second reacts with it all the same. -/
theorem reacts_with_consumed :
    let input (id : Uuid) : Surface :=
      ⟨id, 7, .primed ⟨"fresh_input", none, 0⟩, .object [], none, none⟩
    let attention : Surface := ⟨3, 8, .primed ⟨"high_attention", none, 0⟩, .object [], none, none⟩
    (composeAll id .cooperationDefaults 8 attention [input 1]).incomingConsumed = true ∧
    (composeSurfaces id .cooperationDefaults 8 attention [input 1]).surviving = [] ∧
    (composeSurfaces id .cooperationDefaults 8 attention [input 1, input 2]).consumed = [1, 2] ∧
    (composeSurfaces id .cooperationDefaults 8 attention [input 1, input 2]).spawned =
      (composeSurfaces id .cooperationDefaults 8 attention [input 1]).spawned ++
        [reactionSurface 1 8 "urgent_response" "fresh_input" "high_attention"] := by
  decide +kernel

end Springtale.Cooperation
