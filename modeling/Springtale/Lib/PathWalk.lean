import Springtale.Lib.Keyed

/-! Trees of directories, files and symbolic links, and the walk along the parts of a path that
follows each link it meets. -/
namespace Springtale.Lib

/-- A part of a path between separators. An empty one asks for a directory, as the dot does. -/
inductive Part (α : Type*) where
  | same
  | up
  | name (n : α)

def Part.isSame {α : Type*} : Part α → Bool
  | .same => true
  | .up => false
  | .name _ => false

/-- A path, cut at its separators; the relative one without parts is the empty text. -/
structure Path (α : Type*) where
  absolute : Bool
  parts : List (Part α)

def Path.isEmpty {α : Type*} (path : Path α) : Bool := !path.absolute && path.parts.isEmpty

inductive Node (α : Type*) where
  | file
  | link (target : Path α)
  | dir (entries : List (α × Node α))

/-- Where a walk ends: at a node, with the number of links it may still follow, or before a last
name that its directory does not have. -/
inductive Found (α : Type*) where
  | at (location : List α) (links : Nat)
  | missing (directory : List α) (name : α)

section Walk

variable {α : Type*} [DecidableEq α]

/-- The node at a location, without following links. -/
def Node.get : List α → Node α → Option (Node α)
  | [], node => some node
  | n :: rest, .dir entries => (lookupKey entries n).bind (Node.get rest)
  | _ :: _, .file => none
  | _ :: _, .link _ => none

variable (root : Node α)

def isDir (location : List α) : Bool :=
  match root.get location with
  | some (.dir _) => true
  | _ => false

def startOf (path : Path α) (current : List α) : List α := if path.absolute then [] else current

/-- The walk with what it does at a link. -/
def walkParts (follow : List α → List (Part α) → Option (Found α)) (links : Nat) :
    List α → List (Part α) → Option (Found α)
  | current, [] => some (.at current links)
  | current, part :: rest =>
    if isDir root current then
      match part with
      | .same => walkParts follow links current rest
      | .up => walkParts follow links current.dropLast rest
      | .name n =>
        match root.get (current ++ [n]) with
        | none => if rest.isEmpty then some (.missing current n) else none
        | some (.link target) =>
          if target.isEmpty then none
          else follow (startOf target current) (target.parts ++ rest)
        | some _ => walkParts follow links (current ++ [n]) rest
    else none

/-- The walk that follows so many links at most. -/
def walk : Nat → List α → List (Part α) → Option (Found α)
  | 0 => walkParts root (fun _ _ => none) 0
  | links + 1 => walkParts root (walk links) (links + 1)

/-- What follows a link, with one fewer to go. -/
def walkOn : Nat → List α → List (Part α) → Option (Found α)
  | 0 => fun _ _ => none
  | links + 1 => walk root links

theorem walk_eq (links : Nat) : walk root links = walkParts root (walkOn root links) links := by
  cases links <;> rfl

@[simp] theorem walk_nil (links : Nat) (current : List α) :
    walk root links current [] = some (.at current links) := by
  rw [walk_eq, walkParts]

theorem walk_cons (links : Nat) (current : List α) (part : Part α) (rest : List (Part α)) :
    walk root links current (part :: rest) =
      if isDir root current then
        match part with
        | .same => walk root links current rest
        | .up => walk root links current.dropLast rest
        | .name n =>
          match root.get (current ++ [n]) with
          | none => if rest.isEmpty then some (.missing current n) else none
          | some (.link target) =>
            if target.isEmpty then none
            else walkOn root links (startOf target current) (target.parts ++ rest)
          | some _ => walk root links (current ++ [n]) rest
      else none := by
  rw [walk_eq, walkParts.eq_def]

/-- How a walk goes on from where a first one has ended. -/
def Found.andThen (rest : List (Part α)) : Found α → Option (Found α)
  | .at location links => walk root links location rest
  | .missing directory name =>
    if rest.isEmpty then some (.missing directory name) else none

/-- A walk along one list of parts after another. -/
theorem walk_append (links : Nat) (current : List α) (xs ys : List (Part α)) :
    walk root links current (xs ++ ys) =
      (walk root links current xs).bind (Found.andThen root ys) := by
  induction links using Nat.strongRecOn generalizing current xs with
  | ind links ihLinks =>
    induction xs generalizing current with
    | nil => rw [walk_nil]; rfl
    | cons part xs ih =>
      rw [List.cons_append, walk_cons, walk_cons]
      cases isDir root current with
      | false => rfl
      | true =>
        rw [if_pos rfl, if_pos rfl]
        cases part with
        | same => exact ih current
        | up => exact ih current.dropLast
        | name n =>
          dsimp only
          cases root.get (current ++ [n]) with
          | none =>
            cases xs with
            | nil => cases ys <;> rfl
            | cons part xs => rfl
          | some node =>
            cases node with
            | file => exact ih _
            | dir entries => exact ih _
            | link target =>
              dsimp only
              cases target.isEmpty with
              | true => rfl
              | false =>
                rw [if_neg Bool.false_ne_true, if_neg Bool.false_ne_true]
                cases links with
                | zero => rfl
                | succ links =>
                  rw [walkOn, ← List.append_assoc]
                  exact ihLinks links (Nat.lt_succ_self links) _ _

/-- Parts that only ask for a directory lead nowhere else. -/
theorem walk_same {links : Nat} {current : List α} {parts rest : List (Part α)} {found : Found α}
    (hsame : ∀ part ∈ parts, part.isSame = true)
    (h : walk root links current (parts ++ rest) = some found) :
    walk root links current rest = some found := by
  induction parts with
  | nil => exact h
  | cons part parts ih =>
    cases part with
    | same =>
      rw [List.cons_append, walk_cons] at h
      split at h
      · exact ih (fun p hp => hsame p (List.mem_cons_of_mem _ hp)) h
      · cases h
    | up => cases hsame _ List.mem_cons_self
    | name n => cases hsame _ List.mem_cons_self

end Walk

end Springtale.Lib
