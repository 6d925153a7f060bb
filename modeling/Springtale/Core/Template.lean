import Springtale.Core.Json

/-! Templates with `$`-and-brace placeholders, resolved against a payload in one pass. -/
namespace Springtale.Core

/-- The text of a scalar; `floatText` is the number format of `serde_json` for floats. -/
def scalarText (floatText : Rat → String) : Value → Option (List Char)
  | .string s => some s.toList
  | .int n => some (toString n).toList
  | .float x => some (floatText x).toList
  | .bool b => some (if b then "true".toList else "false".toList)
  | .null => some "null".toList
  | .array _ | .object _ => none

section Resolve

variable (floatText : Rat → String) (payload : Value) (wrap : List Char → List Char)

/-- What a placeholder becomes. -/
def resolveVar (varName : List Char) : List Char :=
  match (resolveField payload (String.ofList varName)).bind (scalarText floatText) with
  | some text => wrap text
  | none => ['$', '{'] ++ varName ++ ['}']

/-- The loop over the template's characters; a name is being read since an opening brace. An empty
name vanishes, and a `$` in a name leaves the opening twice. -/
def resolveChars : Option (List Char) → List Char → List Char
  | none, [] => []
  | none, '$' :: '{' :: rest => resolveChars (some []) rest
  | none, c :: rest => c :: resolveChars none rest
  | some varName, [] => ['$', '{'] ++ varName
  | some varName, '}' :: rest =>
    (if varName = [] then [] else resolveVar floatText payload wrap varName) ++
      resolveChars none rest
  | some varName, '$' :: rest => ['$', '{'] ++ varName ++ ['$', '$', '{'] ++ resolveChars none rest
  | some varName, c :: rest => resolveChars (some (varName ++ [c])) rest

def resolveTemplateWrapped (template : String) : String :=
  String.ofList (resolveChars floatText payload wrap none template.toList)

def resolveTemplate (template : String) : String :=
  resolveTemplateWrapped floatText payload id template

end Resolve

/-- What a template is made of, whatever the payload. -/
inductive TemplatePart where
  | literal (c : Char)
  | placeholder (varName : List Char)
deriving DecidableEq

def templateParts : Option (List Char) → List Char → List TemplatePart
  | none, [] => []
  | none, '$' :: '{' :: rest => templateParts (some []) rest
  | none, c :: rest => .literal c :: templateParts none rest
  | some varName, [] => (['$', '{'] ++ varName).map .literal
  | some varName, '}' :: rest =>
    (if varName = [] then [] else [.placeholder varName]) ++ templateParts none rest
  | some varName, '$' :: rest =>
    (['$', '{'] ++ varName ++ ['$', '$', '{']).map .literal ++ templateParts none rest
  | some varName, c :: rest => templateParts (some (varName ++ [c])) rest

section Parts

variable (floatText : Rat → String) (payload : Value) (wrap : List Char → List Char)

def TemplatePart.resolve : TemplatePart → List Char
  | .literal c => [c]
  | .placeholder varName => resolveVar floatText payload wrap varName

variable {floatText payload wrap}

theorem flatMap_literals (cs : List Char) :
    (cs.map TemplatePart.literal).flatMap (TemplatePart.resolve floatText payload wrap) = cs := by
  induction cs with
  | nil => rfl
  | cons c cs ih =>
    rw [List.map_cons, List.flatMap_cons, ih]
    rfl

/-- A template is resolved part by part, each without a look at the text of another. -/
theorem resolveChars_eq (reading : Option (List Char)) (template : List Char) :
    resolveChars floatText payload wrap reading template =
      (templateParts reading template).flatMap
        (TemplatePart.resolve floatText payload wrap) := by
  fun_induction templateParts reading template with
  | case1 => rfl
  | case2 rest ih =>
    rw [resolveChars]
    exact ih
  | case3 c rest hne ih =>
    rw [resolveChars, ih]
    · rfl
    · exact hne
  | case4 varName =>
    rw [resolveChars, flatMap_literals]
  | case5 varName rest ih =>
    rw [resolveChars, List.flatMap_append, ih]
    congr 1
    by_cases hempty : varName = []
    · simp [hempty]
    · simp [hempty, TemplatePart.resolve]
  | case6 varName rest ih =>
    rw [resolveChars, List.flatMap_append, flatMap_literals, ih]
  | case7 varName c rest hclose hdollar ih =>
    rw [resolveChars]
    · exact ih
    · exact hclose
    · exact hdollar

end Parts

end Springtale.Core
