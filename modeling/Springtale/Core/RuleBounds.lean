import Springtale.Core.Engine

/-! The bounds that `parse_rule` puts on a rule, and the recursion of the evaluator that they
bound. -/
namespace Springtale.Core

inductive CoreError where
  | ruleParse (message : String)
  | conditionEval (message : String)
deriving DecidableEq

def maxConditionDepth : Nat := 8

def maxConditionsPerNode : Nat := 100

def maxActionsPerRule : Nat := 100

mutual

def Condition.depth : Condition → Nat
  | .and conditions | .or conditions => 1 + maxDepth conditions
  | .not condition => 1 + condition.depth
  | .fieldEquals .. | .contains .. | .regex .. | .timeInRange .. | .dayOfWeek _ => 1

def maxDepth : List Condition → Nat
  | [] => 0
  | c :: cs => max c.depth (maxDepth cs)

end

def Condition.validateDepth (condition : Condition) : Except CoreError Unit :=
  if condition.depth > maxConditionDepth then
    .error (.conditionEval
      s!"condition depth {condition.depth} exceeds maximum {maxConditionDepth}")
  else .ok ()

mutual

def Condition.validateWidth : Condition → Except CoreError Unit
  | .and conditions | .or conditions =>
    if conditions.length > maxConditionsPerNode then
      .error (.ruleParse (s!"condition node has {conditions.length} children, " ++
        s!"maximum is {maxConditionsPerNode}"))
    else validateWidths conditions
  | .not condition => condition.validateWidth
  | .fieldEquals .. | .contains .. | .regex .. | .timeInRange .. | .dayOfWeek _ => .ok ()

def validateWidths : List Condition → Except CoreError Unit
  | [] => .ok ()
  | c :: cs =>
    match c.validateWidth with
    | .ok () => validateWidths cs
    | .error e => .error e

end

def validateConditions : List Condition → Except CoreError Unit
  | [] => .ok ()
  | c :: cs =>
    match c.validateDepth with
    | .error e => .error e
    | .ok () =>
      match c.validateWidth with
      | .error e => .error e
      | .ok () => validateConditions cs

mutual

def Action.nestedCount : Action → Nat
  | .chain steps => countActions steps
  | .runConnector .. | .sendMessage _ | .writeFile .. | .runShell _ | .notify ..
  | .transform .. | .delay _ | .aiComplete .. | .extract .. | .dedupe .. => 0

/-- The actions, with those nested in chains. -/
def countActions : List Action → Nat
  | [] => 0
  | action :: actions => 1 + action.nestedCount + countActions actions

end

mutual

def Action.validateChainDepth : Action → Nat → Except CoreError Unit
  | .chain steps, depth =>
    if depth + 1 > maxChainDepth then
      .error (.ruleParse s!"chain depth {depth + 1} exceeds maximum {maxChainDepth}")
    else validateChainDepth steps (depth + 1)
  | .runConnector .., _ | .sendMessage _, _ | .writeFile .., _ | .runShell _, _
  | .notify .., _ | .transform .., _ | .delay _, _ | .aiComplete .., _ | .extract .., _
  | .dedupe .., _ => .ok ()

def validateChainDepth : List Action → Nat → Except CoreError Unit
  | [], _ => .ok ()
  | action :: actions, depth =>
    match action.validateChainDepth depth with
    | .ok () => validateChainDepth actions depth
    | .error e => .error e

end

/-- What `parse_rule` checks of the rule that it has read. -/
def Rule.checkBounds (rule : Rule) : Except CoreError Unit :=
  match validateConditions rule.conditions with
  | .error e => .error e
  | .ok () =>
    if countActions rule.actions > maxActionsPerRule then
      .error (.ruleParse (s!"rule has {countActions rule.actions} actions " ++
        s!"(including chain steps), maximum is {maxActionsPerRule}"))
    else validateChainDepth rule.actions 0

def parseRule (fromToml : String → Except String Rule) (toml : String) :
    Except CoreError Rule :=
  match fromToml toml with
  | .error e => .error (.ruleParse e)
  | .ok rule =>
    match rule.checkBounds with
    | .error e => .error e
    | .ok () => .ok rule

mutual

/-- The most children of a node of the tree. -/
def Condition.widest : Condition → Nat
  | .and conditions | .or conditions => max conditions.length (widestOf conditions)
  | .not condition => condition.widest
  | .fieldEquals .. | .contains .. | .regex .. | .timeInRange .. | .dayOfWeek _ => 0

def widestOf : List Condition → Nat
  | [] => 0
  | c :: cs => max c.widest (widestOf cs)

end

mutual

/-- The chains around the innermost step. -/
def Action.chainDepth : Action → Nat
  | .chain steps => 1 + chainDepthOf steps
  | .runConnector .. | .sendMessage _ | .writeFile .. | .runShell _ | .notify ..
  | .transform .. | .delay _ | .aiComplete .. | .extract .. | .dedupe .. => 0

def chainDepthOf : List Action → Nat
  | [] => 0
  | action :: actions => max action.chainDepth (chainDepthOf actions)

end

structure Rule.Bounds (rule : Rule) : Prop where
  depth : maxDepth rule.conditions ≤ maxConditionDepth
  width : widestOf rule.conditions ≤ maxConditionsPerNode
  actions : countActions rule.actions ≤ maxActionsPerRule
  chains : chainDepthOf rule.actions ≤ maxChainDepth

mutual

/-- The nested calls of the evaluator on a condition, which stops a list at its first answer. -/
def evaluatorDepth {rx : RegexCrate} (cache : RegexCache rx) (clock : Clock) (payload : Value) :
    Condition → Nat
  | .and conditions => 1 + evaluatorDepthAll cache clock payload conditions
  | .or conditions => 1 + evaluatorDepthAny cache clock payload conditions
  | .not condition => 1 + evaluatorDepth cache clock payload condition
  | .fieldEquals .. | .contains .. | .regex .. | .timeInRange .. | .dayOfWeek _ => 1

def evaluatorDepthAll {rx : RegexCrate} (cache : RegexCache rx) (clock : Clock)
    (payload : Value) : List Condition → Nat
  | [] => 0
  | c :: cs =>
    max (evaluatorDepth cache clock payload c)
      (if evaluateCondition cache clock payload c then evaluatorDepthAll cache clock payload cs
      else 0)

def evaluatorDepthAny {rx : RegexCrate} (cache : RegexCache rx) (clock : Clock)
    (payload : Value) : List Condition → Nat
  | [] => 0
  | c :: cs =>
    max (evaluatorDepth cache clock payload c)
      (if evaluateCondition cache clock payload c then 0
      else evaluatorDepthAny cache clock payload cs)

end

section Checks

theorem validateDepth_eq_ok_iff {c : Condition} :
    c.validateDepth = .ok () ↔ c.depth ≤ maxConditionDepth := by
  rw [Condition.validateDepth]
  split
  · rename_i hdeep
    simp only [reduceCtorEq, false_iff]
    exact Nat.not_le.mpr hdeep
  · rename_i hshallow
    simp only [true_iff]
    exact Nat.not_lt.mp hshallow

mutual

theorem validateWidth_eq_ok_iff (c : Condition) :
    c.validateWidth = .ok () ↔ c.widest ≤ maxConditionsPerNode := by
  cases c with
  | and conditions =>
    rw [Condition.validateWidth, Condition.widest, Nat.max_le, ← validateWidths_eq_ok_iff]
    split
    · rename_i hwide
      simp [Nat.not_le.mpr hwide]
    · rename_i hnarrow
      simp [Nat.not_lt.mp hnarrow]
  | or conditions =>
    rw [Condition.validateWidth, Condition.widest, Nat.max_le, ← validateWidths_eq_ok_iff]
    split
    · rename_i hwide
      simp [Nat.not_le.mpr hwide]
    · rename_i hnarrow
      simp [Nat.not_lt.mp hnarrow]
  | not condition =>
    rw [Condition.validateWidth, Condition.widest]
    exact validateWidth_eq_ok_iff condition
  | _ => simp [Condition.validateWidth, Condition.widest]

theorem validateWidths_eq_ok_iff (cs : List Condition) :
    validateWidths cs = .ok () ↔ widestOf cs ≤ maxConditionsPerNode := by
  cases cs with
  | nil => simp [validateWidths, widestOf]
  | cons c cs =>
    rw [validateWidths, widestOf, Nat.max_le, ← validateWidth_eq_ok_iff c,
      ← validateWidths_eq_ok_iff cs]
    cases c.validateWidth with
    | error e => simp
    | ok => simp

end

theorem validateConditions_eq_ok_iff (cs : List Condition) :
    validateConditions cs = .ok () ↔
      maxDepth cs ≤ maxConditionDepth ∧ widestOf cs ≤ maxConditionsPerNode := by
  induction cs with
  | nil => simp [validateConditions, maxDepth, widestOf]
  | cons c cs ih =>
    have hdepth := validateDepth_eq_ok_iff (c := c)
    have hwidth := validateWidth_eq_ok_iff c
    rw [validateConditions, maxDepth, widestOf, Nat.max_le, Nat.max_le, ← hdepth, ← hwidth]
    cases c.validateDepth with
    | error e => simp
    | ok =>
      cases c.validateWidth with
      | error e => simp
      | ok => simp [ih]

mutual

theorem validateChainDepth_eq_ok_iff (action : Action) (depth : Nat)
    (hdepth : depth ≤ maxChainDepth) :
    action.validateChainDepth depth = .ok () ↔ depth + action.chainDepth ≤ maxChainDepth := by
  cases action with
  | chain steps =>
    rw [Action.validateChainDepth, Action.chainDepth]
    split
    · rename_i hdeep
      simp only [reduceCtorEq, false_iff]
      omega
    · rename_i hshallow
      rw [validateChainDepths_eq_ok_iff steps (depth + 1) (Nat.not_lt.mp hshallow)]
      omega
  | _ => simpa [Action.validateChainDepth, Action.chainDepth] using hdepth

theorem validateChainDepths_eq_ok_iff (actions : List Action) (depth : Nat)
    (hdepth : depth ≤ maxChainDepth) :
    validateChainDepth actions depth = .ok () ↔
      depth + chainDepthOf actions ≤ maxChainDepth := by
  cases actions with
  | nil => simpa [validateChainDepth, chainDepthOf] using hdepth
  | cons action actions =>
    have hfirst := validateChainDepth_eq_ok_iff action depth hdepth
    have hrest := validateChainDepths_eq_ok_iff actions depth hdepth
    rw [validateChainDepth, chainDepthOf]
    have hmax : depth + max action.chainDepth (chainDepthOf actions) ≤ maxChainDepth ↔
        depth + action.chainDepth ≤ maxChainDepth ∧
          depth + chainDepthOf actions ≤ maxChainDepth := by omega
    rw [hmax, ← hfirst, ← hrest]
    cases action.validateChainDepth depth with
    | error e => simp
    | ok => simp

end

/-- The checks pass exactly the rules within the bounds. -/
theorem Rule.checkBounds_eq_ok_iff (rule : Rule) : rule.checkBounds = .ok () ↔ rule.Bounds := by
  have hconditions := validateConditions_eq_ok_iff rule.conditions
  have hchains := validateChainDepths_eq_ok_iff rule.actions 0 (Nat.zero_le _)
  rw [Nat.zero_add] at hchains
  rw [checkBounds]
  constructor
  · intro hok
    cases hvalid : validateConditions rule.conditions with
    | error e =>
      rw [hvalid] at hok
      cases hok
    | ok =>
      simp only [hvalid] at hok
      split at hok
      · cases hok
      · rename_i hcount
        obtain ⟨hdepth, hwidth⟩ := hconditions.mp hvalid
        exact ⟨hdepth, hwidth, Nat.not_lt.mp hcount, hchains.mp hok⟩
  · intro hbounds
    rw [hconditions.mpr ⟨hbounds.depth, hbounds.width⟩]
    simp only
    rw [if_neg (Nat.not_lt.mpr hbounds.actions), hchains.mpr hbounds.chains]

theorem parseRule_eq_ok_iff (fromToml : String → Except String Rule) (toml : String)
    (rule : Rule) :
    parseRule fromToml toml = .ok rule ↔ fromToml toml = .ok rule ∧ rule.Bounds := by
  rw [parseRule]
  cases fromToml toml with
  | error e => simp
  | ok read =>
    have hbounds := read.checkBounds_eq_ok_iff
    simp only [Except.ok.injEq]
    cases hcheck : read.checkBounds with
    | error e =>
      simp only [reduceCtorEq, false_iff]
      rintro ⟨rfl, hrule⟩
      rw [hbounds.mpr hrule] at hcheck
      cases hcheck
    | ok =>
      simp only [Except.ok.injEq]
      constructor
      · rintro rfl
        exact ⟨rfl, hbounds.mp hcheck⟩
      · rintro ⟨hread, -⟩
        exact hread

end Checks

section Evaluator

variable {rx : RegexCrate} (cache : RegexCache rx) (clock : Clock) (payload : Value)

mutual

/-- The evaluator recurses no deeper than the condition is nested. -/
theorem evaluatorDepth_le (c : Condition) :
    evaluatorDepth cache clock payload c ≤ c.depth := by
  cases c with
  | and conditions =>
    rw [evaluatorDepth, Condition.depth]
    exact Nat.add_le_add_left (evaluatorDepthAll_le conditions) 1
  | or conditions =>
    rw [evaluatorDepth, Condition.depth]
    exact Nat.add_le_add_left (evaluatorDepthAny_le conditions) 1
  | not condition =>
    rw [evaluatorDepth, Condition.depth]
    exact Nat.add_le_add_left (evaluatorDepth_le condition) 1
  | _ => simp [evaluatorDepth, Condition.depth]

theorem evaluatorDepthAll_le (cs : List Condition) :
    evaluatorDepthAll cache clock payload cs ≤ maxDepth cs := by
  cases cs with
  | nil => simp [evaluatorDepthAll]
  | cons c cs =>
    have hfirst := evaluatorDepth_le c
    have hrest := evaluatorDepthAll_le cs
    rw [evaluatorDepthAll, maxDepth]
    split
    · omega
    · omega

theorem evaluatorDepthAny_le (cs : List Condition) :
    evaluatorDepthAny cache clock payload cs ≤ maxDepth cs := by
  cases cs with
  | nil => simp [evaluatorDepthAny]
  | cons c cs =>
    have hfirst := evaluatorDepth_le c
    have hrest := evaluatorDepthAny_le cs
    rw [evaluatorDepthAny, maxDepth]
    split
    · omega
    · omega

end

end Evaluator

theorem depth_le_maxDepth {c : Condition} {cs : List Condition} (hmem : c ∈ cs) :
    c.depth ≤ maxDepth cs := by
  induction cs with
  | nil => cases hmem
  | cons c' cs ih =>
    rw [maxDepth]
    rcases List.mem_cons.mp hmem with rfl | hmem
    · exact Nat.le_max_left _ _
    · exact Nat.le_trans (ih hmem) (Nat.le_max_right _ _)

end Springtale.Core
