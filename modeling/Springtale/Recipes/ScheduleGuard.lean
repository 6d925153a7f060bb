import Springtale.Recipes.Apply

/-! Which recipes that pass the schedule guard create rules that fire once a minute at most. -/
namespace Springtale.Recipes

open Springtale.Core Springtale.Scheduler

section Guard

variable {σ : Type*} (cron : List Char → Option CronSchedule)

/-- What the executor makes of a rule's cron trigger; `cron` is `Schedule::from_str`. -/
def TriggerSchedule (rule : Rule) (schedule : CronSchedule) : Prop :=
  ∃ expression, rule.trigger = .cron expression ∧
    cron (normalizeCronExpression expression.toList) = some schedule

/-- The guard looks at the expressions on lines of one form only, and rejects one spelling of them.
The triggers of the rules that are created fire once a minute at most exactly if each names one
second, or minutes without a gap, of which the executor itself does not let two seconds through. -/
theorem schedule_guard_iff (backend : Backend σ) (inputs : RecipeInputs) (recipe : Recipe) (s : σ) :
    (ensureScheduleSafe recipe inputs backend.floatText backend.jsonText = .ok () ↔
      ∀ step ∈ recipe.blueprint.rules,
        ∀ expr ∈ extractCronExpressions (backend.rendered inputs step).toList,
          isSubminute expr = false) ∧
    ((∀ rule ∈ (backend.applyRules inputs recipe.blueprint.rules s).created,
        ∀ schedule, TriggerSchedule cron rule schedule → schedule.OncePerMinute) ↔
      ∀ rule ∈ (backend.applyRules inputs recipe.blueprint.rules s).created,
        ∀ schedule, TriggerSchedule cron rule schedule →
          schedule.OneSecond ∨ schedule.Unbroken) := by
  constructor
  · have hnone : (ensureScheduleSafe recipe inputs backend.floatText backend.jsonText = .ok ()) ↔
        (recipe.blueprint.rules.flatMap fun step => extractCronExpressions
          (substituteTemplate backend.floatText backend.jsonText inputs
            step.toml.toList)).find? isSubminute = none := by
      rw [ensureScheduleSafe]
      cases (recipe.blueprint.rules.flatMap fun step => extractCronExpressions
        (substituteTemplate backend.floatText backend.jsonText inputs
          step.toml.toList)).find? isSubminute <;> simp
    rw [hnone, List.find?_eq_none]
    simp only [List.mem_flatMap, Backend.rendered, String.toList_ofList]
    constructor
    · intro hall step hstep expr hexpr
      exact Bool.eq_false_iff.mpr (hall expr ⟨step, hstep, hexpr⟩)
    · rintro hall expr ⟨step, hstep, hexpr⟩
      exact Bool.eq_false_iff.mp (hall step hstep expr hexpr)
  · refine forall₂_congr fun rule _ => forall₂_congr fun schedule _ => ?_
    exact CronSchedule.oncePerMinute_iff

end Guard

section HalfMinutes

/-- Twice in the first minute of an hour. -/
def hourlyTwice : CronSchedule where
  seconds := [0, 30]
  minutes m := m % 60 = 0
  inMinute := by decide

def twiceToml : String :=
  "name = \"t\"\n[trigger]\ntype = \"Cron\"\nexpression = \"0,30 0 * * * *\"\n" ++
    "[[actions]]\ntype = \"SendMessage\"\ntext = \"hi\"\n"

def twiceRule : Rule where
  id := ⟨1⟩
  name := "t"
  description := ""
  status := .enabled
  version := 1
  trigger := .cron "0,30 0 * * * *"
  conditions := []
  actions := [.sendMessage "hi"]
  owner := .global

def twiceRecipe : Recipe where
  id := "twice"
  name := "Twice"
  inputs := []
  blueprint := ⟨[], [⟨twiceToml⟩], none, none, []⟩

def twiceBackend : Backend (List Write) where
  floatText _ := ""
  jsonText _ := ""
  getRecipe _ _ := .ok (some twiceRecipe)
  geocode _ := .error (.http "")
  fromToml toml := if toml = twiceToml then .ok twiceRule else .error ""
  invalidStep _ _ := none
  perform write s := (true, write :: s)

def readTwice (expression : List Char) : Option CronSchedule :=
  if expression = "0,30 0 * * * *".toList then some hourlyTwice else none

theorem not_oncePerMinute_hourlyTwice : ¬hourlyTwice.OncePerMinute := by
  rw [CronSchedule.oncePerMinute_iff, not_or]
  constructor
  · intro hsecond
    have := hsecond 0 (by decide) 30 (by decide)
    omega
  · intro hunbroken
    have := hunbroken 0 1 60 (by decide) (by decide) (by decide) (by decide)
    revert this
    decide

theorem guard_passes_half_minutes :
    (ensureScheduleSafe twiceRecipe ⟨[]⟩ twiceBackend.floatText twiceBackend.jsonText).isOk = true ∧
    ∃ rule ∈ (twiceBackend.applyRules ⟨[]⟩ twiceRecipe.blueprint.rules []).created,
      ∃ schedule, TriggerSchedule readTwice rule schedule ∧ ¬schedule.OncePerMinute := by
  have hrendered : twiceBackend.rendered ⟨[]⟩ ⟨twiceToml⟩ = twiceToml := by decide +kernel
  have hnormal : normalizeCronExpression "0,30 0 * * * *".toList = "0,30 0 * * * *".toList := by
    decide +kernel
  have hread : readTwice (normalizeCronExpression "0,30 0 * * * *".toList) = some hourlyTwice := by
    rw [hnormal]
    rfl
  constructor
  · decide +kernel
  · refine ⟨twiceRule, ?_, hourlyTwice, ⟨_, rfl, hread⟩, not_oncePerMinute_hourlyTwice⟩
    have hcreated : (twiceBackend.applyRules ⟨[]⟩ twiceRecipe.blueprint.rules []).created =
        [twiceRule] := by
      simp only [twiceRecipe, Backend.applyRules, hrendered]
      rfl
    rw [hcreated]
    exact List.mem_singleton_self _

end HalfMinutes

end Springtale.Recipes
