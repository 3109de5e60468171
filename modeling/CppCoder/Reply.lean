import CppCoder.Types
import CppCoder.Support.JsonValue
import CppCoder.Support.Program

/-! What the components that read a model's reply have in common. An exception ends the reading but
keeps what was read before it. -/

namespace CppCoder.Reply
open Support Utf8 JsonValue Program CppCoder.Types

structure Parsing (φ : Type) where
  finding : φ
  counter : Nat

variable {φ : Type}

/-- One element of `directions`. It takes a number before its members are looked up, and it is
dropped if it names no area or no goal. -/
def readDirection (label : String) (add : Task → φ → φ) (dir : Json) :
    EStateM JsonError (Parsing φ) Unit := do
  let number ← modifyGet fun p => (p.counter + 1, { p with counter := p.counter + 1 })
  let targetArea ← orThrow (dir.valueStr "target_area" [])
  let researchGoal ← orThrow (dir.valueStr "research_goal" [])
  let successCriteria ← orThrow (dir.valueStr "success_criteria" [])
  let t : Task := { id := ascii label ++ decimal number, targetArea, researchGoal, successCriteria }
  if t.targetArea ≠ [] ∧ t.researchGoal ≠ [] then
    modify fun p => { p with finding := add t p.finding }

/-- The strings of a task, which end up in prompts and events. -/
structure Clean (task : Task) : Prop where
  id : Valid task.id
  targetArea : Valid task.targetArea
  researchGoal : Valid task.researchGoal
  successCriteria : Valid task.successCriteria
  parentId : Valid task.parentId

structure Direction (task : Task) : Prop extends Clean task where
  single : task.repeatable = false
  targets : task.repeatTargets = []

theorem readDirection_runs {label : String} {add : Task → φ → φ} {dir : Json} {good : φ → Prop}
    (clean : dir.dumpable = true) (adds : ∀ t finding, Direction t → good finding → good (add t finding))
    (p : Parsing φ) (before : good p.finding) :
    Runs (readDirection label add dir) p (fun _ p' => good p'.finding) fun _ p' => good p'.finding := by
  unfold readDirection
  refine Runs.bind (Runs.modifyGet ?_)
  refine Runs.bind (Runs.orThrow (fun targetArea read => ?_) fun _ _ => before)
  have area := valid_valueStr clean valid_nil read
  refine Runs.bind (Runs.orThrow (fun researchGoal read => ?_) fun _ _ => before)
  have goal := valid_valueStr clean valid_nil read
  refine Runs.bind (Runs.orThrow (fun successCriteria read => ?_) fun _ _ => before)
  have criteria := valid_valueStr clean valid_nil read
  dsimp only
  split_ifs
  · refine Runs.modify (adds _ _ ?_ before)
    exact ⟨⟨(valid_ascii _).append (valid_decimal _), area, goal, criteria, valid_nil⟩, rfl, rfl⟩
  · exact Runs.pure before

end CppCoder.Reply
