import CppCoder.Support.Utf8

/-! The records that the components exchange. -/

namespace CppCoder.Types
open Support.Utf8

/-- A unit of research work. A repeatable task applies its goal to each of its sub-areas. -/
structure Task where
  id : Bytes := []
  targetArea : Bytes := []
  researchGoal : Bytes := []
  successCriteria : Bytes := []
  depth : Nat := 0
  repeatable : Bool := false
  repeatTargets : List Bytes := []
  parentId : Bytes := []
  deriving DecidableEq

inductive WorkerOutcome where
  | success
  | noInformation
  | partialWithDirections
  deriving DecidableEq

structure Finding where
  outcome : WorkerOutcome := .noInformation
  areaInvestigated : Bytes := []
  summary : Bytes := []
  suggestedDirections : List Task := []
  duration : Int := 0
  promptTokensApprox : UInt64 := 0
  deriving DecidableEq

inductive EditOutcome where
  | success
  | noChangeNeeded
  | partialWithDirections
  deriving DecidableEq

/-- The full replacement content of one file, named relative to the codebase root. -/
structure ProposedEdit where
  path : Bytes
  newContent : Bytes
  description : Bytes
  deriving DecidableEq

structure EditFinding where
  outcome : EditOutcome := .noChangeNeeded
  areaInvestigated : Bytes := []
  summary : Bytes := []
  edits : List ProposedEdit := []
  suggestedDirections : List Task := []
  duration : Int := 0
  promptTokensApprox : UInt64 := 0
  deriving DecidableEq

/-- Approximate token estimate, in the arithmetic of `size_t`. -/
def estimateTokens (text : Bytes) : UInt64 := UInt64.ofNat text.length / 4 + 1

end CppCoder.Types
