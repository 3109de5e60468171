import CppCoder.ChatAnswers
import CppCoder.ToldFacts
import CppCoder.MainRuns
import CppCoder.ReplayRuns
import CppCoder.ChatHandlers
import CppCoder.ChatModels
import CppCoder.ChatDisplay
import CppCoder.ChatReplies
import CppCoder.ChatHistory
import CppCoder.ChatSession
import CppCoder.Containment
import CppCoder.LostUpdates
import CppCoder.Exploration
import CppCoder.Revisits
import CppCoder.FollowUps
import CppCoder.Survival
import CppCoder.Pruning
import CppCoder.ScanConfinement
import CppCoder.ScanCompleteness
import CppCoder.ScanPlacement
import CppCoder.RememberedFacts
import CppCoder.Durability
import CppCoder.FailedWrites
import CppCoder.Abandonment
import CppCoder.EditAccounts
import CppCoder.EventProtocol
import CppCoder.AnswerBasis
import CppCoder.GraphAgreement
import CppCoder.ContextWindow
import CppCoder.UpstreamFailures
import CppCoder.HeaderStripping
import CppCoder.ScanBudget
import CppCoder.ChatRendering
import CppCoder.ExtractedNames
import CppCoder.StreamReading
import CppCoder.SeedOrder
import CppCoder.QueueRuns
import CppCoder.FallbackKeywords
import CppCoder.GraphGrowth
import CppCoder.GraphLayout
import CppCoder.LayoutBounds
