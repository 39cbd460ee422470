import BuildConductor.Base.Checks
import BuildConductor.Base.OrderedRecord
import BuildConductor.Base.GreedySelection
import BuildConductor.Base.TopologicalOrder
import BuildConductor.Base.TransitionSystem
import BuildConductor.Domain.Text
import BuildConductor.Domain.Json
import BuildConductor.Domain.Types
import BuildConductor.Domain.Paths
import BuildConductor.Domain.Dag
import BuildConductor.Domain.DagOrder
import BuildConductor.Domain.Steps
import BuildConductor.Domain.StepsNormal
import BuildConductor.Domain.Artifacts
import BuildConductor.Security.Capabilities
import BuildConductor.Security.Envelope
import BuildConductor.Security.Authority
import BuildConductor.Engine.Workspaces
import BuildConductor.Engine.WorkflowState
import BuildConductor.Engine.Events
import BuildConductor.Engine.Scheduler
import BuildConductor.Engine.Reconciliation
import BuildConductor.Engine.Launches
import BuildConductor.Engine.Retry
import BuildConductor.Engine.Transactions
import BuildConductor.Engine.Recovery
import BuildConductor.Engine.Admission
import BuildConductor.Workflows.ChangeRun
import BuildConductor.Storage.WorkflowStateStore
import BuildConductor.Storage.Acceptance
import BuildConductor.Storage.Preservation
import BuildConductor.Lifecycle.Settlement
import BuildConductor.Lifecycle.System
import BuildConductor.Lifecycle.Transactions
import BuildConductor.Lifecycle.Cancellation
import BuildConductor.Lifecycle.Plans
import BuildConductor.Lifecycle.Attempts
import BuildConductor.Lifecycle.Tracking
import BuildConductor.Lifecycle.Readiness
import BuildConductor.Lifecycle.MutualExclusion
import BuildConductor.Lifecycle.Agreement
import BuildConductor.Engine.Integrations
import BuildConductor.Lifecycle.Progress
import BuildConductor.Lifecycle.Reopening
import BuildConductor.Lifecycle.Growth
import BuildConductor.Lifecycle.Numbering
import BuildConductor.Domain.StepFacts
import BuildConductor.Lifecycle.Budget
import BuildConductor.Lifecycle.Integrity
import BuildConductor.Lifecycle.Recovery
import BuildConductor.Base.LinearHistory
import BuildConductor.Git.History
import BuildConductor.Engine.Finalization
import BuildConductor.Lifecycle.History
import BuildConductor.Lifecycle.Evidence
import BuildConductor.Domain.Canonical
import BuildConductor.Domain.TaskPlans
import BuildConductor.Domain.PlanTranslation
import BuildConductor.Domain.Review
import BuildConductor.Workflows.Change
import BuildConductor.Lifecycle.Bases
import BuildConductor.Lifecycle.Sessions
import BuildConductor.Domain.Runs
import BuildConductor.Domain.Scheduler
import BuildConductor.Engine.TaskRefinement
import BuildConductor.Domain.JsonText
import BuildConductor.Base.LargestElements
import BuildConductor.Domain.ArtifactRecords
import BuildConductor.Storage.ArtifactStore
import BuildConductor.Storage.ArtifactHistory
import BuildConductor.Domain.PlanDocuments
import BuildConductor.Security.EnvelopeNormal
import BuildConductor.Security.Freezing
import BuildConductor.Security.Derivation
import BuildConductor.Security.Reload
import BuildConductor.Base.Utf8
import BuildConductor.Workers.Backend
import BuildConductor.Storage.AttemptLogEntries
import BuildConductor.Storage.AttemptLogStore
import BuildConductor.Storage.AttemptLogHistory
import BuildConductor.Base.Effects
import BuildConductor.Git.Paths
import BuildConductor.Git.Repository
import BuildConductor.Git.Cleanup
import BuildConductor.Git.CleanupSafety
import BuildConductor.Domain.DagCycles
import BuildConductor.Storage.ArtifactNames
import BuildConductor.Domain.CanonicalPaths
import BuildConductor.Engine.Outputs
import BuildConductor.Engine.Timeline
import BuildConductor.Storage.EventDocuments
import BuildConductor.Base.Watermark
import BuildConductor.Engine.Notify
import BuildConductor.Storage.TimelineHonesty
import BuildConductor.Base.ThreeWayMerge
import BuildConductor.Planning.PlanMerge
import BuildConductor.Planning.PlanEditor
import BuildConductor.Base.Utf8Chunks
import BuildConductor.Planning.CandidateSaves
import BuildConductor.Workers.ServerRequest
import BuildConductor.Storage.RunRecords
import BuildConductor.Storage.StoredRun
import BuildConductor.Domain.RunRecovery
import BuildConductor.Inspection.RunControl
import BuildConductor.Domain.TaskStates
import BuildConductor.Storage.RunRewriting
import BuildConductor.Storage.RunHistory
import BuildConductor.Inspection.RunRestarts
import BuildConductor.Base.SelfDelimiting
import BuildConductor.Security.CommandFormat
import BuildConductor.Validation.CommandRunner
import BuildConductor.Git.Porcelain
import BuildConductor.Review.ReviewReport
import BuildConductor.Review.FindingPaths
import BuildConductor.Domain.PlanSpelling
import BuildConductor.Storage.CarriedPlans
import BuildConductor.Inspection.EngineRunView
import BuildConductor.Inspection.RetryWork
import BuildConductor.Lifecycle.StatusFixpoint
import BuildConductor.Planning.ScopeOverlap
import BuildConductor.Domain.PlanTexts
import BuildConductor.Engine.PlanNormalForms
import BuildConductor.Domain.ParsedValues
import BuildConductor.Engine.ArtifactRouting
import BuildConductor.Review.ReviewStep
import BuildConductor.Review.MergeReadiness
import BuildConductor.Review.ReviewHistory
import BuildConductor.Git.TaskCommits
import BuildConductor.Validation.Suites
import BuildConductor.Validation.TaskValidator
import BuildConductor.Steps.ChangeStep
import BuildConductor.Review.RepairFindings
import BuildConductor.Review.ReviewAdoption
import BuildConductor.Steps.RepairStep
import BuildConductor.Validation.FinalValidator
import BuildConductor.Workflows.StoredRunLifecycle
import BuildConductor.Review.EvidenceReviews
import BuildConductor.Workflows.CompletedRun
import BuildConductor.Base.Monitor
import BuildConductor.Workers.StreamMessages
import BuildConductor.Workers.StreamProtocol
import BuildConductor.Workers.ServerStream
import BuildConductor.Workers.StreamRuns
import BuildConductor.Base.LineFraming
