import EmergentFlow.Lib.Dict
import EmergentFlow.Lib.Checks
import EmergentFlow.Lib.Json
import EmergentFlow.Lib.Transaction
import EmergentFlow.Lib.Kahn
import EmergentFlow.Lib.KahnOrder
import EmergentFlow.Lib.LossyStore
import EmergentFlow.Lib.Worklist
import EmergentFlow.Lib.Runs
import EmergentFlow.Lib.StableSort
import EmergentFlow.Lib.Closure
import EmergentFlow.Lib.DepthFirst
import EmergentFlow.Lib.Join
import EmergentFlow.Lib.TreeCheck
import EmergentFlow.Types.Registry
import EmergentFlow.Types.Compatibility
import EmergentFlow.Ir.Graph
import EmergentFlow.Nodes.Contract
import EmergentFlow.Ir.Mutation
import EmergentFlow.Ir.Cascade
import EmergentFlow.Ir.MutationSpec
import EmergentFlow.Ir.Inverse
import EmergentFlow.Ir.RoundTrip
import EmergentFlow.Collab.Session
import EmergentFlow.Collab.SessionStep
import EmergentFlow.Collab.SessionRuns
import EmergentFlow.Collab.Checkpoints
import EmergentFlow.Collab.Records
import EmergentFlow.Collab.AppendOnly
import EmergentFlow.Collab.Chat
import EmergentFlow.Collab.BudgetGate
import EmergentFlow.Collab.EditTools
import EmergentFlow.Collab.EditToolRuns
import EmergentFlow.Ui.SessionClient
import EmergentFlow.Ui.NoLostUpdate
import EmergentFlow.Ui.SessionSync
import EmergentFlow.Ui.Convergence
import EmergentFlow.Codegen.Wiring
import EmergentFlow.Codegen.Traversal
import EmergentFlow.Codegen.Composite
import EmergentFlow.Codegen.Params
import EmergentFlow.Codegen.Executor
import EmergentFlow.Server.Flows
import EmergentFlow.Server.FlowLibrary
import EmergentFlow.Server.Runs
import EmergentFlow.Server.RunHistory
import EmergentFlow.Server.DiskStore
import EmergentFlow.Server.Stream
import EmergentFlow.Server.StreamStep
import EmergentFlow.Server.StreamRun
import EmergentFlow.Server.StreamAgree
import EmergentFlow.Server.FailureIndependence
import EmergentFlow.Server.CacheKeys
import EmergentFlow.Server.CacheSoundness
import EmergentFlow.Server.ExecuteSimulation
import EmergentFlow.Server.ExecuteRefinement
import EmergentFlow.Validity.Traversal
import EmergentFlow.Validity.Leakage
import EmergentFlow.Validity.Flatten
import EmergentFlow.Validity.Transparency
import EmergentFlow.Warehouse.Query
import EmergentFlow.Warehouse.WriteGate
import EmergentFlow.Research.ImpactInverse
import EmergentFlow.Codegen.GateLaws
import EmergentFlow.Eval.Cells
import EmergentFlow.Eval.CellLaws
import EmergentFlow.Eval.SchemaCheck
import EmergentFlow.Eval.SchemaAgreement
import EmergentFlow.Codegen.Naming
import EmergentFlow.Codegen.NamingLaws
import EmergentFlow.Nodes.Hints
import EmergentFlow.Ui.Widgets
import EmergentFlow.Ui.FormAgreement
import EmergentFlow.Ui.RunGraph
import EmergentFlow.Ui.SingleStream
import EmergentFlow.Ui.FlowPage
import EmergentFlow.Ui.UnsavedRuns
import EmergentFlow.Ir.Deserialize
import EmergentFlow.Ir.MutationLaw
import EmergentFlow.Validity.SkewLaw
import EmergentFlow.Codegen.Proposals
import EmergentFlow.Codegen.MaterializeLaw
import EmergentFlow.Research.ReproducibilityLaw
import EmergentFlow.Ui.UndoRedoLaw
import EmergentFlow.Ui.LoadLaw
import EmergentFlow.Ui.EditIntoOwn
import EmergentFlow.Research.DerivedLineage
import EmergentFlow.Ui.Trace
import EmergentFlow.Ui.Separate
import EmergentFlow.Ui.Sse
import EmergentFlow.Data.Documents
import EmergentFlow.Ui.ViewLink
import EmergentFlow.Ir.MigrateDocument
import EmergentFlow.Ui.JsonText
import EmergentFlow.Ui.FormRoundTrip
import EmergentFlow.Ui.LayeredLaw
import EmergentFlow.Ui.Nesting
import EmergentFlow.Ui.LiveValidation
import EmergentFlow.Causal.Matching
import EmergentFlow.Recommend.InteractionCore
import EmergentFlow.Recommend.TemporalSplit
import EmergentFlow.Recommend.Metrics
import EmergentFlow.Research.TraceLineage
import EmergentFlow.Server.CacheEviction
import EmergentFlow.Codegen.DeclarativeRun
import EmergentFlow.Clean.OutliersLaw
import EmergentFlow.Timeseries.TimeWeightingOrder
import EmergentFlow.Codegen.MermaidRender
import EmergentFlow.Server.FlowSlugs
import EmergentFlow.Data.HttpPages
import EmergentFlow.Collab.DigestLaw
import EmergentFlow.Ui.StoreLaw
import EmergentFlow.Codegen.Inspect
