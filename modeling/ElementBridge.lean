import ElementBridge.Main
import ElementBridge.Output.Memory
import ElementBridge.Text.Utf8
import ElementBridge.Proofs.ClosedBridge
import ElementBridge.Proofs.ExportTables
import ElementBridge.Proofs.FirstFault
import ElementBridge.Proofs.ModuleParts
import ElementBridge.Proofs.Nullability
import ElementBridge.Proofs.ReachedSurface
import ElementBridge.Proofs.SurfaceFailures
import ElementBridge.Proofs.UncheckedImports
import ElementBridge.Proofs.AccessorPairs
import ElementBridge.Proofs.ClassParts
import ElementBridge.Proofs.OfferedMembers
import ElementBridge.Proofs.DiskAccess
import ElementBridge.Proofs.Pipelines
import ElementBridge.Proofs.TakingTurns
import ElementBridge.Proofs.LoadingDepth
import ElementBridge.Proofs.LoadedFiles
import ElementBridge.Proofs.BridgePipeline
import ElementBridge.Proofs.BatchIsolation
import ElementBridge.Proofs.WithheldElements
import ElementBridge.Proofs.BoundImports
import ElementBridge.Proofs.TopLevelNames
import ElementBridge.Proofs.BridgePlaces
import ElementBridge.Proofs.HostClassHeads
import ElementBridge.Proofs.RepeatedRuns
import ElementBridge.Proofs.InheritedFields
import ElementBridge.Proofs.BaseFields
import ElementBridge.Proofs.SignatureFields
import ElementBridge.Proofs.OverloadedMethods
import ElementBridge.Proofs.ReadableTypes
import ElementBridge.Proofs.UnreachedDeclarations
import ElementBridge.Proofs.ImportOrder
import ElementBridge.Proofs.SourceOrder
import ElementBridge.Proofs.QuotedLiterals
import ElementBridge.Proofs.EnumValues
import ElementBridge.Proofs.DistinctParameters
import ElementBridge.Proofs.OptionalParameters
import ElementBridge.Proofs.UsedImports
import ElementBridge.Proofs.JoinedAccessors
import ElementBridge.Proofs.MemoryRuns
import ElementBridge.Proofs.NormalTypes
