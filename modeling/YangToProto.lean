import YangToProto.Files.Disk
import YangToProto.Main
import YangToProto.Schema.Writing
import YangToProto.Proofs.Ledger.Assign
import YangToProto.Proofs.Ledger.History
import YangToProto.Proofs.Schema.Numbering
import YangToProto.Proofs.Collection.Entries
import YangToProto.Proofs.Proto.FreeNames
import YangToProto.Proofs.Generation.Directories
import YangToProto.Proofs.Generation.ReorderedTrees
import YangToProto.Proofs.Naming.Steps
import YangToProto.Proofs.Naming.Places
import YangToProto.Proofs.Generation.FieldTypes
import YangToProto.Proofs.Generation.Drafts
import YangToProto.Proofs.Generation.Files
import YangToProto.Proofs.Generation.Resolution
import YangToProto.Proofs.Generation.FieldNames
import YangToProto.Proofs.Ledger.SchemaGrowth
import YangToProto.Proofs.Generation.ListKeys
import YangToProto.Proofs.Generation.EnumTables
import YangToProto.Proofs.Generation.Imports
import YangToProto.Proofs.Generation.Independence
import YangToProto.Proofs.Generation.Grouping
import YangToProto.Proofs.Generation.Diagnostics
import YangToProto.Proofs.Generation.Agreement
import YangToProto.Proofs.Generation.Coverage
import YangToProto.Proofs.Generation.SavedLedger
import YangToProto.Proofs.Generation.WireStability
import YangToProto.Proofs.Naming.Claims
import YangToProto.Proofs.Json.Reading
import YangToProto.Proofs.Ledger.FileRoundTrip
import YangToProto.Proofs.Files.Saving
import YangToProto.Proofs.Generation.Drift
import YangToProto.Proofs.CommandLine.Commands
import YangToProto.Proofs.Files.Places
import YangToProto.Proofs.Proto.PackagePaths
import YangToProto.Proofs.Generation.PackageFiles
import YangToProto.Proofs.Json.Skipping
import YangToProto.Proofs.Ledger.NotSchema
import YangToProto.Proofs.CommandLine.GenerateCheck
import YangToProto.Proofs.Generation.Expansion
import YangToProto.Proofs.Schema.SchemaNames
import YangToProto.Proofs.Naming.PackageParts
import YangToProto.Proofs.Naming.Candidates
import YangToProto.Proofs.Generation.MessageScopes
import YangToProto.Proofs.Generation.LegalIdentifiers
import YangToProto.Proofs.Generation.PackageClashes
import YangToProto.Proofs.Generation.ScopeClashes
import YangToProto.Proofs.Generation.Hoisting
import YangToProto.Proofs.Generation.WellFormedEnums
import YangToProto.Proofs.Generation.IdentityOrder
import YangToProto.Proofs.Generation.UnionMapping
import YangToProto.Proofs.Generation.KeyFaults
import YangToProto.Proofs.Generation.OwnMessages
import YangToProto.Proofs.Schema.PathTexts
import YangToProto.Proofs.Generation.KeyWrappers
import YangToProto.Proofs.Proto.ClaimedNames
import YangToProto.Proofs.Ledger.FilesOnDisk
import YangToProto.Proofs.Proto.MessageTexts
import YangToProto.Proofs.Schema.NodeForms
