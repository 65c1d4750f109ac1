import EntityQuery.Files.Tree
import EntityQuery.Main
import EntityQuery.Stream.Script
import EntityQuery.Write.Pipeline
import EntityQuery.Proofs.Stream.Merge
import EntityQuery.Proofs.Stream.Scan
import EntityQuery.Proofs.Execution.Results
import EntityQuery.Proofs.Encoding.Base64Url
import EntityQuery.Proofs.Json.Numeral
import EntityQuery.Proofs.Json.Written
import EntityQuery.Proofs.Paging.Pages
import EntityQuery.Proofs.Number.Binary64
import EntityQuery.Proofs.Plan.Meaning
import EntityQuery.Proofs.Search.Drain
import EntityQuery.Proofs.Search.Standing
import EntityQuery.Proofs.Write.History
import EntityQuery.Proofs.Graph.Registered
import EntityQuery.Proofs.Graph.RegistryRepair
import EntityQuery.Proofs.Graph.Reruns
import EntityQuery.Proofs.Query.FirstFault
import EntityQuery.Proofs.Query.Unambiguous
import EntityQuery.Proofs.Plan.Redaction
import EntityQuery.Proofs.Plan.Digest
import EntityQuery.Proofs.Listing.Agreement
import EntityQuery.Proofs.Stream.Interruptions
import EntityQuery.Proofs.Execution.SkippedScans
import EntityQuery.Proofs.Search.IdOrder
import EntityQuery.Proofs.Plan.Keywords
import EntityQuery.Proofs.Plan.Faults
import EntityQuery.Proofs.Plan.Executable
import EntityQuery.Proofs.Plan.Arrays
import EntityQuery.Proofs.Plan.Grouping
import EntityQuery.Proofs.Write.Stages
import EntityQuery.Proofs.Slice.Assembly
import EntityQuery.Proofs.Json.Projection
import EntityQuery.Proofs.Stream.Pulls
