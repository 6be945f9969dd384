import BuildServer.Main
import BuildServer.Server.Waiting
import BuildServer.Proofs.Frame.Chunking
import BuildServer.Proofs.Path.Normal
import BuildServer.Proofs.Server.WatchedFiles
import BuildServer.Proofs.Server.Schedule
import BuildServer.Proofs.Dialogue.Ensures
import BuildServer.Proofs.Table.Lookup
import BuildServer.Proofs.Graph.Consistency
import BuildServer.Proofs.Json.Values
import BuildServer.Proofs.Store.Sharing
import BuildServer.Proofs.Files.Walk
import BuildServer.Proofs.Files.Growth
import BuildServer.Proofs.Path.Parent
import BuildServer.Proofs.Files.Runs
import BuildServer.Proofs.Store.Reopening
import BuildServer.Proofs.Store.Refinement
import BuildServer.Proofs.Target.Parse
import BuildServer.Proofs.Target.Scopes
import BuildServer.Proofs.Path.FileUri
import BuildServer.Proofs.Graph.Announcement
import BuildServer.Proofs.Graph.Reports
import BuildServer.Proofs.Graph.Exactness
import BuildServer.Proofs.Graph.Coverage
import BuildServer.Proofs.Server.Documents
import BuildServer.Proofs.Server.Spellings
import BuildServer.Proofs.Frame.Stream
import BuildServer.Proofs.Frame.Backlog
import BuildServer.Proofs.Server.Answers
import BuildServer.Proofs.Server.Accounts
import BuildServer.Proofs.Server.ExitCode
import BuildServer.Proofs.Server.StoredOptions
import BuildServer.Proofs.Build.Coherence
import BuildServer.Proofs.Server.CorruptCache
import BuildServer.Proofs.Graph.SchemeOrder
import BuildServer.Proofs.Server.PrepareCourse
import BuildServer.Proofs.Graph.Readers
import BuildServer.Proofs.Server.Classification
import BuildServer.Proofs.Store.Collection
import BuildServer.Proofs.Build.FailedCalls
import BuildServer.Proofs.Build.RepeatedRuns
import BuildServer.Proofs.Graph.NetChanges
import BuildServer.Proofs.Graph.Agreement
import BuildServer.Proofs.Graph.RepeatedRefresh
import BuildServer.Proofs.Graph.DistinctTargets
import BuildServer.Proofs.Server.StaleOptions
import BuildServer.Proofs.Dialogue.Turns
import BuildServer.Proofs.Server.Notices
import BuildServer.Proofs.Server.Records
import BuildServer.Proofs.Server.Emission
import BuildServer.Proofs.Path.Canonical
import BuildServer.Proofs.Graph.LookupOrder
import BuildServer.Proofs.Watch.Relevance
import BuildServer.Proofs.Watch.Announced
import BuildServer.Proofs.Options.Segments
import BuildServer.Proofs.Options.ModuleMaps
import BuildServer.Proofs.Target.Canonical
import BuildServer.Proofs.Protocol.RoundTrip
import BuildServer.Proofs.Message.MemberOrder
import BuildServer.Proofs.Server.IdleWaiting
import BuildServer.Proofs.Files.AllOrNothing
import BuildServer.Proofs.Server.SourceRoots
