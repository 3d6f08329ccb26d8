import Stormglass.Stream
import Stormglass.MinWatermarkCombiner
import Stormglass.Source
import Stormglass.SourceMerge
import Stormglass.MergeTurns
import Stormglass.MergeRuns
import Stormglass.MergeWatermarks
import Stormglass.MergeAlignment
import Stormglass.MergeProgress
import Stormglass.Ledger
import Stormglass.Window
import Stormglass.KeyedWindowState
import Stormglass.KeyedProcessor
import Stormglass.WindowAccounts
import Stormglass.WindowEngine
import Stormglass.Oracle
import Stormglass.Pipeline
import Stormglass.WindowGeometry
import Stormglass.OracleAgreement
import Stormglass.PartitionedPipeline
import Stormglass.PartitionedRuns
import Stormglass.PartitionedProgress
import Stormglass.PartitionInvariance
import Stormglass.Participant
import Stormglass.ParticipantLog
import Stormglass.Crc32c
import Stormglass.CheckpointFile
import Stormglass.CheckpointGrammar
import Stormglass.CheckpointCorruption
import Stormglass.CheckpointRoundTrip
import Stormglass.CheckpointDirectory
import Stormglass.CheckpointRetention
import Stormglass.SnapshotCodec
import Stormglass.TcpTransport
import Stormglass.TcpFraming
import Stormglass.Outcomes
import Stormglass.TcpNetwork
import Stormglass.OnTimeStreams
import Stormglass.WindowOperator
import Stormglass.WindowInterleaving
import Stormglass.SnapshotFiles
import Stormglass.SnapshotStore
import Stormglass.SnapshotCommits
import Stormglass.DurableFileSink
import Stormglass.LateAcceptance
import Stormglass.RecordFailures
import Stormglass.SnapshotRestore
import Stormglass.DurableLog
import Stormglass.Generator
import Stormglass.GeneratorReplay
import Stormglass.MergeItems
import Stormglass.MergeReplay
import Stormglass.MergePassthrough
import Stormglass.SourceOffsets
import Stormglass.OperatorSnapshots
import Stormglass.SourceDescriptors
import Stormglass.WindowInvariant
import Stormglass.CheckedArithmetic
import Stormglass.SlidingArithmetic
import Stormglass.SnapshotReads
import Stormglass.LocalRoundTrip
import Stormglass.JobManifest
import Stormglass.PunctualRuns
import Stormglass.BoundedDisorder
import Stormglass.WatermarkTruth
import Stormglass.MergeOrigins
import Stormglass.StreamIdentity
import Stormglass.FailingPipeline
import Stormglass.FailureSafety
import Stormglass.CausalCuts
import Stormglass.ParticipantSteps
import Stormglass.ParticipantRecords
import Stormglass.SnapshotNetwork
import Stormglass.SnapshotCut
import Stormglass.SnapshotCompletion
import Stormglass.SnapshotDiscipline
import Stormglass.GeneratorPlaces
import Stormglass.PipelineRestart
