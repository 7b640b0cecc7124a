import CoRD.Field.GF256
import CoRD.Field.Inverse
import CoRD.Field.Code
import CoRD.Field.Elimination
import CoRD.Field.MDS
import CoRD.Network.Process
import CoRD.Network.Semantics
import CoRD.Network.Round
import CoRD.Network.Progress
import CoRD.Network.Schedule
import CoRD.Network.Termination
import CoRD.Network.History
import CoRD.Network.Cast
import CoRD.Network.Stuck
import CoRD.Network.Lists
import CoRD.Network.Server
import CoRD.Network.Relay
import CoRD.Network.RelayBatch
import CoRD.Network.RelayLists
import CoRD.Network.RelayProgress
import CoRD.Network.RelayBound
import CoRD.Network.Chain
import CoRD.Util.Keyed
import CoRD.Util.Hull
import CoRD.Util.Buffer
import CoRD.Util.Wire
import CoRD.Util.Jerasure
import CoRD.Util.Ranges
import CoRD.Util.Batch
import CoRD.Util.Tree
import CoRD.Util.Text
import CoRD.Util.Collect
import CoRD.Util.CountLoop
import CoRD.Util.Checked
import CoRD.Util.Bisect
import CoRD.Util.ShortRead
import CoRD.Util.FirstMin
import CoRD.Util.Bottleneck
import CoRD.Util.Groups
import CoRD.Util.LowBit
import CoRD.Util.Forest
import CoRD.Util.Fibers
import CoRD.Repair.RackAware
import CoRD.Repair.RackChoice
import CoRD.Repair.RackOrder
import CoRD.Repair.PathSelection
import CoRD.Repair.RequestorHolder
import CoRD.Update.Config
import CoRD.Update.UPNode
import CoRD.Update.UPCoordinator
import CoRD.Update.Stripe
import CoRD.Update.SubSets
import CoRD.Update.Components
import CoRD.Update.DeltaRound
import CoRD.Update.RaidTasks
import CoRD.Update.RaidRound
import CoRD.Update.CrdTasks
import CoRD.Update.CrdRound
import CoRD.Update.Protocol
import CoRD.Update.Consistency
import CoRD.Update.CrdConsistency
import CoRD.Update.RaidConsistency
import CoRD.Update.RaidRouting
import CoRD.Update.DeltaConsistency
import CoRD.Trace.Request
import CoRD.Trace.Log
import CoRD.Trace.Split
import CoRD.Trace.Loop
import CoRD.Trace.Merge
import CoRD.Trace.Bookkeeping
import CoRD.Trace.Flush
import CoRD.Trace.RandomWorkload
import CoRD.Update.Command
import CoRD.Update.CommandLength
import CoRD.Repair.RSUtil
import CoRD.Repair.Metadata
import CoRD.Repair.HdfsMetadata
import CoRD.Repair.Hdfs3Metadata
import CoRD.Repair.Decoding
import CoRD.Repair.Plan
import CoRD.Repair.PlanKeys
import CoRD.Repair.PlanExists
import CoRD.Repair.PlanSound
import CoRD.Repair.PipeMulCoordinator
import CoRD.Repair.JobBatch
import CoRD.Repair.DRWorker
import CoRD.Repair.SlavesCtx
import CoRD.Repair.PipeMulDRWorker
import CoRD.Repair.PipeMulReuse
import CoRD.Repair.ECPipeInputStream
import CoRD.Repair.PipeMulHelper
import CoRD.Repair.PipeMulRepair
import CoRD.Repair.PipeMulLostBlocks
import CoRD.Repair.Coordinator
import CoRD.Repair.FRRequest
import CoRD.Repair.Command
import CoRD.Repair.PipeCoordinator
import CoRD.Repair.PipeRepair
import CoRD.Repair.ClientFile
import CoRD.Repair.PipeDRWorker
import CoRD.Repair.CyclCollector
import CoRD.Repair.CyclMulFRWorker
import CoRD.Repair.CyclMulHelper
import CoRD.Repair.CyclMulRepair
import CoRD.Repair.CyclDRWorker
import CoRD.Repair.CyclRepair
import CoRD.Repair.CyclSchedule
import CoRD.Repair.PacketRead
import CoRD.Repair.DiskLoops
import CoRD.Repair.HadoopStream
import CoRD.Repair.Moduli
import CoRD.Repair.QfsRequests
import CoRD.Repair.QfsTermination
import CoRD.Repair.WakeUp
import CoRD.Repair.Hdfs3Requests
import CoRD.Repair.PlanRejection
import CoRD.Repair.BlkReports
import CoRD.Repair.PPRCoordinator
import CoRD.Repair.PPRIndices
import CoRD.Repair.PPRPullDRWorker
import CoRD.Repair.PPRReduction
import CoRD.Repair.ConvDRWorker
import CoRD.Repair.ConvHelper
import CoRD.Repair.ConvProgress
import CoRD.Repair.ConvRepair
import CoRD.Repair.ConvRequest
import CoRD.Repair.PPRRequest
import CoRD.Repair.BlockReporter
import CoRD.Repair.PipeRequest
import CoRD.Repair.PacketBarrier
import CoRD.Repair.ScheduleRuns
import CoRD.Repair.RequestBytes
import CoRD.Repair.ReplyBytes
import CoRD.Coding.JerasureInvert
import CoRD.Coding.ReedSol
import CoRD.Coding.StripeCode
import CoRD.Update.TraceRuns
import CoRD.Repair.ClientFiles
import CoRD.Repair.PassiveReceiver
import CoRD.Repair.PipeMulDelivery
import CoRD.Repair.PipeMulRequest
