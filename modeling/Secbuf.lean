import Secbuf.BigEndian
import Secbuf.BufferCore
import Secbuf.BufferMakers
import Secbuf.BufferOps
import Secbuf.BufferScript
import Secbuf.BurnedBlock
import Secbuf.Calls
import Secbuf.Connection
import Secbuf.ConnectionBurn
import Secbuf.ConnectionFaults
import Secbuf.ConnectionMemory
import Secbuf.CountedQueue
import Secbuf.CounterOrder
import Secbuf.Custody
import Secbuf.CutMessages
import Secbuf.FailedCalls
import Secbuf.FastCounts
import Secbuf.FastCustody
import Secbuf.FastDemand
import Secbuf.FastFootprint
import Secbuf.FastLane
import Secbuf.FastLedger
import Secbuf.FastPanics
import Secbuf.FastPool
import Secbuf.FastProgress
import Secbuf.FastQueue
import Secbuf.FastSequential
import Secbuf.FastShutdown
import Secbuf.FastSteps
import Secbuf.FastUnwinding
import Secbuf.FieldCodec
import Secbuf.Filling
import Secbuf.Gauge
import Secbuf.HitRates
import Secbuf.IoErrors
import Secbuf.LastWrite
import Secbuf.LockedCalls
import Secbuf.LockedProgress
import Secbuf.Lookalikes
import Secbuf.PacketQueue
import Secbuf.PairedCalls
import Secbuf.PoolCap
import Secbuf.PoolDemand
import Secbuf.PoolIsolation
import Secbuf.PoolPanics
import Secbuf.PoolSizes
import Secbuf.PooledLikeFresh
import Secbuf.QueueBound
import Secbuf.QueueNearFull
import Secbuf.ReadBounds
import Secbuf.ReleasedBlocks
import Secbuf.Ring
import Secbuf.RingCursors
import Secbuf.RingDrain
import Secbuf.RingFifo
import Secbuf.RingFrame
import Secbuf.RingPow2
import Secbuf.RingResidue
import Secbuf.RingSlices
import Secbuf.RingStream
import Secbuf.RingWindow
import Secbuf.SafeFaults
import Secbuf.SizeCeiling
import Secbuf.SkippedStrings
import Secbuf.Snapshot
import Secbuf.Splice
import Secbuf.StandardInterleaved
import Secbuf.StandardLane
import Secbuf.StandardPanics
import Secbuf.StandardPool
import Secbuf.StandardProgress
import Secbuf.Statistics
import Secbuf.Storage
import Secbuf.Tally
import Secbuf.TwoRuns
import Secbuf.UncheckedPuts
import Secbuf.UncheckedRuns
import Secbuf.Unwinding
import Secbuf.WriteHistory
import Secbuf.ZeroCopy
