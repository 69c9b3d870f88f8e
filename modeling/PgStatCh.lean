import PgStatCh.Tla.Core
import PgStatCh.Tla.Rules
import PgStatCh.Lib.Heap
import PgStatCh.Lib.FinTable
import PgStatCh.Lib.Ring
import PgStatCh.Lib.Fifo
import PgStatCh.Lib.Prog
import PgStatCh.Lib.ProgRel
import PgStatCh.Lib.Sort
import PgStatCh.Lib.Chunks
import PgStatCh.Lib.Greedy
import PgStatCh.Lib.Spans
import PgStatCh.Lib.Utf8
import PgStatCh.Lib.Wire
import PgStatCh.Lib.Dictionary
import PgStatCh.Lib.Packed
import PgStatCh.Lib.Stack
import PgStatCh.Lib.Recency
import PgStatCh.Queue.Event
import PgStatCh.Queue.Intern
import PgStatCh.Queue.Resources
import PgStatCh.Queue.Slot
import PgStatCh.Queue.Holdings
import PgStatCh.Queue.StringQueue
import PgStatCh.Queue.Shmem
import PgStatCh.Queue.ShmemInv
import PgStatCh.Queue.ShmemRefines
import PgStatCh.Queue.Backends
import PgStatCh.Queue.Ring
import PgStatCh.Queue.FastPath
import PgStatCh.Queue.Conservation
import PgStatCh.Queue.Attach
import PgStatCh.Queue.LocalBatch
import PgStatCh.Queue.AttachInv
import PgStatCh.Export.Exporter
import PgStatCh.Export.Batch
import PgStatCh.Export.Schedule
import PgStatCh.Export.Outcome
import PgStatCh.Export.OTelOutcome
import PgStatCh.Export.System
import PgStatCh.Export.Worker
import PgStatCh.Export.Delivery
import PgStatCh.Export.Drain
import PgStatCh.Export.Calls
import PgStatCh.Export.Backoff
import PgStatCh.Export.SendFailures
import PgStatCh.Export.Snapshot
import PgStatCh.Export.Simulation
import PgStatCh.Export.EventColumns
import PgStatCh.Export.Otlp
import PgStatCh.Export.OtlpChunks
import PgStatCh.Export.OtlpSize
import PgStatCh.Export.OtlpRefines
import PgStatCh.Export.Attributes
import PgStatCh.Export.Arrow
import PgStatCh.Export.ArrowFields
import PgStatCh.Export.ArrowBlocks
import PgStatCh.Export.ArrowRefines
import PgStatCh.Export.ChcColumns
import PgStatCh.Export.ChcInsert
import PgStatCh.Export.ChcBlocks
import PgStatCh.Export.ChcRefines
import PgStatCh.Export.Bgworker
import PgStatCh.Export.Restart
import PgStatCh.Export.Signals
import PgStatCh.Export.Flush
import PgStatCh.Export.ChcResources
import PgStatCh.Export.ChcHeld
import PgStatCh.Export.ChcOpen
import PgStatCh.Export.ChcConversation
import PgStatCh.Export.ChcCommit
import PgStatCh.Export.ChcReleased
import PgStatCh.Hooks.Cache
import PgStatCh.Hooks.Normalize
import PgStatCh.Hooks.Constants
import PgStatCh.Hooks.Statement
import PgStatCh.Hooks.Layout
import PgStatCh.Hooks.Redaction
import PgStatCh.Hooks.LogHook
import PgStatCh.Hooks.CaptureInv
import PgStatCh.Hooks.CaptureGuard
import PgStatCh.Hooks.CacheLru
import PgStatCh.Hooks.Executor
import PgStatCh.Hooks.Nesting
import PgStatCh.Hooks.Truncation
import PgStatCh.Hooks.BackendState
import PgStatCh.Hooks.SessionNames
import PgStatCh.Hooks.SessionBuilt
import PgStatCh.Hooks.SessionEvents
import PgStatCh.Hooks.SessionTexts
import PgStatCh.Queue.LastError
import PgStatCh.Queue.Reset
