import Maestro.AdmissionWaiting
import Maestro.Utf8
import Maestro.Lines
import Maestro.HeadRead
import Maestro.Endpoint
import Maestro.Head
import Maestro.Relay
import Maestro.Framing
import Maestro.Json
import Maestro.Reply
import Maestro.Answer
import Maestro.Loaded
import Maestro.AdmissionRoom
import Maestro.Launch
import Maestro.Slots
import Maestro.ImpossibleStart
import Maestro.Holders
import Maestro.Threads
import Maestro.Effects
import Maestro.Admissions
import Maestro.LedgerBound
import Maestro.References
import Maestro.HandedOut
import Maestro.FreedRoom
import Maestro.Stopping
import Maestro.LockOrder
import Maestro.Locks
import Maestro.Branches
import Maestro.IdleSweep
import Maestro.DeadChildren
import Maestro.TwoEndpoints
import Maestro.Servable
import Maestro.OneFraming
import Maestro.Reading
import Maestro.GgufWritten
import Maestro.EstimateExact
import Maestro.Gguf
import Maestro.Disk
import Maestro.Estimate
import Maestro.Fields
import Maestro.Drafts
import Maestro.Discover
import Maestro.Resolve
import Maestro.Agreement
import Maestro.WellFormed
import Maestro.Addressed
import Maestro.AdmissionRefusals
import Maestro.AdmissionUseful
import Maestro.Reaper
import Maestro.Rewrite
import Maestro.Copying
import Maestro.HeadBounds
import Maestro.Truncated
import Maestro.LayerArrays
import Maestro.EveryLayer
import Maestro.BoundedWork
import Maestro.Shards
import Maestro.Monotone
import Maestro.Paths
import Maestro.Flags
import Maestro.Invocation
import Maestro.Faults
import Maestro.Discovered
import Maestro.Accounted
import Maestro.Inside
import Maestro.Starting
import Maestro.Views
import Maestro.ShardNames
import Maestro.Figures
import Maestro.Ceiling
import Maestro.Simulation
import Maestro.Store
import Maestro.Launching
import Maestro.Refinement
import Maestro.Kept
import Maestro.Rest
import Maestro.Reservation
import Maestro.Polling
import Maestro.RoomWait
import Maestro.Readiness
import Maestro.Tool
import Maestro.Deadlines
import Maestro.Residents
import Maestro.EmptyLine
import Maestro.Replies
import Maestro.ChildReads
import Maestro.Session
import Maestro.AfterStop
import Maestro.Spans
import Maestro.Today
import Maestro.Written
import Maestro.Shorthand
import Maestro.Startable
import Maestro.Measuring
