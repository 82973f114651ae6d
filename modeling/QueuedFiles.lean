import QueuedFiles.Block.Lz4
import QueuedFiles.Block.Samples
import QueuedFiles.Config
import QueuedFiles.Disk
import QueuedFiles.Event
import QueuedFiles.Queue.Traffic
import QueuedFiles.Service.Run
import QueuedFiles.Proofs.Service.History
import QueuedFiles.Proofs.Service.Transition
import QueuedFiles.Proofs.Service.Census
import QueuedFiles.Proofs.Service.Post
import QueuedFiles.Proofs.Service.Journey
import QueuedFiles.Proofs.Service.Desk
import QueuedFiles.Proofs.Service.Conservation
import QueuedFiles.Proofs.Service.Deadlock
import QueuedFiles.Proofs.Service.Standstill
import QueuedFiles.Proofs.Service.Fifo
import QueuedFiles.Proofs.Heap
import QueuedFiles.Proofs.Service.Losses
import QueuedFiles.Proofs.Service.Buffers
import QueuedFiles.Proofs.Service.Aftermath
import QueuedFiles.Proofs.Service.Reference
import QueuedFiles.Proofs.Service.Replay
import QueuedFiles.Proofs.Service.Linear
import QueuedFiles.Proofs.Service.Tally
import QueuedFiles.Proofs.Ownership
import QueuedFiles.Proofs.Trace
import QueuedFiles.Proofs.Pool
import QueuedFiles.Proofs.Event
import QueuedFiles.Proofs.Handle
import QueuedFiles.Proofs.Event.Waking
import QueuedFiles.Proofs.Telemetry.Documents
import QueuedFiles.Proofs.Telemetry.Sharing
import QueuedFiles.Proofs.Telemetry.Timing
import QueuedFiles.Proofs.Config
import QueuedFiles.Proofs.Service.Stakes
import QueuedFiles.Proofs.Service.Sources
import QueuedFiles.Proofs.Service.Balance
import QueuedFiles.Proofs.Block.Decoding
import QueuedFiles.Proofs.Block.Matching
import QueuedFiles.Proofs.Block.Encoding
import QueuedFiles.Proofs.Block.Roundtrip
import QueuedFiles.Proofs.Disk
import QueuedFiles.Proofs.Service.Effort
import QueuedFiles.Proofs.Service.Roundtrip
import QueuedFiles.Proofs.Queue.Exchange
import QueuedFiles.Proofs.Queue.Delivery
import QueuedFiles.Proofs.Service.Staging
import QueuedFiles.Proofs.Service.Meter
import QueuedFiles.Proofs.Service.Access
import QueuedFiles.Proofs.Service.Shape
import QueuedFiles.Proofs.Disk.Writes
import QueuedFiles.Proofs.Service.Content
import QueuedFiles.Proofs.Script
import QueuedFiles.Proofs.Service.Volume
import QueuedFiles.Proofs.Service.Numbering
import QueuedFiles.Proofs.Service.Reading
import QueuedFiles.Proofs.Service.Precedence
import QueuedFiles.Proofs.Service.Admission
import QueuedFiles.Proofs.Block.Joined
import QueuedFiles.Proofs.Service.Appended
import QueuedFiles.Proofs.Blind
import QueuedFiles.Proofs.Service.Unseen
import QueuedFiles.Proofs.Service.Lookalike
import QueuedFiles.Proofs.Service.Terminator
