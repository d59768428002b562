import AnekVideo.Interact.Prog
import AnekVideo.Interact.Triple
import AnekVideo.Interact.Bounded
import AnekVideo.Interact.System
import AnekVideo.Interact.Progress
import AnekVideo.Sys
import AnekVideo.Util
import AnekVideo.Names
import AnekVideo.Random
import AnekVideo.Shm.Code
import AnekVideo.Arith.RoundUp
import AnekVideo.Shm.Layout
import AnekVideo.Arith.Word
import AnekVideo.Shm.Kernel
import AnekVideo.Shm.System
import AnekVideo.Shm.Maps
import AnekVideo.Shm.Protocol
import AnekVideo.Shm.Steps
import AnekVideo.Shm.Quiet
import AnekVideo.Shm.Verify
import AnekVideo.Shm.Safety
import AnekVideo.Shm.Agree
import AnekVideo.Interact.Exec
import AnekVideo.Shm.Sweep
import AnekVideo.Shm.Pass
import AnekVideo.Shm.Passes
import AnekVideo.Shm.Reclaim
import AnekVideo.Shm.Solo
import AnekVideo.Shm.Session
import AnekVideo.Shm.Undo
import AnekVideo.Shm.Entries
import AnekVideo.Arith.Buffer
import AnekVideo.Io.Stream
import AnekVideo.Io.Messages
import AnekVideo.Interact.Total
import AnekVideo.Device.Code
import AnekVideo.Device.World
import AnekVideo.Device.Setup
import AnekVideo.Device.Free
import AnekVideo.Device.FromPath
import AnekVideo.Device.Runs
import AnekVideo.Server.Code
import AnekVideo.Server.Heap
import AnekVideo.Server.Grow
import AnekVideo.Server.Request
import AnekVideo.Arith.BitSet
import AnekVideo.Interact.Link
import AnekVideo.Server.Clients
import AnekVideo.Server.Table
import AnekVideo.Server.Joins
import AnekVideo.Server.Serving
import AnekVideo.Io.Close
import AnekVideo.Io.Cached
import AnekVideo.Io.Entropy
import AnekVideo.Io.Whine
import AnekVideo.Device.Buffers
import AnekVideo.Interact.Faults
import AnekVideo.Linked.Chain
import AnekVideo.Linked.Graph
import AnekVideo.Talloc.Collect
import AnekVideo.Talloc.Report
import AnekVideo.Talloc.Release
import AnekVideo.Device.Chunks
