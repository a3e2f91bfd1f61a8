import OnicDriver.Lib.Spans
import OnicDriver.Lib.CInt
import OnicDriver.Lib.Bits
import OnicDriver.Lib.Runs
import OnicDriver.Lib.Holdings
import OnicDriver.Lib.ListHead
import OnicDriver.Kernel
import OnicDriver.Resource.Basic
import OnicDriver.Resource.FreeList
import OnicDriver.Resource.Partition
import OnicDriver.Resource.Masters
import OnicDriver.Resource.BestFit
import OnicDriver.Queue.Request
import OnicDriver.Netdev.Receive
import OnicDriver.Netdev.Transmit
import OnicDriver.C2h.FreeList
import OnicDriver.C2h.FreeListShape
import OnicDriver.C2h.Refill
import OnicDriver.C2h.Setup
import OnicDriver.Queue.Ring
import OnicDriver.Queue.Descq
import OnicDriver.C2h.Completion
import OnicDriver.C2h.Exclusive
import OnicDriver.C2h.Receive
import OnicDriver.C2h.BufferCount
import OnicDriver.C2h.ReceiveRuns
import OnicDriver.C2h.Reader
import OnicDriver.C2h.Delivery
import OnicDriver.C2h.CompletionRuns
import OnicDriver.C2h.Rounds
import OnicDriver.C2h.Batch
import OnicDriver.C2h.Calls
import OnicDriver.C2h.Rejected
import OnicDriver.C2h.Retry
import OnicDriver.Resource.Active
import OnicDriver.Resource.Accounting
import OnicDriver.Resource.Faults
import OnicDriver.Resource.Counting
import OnicDriver.Access.Context
import OnicDriver.Lib.Layout
import OnicDriver.Access.ContextLayout
import OnicDriver.Access.Hardware
import OnicDriver.Access.Indirect
import OnicDriver.Access.EqdmaSoftReg
import OnicDriver.Access.EqdmaSoft
import OnicDriver.Access.QdmaSoftReg
import OnicDriver.Access.QdmaSoft
import OnicDriver.Access.S80HardReg
import OnicDriver.Access.S80Hard
import OnicDriver.Access.S80HardRuns
import OnicDriver.Mailbox.Message
import OnicDriver.Mailbox.Handler
import OnicDriver.Mailbox.Ownership
import OnicDriver.Mailbox.Isolation
import OnicDriver.Mailbox.Status
import OnicDriver.Mailbox.Reply
import OnicDriver.Mailbox.Wire
import OnicDriver.Mailbox.ActiveCount
import OnicDriver.Mailbox.ContextRead
import OnicDriver.Mailbox.ContextWrite
import OnicDriver.Setup.Config
import OnicDriver.Setup.Context
import OnicDriver.Setup.Programmed
import OnicDriver.Setup.Agreement
import OnicDriver.Transport.Mbox
import OnicDriver.Transport.Notifications
import OnicDriver.Transport.Ownership
import OnicDriver.Transport.Matching
import OnicDriver.Sriov.Notify
import OnicDriver.Sriov.Online
import OnicDriver.Lifecycle.FreeList
import OnicDriver.Lifecycle.Slot
import OnicDriver.Lifecycle.SlotRuns
import OnicDriver.Lifecycle.Device
import OnicDriver.Lifecycle.Calls
import OnicDriver.Lifecycle.Handles
import OnicDriver.Lifecycle.Counts
import OnicDriver.Lifecycle.Modes
import OnicDriver.Lifecycle.DeviceMemory
import OnicDriver.Lifecycle.Cleanup
import OnicDriver.Open.Device
import OnicDriver.Open.Kept
import OnicDriver.Stream.Runs
import OnicDriver.Interrupt.Ring
import OnicDriver.Interrupt.Aggregation
import OnicDriver.Interrupt.Legacy
import OnicDriver.Interrupt.Vectors
import OnicDriver.Open.Requests
import OnicDriver.Config.Setters
import OnicDriver.Config.Idle
import OnicDriver.Json.Counting
import OnicDriver.Json.Grammar
import OnicDriver.Json.Jsmn
import OnicDriver.Json.Members
import OnicDriver.Json.Platform
import OnicDriver.Json.Settings
import OnicDriver.Json.Tokens
import OnicDriver.Json.Documents
import OnicDriver.Resource.Granted
import OnicDriver.Resource.Refused
import OnicDriver.Resource.Observed
import OnicDriver.Shell.Probe
import OnicDriver.Shell.Agreement
import OnicDriver.H2c.Queue
import OnicDriver.H2c.Process
import OnicDriver.H2c.Ring
import OnicDriver.H2c.Posted
import OnicDriver.H2c.Control
import OnicDriver.H2c.Running
import OnicDriver.H2c.Steps
import OnicDriver.H2c.Accounting
import OnicDriver.H2c.Pieces
import OnicDriver.H2c.Coverage
import OnicDriver.H2c.Submit
import OnicDriver.H2c.InFlight
import OnicDriver.H2c.Mapped
import OnicDriver.H2c.Order
import OnicDriver.H2c.Moves
import OnicDriver.H2c.Tally
import OnicDriver.H2c.PacketWrite
import OnicDriver.H2c.Termination
import OnicDriver.H2c.Delimiters
import OnicDriver.Cmpt.Reading
import OnicDriver.Lifecycle.Restart
import OnicDriver.Setup.RingRequests
import OnicDriver.Netdev.Chain
import OnicDriver.C2h.Carved
import OnicDriver.C2h.Shortage
import OnicDriver.C2h.Balance
import OnicDriver.Access.Control
import OnicDriver.Queue.Thread
import OnicDriver.Config.Thresholds
import OnicDriver.Access.GlobalCsr
import OnicDriver.Config.CsrTables
import OnicDriver.Lib.Format
import OnicDriver.Dump.Queue
import OnicDriver.Dump.Listing
import OnicDriver.Lib.Dumper
import OnicDriver.Dump.Rings
import OnicDriver.Dump.Bounds
import OnicDriver.Access.Doorbell
import OnicDriver.C2h.Adaptive
import OnicDriver.Shell.Budget
import OnicDriver.Lib.Loops
import OnicDriver.Netdev.Interface
import OnicDriver.Netdev.QueueStates
import OnicDriver.Netdev.UpDown
import OnicDriver.Netdev.OpenStop
import OnicDriver.Netdev.Sessions
import OnicDriver.Netdev.Reopening
import OnicDriver.Netdev.Reported
