import CspProc.Lib.Bytes
import CspProc.Lib.Codec
import CspProc.Lib.Machine
import CspProc.Lib.Command
import CspProc.Lib.Contracts
import CspProc.Lib.System
import CspProc.Lib.Critical
import CspProc.Lib.SwapRemove
import CspProc.Lib.Heap
import CspProc.Lib.Traced
import CspProc.Lib.DepthFirst
import CspProc.Lib.TwosComplement
import CspProc.Types
import CspProc.Pack
import CspProc.Wire
import CspProc.RoundTrip
import CspProc.Store
import CspProc.StoreThreads
import CspProc.Server
import CspProc.Replies
import CspProc.Received
import CspProc.SlotMap
import CspProc.Client
import CspProc.Analyze
import CspProc.Interp
import CspProc.CallGraph
import CspProc.Accepted
import CspProc.Structured
import CspProc.Nested
import CspProc.TailCall
import CspProc.Isolation
import CspProc.Registry
import CspProc.Canonical
import CspProc.Portable
import CspProc.Acknowledged
import CspProc.SlotsListing
import CspProc.Depth
import CspProc.Stopping
import CspProc.Editing
import CspProc.Memory
import CspProc.Ownership
import CspProc.Disposal
import CspProc.Refinement
import CspProc.Operand
import CspProc.Params
import CspProc.Instructions
import CspProc.Footprint
import CspProc.Written
import CspProc.TaskDepth
import CspProc.Analyzer
import CspProc.AnalyzerParts
import CspProc.AnalysisGraph
import CspProc.Ending
import CspProc.Release
import CspProc.Cleanup
import CspProc.Integers
import CspProc.Operations
import CspProc.Arithmetic
import CspProc.StraightLine
import CspProc.Conditions
import CspProc.Timeouts
import CspProc.StopAll
import CspProc.Transactions
import CspProc.Network
import CspProc.Delivery
import CspProc.Listing
import CspProc.Numbers
import CspProc.Fetching
import CspProc.References
import CspProc.Allocation
import CspProc.EditingHeap
import CspProc.LocalNodes
import CspProc.PackBounds
import CspProc.CollectSlots
import CspProc.TailMarks
import CspProc.Admission
import CspProc.Registers
import CspProc.Fibonacci
import CspProc.Termination
import CspProc.ProcContracts
import CspProc.PortMemory
import CspProc.Noops
import CspProc.Shell
import CspProc.Typing
