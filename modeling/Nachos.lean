import Nachos.Lib.Except
import Nachos.Lib.Heap
import Nachos.Lib.Mesa
import Nachos.Lib.Run
import Nachos.Lib.Signed
import Nachos.Mips.Arith
import Nachos.Mips.Invisible
import Nachos.Mips.Memory
import Nachos.Mips.Transfer
import Nachos.Threads.Accounted
import Nachos.Threads.Client
import Nachos.Threads.Condition
import Nachos.Threads.Lock
import Nachos.Threads.Placed
import Nachos.Threads.Scheduler
import Nachos.Threads.SynchList
import Nachos.Elevator.Capacity
import Nachos.Elevator.Floors
import Nachos.Userprog.BitMap
import Nachos.Userprog.Exec
import Nachos.Userprog.Loader
import Nachos.Userprog.MemoryManager
import Nachos.Userprog.ReadString
import Nachos.Process.Machine
import Nachos.Process.Rules
import Nachos.Process.Owners
import Nachos.Process.Start
import Nachos.Process.Table
import Nachos.Process.Kill
import Nachos.Filesys.Disk
import Nachos.Filesys.FileSystem
import Nachos.Filesys.Transfer
import Nachos.Filesys.Allocation
import Nachos.Filesys.Entries
import Nachos.Filesys.Layout
import Nachos.Filesys.Update
import Nachos.Filesys.Operations
import Nachos.Filesys.Format
import Nachos.Filesys.Space
import Nachos.Filesys.Stale
import Nachos.Filesys.Store
import Nachos.Filesys.Refinement
import Nachos.Threads.Semaphore
import Nachos.Threads.Signalled
import Nachos.Threads.SynchFifo
import Nachos.Lib.Agenda
import Nachos.Machine.Interrupt
import Nachos.Machine.Pending
import Nachos.Machine.Queue
import Nachos.Bin.Coff2noff
import Nachos.Bin.Conversion
import Nachos.Bin.Served
import Nachos.Filesys.SynchDisk
import Nachos.Filesys.Serial
import Nachos.Elevator.Entries
import Nachos.Lib.Roll
import Nachos.Elevator.Deeds
import Nachos.Elevator.Turn
import Nachos.Elevator.Census
import Nachos.Lib.DoubleWord
import Nachos.Mips.Multiply
import Nachos.Mips.LoadDelay
import Nachos.Userprog.Copy
import Nachos.Userprog.Image
import Nachos.Userprog.ExecStart
import Nachos.Threads.Levels
import Nachos.Threads.Reclaim
import Nachos.Process.FailedFork
import Nachos.Elevator.Riders
import Nachos.Elevator.Entering
import Nachos.Elevator.Leaving
import Nachos.Elevator.Dispatch
import Nachos.Elevator.Passengers
import Nachos.Elevator.Counters
import Nachos.Process.PidTable
import Nachos.Machine.Clock
import Nachos.Machine.Ties
import Nachos.Mips.Unaligned
import Nachos.Filesys.Request
import Nachos.Filesys.Sizes
import Nachos.Filesys.Chunks
import Nachos.Elevator.Sequential
import Nachos.Lib.Descent
import Nachos.Elevator.Trips
import Nachos.Process.Returns
import Nachos.Process.Family
import Nachos.Process.Integrity
import Nachos.Process.Status
import Nachos.Lib.Partition
import Nachos.Process.Frames
import Nachos.Lib.Rotation
import Nachos.Machine.Latency
import Nachos.Filesys.BitMapFile
import Nachos.Elevator.Multisets
import Nachos.Lib.Chain
import Nachos.Threads.LinkedList
import Nachos.Threads.ListSequence
import Nachos.Threads.ThreadTest
import Nachos.Threads.Mutex
import Nachos.Threads.Barrier
import Nachos.Process.Deletion
import Nachos.Process.Destroy
import Nachos.Threads.Handshake
import Nachos.Network.PostOffice
import Nachos.Threads.Announce
import Nachos.Network.World
import Nachos.Network.Rules
import Nachos.Network.Delivery
import Nachos.Network.Transport
import Nachos.Network.Sending
import Nachos.Threads.Assertions
import Nachos.Network.Assertions
import Nachos.Network.Script
import Nachos.Network.MailTest
import Nachos.Network.Heard
import Nachos.Console.Console
import Nachos.Console.Echo
import Nachos.Lib.I386
import Nachos.Host.Switch
