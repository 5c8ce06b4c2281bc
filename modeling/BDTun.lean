import BDTun.Lib.Machine
import BDTun.Lib.Twins
import BDTun.Lib.Family
import BDTun.Lib.Memory
import BDTun.Lib.CString
import BDTun.Lib.Terminated
import BDTun.Lib.Strtol
import BDTun.Lib.Options
import BDTun.Lib.FlagWord
import BDTun.Lib.Spool
import BDTun.Lib.Ledger
import BDTun.Lib.OrderedMap
import BDTun.Lib.Window
import BDTun.Header
import BDTun.Flags
import BDTun.Device
import BDTun.Tunnel
import BDTun.Transfer
import BDTun.Calls
import BDTun.Library
import BDTun.Handle
import BDTun.Conservation
import BDTun.Sessions
import BDTun.Status
import BDTun.Retry
import BDTun.Transparent
import BDTun.Offsets
import BDTun.MmapView
import BDTun.Threads
import BDTun.Wakeup
import BDTun.InFlight
import BDTun.Ownership
import BDTun.UseCount
import BDTun.Control
import BDTun.Commands
import BDTun.CtrlLock
import BDTun.Sizes
import BDTun.Geometry
import BDTun.Registry
import BDTun.Features
import BDTun.Resources
import BDTun.Listing
import BDTun.ListWindow
import BDTun.ListCommand
import BDTun.Response
import BDTun.Packet
import BDTun.Names
import BDTun.Atomic
import BDTun.Residue
import BDTun.CommandLine
import BDTun.SizeArguments
import BDTun.Lifetime
import BDTun.Teardown
import BDTun.AddDisk
import BDTun.Removal
import BDTun.Mappings
import BDTun.Lib.Locks
import BDTun.Locking
import BDTun.Interleaving
import BDTun.ModuleLife
import BDTun.ControlFd
import BDTun.Program
import BDTun.Census
import BDTun.Isolation
import BDTun.OwnRequests
import BDTun.Hosted
import BDTun.Disks
import BDTun.Cursor
import BDTun.Service
