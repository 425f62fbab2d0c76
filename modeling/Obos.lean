import Obos.Lib.Memory
import Obos.Lib.Run
import Obos.Lib.DList
import Obos.Locks.Mutex
import Obos.Utils.Hashmap
import Obos.Utils.HashmapRefinement
import Obos.Utils.HashmapGrowth
import Obos.Physical.Allocator
import Obos.Physical.Ownership
import Obos.Paging.PageMap
import Obos.Syscalls.VerifyPars
import Obos.Lib.TableTree
import Obos.Physical.Frames
import Obos.Paging.Structures
import Obos.Paging.Protect
import Obos.Lib.TablePrune
import Obos.Paging.Free
import Obos.Paging.FreedFrames
import Obos.Paging.Alloc
import Obos.Paging.KernelHalf
import Obos.Multitasking.RunLists
import Obos.Vfs.DriveHandle
import Obos.Multitasking.References
import Obos.Multitasking.Scheduler
import Obos.Multitasking.CurrentThread
import Obos.Paging.Access
import Obos.Paging.Memcpy
import Obos.Syscalls.HandleTypes
import Obos.Drivers.Fat
import Obos.Paging.AddressSpace
import Obos.Paging.Remap
import Obos.Paging.Fault
import Obos.DriverInterface.Register
import Obos.Lib.FlagCount
import Obos.Multitasking.Exclusion
import Obos.Multitasking.DeadThreads
import Obos.Lib.Trie
import Obos.Vfs.MountTree
import Obos.Vfs.Mount
import Obos.Vfs.OpenPath
import Obos.Boot.Lexer
import Obos.Boot.Config
import Obos.Lib.Defined
import Obos.Loader.File
import Obos.Loader.Elf
import Obos.DriverInterface.Load
import Obos.DriverInterface.HeaderLoop
import Obos.DriverInterface.Segments
import Obos.DriverInterface.Extents
import Obos.DriverInterface.Relocations
import Obos.Allocators.Slab
import Obos.Syscalls.HandleLifetime
import Obos.Utils.Strings
import Obos.Allocators.SlabLists
import Obos.Allocators.SlabObjects
import Obos.Drivers.Gpt
import Obos.Drivers.Sata
import Obos.Paging.RoundTrip
import Obos.Multitasking.InitScheduler
import Obos.Physical.MemoryMap
import Obos.Locks.Timeout
import Obos.Paging.DemandPaging
import Obos.Paging.Retry
import Obos.Paging.Place
import Obos.Paging.GetProtection
import Obos.Lib.Gaps
import Obos.Paging.FindUsable
import Obos.Multitasking.Selection
import Obos.Vfs.DrivePath
import Obos.Vfs.HandleLists
import Obos.Drivers.AcpiStdlib
import Obos.Drivers.DriveReads
import Obos.Syscalls.UserPaths
import Obos.Boot.Texts
import Obos.Vfs.Positions
import Obos.Vfs.InputReads
import Obos.Drivers.Initrd
import Obos.DriverInterface.Scan
import Obos.DriverInterface.FailedLoads
import Obos.Console
