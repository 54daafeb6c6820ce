import CaribeOS.Foundation.ByteMemory
import CaribeOS.Foundation.Rv32
import CaribeOS.Foundation.Word
import CaribeOS.Foundation.IntervalSweep
import CaribeOS.Trap.Vectors
import CaribeOS.Trap.Timer
import CaribeOS.Boot.MemoryMap
import CaribeOS.Stage0.MemoryMap
import CaribeOS.Foundation.Parts
import CaribeOS.Foundation.FileScript
import CaribeOS.Foundation.Ownership
import CaribeOS.Foundation.Extents
import CaribeOS.Foundation.Bitmap
import CaribeOS.Foundation.Runs
import CaribeOS.Disk.VirtioBlk
import CaribeOS.Hfs.Fork
import CaribeOS.Hfs.Scan
import CaribeOS.Hfs.Catalog
import CaribeOS.Hfs.ReadFile
import CaribeOS.Hfs.Soundness
import CaribeOS.Hfs.Mount
import CaribeOS.Hfs.UpdateScript
import CaribeOS.Hfs.CreateScript
import CaribeOS.Hfs.ScriptForks
import CaribeOS.Hfs.ImageContents
import CaribeOS.Hfs.LeafRecords
import CaribeOS.Hfs.ImageLayout
import CaribeOS.Hfs.ScriptLookup
import CaribeOS.Hfs.ScriptBitmap
import CaribeOS.Hfs.Replace
import CaribeOS.Hfs.RecordWritten
import CaribeOS.Hfs.Accounting
import CaribeOS.Hfs.CreateRecord
import CaribeOS.Hfs.Create
import CaribeOS.Hfs.RecordAdded
import CaribeOS.Hfs.Calls
import CaribeOS.Hfs.KeyOrder
import CaribeOS.Hfs.Interrupted
import CaribeOS.Boot.Elf
import CaribeOS.Boot.IdentityMap
import CaribeOS.Foundation.ByteProgram
import CaribeOS.Stage0.RootProbe
import CaribeOS.Stage0.UserMemory
import CaribeOS.Stage0.Syscalls
import CaribeOS.Stage0.Confinement
import CaribeOS.Stage0.UserMmu
import CaribeOS.Stage0.UserRuns
import CaribeOS.Foundation.CString
import CaribeOS.Foundation.Sv32
import CaribeOS.Loader.State
import CaribeOS.Loader.Resolve
import CaribeOS.Loader.Relocate
import CaribeOS.Loader.Segments
import CaribeOS.Loader.Load
import CaribeOS.Loader.Probe
import CaribeOS.Loader.GnuHash
import CaribeOS.Loader.Soundness
import CaribeOS.Loader.Versions
import CaribeOS.Loader.Library
import CaribeOS.Loader.Initializers
import CaribeOS.Loader.Start
import CaribeOS.Loader.Frame
import CaribeOS.Loader.Descent
import CaribeOS.Loader.Clean
import CaribeOS.Loader.Registered
import CaribeOS.Loader.Termination
import CaribeOS.Loader.Contents
import CaribeOS.Loader.Registry
import CaribeOS.Foundation.DeviceTree
import CaribeOS.Boot.FdtMin
import CaribeOS.Boot.Bootargs
import CaribeOS.Stage0.FdtProbe
import CaribeOS.Stage0.Mmap
import CaribeOS.Stage0.Descriptors
import CaribeOS.Foundation.Moves
import CaribeOS.Boot.Loaded
import CaribeOS.Hfs.BooterView
import CaribeOS.Hfs.ReadBack
import CaribeOS.Hfs.ReadCreated
import CaribeOS.Hfs.Updates
import CaribeOS.Hfs.Sectors
import CaribeOS.Hfs.ScanReads
import CaribeOS.Foundation.Records
import CaribeOS.Foundation.CBuffer
import CaribeOS.Foundation.Numeral
import CaribeOS.Foundation.RingBuffer
import CaribeOS.Foundation.Terminal
import CaribeOS.Stage0.Clock
import CaribeOS.Stage0.Written
import CaribeOS.Stage0.ProcReads
import CaribeOS.Stage0.Listing
import CaribeOS.Stage0.Stat
import CaribeOS.Boot.CommandLine
import CaribeOS.Boot.Console
import CaribeOS.Boot.Commands
import CaribeOS.Boot.LineEditor
import CaribeOS.Boot.Screen
import CaribeOS.Boot.Updated
