import LightNightOS.Console.Copies
import LightNightOS.Console.Cursor
import LightNightOS.Console.Decimal
import LightNightOS.Console.Format
import LightNightOS.Console.FormatAppend
import LightNightOS.Console.FormatBuffer
import LightNightOS.Console.Isolation
import LightNightOS.Console.Number
import LightNightOS.Console.Output
import LightNightOS.Console.Row
import LightNightOS.Console.Screen
import LightNightOS.Console.Scrollback
import LightNightOS.FileSystem.BlockCache
import LightNightOS.FileSystem.BlockCacheRefinement
import LightNightOS.FileSystem.BlockStorage
import LightNightOS.FileSystem.Blocks
import LightNightOS.FileSystem.CacheRoom
import LightNightOS.FileSystem.Calls
import LightNightOS.FileSystem.DescriptorMap
import LightNightOS.FileSystem.DirectBlocks
import LightNightOS.FileSystem.Directories
import LightNightOS.FileSystem.FileData
import LightNightOS.FileSystem.Files
import LightNightOS.FileSystem.FreeBlocks
import LightNightOS.FileSystem.InodeCache
import LightNightOS.FileSystem.InodeCacheRefinement
import LightNightOS.FileSystem.InodeContents
import LightNightOS.FileSystem.Inodes
import LightNightOS.FileSystem.InodesOnHeap
import LightNightOS.FileSystem.KernelFiles
import LightNightOS.FileSystem.LastWrite
import LightNightOS.FileSystem.Names
import LightNightOS.FileSystem.Offsets
import LightNightOS.FileSystem.OpenFiles
import LightNightOS.FileSystem.TablesOnHeap
import LightNightOS.Foundation.Bitmap
import LightNightOS.Foundation.BoundedLog
import LightNightOS.Foundation.ByteMemory
import LightNightOS.Foundation.CharArrays
import LightNightOS.Foundation.CountedPool
import LightNightOS.Foundation.CountedSlots
import LightNightOS.Foundation.CursorRow
import LightNightOS.Foundation.Intervals
import LightNightOS.Foundation.LineEditor
import LightNightOS.Foundation.Loops
import LightNightOS.Foundation.Numerals
import LightNightOS.Foundation.Pic
import LightNightOS.Foundation.Pit
import LightNightOS.Foundation.RecordLayout
import LightNightOS.Foundation.RingLog
import LightNightOS.Foundation.Runs
import LightNightOS.Foundation.SlotTable
import LightNightOS.Foundation.Stack
import LightNightOS.Foundation.StringOps
import LightNightOS.Foundation.TextRows
import LightNightOS.Foundation.Words
import LightNightOS.Foundation.X86
import LightNightOS.Interrupts.Controllers
import LightNightOS.Interrupts.Delivery
import LightNightOS.Interrupts.Gates
import LightNightOS.Interrupts.Panic
import LightNightOS.Interrupts.Stubs
import LightNightOS.Interrupts.Timer
import LightNightOS.Interrupts.Typing
import LightNightOS.Memory.Accepts
import LightNightOS.Memory.Atomic
import LightNightOS.Memory.BlockHeap
import LightNightOS.Memory.BlockHeapInvariants
import LightNightOS.Memory.Descriptors
import LightNightOS.Memory.FrameList
import LightNightOS.Memory.FrameLookup
import LightNightOS.Memory.FreeList
import LightNightOS.Memory.HeaderList
import LightNightOS.Memory.Heap
import LightNightOS.Memory.HeapRefinement
import LightNightOS.Memory.HeapRuns
import LightNightOS.Memory.HeldHeap
import LightNightOS.Memory.Layout
import LightNightOS.Memory.Lib
import LightNightOS.Memory.MapLimit
import LightNightOS.Memory.MemoryMap
import LightNightOS.Memory.PageInit
import LightNightOS.Memory.PageTables
import LightNightOS.Memory.PagesInMemory
import LightNightOS.Memory.Regions
import LightNightOS.Memory.Rejects
import LightNightOS.Memory.Reuse
import LightNightOS.Memory.Statistics
import LightNightOS.Scheduler.Context
import LightNightOS.Scheduler.Contexts
import LightNightOS.Scheduler.KernelStacks
import LightNightOS.Scheduler.RoundRobin
import LightNightOS.Scheduler.Table
import LightNightOS.Scheduler.TableInvariant
import LightNightOS.Shell.Bounds
import LightNightOS.Shell.Calls
import LightNightOS.Shell.Characters
import LightNightOS.Shell.CommandLog
import LightNightOS.Shell.Editing
import LightNightOS.Shell.History
import LightNightOS.Shell.Input
import LightNightOS.Shell.Interpreter
import LightNightOS.Shell.Keyboard
import LightNightOS.Shell.Recall
import LightNightOS.Shell.ScreenLine
import LightNightOS.Shell.Words
