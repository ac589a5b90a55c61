import Popcorn.Lib.Run
import Popcorn.Lib.Word
import Popcorn.Memory.Frame
import Popcorn.BitmapAllocator.Basic
import Popcorn.BitmapAllocator.Bits
import Popcorn.BitmapAllocator.Paths
import Popcorn.BitmapAllocator.Wrapped
import Popcorn.BitmapAllocator.Theorems
import Popcorn.BitmapAllocator.FastPath
import Popcorn.BitmapAllocator.New
import Popcorn.WatermarkAllocator.Basic
import Popcorn.WatermarkAllocator.Theorems
import Popcorn.Kmain.Handover
import Popcorn.Lib.TableWalk
import Popcorn.Amd64.Entry
import Popcorn.Amd64.Table
import Popcorn.Amd64.TableTree
import Popcorn.Amd64.AddressSpace
import Popcorn.Amd64.KernelTable
import Popcorn.Amd64.KernelSpace
import Popcorn.Bootloader.Paging
import Popcorn.Amd64.KernelHalf
import Popcorn.Lib.SortedMap
import Popcorn.RangedBTree.Basic
import Popcorn.RangedBTree.Theorems
import Popcorn.RangedBtreeAllocator.Basic
import Popcorn.RangedBtreeAllocator.Theorems
import Popcorn.Lib.Interleave
import Popcorn.RwCount.Basic
import Popcorn.RwCount.Word
import Popcorn.RwCount.Theorems
import Popcorn.Lib.RoundRobin
import Popcorn.Threading.Scheduler
import Popcorn.Threading.Theorems
import Popcorn.Lib.Bytes
import Popcorn.Targa.Image
import Popcorn.Targa.Theorems
import Popcorn.Psf.Font
import Popcorn.Psf.Theorems
import Popcorn.Elf.File
import Popcorn.Elf.Theorems
import Popcorn.VirtualMemory.Bootstrap
import Popcorn.Mapping.Raw
import Popcorn.Mapping.Theorems
import Popcorn.DefaultHeap.Heap
import Popcorn.DefaultHeap.Theorems
import Popcorn.Bootloader.Load
import Popcorn.Bootloader.LoadTheorems
import Popcorn.Sync.Spinlock
import Popcorn.Sync.Theorems
import Popcorn.Elf.DynamicTable
import Popcorn.Elf.SymbolTable
import Popcorn.Task.Executor
import Popcorn.Acpi.Handler
import Popcorn.Acpi.Theorems
import Popcorn.Bmp.Image
import Popcorn.Bmp.Theorems
import Popcorn.Bootloader.MemoryMap
import Popcorn.Lib.NodeHeap
import Popcorn.SlabAllocator.LinkedList
import Popcorn.SlabAllocator.LinkedListTheorems
import Popcorn.Sync.Once
import Popcorn.Sync.OnceTheorems
import Popcorn.Sync.Bootstrap
import Popcorn.Sync.BootstrapTheorems
import Popcorn.Lib.Str
import Popcorn.Panicking.SymbolMap
import Popcorn.Panicking.Theorems
import Popcorn.Lib.Checked
import Popcorn.Memory.TypeOps
import Popcorn.Memory.Align
import Popcorn.SlabAllocator.Metadata
import Popcorn.SlabAllocator.MetadataTheorems
import Popcorn.Elf.Address
import Popcorn.Elf.Relocation
import Popcorn.Elf.RelocationTheorems
import Popcorn.Lib.X86
import Popcorn.Amd64.Interrupts
import Popcorn.Amd64.InterruptsTheorems
import Popcorn.Lib.Descriptor
import Popcorn.Amd64.Descriptors
import Popcorn.Amd64.DescriptorsTheorems
