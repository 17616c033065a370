import LfiRuntime.Lib.Runs
import LfiRuntime.Lib.PagedMemory
import LfiRuntime.Mmap.PageTable
import LfiRuntime.Boxmap.Capacity
import LfiRuntime.Box.Box
import LfiRuntime.Box.FailedCalls
import LfiRuntime.Box.MprotectRace
import LfiRuntime.Box.ExecVerified
import LfiRuntime.Arch.LazyClone
import LfiRuntime.Arch.Nesting
import LfiRuntime.Arch.RuntimeCall
import LfiRuntime.Arch.X64.Callback
import LfiRuntime.Arch.X64.Leave
import LfiRuntime.Linux.ProcLifetime
import LfiRuntime.Linux.ProcNew
import LfiRuntime.Arch.X64.Reveal
import LfiRuntime.Arch.Arrival
import LfiRuntime.Arch.X64.StructEntry
import LfiRuntime.Arch.X64.Trampolines
import LfiRuntime.Arch.X64.Lawful
import LfiRuntime.Arch.Arm64.StructEntry
import LfiRuntime.Arch.Arm64.Trampolines
import LfiRuntime.Arch.Trampolines
import LfiRuntime.Arch.NestedRuns
import LfiRuntime.Arch.AbortStatus
import LfiRuntime.Sbox.CurrentSandbox
import LfiRuntime.Sbox.NullCtx
import LfiRuntime.Linux.FutexResults
import LfiRuntime.Arch.X64.GsCode
import LfiRuntime.Linux.PathSelect
import LfiRuntime.Linux.PathConfine
import LfiRuntime.Linux.FdRuns
import LfiRuntime.Box.BoxNew
import LfiRuntime.Box.CallbackRuns
import LfiRuntime.Box.Isolation
import LfiRuntime.Box.PageMoves
import LfiRuntime.Box.EntryIntegrity
import LfiRuntime.Box.CallbackSteps
import LfiRuntime.Linux.PathLong
import LfiRuntime.Linux.Elf
import LfiRuntime.Linux.ElfTables
import LfiRuntime.Linux.ElfLoadsyms
import LfiRuntime.Linux.StackLayout
import LfiRuntime.Linux.BrkRuns
import LfiRuntime.Linux.ElfBias
import LfiRuntime.Linux.ElfPaths
import LfiRuntime.Linux.Vectored
import LfiRuntime.Linux.Fchdir
import LfiRuntime.Sbox.CallContext
import LfiRuntime.Sbox.StackBounds
import LfiRuntime.Sbox.StackRuns
import LfiRuntime.Sbox.CallPtr
import LfiRuntime.Sbox.ArgumentsArrive
import LfiRuntime.Mmap.RangeCanonical
import LfiRuntime.Mmap.Pieces
import LfiRuntime.Sbox.PassthroughArena
import LfiRuntime.Linux.Getdents
import LfiRuntime.Lib.Programs
import LfiRuntime.Linux.SysOps
import LfiRuntime.Linux.SysConfined
import LfiRuntime.Linux.SysProcess
import LfiRuntime.Linux.SysRefused
