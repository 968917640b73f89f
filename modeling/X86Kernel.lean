import X86Kernel.Lib.Run
import X86Kernel.Lib.Counting
import X86Kernel.Lib.Chain
import X86Kernel.Lib.Ring
import X86Kernel.Lib.SwapRemove
import X86Kernel.Lib.Blocks
import X86Kernel.Lib.Sorted
import X86Kernel.Lib.Probe
import X86Kernel.Kobj.Objects
import X86Kernel.Kobj.Ledger
import X86Kernel.Kobj.RefCount
import X86Kernel.Kobj.Handles
import X86Kernel.Kobj.Passing
import X86Kernel.Msg.Kernel
import X86Kernel.Msg.Notify
import X86Kernel.Msg.Ports
import X86Kernel.Msg.Calls
import X86Kernel.Msg.Exec
import X86Kernel.Msg.Registry
import X86Kernel.Msg.Quiet
import X86Kernel.Msg.Lookup
import X86Kernel.Msg.Teardown
import X86Kernel.Msg.TaskEnd
import X86Kernel.Msg.Growth
import X86Kernel.Msg.RegistryRun
import X86Kernel.Msg.Mail
import X86Kernel.Msg.Delivery
import X86Kernel.Msg.Talk
import X86Kernel.Msg.TalkSteps
import X86Kernel.Msg.TalkKernel
import X86Kernel.Msg.TalkTeardown
import X86Kernel.Msg.CallLog
import X86Kernel.Msg.CallSteps
import X86Kernel.Msg.CallRun
import X86Kernel.Msg.Note
import X86Kernel.Msg.Started
import X86Kernel.Msg.NotifySteps
import X86Kernel.Msg.NotifyClose
import X86Kernel.Msg.NotifyRun
import X86Kernel.Msg.WritersRun
import X86Kernel.Pipes.Pipe
import X86Kernel.Pipes.Stream
import X86Kernel.Pipes.PipeRun
import X86Kernel.Lib.FifoLock
import X86Kernel.Mem.Heap
import X86Kernel.Mem.HeapRun
import X86Kernel.Sched.Context
import X86Kernel.Sched.ContextRun
import X86Kernel.Sync.Mutex
import X86Kernel.Sync.MutexRun
import X86Kernel.Fat.Volume
import X86Kernel.Fat.Directory
import X86Kernel.Fat.Path
import X86Kernel.Fat.Files
import X86Kernel.Fat.Layout
import X86Kernel.Mem.PagingRun
import X86Kernel.Kobj.VmRun
import X86Kernel.Sync.FutexRun
import X86Kernel.Pipes.FilesRun
import X86Kernel.Tasks.EventsRun
import X86Kernel.Tasks.TimerRun
import X86Kernel.Fat.FlushRun
import X86Kernel.Fat.Chain
import X86Kernel.Fat.Extend
import X86Kernel.Fat.Loops
import X86Kernel.Fat.Transfers
import X86Kernel.Fat.WriteFile
import X86Kernel.Fat.Resolve
import X86Kernel.Fat.Addresses
import X86Kernel.Fat.ReadDir
import X86Kernel.Fat.Rename
import X86Kernel.Fat.Parent
import X86Kernel.Fat.Update
import X86Kernel.Fat.Delete
import X86Kernel.Fat.Names
import X86Kernel.Fat.Created
import X86Kernel.Fat.Unique
import X86Kernel.Fat.Contents
import X86Kernel.Fat.Tree
import X86Kernel.Fat.ReadBack
import X86Kernel.Fat.FileAt
import X86Kernel.Fat.FileRun
import X86Kernel.Fat.Append
import X86Kernel.Fat.NewEntry
import X86Kernel.Fat.EntryAt
import X86Kernel.Fat.VolumeRun
import X86Kernel.Ata.Disk
import X86Kernel.Ata.Partition
import X86Kernel.Mem.UserMem
import X86Kernel.Mem.UserCopy
import X86Kernel.Usr.MapRun
import X86Kernel.Usr.Sort
import X86Kernel.Net.ParseIp
import X86Kernel.Net.Bounds
import X86Kernel.Net.Agree
import X86Kernel.Net.ArpRun
import X86Kernel.Gui.Redraw
import X86Kernel.Gui.BmpAgree
import X86Kernel.Usr.Ftell
import X86Kernel.Lib.Numeral
import X86Kernel.Lib.Gives
import X86Kernel.Lib.SaveRestore
import X86Kernel.Lib.FrontList
import X86Kernel.Lib.Lines
import X86Kernel.Lib.Custody
import X86Kernel.Strings.Numbers
import X86Kernel.Strings.Printf
import X86Kernel.Tasks.KqueueRun
import X86Kernel.Tasks.Checkcmd
import X86Kernel.Tasks.CheckcmdTask
import X86Kernel.Tasks.CheckcmdKept
import X86Kernel.Tasks.CheckcmdRun
import X86Kernel.Gui.Outline
import X86Kernel.Gui.Scroll
import X86Kernel.Gui.Order
import X86Kernel.Gui.OrderRun
import X86Kernel.Usr.Textarea
import X86Kernel.Usr.TextareaRun
import X86Kernel.Usr.Interp
import X86Kernel.Usr.InterpVars
import X86Kernel.Usr.InterpSpec
import X86Kernel.Usr.InterpLine
import X86Kernel.Usr.InterpRun
import X86Kernel.Kobj.Create
import X86Kernel.Lib.Tiling
import X86Kernel.Usr.Malloc
import X86Kernel.Usr.MallocRun
import X86Kernel.Usr.MallocTrace
import X86Kernel.Mem.Contents
import X86Kernel.Lib.RoundRobin
import X86Kernel.Sched.Fair
import X86Kernel.Lib.CString
import X86Kernel.Gui.Terminal
import X86Kernel.Gui.TerminalRun
import X86Kernel.Gui.WmEvent
import X86Kernel.Mem.Sbrk
import X86Kernel.Mem.SbrkSafe
import X86Kernel.Usr.MallocSbrk
