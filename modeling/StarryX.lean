import StarryX.Cache.Accounting
import StarryX.Cache.Admission
import StarryX.Cache.Coherence
import StarryX.Cache.Flush
import StarryX.Cache.RawRead
import StarryX.Cache.Registry
import StarryX.Cache.Shutdown
import StarryX.Cache.Sync
import StarryX.Fs.DirCache
import StarryX.Fs.EventFd
import StarryX.Fs.Ext4.Leaks
import StarryX.Fs.Ext4.Slots
import StarryX.Fs.LockedRename
import StarryX.Fs.Tmpfs
import StarryX.Ipc.Attachments
import StarryX.Ipc.Messages
import StarryX.Ipc.SemWaiters
import StarryX.Mm.Rollback
import StarryX.Net.Locks
import StarryX.Syscall.Buffers
import StarryX.Syscall.Targets
import StarryX.Task.ChildExit
import StarryX.Task.Clone
import StarryX.Task.Futex
import StarryX.Task.FutexTable
import StarryX.Task.GroupExit
import StarryX.Task.Groups
import StarryX.Task.Mutex
import StarryX.Task.TimeStat
import StarryX.Task.Wait
import StarryX.Vma.Failures
import StarryX.Vma.FreeArea
