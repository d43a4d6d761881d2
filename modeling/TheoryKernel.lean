import TheoryKernel.Fs.BlockCache
import TheoryKernel.Fs.Mounts
import TheoryKernel.Fs.OpenFiles
import TheoryKernel.Fs.Procfs
import TheoryKernel.Fs.TransparentRun
import TheoryKernel.Ipc.Streams
import TheoryKernel.Mm.Elf.LoadConfined
import TheoryKernel.Mm.Elf.Shebang
import TheoryKernel.Mm.FirstFit
import TheoryKernel.Mm.Heap.Covered
import TheoryKernel.Mm.MmapSound
import TheoryKernel.Mm.MprotectServes
import TheoryKernel.Mm.PagingRun
import TheoryKernel.Mm.Phys.Boot
import TheoryKernel.Mm.Phys.FrameRun
import TheoryKernel.Mm.VmaRun
import TheoryKernel.Net.Dispatch
import TheoryKernel.Net.Drivers
import TheoryKernel.Net.Tcp.Reassembly
import TheoryKernel.Net.Tcp.Retransmit
import TheoryKernel.Proc.LifecycleRun
import TheoryKernel.Proc.UserCopy
import TheoryKernel.Sched.ConserveRun
import TheoryKernel.Sched.RbTreeBalance
import TheoryKernel.Sched.RbTreeRun
import TheoryKernel.Sched.SelfDeadlock
import TheoryKernel.Signal.Transparent
import TheoryKernel.Sync.Mutex
import TheoryKernel.Syscall.Dispatch
import TheoryKernel.Syscall.FutexRun
import TheoryKernel.Syscall.PipeEnds
import TheoryKernel.Syscall.ProcessLock
import TheoryKernel.Syscall.SleepLocks
import TheoryKernel.Syscall.Uaccess
import TheoryKernel.Syscall.UnixRun
