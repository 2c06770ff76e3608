import Jos.Lib.Chain
import Jos.Lib.RefHeap
import Jos.Mmu
import Jos.Pmap
import Jos.PageTable
import Jos.PageOps
import Jos.Lib.Loop
import Jos.Env
import Jos.EnvOps
import Jos.Accounting
import Jos.FiniteMap
import Jos.Syscall
import Jos.Lib.ByteMem
import Jos.Access
import Jos.Trap
import Jos.Upcall
import Jos.Lib.Stack
import Jos.TrapEntry
import Jos.Entry
import Jos.Cpus
import Jos.Ipc
import Jos.SysMem
import Jos.SysInv
import Jos.Smp
import Jos.Preempt
import Jos.Switch
import Jos.Mappings
import Jos.EnvTable
import Jos.Zombie
import Jos.Validation
import Jos.Fault
import Jos.Send
import Jos.Failing
import Jos.Lib.SpinLock
import Jos.Lock
import Jos.Printfmt
import Jos.RefCount
import Jos.Isolation
import Jos.BootMap
import Jos.Protect
import Jos.Confine
import Jos.IpcPerm
import Jos.EnvIds
import Jos.Lib.Circular
import Jos.Sched
import Jos.Tlb
import Jos.Vpt
import Jos.KernSpace
import Jos.Reclaim
import Jos.Spaces
import Jos.Fork
import Jos.ForkSpace
import Jos.ForkResult
import Jos.Stores
import Jos.Duppage
import Jos.Boot
import Jos.Console
import Jos.Stabs
import Jos.Kdebug
import Jos.Region
import Jos.Icode
import Jos.ConsoleInput
import Jos.Keyboard
import Jos.Mpconfig
import Jos.CString
import Jos.Monitor
import Jos.Readline
import Jos.Bootmain
import Jos.Lib.Fuel
import Jos.Vprintfmt
import Jos.Numeric
import Jos.Vsnprintf
import Jos.Lib.CopyOnWrite
import Jos.Cga
import Jos.FreeList
import Jos.Printnum
import Jos.BootRegion
import Jos.CowPages
import Jos.ForkTree
import Jos.Lib.Rendezvous
import Jos.UserIpc
import Jos.Primes
