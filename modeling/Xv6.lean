import Xv6.RedoLog.Durability
import Xv6.Locking.Deadlock
import Xv6.Ticket.Wakeup
import Xv6.Ticket.Init
import Xv6.Console.Editor
import Xv6.Console.Screen
import Xv6.Pipes.Fifo
import Xv6.Pipes.Wakeup
import Xv6.Syscall.Exhaustion
import Xv6.Syscall.Leak
import Xv6.Syscall.Boot
import Xv6.Fs.IputRace
import Xv6.Fs.Filewrite
import Xv6.Fs.BalancedCalls
import Xv6.Fs.SelfLocks
import Xv6.RedoLog.Admission
import Xv6.Bio.Holders
import Xv6.Bio.Transparent
import Xv6.OpenFiles.Counts
import Xv6.Process.LostKill
import Xv6.ICache.Coherent
import Xv6.Vm.Conserved
import Xv6.Process.Counters
import Xv6.Syscall.InvocationLog
import Xv6.Fs.FailedCalls
