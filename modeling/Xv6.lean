import Xv6.Process.Priority
import Xv6.Process.Waiting
import Xv6.Process.Killing
import Xv6.Process.Lottery
import Xv6.Logging.Reservation
import Xv6.Logging.Crash
import Xv6.Piping.Sleepers
import Xv6.Vm.FileTable
import Xv6.Vm.Conserved
import Xv6.Sync.SleepLock
import Xv6.Sync.Barrier
import Xv6.Console.TypeAhead
import Xv6.Console.Editing
import Xv6.Mkfs.Contents
import Xv6.Icache.Counts
import Xv6.Syscall.Bounds
import Xv6.Sync.LockOrder
import Xv6.Buffer.Exhaustion
import Xv6.Sh.Accepts
import Xv6.Umalloc.Runs
import Xv6.File.Forks
import Xv6.File.Failures
import Xv6.Process.Draw
import Xv6.Process.Cycles
import Xv6.Process.Explored
import Xv6.Sync.Reentrant
import Xv6.Console.Bounds
import Xv6.Console.Display
import Xv6.Strings.Memory
import Xv6.Strings.Streams
import Xv6.Strings.Numerals
import Xv6.Boot.MpTable
