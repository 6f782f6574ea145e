import OoOS.Drivers.Rtc
import OoOS.Fs.Access
import OoOS.Fs.BlockClaims
import OoOS.Fs.DirectoryScan
import OoOS.Fs.ExtentRoot
import OoOS.Fs.Fat32Filebuf
import OoOS.Fs.Fat32Mount
import OoOS.Fs.Fat32Slots
import OoOS.Fs.FdMap
import OoOS.Fs.JournalScan
import OoOS.Fs.LegacyMap
import OoOS.Fs.LinksRun
import OoOS.Fs.Path
import OoOS.Fs.SimplexPipe
import OoOS.Fs.Symlinks
import OoOS.Fs.SysfsLookup
import OoOS.Fs.SysfsTable
import OoOS.Ld.LoadDeps
import OoOS.Ld.MinAlloc
import OoOS.Libk.HashTableObtained
import OoOS.Libk.QueueStreambuf
import OoOS.Libk.RbTreeErased
import OoOS.Libk.Vector
import OoOS.Mm.Missed
import OoOS.Mm.Mmap
import OoOS.Mm.TableBlocks
import OoOS.Modules.Ahci
import OoOS.Net.TcpPeer
import OoOS.Net.TcpSegments
import OoOS.Net.Udp
import OoOS.Prog.InitArrays
import OoOS.Prog.SymbolSearch
import OoOS.Sched.Documented
import OoOS.Sched.ExecArgs
import OoOS.Sched.SignalMask
import OoOS.Sched.SleepersRun
import OoOS.Sched.TaskExit
import OoOS.Sched.TaskWake
import OoOS.Sched.Threads
import OoOS.Sched.TlsRight
import OoOS.Uam.AccountTable
import OoOS.Uam.Identity
import OoOS.Uam.Vpwd
import OoOS.Util.BitmapScan
import OoOS.Util.CircularQueueEnds
import OoOS.Util.PoolAllocator
