import KludgeOS.Smp.Sched
import KludgeOS.Smp.Shootdown
import KludgeOS.Delivery
import KludgeOS.Translate
import KludgeOS.Isolation
import KludgeOS.Fs.OpenAlloc
import KludgeOS.Fs.SizeCopies
import KludgeOS.Fs.BlockMap
import KludgeOS.Fs.ReadOnly
import KludgeOS.Fs.Mappings
import KludgeOS.Fs.Crash
import KludgeOS.Fs.FormatImage
import KludgeOS.EnvIds
import KludgeOS.Client
import KludgeOS.Nic.Transmit
import KludgeOS.Nic.Receive
import KludgeOS.Net.Serve
import KludgeOS.Net.Recv
import KludgeOS.BootMem
import KludgeOS.Stabs
import KludgeOS.Pipe.Fifo
import KludgeOS.Pipe.Eof
import KludgeOS.Fair
import KludgeOS.Legal
import KludgeOS.Net.Timeouts
import KludgeOS.Net.Mbox
import KludgeOS.Upcall
import KludgeOS.Spawn
import KludgeOS.Heap.Pages
import KludgeOS.Heap.Fork
import KludgeOS.Lib.Strings
import KludgeOS.Lib.FileIo
import KludgeOS.Lib.Http
import KludgeOS.Lib.Shell
import KludgeOS.Protection
