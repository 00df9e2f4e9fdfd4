import Os161.Sfs.Files
import Os161.Thread.Room
import Os161.Thread.Conds
import Os161.Vfs.Names
import Os161.Vm.Fault
import Os161.Vm.Isolation
import Os161.Vm.Program
import Os161.Vm.Uiomove
import Os161.Sfs.MksfsExit
import Os161.Sfs.Sync
import Os161.Kern.Kfree
import Os161.Hw2.ProducerConsumer
import Os161.Hw2.DataToKernel
import Os161.Asst1.Bowls
import Os161.Dev.Console
import Os161.Dev.Lamebus
import Os161.Vfs.Lifetime
import Os161.Vfs.Prefix
import Os161.Sfs.Sectors
import Os161.Sfs.ReadBounds
import Os161.Sfs.Eof
import Os161.Sfs.Excess
import Os161.Vfs.OpenFails
import Os161.Kern.Fifo
import Os161.Kern.ArrayCalls
import Os161.Kern.BitmapSet
import Os161.Kern.Kgets
import Os161.Libc.Memmove
import Os161.Libc.Atoi
import Os161.Kern.Menu
import Os161.Dev.Pseudorand
import Os161.Arch.Switch
import Os161.Arch.Syscall
