import Flyos.Lib.ByteMemory
import Flyos.Lib.LinkChain
import Flyos.Lib.Runs
import Flyos.Lib.TableTree
import Flyos.Mm.Translated
import Flyos.Mm.SelfMapped
import Flyos.Mm.ElfImage
import Flyos.Mm.HeapAgain
import Flyos.Mm.HeapMap
import Flyos.Mm.PmmSpec
import Flyos.Mm.Rights
import Flyos.Mm.CloneSpec
import Flyos.Mm.IdentitySpec
import Flyos.Fs.FileModel
import Flyos.Fs.Names
import Flyos.Fs.Agree
import Flyos.Fs.DeserializeFrame
import Flyos.Fs.FailedOpen
import Flyos.Fs.FileHonest
import Flyos.Fs.Listing
import Flyos.Fs.MkdirAgrees
import Flyos.Fs.OpenAgrees
import Flyos.Fs.Paths
import Flyos.Fs.PathRun
import Flyos.Fs.PathForest
import Flyos.Fs.DiskAreas
import Flyos.Fs.StorageRun
import Flyos.Lib.X86
import Flyos.Arch.Idt
import Flyos.Arch.Interrupts
import Flyos.Arch.SyscallEntry
import Flyos.Arch.UserMachine
import Flyos.Fs.References
import Flyos.Fs.PersistTorn
import Flyos.Fs.Fat16Calls
import Flyos.Fs.Fat16List
import Flyos.Fs.Fat16Names
import Flyos.Fs.FreeChain
import Flyos.Fs.Fat16Divide
import Flyos.Fs.Fat16Overrun
import Flyos.Task.WaitSpec
import Flyos.Task.Sleep
import Flyos.Task.CpuSpec
import Flyos.Task.CpuSpaces
import Flyos.Task.ForkSpec
import Flyos.Task.ExecSpec
import Flyos.Drivers.E1000Send
import Flyos.Drivers.DnsRecords
import Flyos.Drivers.Checksum
import Flyos.Drivers.Keyboard
import Flyos.Drivers.KeyboardFifo
import Flyos.User.Malloc
import Flyos.User.Calc
import Flyos.User.Move
import Flyos.User.Readline
import Flyos.User.Tokenize
import Flyos.Drivers.TerminalSpec
import Flyos.Gui.Demo
import Flyos.Drivers.BootInfo
import Flyos.Task.RoundRobin
import Flyos.Task.NewTaskSpec
