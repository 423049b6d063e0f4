import MtcaDummy.Conc.Prog
import MtcaDummy.Conc.System
import MtcaDummy.Conc.Schedule
import MtcaDummy.Conc.Locking
import MtcaDummy.Conc.Resource
import MtcaDummy.Conc.Serial
import MtcaDummy.Conc.Update
import MtcaDummy.Conc.Ledger
import MtcaDummy.Conc.Lifetime
import MtcaDummy.Conc.Restrict
import MtcaDummy.Conc.Counter
import MtcaDummy.Conc.Linear
import MtcaDummy.Conc.Finish
import MtcaDummy.Conc.Refine
import MtcaDummy.Text.Printf
import MtcaDummy.Driver.Kernel
import MtcaDummy.Driver.Exec
import MtcaDummy.Driver.Firmware
import MtcaDummy.Driver.Drv
import MtcaDummy.Driver.Ioctls
import MtcaDummy.Driver.RwNoStruct
import MtcaDummy.Driver.Proc
import MtcaDummy.Driver.Copies
import MtcaDummy.Driver.Init
import MtcaDummy.Driver.SetupLedger
import MtcaDummy.Driver.SetupReport
import MtcaDummy.Driver.Lifetimes
import MtcaDummy.Driver.Entry
import MtcaDummy.Driver.Bars
import MtcaDummy.Driver.Dma
import MtcaDummy.Driver.Discipline
import MtcaDummy.Driver.Calls
import MtcaDummy.Driver.Finish
import MtcaDummy.Driver.ReadOnly
import MtcaDummy.Driver.Vfs
import MtcaDummy.Driver.Gates
import MtcaDummy.Driver.Isolation
import MtcaDummy.Driver.Independence
import MtcaDummy.Driver.UseCount
import MtcaDummy.Driver.Linear
import MtcaDummy.Driver.NoIoctl
import MtcaDummy.Driver.Writes
import MtcaDummy.Driver.Spi
import MtcaDummy.Driver.ProcFile
import MtcaDummy.Driver.Commands
import MtcaDummy.Driver.Echo
import MtcaDummy.Driver.Control
import MtcaDummy.Driver.Reads
import MtcaDummy.Driver.Effects
import MtcaDummy.Driver.BulkReads
import MtcaDummy.Driver.Transfers
import MtcaDummy.Driver.Interrupts
import MtcaDummy.Driver.Accounts
import MtcaDummy.Driver.Memory
import MtcaDummy.Driver.ReaderWriter
import MtcaDummy.Driver.Clients
import MtcaDummy.Driver.AutomaticTest
import MtcaDummy.Driver.Dump
import MtcaDummy.Driver.Crate
import MtcaDummy.Driver.Refinement
import MtcaDummy.Driver.Restart
import MtcaDummy.Driver.Runs
import MtcaDummy.Driver.Positions
import MtcaDummy.Driver.Listing
