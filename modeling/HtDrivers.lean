import HtDrivers.Lib.Words
import HtDrivers.Lib.Cut
import HtDrivers.Lib.Chain
import HtDrivers.Lib.Ledger
import HtDrivers.Lib.Transition
import HtDrivers.Lib.Numerals
import HtDrivers.Lib.Fifo
import HtDrivers.Cdcm.CdcmTime
import HtDrivers.Skel.Queue
import HtDrivers.Skel.QueueRuns
import HtDrivers.Skel.Connections
import HtDrivers.Vmebridge.Vmebus
import HtDrivers.Vmebridge.Tsi148Attr
import HtDrivers.Vmebridge.Tsi148Dma
import HtDrivers.Vmebridge.Tsi148Frame
import HtDrivers.Vmebridge.Tsi148Links
import HtDrivers.Vmebridge.Tsi148Chain
import HtDrivers.Vmebridge.Tsi148Tiling
import HtDrivers.Vmebridge.VmeDma
import HtDrivers.Vmebridge.VmeDmaSetup
import HtDrivers.Vmebridge.VmeDmaStart
import HtDrivers.Vmebridge.VmeDmaBalance
import HtDrivers.Vmebridge.DmaChannels
import HtDrivers.Vmebridge.Tsi148Window
import HtDrivers.Vmebridge.WindowTable
import HtDrivers.Vmebridge.WindowInvariant
import HtDrivers.Vmebridge.WindowContain
import HtDrivers.Vmebridge.WindowTasks
import HtDrivers.Vmebridge.WindowAttr
import HtDrivers.Vmebridge.WindowMmap
import HtDrivers.Vmebridge.WindowOwner
import HtDrivers.Vmebridge.ForceFlags
import HtDrivers.Vmebridge.BusError
import HtDrivers.Mttn.ObjectFile
import HtDrivers.Mttn.Tasks
import HtDrivers.Mttn.Opcodes
import HtDrivers.Mttn.AsmAtoms
import HtDrivers.Mttn.Expression
import HtDrivers.Mttn.Assemble
import HtDrivers.Mttn.AsmRun
import HtDrivers.Mttn.AsmLabels
import HtDrivers.Mttn.AsmSymbols
import HtDrivers.Skel.EnabledInts
import HtDrivers.Skel.Delivery
import HtDrivers.Skel.Links
import HtDrivers.Skel.FlashLock
import HtDrivers.Mttn.Emulator
import HtDrivers.Mttn.Registers
import HtDrivers.Mttn.LibWait
import HtDrivers.Mttn.DisAssemble
import HtDrivers.Mttn.SourceLines
import HtDrivers.Mttn.Reassemble
import HtDrivers.InsLib.ConfigData
import HtDrivers.InsLib.CloneFree
import HtDrivers.InsLib.Attributes
import HtDrivers.InsLib.AttributeOrder
import HtDrivers.InsLib.AddressSpaces
import HtDrivers.InsLib.InstallFile
import HtDrivers.Cvorg.StoreSeq
import HtDrivers.Cvorg.SeqIntact
import HtDrivers.Sis33.Card
import HtDrivers.Sis33.Tasks
import HtDrivers.Sis33.SegmentStates
import HtDrivers.Sis33.Caches
import HtDrivers.Sis33.Frozen
import HtDrivers.Sis33.Sis3320
import HtDrivers.Sis33.Sis3300
import HtDrivers.Sis33.CardRuns
import HtDrivers.Sis33.AdcMemory
import HtDrivers.Sis33.PageRegister
import HtDrivers.Sis33.Descriptors
import HtDrivers.Sis33.CompatIoctl
import HtDrivers.InsLib.FreeHost
import HtDrivers.InsLib.InstallOutline
import HtDrivers.InsLib.HostIntact
import HtDrivers.Cvorg.Clkgen
import HtDrivers.Cvorg.PllRoundTrip
import HtDrivers.Cvorg.LoadSeq
import HtDrivers.Cvorg.GainOffset
import HtDrivers.Cvorg.Ioctls
import HtDrivers.Cvorg.Ownership
import HtDrivers.Cdcm.Semaphore
import HtDrivers.Cdcm.SemaphoreRuns
import HtDrivers.Ctr.ReadQueue
import HtDrivers.Ctr.QueueTimers
import HtDrivers.Ctr.WorkingArea
import HtDrivers.Ctr.Ioctl
import HtDrivers.Ctr.Effects
import HtDrivers.Ctr.Slots
import HtDrivers.Ctr.InterruptEnable
import HtDrivers.Ctr.EnabledRuns
import HtDrivers.Ctr.ConnectUndone
import HtDrivers.Ctr.CtimUse
import HtDrivers.Xmem.Messages
import HtDrivers.Xmem.Connections
import HtDrivers.Lib.Scanf
import HtDrivers.Xmem.EnabledMasks
import HtDrivers.Xmem.SegFile
import HtDrivers.Xmem.SegmentBounds
import HtDrivers.Xmem.Markers
import HtDrivers.Xmem.ReadQueue
import HtDrivers.Xmem.Threshold
import HtDrivers.Xmem.CopyPaths
import HtDrivers.Xmem.Discovery
import HtDrivers.Xmem.PageDma
import HtDrivers.Xmem.Convergence
import HtDrivers.Icv196.EmulatedSem
import HtDrivers.Cdcm.Timers
import HtDrivers.Cdcm.Pci
import HtDrivers.Cdcm.UserCopy
import HtDrivers.Icv196.Booking
import HtDrivers.Icv196.CumulEvents
import HtDrivers.Icv196.CumulRuns
import HtDrivers.Icv196.LineRuns
import HtDrivers.Icv196.Minors
import HtDrivers.Vmod.Vmodio
import HtDrivers.Vmod.VmodioInit
import HtDrivers.Vmod.Dispatch
import HtDrivers.Vmod.Unload
import HtDrivers.Vmod.CarrierRegister
import HtDrivers.Ctr.Simulated
import HtDrivers.Mttn.ExpressionValue
import HtDrivers.Mttn.LexerSafety
import HtDrivers.Mttn.TaskRegisters
import HtDrivers.Vmebridge.Scatterlist
import HtDrivers.Lib.Strides
import HtDrivers.Skel.RawIoBlock
import HtDrivers.Skel.RawIoWindow
import HtDrivers.Skel.RawIoData
import HtDrivers.Vmod.TtlConfig
import HtDrivers.Vmod.LunArgs
import HtDrivers.Vmod.MinorBoards
import HtDrivers.Sis33.EventsFit
import HtDrivers.Sis33.Prevticks
import HtDrivers.Sis33.ValueLists
import HtDrivers.Sis33.Normalize
import HtDrivers.Vmebridge.FindController
import HtDrivers.Cvorg.PllDividers
import HtDrivers.Cvorg.FreqLimit
import HtDrivers.Cvorg.DacCorr
import HtDrivers.Lib.Tap
import HtDrivers.Lib.Collect
import HtDrivers.Ctr.Hptdc
import HtDrivers.Ctr.ClientConnections
import HtDrivers.Lib.Fields
import HtDrivers.Lib.ByteMemory
import HtDrivers.Ctr.Packing
import HtDrivers.Lib.MaskLoop
import HtDrivers.Vd80.Driver
import HtDrivers.Vd80.TriggerLevels
import HtDrivers.Vd80.ReadWindow
import HtDrivers.Vd80.SampleCounts
import HtDrivers.Xmem.ClientListing
import HtDrivers.Xmem.RegisterSpaces
import HtDrivers.Lib.Block
import HtDrivers.Xmem.BounceBuffer
import HtDrivers.Xmem.WaitDispatch
import HtDrivers.Icv196.Services
import HtDrivers.Lib.ScanAll
import HtDrivers.Lib.TextLines
import HtDrivers.Xmem.TableFiles
import HtDrivers.Jtag.Lenval
import HtDrivers.Jtag.Ports
import HtDrivers.Jtag.Shift
import HtDrivers.Jtag.Scan
import HtDrivers.Jtag.Micro
import HtDrivers.Jtag.Runs
import HtDrivers.Jtag.Sight
import HtDrivers.Jtag.Programs
