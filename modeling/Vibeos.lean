import Vibeos.ByteMem
import Vibeos.Rv32Flow
import Vibeos.LinkChain
import Vibeos.Forest
import Vibeos.FsLayout
import Vibeos.FsDisk
import Vibeos.FsPath
import Vibeos.FsOps
import Vibeos.AllocSpecs
import Vibeos.StoreSpecs
import Vibeos.FsTree
import Vibeos.OpSpecs
import Vibeos.OpEffects
import Vibeos.AllocInv
import Vibeos.BlockTree
import Vibeos.Remount
import Vibeos.LoadSpecs
import Vibeos.PathNames
import Vibeos.ReadBack
import Vibeos.DirWrites
import Vibeos.DirNames
import Vibeos.StoreCrash
import Vibeos.MoveTree
import Vibeos.StoreErrors
import Vibeos.DirCapacity
import Vibeos.WindowDirs
import Vibeos.CwdStrings
import Vibeos.MkdirCommand
import Vibeos.CopyWhole
import Vibeos.PathPlans
import Vibeos.PathResolvers
import Vibeos.MoveCrash
import Vibeos.TaskSched
import Vibeos.TaskInv
import Vibeos.TaskFair
import Vibeos.ElfLoad
import Vibeos.ElfSafety
import Vibeos.Debugger
import Vibeos.DebugBreaks
import Vibeos.DebugStep
import Vibeos.KernelHeapSafety
import Vibeos.JitHeapSafety
import Vibeos.WgetSuccess
import Vibeos.WgetOrigin
import Vibeos.LabelledCode
import Vibeos.Asm
import Vibeos.AsmSource
import Vibeos.AsmBuild
import Vibeos.AsmRun
import Vibeos.AsmFaithful
import Vibeos.ByteFile
import Vibeos.AppFs
import Vibeos.AppFsSpecs
import Vibeos.AppFsCalls
import Vibeos.AppFsRuns
import Vibeos.AppFsKeep
import Vibeos.Ecall
import Vibeos.EcallRegion
import Vibeos.JitJobs
import Vibeos.JitSteps
import Vibeos.JitLife
import Vibeos.JitLifeInv
import Vibeos.JitLifeSteps
import Vibeos.JitLifeEffects
import Vibeos.JitLifeCycle
import Vibeos.Ledger
import Vibeos.JitLedger
import Vibeos.JitHolds
import Vibeos.JitHoldCalls
import Vibeos.JitHoldStops
import Vibeos.JitIsolation
import Vibeos.FatVolume
import Vibeos.LibPrint
import Vibeos.SdFat
import Vibeos.SdListing
import Vibeos.SdRoot
import Vibeos.SshBoot
import Vibeos.SshSeal
import Vibeos.BashRc
import Vibeos.BashRcAgree
import Vibeos.LineZipper
import Vibeos.LineEdit
import Vibeos.LineRefine
import Vibeos.CText
import Vibeos.JitPoll
import Vibeos.JitPollLoops
import Vibeos.JitSourceBuf
import Vibeos.Keyboard
import Vibeos.KeyTracking
import Vibeos.UsbKeyboard
import Vibeos.RingWindow
import Vibeos.VirtioNet
import Vibeos.SshStream
import Vibeos.EventRuns
import Vibeos.SshHygiene
import Vibeos.AxiSlave
import Vibeos.PlConsole
import Vibeos.HdmiMmio
import Vibeos.MmioBus
import Vibeos.JtagConsole
import Vibeos.JtagStream
import Vibeos.CacheLines
import Vibeos.GemRing
import Vibeos.Fat16Create
import Vibeos.Fat16Consistent
import Vibeos.MouseMailbox
import Vibeos.BurstLink
import Vibeos.DataBus
import Vibeos.DataBusExact
import Vibeos.DebugPort
import Vibeos.HdmiShows
import Vibeos.Vga
import Vibeos.VgaCursor
import Vibeos.CopyBound
import Vibeos.EditorStatus
import Vibeos.EditorStatusFits
import Vibeos.EditorLazy
import Vibeos.TabComplete
import Vibeos.TabCompleteFits
import Vibeos.TabRight
import Vibeos.Calendar
import Vibeos.DateFormats
import Vibeos.Desktop
import Vibeos.Turns
import Vibeos.WindowStack
import Vibeos.Stretch
import Vibeos.WindowGeometry
import Vibeos.SshTarget
import Vibeos.BufferGrowth
import Vibeos.LoadersAgree
import Vibeos.WalksEnd
import Vibeos.AppFsDirs
import Vibeos.KernelHeapResize
import Vibeos.LibDiv
import Vibeos.VsnprintfExact
import Vibeos.DropRing
import Vibeos.InputQueues
import Vibeos.WallClock
import Vibeos.AppHeap
import Vibeos.Sv32
import Vibeos.AppVm
import Vibeos.AssocRows
import Vibeos.EnvTables
import Vibeos.BmpDecode
import Vibeos.WgetProgress
import Vibeos.Words
import Vibeos.ArgvStack
import Vibeos.UrlParse
import Vibeos.RowLog
import Vibeos.Scrollback
import Vibeos.ScrollbackRuns
import Vibeos.Rv32Asm
import Vibeos.Disasm
import Vibeos.DisasmRight
import Vibeos.LineWalk
import Vibeos.DrawLine
import Vibeos.TaskRotation
import Vibeos.UsbDescriptors
import Vibeos.SdMount
import Vibeos.JitTexts
import Vibeos.NetsurfLines
import Vibeos.StrToUl
import Vibeos.NetsurfText
import Vibeos.KeyTimers
import Vibeos.NetsurfUrl
import Vibeos.Tmds
