import AndroidLearn.Attr.Table
import AndroidLearn.Bugreport.AnrAgent
import AndroidLearn.Client.Logdata
import AndroidLearn.Conf.Conf
import AndroidLearn.Conf.File
import AndroidLearn.Conf.Glist
import AndroidLearn.Conf.GlistNodes
import AndroidLearn.Conf.Lines
import AndroidLearn.Conf.Sort
import AndroidLearn.Conf.Trim
import AndroidLearn.Cputest.Controllers
import AndroidLearn.Cputest.Frequency
import AndroidLearn.Cputest.Loop
import AndroidLearn.Cputest.Modes
import AndroidLearn.Dir.Caches
import AndroidLearn.Dir.Clear
import AndroidLearn.Dir.Create
import AndroidLearn.Dir.Links
import AndroidLearn.Dir.Mounts
import AndroidLearn.Dumpstate.Hotkeys
import AndroidLearn.Fio.FileLog
import AndroidLearn.Ghost.Converge
import AndroidLearn.Ghost.Invariant
import AndroidLearn.Ghost.Mirror
import AndroidLearn.Ghost.Monitor
import AndroidLearn.Ghost.Steps
import AndroidLearn.Ghost.Sync
import AndroidLearn.HtcIf.Complete
import AndroidLearn.HtcIf.Exec
import AndroidLearn.HtcIf.Forward
import AndroidLearn.HtcIf.Invariant
import AndroidLearn.HtcIf.Receive
import AndroidLearn.HtcIf.Steps
import AndroidLearn.Iotop.Stats
import AndroidLearn.Iotty.Closing
import AndroidLearn.Iotty.End
import AndroidLearn.Iotty.Redirect
import AndroidLearn.Iotty.Session
import AndroidLearn.Lib.Bytes
import AndroidLearn.Lib.CMemory
import AndroidLearn.Lib.Chain
import AndroidLearn.Lib.Coalesce
import AndroidLearn.Lib.Cyclic
import AndroidLearn.Lib.Follow
import AndroidLearn.Lib.Framing
import AndroidLearn.Lib.KeyedVector
import AndroidLearn.Lib.Matcher
import AndroidLearn.Lib.Overlay
import AndroidLearn.Lib.Procs
import AndroidLearn.Lib.RingBuffer
import AndroidLearn.Lib.Run
import AndroidLearn.Lib.RunningMax
import AndroidLearn.Lib.Scanf
import AndroidLearn.Lib.Sentinel
import AndroidLearn.Lib.Strstr
import AndroidLearn.Lib.Thread
import AndroidLearn.Logctl.AutoSelect
import AndroidLearn.Logctl.Calls
import AndroidLearn.Logctl.Decimal
import AndroidLearn.Logctl.Init
import AndroidLearn.Logctl.Landing
import AndroidLearn.Logctl.Liveness
import AndroidLearn.Logctl.Loggers
import AndroidLearn.Logctl.Merge
import AndroidLearn.Logctl.MountEvents
import AndroidLearn.Logctl.MoveLog
import AndroidLearn.Logctl.Precedence
import AndroidLearn.Logctl.Programs
import AndroidLearn.Logctl.StateWord
import AndroidLearn.Logctl.StopAll
import AndroidLearn.Logctl.StopFinal
import AndroidLearn.Logctl.Storage
import AndroidLearn.Logctl.StoragePath
import AndroidLearn.Logctl.System
import AndroidLearn.LoggerCommon.Accept
import AndroidLearn.LoggerCommon.Accounting
import AndroidLearn.LoggerCommon.AddFile
import AndroidLearn.LoggerCommon.Crash
import AndroidLearn.LoggerCommon.Index
import AndroidLearn.LoggerCommon.Journal
import AndroidLearn.LoggerCommon.Layout
import AndroidLearn.LoggerCommon.Limit
import AndroidLearn.LoggerCommon.LiveLog
import AndroidLearn.LoggerCommon.NewFile
import AndroidLearn.LoggerCommon.Paths
import AndroidLearn.LoggerCommon.Rebuild
import AndroidLearn.LoggerCommon.Ring
import AndroidLearn.LoggerCommon.RingRun
import AndroidLearn.LoggerCommon.Router
import AndroidLearn.Logkmsg.Capture
import AndroidLearn.Logkmsg.Resume
import AndroidLearn.Logkmsg.Rotate
import AndroidLearn.Logkmsg.RotateNames
import AndroidLearn.Logkmsg.Trim
import AndroidLearn.Logkmsg.Window
import AndroidLearn.Lognet.Clearing
import AndroidLearn.Lognet.DeleteQueue
import AndroidLearn.Lognet.RotateSuffix
import AndroidLearn.Lognet.Serial
import AndroidLearn.Lognet.Sessions
import AndroidLearn.Loop.History
import AndroidLearn.Mb.Version
import AndroidLearn.Memutils.Aggregate
import AndroidLearn.Memutils.DumpGuard
import AndroidLearn.Memutils.ExtraMemInfo
import AndroidLearn.Memutils.Nvmap
import AndroidLearn.Memutils.NvmapTotals
import AndroidLearn.Memutils.PageMap
import AndroidLearn.Memutils.Smaps
import AndroidLearn.Memutils.Sums
import AndroidLearn.Mtd.Erase
import AndroidLearn.Mtd.Lookup
import AndroidLearn.Mtd.MinimumSize
import AndroidLearn.Mtd.Repeat
import AndroidLearn.Mtd.Store
import AndroidLearn.PackageManager.Preparse
import AndroidLearn.Process.Stat
import AndroidLearn.Proctrl.Registry
import AndroidLearn.Pub.Datatok
import AndroidLearn.SmartPoint.Promote
import AndroidLearn.SmartPoint.RefBase
import AndroidLearn.Socket.Connection
import AndroidLearn.Touchtest.Bounds
import AndroidLearn.Touchtest.Panel
import AndroidLearn.Ttytool.Cache
import AndroidLearn.Ttytool.ReadLine
import AndroidLearn.Ttytool.Sessions
import AndroidLearn.Uevent.Bus
import AndroidLearn.Zflserviced.Services
