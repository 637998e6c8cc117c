import MagicLantern.Patching.AllOrNothing
import MagicLantern.Patching.Digic45Flush
import MagicLantern.Patching.Relocation
import MagicLantern.Patching.Digic678
import MagicLantern.Mmu.Translation
import MagicLantern.Mmu.Space
import MagicLantern.MlvLite.Capacity
import MagicLantern.MlvLite.FrameCount
import MagicLantern.MlvLite.HeldFrames
import MagicLantern.MlvRec.JobConservation
import MagicLantern.MlvRec.SlotOwners
import MagicLantern.RawVidx.Restart
import MagicLantern.RawVidx.FileContents
import MagicLantern.Memory.Aligned
import MagicLantern.Memory.Failures
import MagicLantern.Exmem.ShootRequest
import MagicLantern.Config.RoundTrip
import MagicLantern.Property.Lengths
import MagicLantern.Cbr.Order
import MagicLantern.IoCrypt.Files
import MagicLantern.IoCrypt.Asymmetric
import MagicLantern.Trace.Delivery
import MagicLantern.Trace.LifecycleSafety
import MagicLantern.Fio.CopySafety
import MagicLantern.Modules.GatingSafety
import MagicLantern.Modules.OfflineStrings
import MagicLantern.Menus.NumericToggle
import MagicLantern.Menus.Selection
import MagicLantern.Menus.UsageThreshold
import MagicLantern.Log.DiskLogSafety
import MagicLantern.MlvPlay.Delete
import MagicLantern.Silent.MlvSeries
import MagicLantern.Silent.SlitScan
import MagicLantern.Lua.Unload
import MagicLantern.MlvLite.Sentinel
import MagicLantern.RawVidx.FrameHeader
import MagicLantern.RawVidx.CropBufs
import MagicLantern.Shoot.HdrIsoShift
import MagicLantern.MlvDump.Readers
import MagicLantern.MlvDump.XrefSort
import MagicLantern.Rpc.ReadMem
import MagicLantern.Font.Justified
import MagicLantern.Util.BinSearch
