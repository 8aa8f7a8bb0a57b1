import DoomsdayModules.Malloc.PowersOfTwo
import DoomsdayModules.Malloc.Itos
import DoomsdayModules.Malloc.FreelistRuns
import DoomsdayModules.Malloc.BuddyBitmap
import DoomsdayModules.Malloc.BuddyGeometry
import DoomsdayModules.Malloc.BuddyMark
import DoomsdayModules.Malloc.BuddyFit
import DoomsdayModules.Malloc.PoolAdmission
import DoomsdayModules.Malloc.BuddySizing
import DoomsdayModules.Malloc.BuddySplit
import DoomsdayModules.Malloc.BuddyCoalescing
import DoomsdayModules.Malloc.SlabCapacity
import DoomsdayModules.Malloc.SlabIsolation
import DoomsdayModules.Malloc.SlabList
import DoomsdayModules.Malloc.SlabReuse
import DoomsdayModules.Malloc.SlabDestroy
import DoomsdayModules.Malloc.PenguinExhaustion
import DoomsdayModules.Malloc.PenguinIsolation
import DoomsdayModules.Malloc.PenguinAlignment
import DoomsdayModules.Malloc.OperatorProgress
import DoomsdayModules.Malloc.OperatorIsolation
import DoomsdayModules.Fat16.ShortName
import DoomsdayModules.Fat16.WalkOrder
import DoomsdayModules.Fat16.ListingNames
import DoomsdayModules.Fat16.DentryLookup
import DoomsdayModules.Fat16.InodeNumbers
import DoomsdayModules.Fat16.Termination
import DoomsdayModules.Fat16.Regions
import DoomsdayModules.Fat16.Divisors
import DoomsdayModules.Fat16.FileTree
import DoomsdayModules.Telegram.MessageBus
import DoomsdayModules.Telegram.ChatLog
import DoomsdayModules.Telegram.SendOrder
import DoomsdayModules.Telegram.Outgoing
import DoomsdayModules.Telegram.Incoming
import DoomsdayModules.Telegram.BusGrammar
import DoomsdayModules.Telegram.WakeUps
import DoomsdayModules.Telegram.Atomicity
import DoomsdayModules.Telegram.RelayIncoming
import DoomsdayModules.Telegram.RelayProgress
import DoomsdayModules.NeuroSwap.Inference
import DoomsdayModules.NeuroSwap.Monotonicity
import DoomsdayModules.NeuroSwap.WeightsHeader
import DoomsdayModules.NeuroSwap.BlockDevice
