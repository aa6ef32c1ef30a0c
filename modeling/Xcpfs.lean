import Xcpfs.TruncateAccount
import Xcpfs.ZoneAlloc
import Xcpfs.Zit
import Xcpfs.SuperLog
import Xcpfs.NatPersist
import Xcpfs.Readdir
import Xcpfs.ZoneMgmt
import Xcpfs.ZoneCount
import Xcpfs.ZoneFlight
import Xcpfs.ZonePointer
import Xcpfs.ZoneRetry
import Xcpfs.MountMemory
import Xcpfs.ZoneQuota
import Xcpfs.CheckpointOrder
import Xcpfs.Xio
import Xcpfs.NodeWrites
import Xcpfs.Evict
import Xcpfs.Prepare
import Xcpfs.BlockWrites
import Xcpfs.NatRelease
import Xcpfs.LinkCount
import Xcpfs.DotDot
import Xcpfs.MakeEntry
import Xcpfs.SizeChange
import Xcpfs.Lib.RefMarks
import Xcpfs.NatSteady
import Xcpfs.TruncateFs
import Xcpfs.LiveTruncate
import Xcpfs.PathArith
import Xcpfs.SectorAddr
import Xcpfs.ZoneFill
import Xcpfs.InodePage
import Xcpfs.SuperParse
import Xcpfs.SuperJournal
import Xcpfs.NatRegion
import Xcpfs.NatFlush
import Xcpfs.MetaRuns
import Xcpfs.LookupRuns
import Xcpfs.HoleRead
import Xcpfs.SizeCommit
import Xcpfs.ValidMap
import Xcpfs.SuperRound
import Xcpfs.MountSuper
import Xcpfs.CpContext
import Xcpfs.PageEnds
import Xcpfs.OwnTruncate
import Xcpfs.FileCrash
import Xcpfs.Mkfs
import Xcpfs.PathMap
import Xcpfs.NodeValues
import Xcpfs.InodeRuns
import Xcpfs.DirPages
import Xcpfs.DirNames
