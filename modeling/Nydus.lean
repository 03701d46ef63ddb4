import Nydus.Lib.Except
import Nydus.Lib.Store
import Nydus.Lib.Run
import Nydus.Lib.ByteBitmap
import Nydus.Lib.LittleEndian
import Nydus.Storage.ChunkInfo
import Nydus.Storage.ChunkIndex
import Nydus.Storage.GetChunks
import Nydus.Storage.RangeLookup
import Nydus.Storage.MoreChunks
import Nydus.Storage.ZranContexts
import Nydus.Cache.BlobIo
import Nydus.Cache.Region
import Nydus.Cache.Dispatch
import Nydus.Builder.V6Dir
import Nydus.Builder.Compact
import Nydus.Rafs.V6DirReader
import Nydus.Rafs.V6DirLayout
import Nydus.Builder.CompactRun
import Nydus.Builder.NodeData
import Nydus.Builder.NodeDataSpec
import Nydus.Builder.NodeDataStep
import Nydus.Builder.NodeDataRun
import Nydus.Cache.PersistMap
import Nydus.Storage.Device
import Nydus.Storage.MetaHeader
import Nydus.Storage.ZranTables
import Nydus.Lib.Blocks
import Nydus.Rafs.BioVecs
import Nydus.Rafs.BioVecsSpec
import Nydus.Rafs.BioVecsRun
import Nydus.Rafs.V6BlobTable
import Nydus.Builder.BlobMeta
import Nydus.Rafs.V6BlobTableSpec
import Nydus.Builder.BlobMetaRun
import Nydus.Lib.BitField
import Nydus.Storage.ChunkInfoSet
import Nydus.Cache.RangeMap
import Nydus.Storage.MoreChunksSpec
import Nydus.Lib.Text
import Nydus.Backend.Registry
import Nydus.Rafs.V6DirLookup
import Nydus.Rafs.V6DirReadBack
import Nydus.Lib.Decimal
import Nydus.Unpack.Pax
import Nydus.Lib.SetBits
import Nydus.Lib.SortedMap
import Nydus.Lib.Runs
import Nydus.Utils.InodeBitmap
import Nydus.Utils.InodeBitmapWalk
import Nydus.Storage.Copyv
import Nydus.Daemon.StateMachine
import Nydus.Lib.Regions
import Nydus.Builder.V6Layout
import Nydus.Builder.V6LayoutSpec
import Nydus.Lib.Slices
import Nydus.Storage.CopyvSpec
