import PrimedSteam.CoreTiming.ClockChange
import PrimedSteam.CoreTiming.Dispatch
import PrimedSteam.CoreTiming.Keys
import PrimedSteam.CoreTiming.Manager
import PrimedSteam.CoreTiming.SaveState
import PrimedSteam.CoreTiming.Slices
import PrimedSteam.DSP.AddressRegisters
import PrimedSteam.DSP.ExpressionValues
import PrimedSteam.DSP.AcceleratorAddresses
import PrimedSteam.DSP.AcceleratorState
import PrimedSteam.DSP.Analyzer
import PrimedSteam.DSP.LoopsExact
import PrimedSteam.DSP.Operands
import PrimedSteam.DiscIO.DiscScrubber
import PrimedSteam.DiscIO.WbfsBlob
import PrimedSteam.DiscIO.NFSBlob
import PrimedSteam.DiscIO.FindFileInfo
import PrimedSteam.DiscIO.Convert
import PrimedSteam.DiscIO.Coverage
import PrimedSteam.DiscIO.DataEntries
import PrimedSteam.DiscIO.JunkSeed
import PrimedSteam.DiscIO.PurgeRoundTrip
import PrimedSteam.IOS.DirectoryInUse
import PrimedSteam.IOS.FileHandles
import PrimedSteam.IOS.SharedFiles
import PrimedSteam.JitCache.EraseExact
import PrimedSteam.JitCache.PageRanges
import PrimedSteam.JitCache.RangeSizeSet
import PrimedSteam.JitCache.CodeSpace
import PrimedSteam.Lib.Heap
import PrimedSteam.Lib.OrderedMap
import PrimedSteam.Lib.Tiling
import PrimedSteam.Lib.Transition
import PrimedSteam.Lib.While
import PrimedSteam.Memcard.GciLoading
import PrimedSteam.Memcard.GciDirty
import PrimedSteam.Memcard.GciCache
import PrimedSteam.Memcard.ExportFile
import PrimedSteam.Memcard.ImportExport
import PrimedSteam.Memcard.SavefileContainers
import PrimedSteam.PowerPC.CacheCoherence
import PrimedSteam.PowerPC.Folding
import PrimedSteam.PowerPC.ConstantDivision
import PrimedSteam.PowerPC.CarryForms
import PrimedSteam.VideoCommon.CullingCoverage
import PrimedSteam.VideoCommon.CullingEffects
import PrimedSteam.VideoCommon.DecodingChunks
import PrimedSteam.VideoCommon.ReplayFrames
import PrimedSteam.DiscIO.WiiIntegrity
import PrimedSteam.DiscIO.RVZFeeding
import PrimedSteam.DiscIO.DataOverlap
import PrimedSteam.DiscIO.SectorReader
import PrimedSteam.DiscIO.GczRoundTrip
import PrimedSteam.IOS.EscapedNames
import PrimedSteam.Lib.TextSearch
import PrimedSteam.Common.SettingsHandler
import PrimedSteam.PowerPC.PageWalk
import PrimedSteam.PowerPC.ByteFaithful
import PrimedSteam.VideoCommon.HideObjectFile
import PrimedSteam.VideoCommon.TriangleStrips
import PrimedSteam.VideoCommon.IndexBuffer
import PrimedSteam.DiscIO.RiivolutionSplice
import PrimedSteam.Common.StringUtil
import PrimedSteam.Common.StringNumbers
import PrimedSteam.Common.IniFile
import PrimedSteam.VideoCommon.CullingManifest
import PrimedSteam.VideoCommon.CullingIndexes
import PrimedSteam.VideoCommon.VertexComponents
import PrimedSteam.DiscIO.RiivolutionMemory
import PrimedSteam.PowerPC.MemChecks
import PrimedSteam.Lib.BitRuns
import PrimedSteam.Lib.BinaryPolynomial
import PrimedSteam.Arm64.LogicalImm
import PrimedSteam.Arm64.Instructions
import PrimedSteam.Arm64.ConstantMoves
import PrimedSteam.Arm64.FloatConstants
import PrimedSteam.Arm64.ImmediateArithmetic
import PrimedSteam.Arm64.ParallelMoves
import PrimedSteam.DiscIO.BlockCache
import PrimedSteam.IOS.SysConf
import PrimedSteam.PowerPC.GDBPackets
import PrimedSteam.IOS.SysConfDefaults
import PrimedSteam.PowerPC.ConditionRegister
import PrimedSteam.IOS.DirectoryStats
import PrimedSteam.DiscIO.FileCache
import PrimedSteam.DiscIO.JunkScan
import PrimedSteam.DiscIO.PlainBlobs
import PrimedSteam.ActionReplay.CipherTables
import PrimedSteam.ActionReplay.Decryption
import PrimedSteam.ActionReplay.LoadCodes
import PrimedSteam.ActionReplay.RunCode
import PrimedSteam.Crypto.BigNumber
import PrimedSteam.Crypto.EllipticCurve
import PrimedSteam.Crypto.BinaryField
import PrimedSteam.Crypto.CurveGroup
