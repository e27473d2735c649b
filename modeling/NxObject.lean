import NxObject.Outcome
import NxObject.Chain
import NxObject.Bytes
import NxObject.Buffer
import NxObject.Composed
import NxObject.Codec
import NxObject.Cells
import NxObject.Utf8
import NxObject.TextOrder
import NxObject.Numerals
import NxObject.KeyOrder
import NxObject.Lz
import NxObject.FirstMax
import NxObject.BlzFinder
import NxObject.BlzSearch
import NxObject.BlzStream
import NxObject.BlzEncoder
import NxObject.BlzEncoding
import NxObject.BlzPacking
import NxObject.BlzDecoder
import NxObject.BlzSafety
import NxObject.BlzInPlace
import NxObject.BlzRoundtrip
import NxObject.BlzBounds
import NxObject.BlzShortest
import NxObject.BlzSoundness
import NxObject.Kip
import NxObject.KipReading
import NxObject.KipRoundtrip
import NxObject.Placement
import NxObject.Buckets
import NxObject.RomFsFormat
import NxObject.RomFsReader
import NxObject.RomFsTermination
import NxObject.RomFsBounds
import NxObject.RomFsIteration
import NxObject.RomFsLookup
import NxObject.RomFsBuilder
import NxObject.RomFsTree
import NxObject.RomFsOrder
import NxObject.RomFsInvariant
import NxObject.RomFsLayout
import NxObject.RomFsTables
import NxObject.RomFsImage
import NxObject.RomFsOpen
import NxObject.RomFsExtents
import NxObject.RomFsWalk
import NxObject.RomFsPaths
import NxObject.CountUp
import NxObject.RomFsSizing
import NxObject.RomFsHash
import NxObject.RomFsOversized
import NxObject.CounterMode
import NxObject.Digests
import NxObject.NcaFormat
import NxObject.NcaIvfc
import NxObject.NcaPartition
import NxObject.NcaBuilder
import NxObject.NcaReader
import NxObject.NcaReading
import NxObject.NcaLayout
import NxObject.NcaRoundtrip
import NxObject.NcaVerification
import NxObject.NcaEncryption
import NxObject.Pfs0
import NxObject.Pfs0Reading
import NxObject.Pfs0Roundtrip
import NxObject.Npdm
import NxObject.NpdmReading
import NxObject.NpdmRoundtrip
import NxObject.BitFields
import NxObject.Capabilities
import NxObject.AccessBlocks
import NxObject.NpdmDeclaration
import NxObject.TextPrefix
import NxObject.NameFields
import NxObject.SegmentLengths
import NxObject.Nro
import NxObject.NroReading
import NxObject.NroRoundtrip
import NxObject.NroAssets
import NxObject.NroBuilding
import NxObject.Nso
import NxObject.Elf
import NxObject.ElfSelection
import NxObject.ElfBss
import NxObject.ElfBuildId
import NxObject.NsoReading
import NxObject.NsoRoundtrip
import NxObject.NsoLayout
import NxObject.Cnmt
import NxObject.CnmtReading
import NxObject.ReaderBounds
import NxObject.TrailingBytes
import NxObject.Truncation
import NxObject.NameLookups
import NxObject.Nacp
import NxObject.NacpTitles
import NxObject.CnmtBuilding
import NxObject.NcaBuilding
import NxObject.NcaBinding
import NxObject.Memory
import NxObject.ImageMapping
import NxObject.ElfLoading
import NxObject.Mod0
import NxObject.Worklist
import NxObject.HostTree
import NxObject.RomFsDirectory
import NxObject.RomFsMirror
import NxObject.RomFsRepacking
import NxObject.Pfs0Directory
import NxObject.CtrCipher
import NxObject.NcaCipher
import NxObject.Packages
import NxObject.Titles
