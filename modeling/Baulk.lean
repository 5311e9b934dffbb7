import Baulk.Core.Wide
import Baulk.Core.ErrorCode
import Baulk.Core.Time
import Baulk.Core.Endian
import Baulk.Core.File
import Baulk.Core.Codecvt
import Baulk.Core.Narrow
import Baulk.Core.Characters
import Baulk.Core.Json
import Baulk.Core.JsonView
import Baulk.Core.Version
import Baulk.Core.Numbers
import Baulk.Support.ComponentWalk
import Baulk.Support.ReflectedCrc
import Baulk.Support.CrcErrors
import Baulk.Support.BitMatrix
import Baulk.Support.Loop
import Baulk.Support.Overwrite
import Baulk.Support.Replace
import Baulk.Support.Champion
import Baulk.Support.HashTable
import Baulk.Support.Fold
import Baulk.Support.Firsts
import Baulk.Support.Walk
import Baulk.Support.Wildcard
import Baulk.Core.FnMatch
import Baulk.Core.Patterns
import Baulk.Core.VersionText
import Baulk.Support.FileTree
import Baulk.Support.FileTreePaths
import Baulk.Fs.Flatten
import Baulk.Fs.Flattened
import Baulk.Fs.CleanCache
import Baulk.Archive.Msi
import Baulk.Archive.MsiProgress
import Baulk.Path.Windows
import Baulk.Path.Slash
import Baulk.Pkg.ReachablePath
import Baulk.Archive.Sanitize
import Baulk.Archive.SanitizedName
import Baulk.Archive.Symlink
import Baulk.Archive.Crc32
import Baulk.Archive.Crc32Table
import Baulk.Archive.Crc32Routines
import Baulk.Archive.Extraction
import Baulk.Archive.Contents
import Baulk.Archive.FileDestination
import Baulk.Archive.FileSystem
import Baulk.Pkg.Hash
import Baulk.Pkg.Package
import Baulk.Pkg.Lock
import Baulk.Pkg.Expand
import Baulk.Pkg.BucketUpdate
import Baulk.Pkg.Metadata
import Baulk.Pkg.NativeLinks
import Baulk.Pkg.Selection
import Baulk.Pkg.Install
import Baulk.Pkg.Update
import Baulk.Pkg.LinkMeta
import Baulk.Pkg.BucketLock
import Baulk.Pkg.BucketUpdater
import Baulk.Pkg.BucketModifier
import Baulk.Pkg.LinkTarget
import Baulk.Pkg.LinkStore
import Baulk.Pkg.LinkRuns
import Baulk.Pkg.Freeze
import Baulk.Env.Simulator
import Baulk.Env.Constructor
import Baulk.Env.LoadOrder
import Baulk.Env.Pwsh
import Baulk.Env.RequestOrder
import Baulk.Env.Block
import Baulk.Env.ChildBlock
import Baulk.Env.Flush
import Baulk.Zip.Directory
import Baulk.Zip.DirectoryHeader
import Baulk.Zip.ExtraFields
import Baulk.Zip.FieldRun
import Baulk.Zip.Zip64
import Baulk.Zip.FieldMetadata
import Baulk.Zip.Session
import Baulk.Zip.StreamCodecs
import Baulk.Zip.Decompress
import Baulk.Zip.SectionReader
import Baulk.Zip.Accounting
import Baulk.Zip.DecompressCrc
import Baulk.Zip.DecompressInput
import Baulk.Zip.PpmdSymbols
import Baulk.Zip.StaleInput
import Baulk.Zip.Reader
import Baulk.Zip.Shift
import Baulk.Zip.Relocation
import Baulk.Zip.Archive
import Baulk.Zip.Opening
import Baulk.Zip.Listing
import Baulk.Zip.EndRecord
import Baulk.Zip.EndAccess
import Baulk.Zip.Move
import Baulk.Zip.Extractor
import Baulk.Zip.Cancellation
import Baulk.Tar.Format
import Baulk.Tar.Pax
import Baulk.Tar.Reader
import Baulk.Tar.Cursor
import Baulk.Tar.FileReader
import Baulk.Tar.FileWriteTo
import Baulk.Tar.Progress
import Baulk.Tar.Stream
import Baulk.Tar.Round
import Baulk.Tar.Alignment
import Baulk.Tar.ErrorCodes
import Baulk.Tar.Extractor
import Baulk.Tar.Buffered
import Baulk.Tar.Decompressors
import Baulk.Tar.Decoding
import Baulk.Tar.XzDecoding
import Baulk.Tar.Compression
import Baulk.Tar.View
import Baulk.Tar.Termination
import Baulk.Tar.Members
import Baulk.Tar.Cancellation
import Baulk.Tar.Endings
import Baulk.Tar.SingleFile
import Baulk.Archive.Cancellation
import Baulk.Archive.Overwriting
import Baulk.Archive.Leftovers
import Baulk.Net.PartHash
import Baulk.Net.FilePart
import Baulk.Net.Resume
import Baulk.Net.PartIdentity
import Baulk.Net.WinGet
import Baulk.Net.Delivery
import Baulk.Net.Interrupted
import Baulk.Support.Transducer
import Baulk.Support.Transitions
import Baulk.Support.Sharing
import Baulk.Support.PathMap
import Baulk.Migrate.Layout
import Baulk.Migrate.Folders
import Baulk.Migrate.Execute
import Baulk.Mutex.FsMutex
import Baulk.Mutex.Migration
import Baulk.SelfUpdate.Executor
import Baulk.Pkg.Documents
import Baulk.Pkg.Digest
import Baulk.Support.Cut
import Baulk.Support.Lines
import Baulk.Net.Headers
import Baulk.Net.CaseInsensitive
import Baulk.Net.Body
import Baulk.Net.BestUrl
import Baulk.Net.FileName
import Baulk.Net.UrlDecode
import Baulk.Path.Child
import Baulk.Path.PathCat
import Baulk.Net.Destination
import Baulk.Support.Numeral
import Baulk.Support.Lookup
import Baulk.Tar.PaxRecords
import Baulk.Tar.Merging
import Baulk.Tar.MergeExact
import Baulk.Tar.Metadata
import Baulk.Tar.Preamble
import Baulk.Tar.Base256
import Baulk.Tar.Decimal
import Baulk.Tar.Octal
import Baulk.Tar.Ustar
import Baulk.Net.AskedName
import Baulk.Cli.ParseArgv
import Baulk.Cli.BaulkArgv
import Baulk.Cli.Wind
import Baulk.Cli.EscapeArgv
import Baulk.Cli.ExecArgv
import Baulk.Resource.Tokens
import Baulk.Resource.Statements
import Baulk.Resource.MakeResource
