import Rnx.Store.Reuse
import Rnx.Region.CommitSafety
import Rnx.Region.Pool
import Rnx.Jupyter.Capture
import Rnx.Host.Revocation
import Rnx.Host.Publication
import Rnx.Native.CacheSafety
import Rnx.Code.Program
import Rnx.Columns.Drafts
import Rnx.Columns.Places
import Rnx.Columns.Sound
import Rnx.Http.Selection
import Rnx.Http.Tables
import Rnx.Columns.Kernels
import Rnx.Columns.Outputs
import Rnx.Columns.Blocks
import Rnx.Columns.Storage
import Rnx.Columns.Overflows
import Rnx.Columns.Faults
import Rnx.Columns.FirstFault
import Rnx.Columns.Reports
import Rnx.Host.Slots
import Rnx.Host.Handback
import Rnx.Jupyter.Peer
import Rnx.Jupyter.Transport
import Rnx.Jupyter.Credit
import Rnx.Jupyter.Connections
import Rnx.Jupyter.Publishing
import Rnx.Jupyter.Delivery
import Rnx.Jupyter.Accounts
import Rnx.Jupyter.Promises
import Rnx.Jupyter.Control
import Rnx.Jupyter.Html
import Rnx.Jupyter.Kernel
import Rnx.Jupyter.Courses
import Rnx.Jupyter.Turns
import Rnx.Jupyter.Loop
import Rnx.Jupyter.Handlers
import Rnx.Jupyter.Answers
import Rnx.Host.Numbering
import Rnx.Jupyter.Decoding
import Rnx.Web.Percent
import Rnx.Web.Form
import Rnx.Web.Accepted
import Rnx.Json.Agreement
import Rnx.Store.Contents
import Rnx.Store.Places
import Rnx.Host.Origins
import Rnx.Rune.FormatArgs
import Rnx.Rune.Literal
import Rnx.Host.Escapes
import Rnx.Host.Captures
import Rnx.Code.Charge
import Rnx.Code.Encode
import Rnx.Store.Evolution
import Rnx.Store.Permuting
import Rnx.Store.Guards
import Rnx.Store.Commit
import Rnx.Lib.Decision
import Rnx.Store.Comparison
import Rnx.Store.StructuralOrder
import Rnx.Exec.FastPaths
import Rnx.Store.Enumeration
import Rnx.Store.IndexedItems
import Rnx.Lib.Counting
import Rnx.Store.Counted
import Rnx.Store.Reversed
import Rnx.Store.ReversedItems
import Rnx.Project.Graph
import Rnx.Project.Wire
import Rnx.Project.Expansion
import Rnx.Lib.BigEndian
import Rnx.Lib.Framing
import Rnx.Lib.Bytes
import Rnx.Lib.Hex
import Rnx.Lib.Partition
import Rnx.Lib.PathText
import Rnx.Project.Fingerprint
import Rnx.Project.TreeFraming
import Rnx.Project.Snapshot
import Rnx.Project.TreeDigest
import Rnx.Project.Names
import Rnx.Project.Reuse
import Rnx.Project.NestedRoots
import Rnx.Project.Derivation
import Rnx.Lib.OrderedMap
import Rnx.Project.DepWire
import Rnx.Lib.Markup
import Rnx.Host.Present
import Rnx.Jupyter.Allowlist
import Rnx.Project.AssociationHex
import Rnx.Columns.Bits
import Rnx.Lib.Worklist
import Rnx.Region.Loops
import Rnx.Host.Mounts
import Rnx.Host.SourceMap
import Rnx.Project.CacheIdentity
import Rnx.Exec.Activation
import Rnx.Lib.Dataflow
import Rnx.Code.Validate
import Rnx.Region.FunctionTypes
import Rnx.Exec.Executor
import Rnx.Exec.Frames
import Rnx.Exec.Fuel
import Rnx.Exec.Windows
import Rnx.Region.Provenance
import Rnx.Exec.Compound
import Rnx.Region.Budget
import Rnx.Jupyter.Reading
import Rnx.Jupyter.Handshake
import Rnx.Host.Presented
import Rnx.Jupyter.Worker
import Rnx.Jupyter.Barriers
import Rnx.Jupyter.Protocol
