import Prospero.Lib.Bytes
import Prospero.Lib.Extents
import Prospero.Lib.Buffer
import Prospero.Lib.Reader
import Prospero.Lib.Footprint
import Prospero.Status
import Prospero.Memory.Align
import Prospero.Memory.Planner
import Prospero.Memory.PlannerSound
import Prospero.Lib.Spans
import Prospero.Memory.LivePeak
import Prospero.Tensor
import Prospero.Protocol.Wire
import Prospero.Protocol.Connection
import Prospero.Protocol.Poll
import Prospero.Protocol.Streams
import Prospero.Protocol.Negotiation
import Prospero.Protocol.Pipe
import Prospero.Protocol.Message
import Prospero.Protocol.Desktop
import Prospero.Ir.Program
import Prospero.Ir.Codec
import Prospero.Graph.Graph
import Prospero.Graph.Built
import Prospero.Graph.TopoSort
import Prospero.Graph.Bridge
import Prospero.Graph.RoundTrip
import Prospero.Scheduler.RefOps
import Prospero.Scheduler.Scheduler
import Prospero.Scheduler.Execute
import Prospero.Scheduler.Accounting
import Prospero.Lib.Arrays
import Prospero.Cpu.RefOps
import Prospero.Cpu.OptOps
import Prospero.Cpu.Meaning
import Prospero.Cpu.OptLoops
import Prospero.Cpu.Backends
import Prospero.Models.Tokenizer
import Prospero.Models.TokenizerCodec
import Prospero.Models.Quantize
import Prospero.Pai.Container
import Prospero.Models.Model
import Prospero.Models.Packed
import Prospero.Models.LoadSafe
import Prospero.Models.Generate
import Prospero.Models.ContainerBuild
import Prospero.Pai.Codec
import Prospero.Adapters.Gguf
import Prospero.Adapters.GgufSafe
import Prospero.Adapters.Vocabulary
import Prospero.Lib.Lz
import Prospero.Compression.CopyMatch
import Prospero.Lib.Packets
import Prospero.Gpu.Pm4
import Prospero.Gpu.Pm4Stream
import Prospero.Lib.Machine
import Prospero.Gpu.HostRef
import Prospero.Gpu.HostStream
import Prospero.Gpu.HostCalls
import Prospero.Gpu.HostSafe
import Prospero.Gateway.Http
import Prospero.Lib.Rfc8259
import Prospero.Gateway.Json
import Prospero.Gateway.JsonLeaves
import Prospero.Gateway.JsonPool
import Prospero.Gateway.JsonGrammar
import Prospero.Gateway.JsonWriter
import Prospero.Gateway.Remote
import Prospero.Gateway.RemoteRelay
import Prospero.Gateway.JsonTexts
import Prospero.Lib.Crc
import Prospero.Protocol.FrameCodec
import Prospero.Protocol.Integrity
import Prospero.Protocol.DesktopClient
import Prospero.Lib.Stores
import Prospero.Protocol.Payloads
import Prospero.Lib.Chains
import Prospero.Lib.Dyadic
import Prospero.Lib.Words
import Prospero.Memory.Buddy
import Prospero.Memory.BuddyBlocks
import Prospero.Memory.BuddySteps
import Prospero.Memory.BuddyRuns
import Prospero.Cache.KvCache
import Prospero.Adapters.GgufLookup
import Prospero.Lib.Sweeps
import Prospero.Adapters.GgufDequant
import Prospero.Adapters.GgufDequantSafe
import Prospero.Models.QuantExact
import Prospero.Models.QuantAccuracy
import Prospero.Models.Optimize
import Prospero.Models.OptimizeSound
import Prospero.Lib.Lexing
import Prospero.Models.Importer
import Prospero.Models.Description
import Prospero.Models.ImporterSound
import Prospero.Models.DescriptionPrint
import Prospero.Lib.Slots
import Prospero.Protocol.SessionTable
import Prospero.Scheduler.Sessions
import Prospero.Gateway.WriteBuffer
import Prospero.Gateway.ChatPrompt
import Prospero.Gateway.ObjectExtraction
import Prospero.Gateway.StopSequences
import Prospero.Gateway.Framing
import Prospero.Gateway.Unfinished
import Prospero.Models.SectionCodecs
import Prospero.Lib.Binary64
import Prospero.Lib.NumberText
import Prospero.Gateway.NumberValues
import Prospero.Gateway.NumberReading
import Prospero.Gateway.ChatRequest
import Prospero.Gateway.ObjectRun
import Prospero.Gateway.SamplingChecks
import Prospero.Gateway.SamplingServed
import Prospero.Lib.XorShift
import Prospero.Models.Sampler
import Prospero.Lib.ExchangeSort
import Prospero.Models.SamplerTruncation
import Prospero.Lib.Masks
import Prospero.Platform.Gvmspace
import Prospero.Platform.GvmspacePatch
import Prospero.Memory.BuddyMarks
import Prospero.Memory.BuddyDoubleFree
import Prospero.Lib.Contents
import Prospero.Models.LoadedWords
import Prospero.Graph.BridgeOps
import Prospero.Models.Embed
import Prospero.Models.EmbedRows
import Prospero.Models.EmbedAgrees
import Prospero.Lib.Emission
import Prospero.Compression.Decoder
import Prospero.Compression.DecoderBounds
import Prospero.Compression.DecoderRuns
import Prospero.Compression.StreamRuns
import Prospero.Compression.Encoder
import Prospero.Compression.EncoderBounds
import Prospero.Compression.FirstQuantum
import Prospero.Lib.SharedStore
import Prospero.Scheduler.StepOrder
import Prospero.Scheduler.PlannedRun
import Prospero.Lib.Relocation
import Prospero.Scheduler.RelocatedKernels
import Prospero.Scheduler.RelocatedSteps
import Prospero.Scheduler.ExecutedRun
import Prospero.Scheduler.EpochRun
import Prospero.Lib.Determined
import Prospero.Models.SessionHistory
import Prospero.Models.SessionIndependence
import Prospero.Models.SessionScripts
