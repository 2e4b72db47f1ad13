import LatentMesh.Lib.Bytes
import LatentMesh.Lib.Crc
import LatentMesh.AirCore.Error
import LatentMesh.AirCore.Crc32c
import LatentMesh.AirCore.Wire
import LatentMesh.AirC.Common
import LatentMesh.AirC.Frame
import LatentMesh.AirC.FrameAgreement
import LatentMesh.Lib.Hamming
import LatentMesh.Lib.Trellis
import LatentMesh.Lib.Convolutional
import LatentMesh.Lib.Interleave
import LatentMesh.Lib.SortedMap
import LatentMesh.AirCore.Fec
import LatentMesh.AirCore.Viterbi
import LatentMesh.AirCore.Correction
import LatentMesh.AirCore.Semantic
import LatentMesh.AirRadio.Phy
import LatentMesh.AirRadio.Burst
import LatentMesh.AirC.Fec
import LatentMesh.AirC.Bits
import LatentMesh.AirC.FecAgreement
import LatentMesh.AirCore.SemanticReplay
import LatentMesh.Lib.Chunks
import LatentMesh.Lib.Transition
import LatentMesh.AirCore.Fragment
import LatentMesh.AirCore.Replay
import LatentMesh.AirCore.Envelope
import LatentMesh.AirRadio.Config
import LatentMesh.AirRadio.Transmitter
import LatentMesh.AirRadio.Receiver
import LatentMesh.AirCore.Reassembly
import LatentMesh.AirRadio.Ingest
import LatentMesh.AirRadio.Delivery
import LatentMesh.AirRadio.Replica
import LatentMesh.AirRadio.Availability
import LatentMesh.AirCore.ReplayLog
import LatentMesh.AirC.FrameCodec
import LatentMesh.AirCore.SemanticCanonical
import LatentMesh.AirCore.EnvelopeCodec
import LatentMesh.AirRadio.Stream
import LatentMesh.AirRadio.StreamAgreement
import LatentMesh.AirRadio.Slicing
import LatentMesh.Lib.Buffer
import LatentMesh.Lib.Table
import LatentMesh.AirC.Air
import LatentMesh.AirC.Rx
import LatentMesh.AirC.ReplayAgreement
import LatentMesh.AirC.Ingest
import LatentMesh.AirC.AtMostOnce
import LatentMesh.AirRadio.Gate
import LatentMesh.AirC.Interleaver
import LatentMesh.AirC.Tx
import LatentMesh.AirC.BlockCodec
import LatentMesh.AirC.Envelope
import LatentMesh.AirC.Transfer
import LatentMesh.AirC.Assembly
import LatentMesh.AirC.Loopback
import LatentMesh.AirC.Fragmentation
import LatentMesh.AirC.Integrity
import LatentMesh.Lib.Keyed
import LatentMesh.AirCore.Contexts
import LatentMesh.AirCore.Interleaving
import LatentMesh.AirRadio.Queue
import LatentMesh.Meshtastic.Error
import LatentMesh.Meshtastic.Framing
import LatentMesh.Meshtastic.FramingAgreement
import LatentMesh.Meshtastic.Resync
import LatentMesh.Meshtastic.Protobuf
import LatentMesh.Meshtastic.ProtobufCodec
import LatentMesh.Meshtastic.Data
import LatentMesh.Meshtastic.Adapter
import LatentMesh.Meshtastic.Receiver
import LatentMesh.Meshtastic.Pipeline
import LatentMesh.Meshtastic.Redelivery
import LatentMesh.Lib.Incremental
import LatentMesh.Core.LatentFrame
import LatentMesh.Stream.Error
import LatentMesh.Stream.SerdeJson
import LatentMesh.Stream.Codec
import LatentMesh.Stream.Chunking
import LatentMesh.Lib.Duplex
import LatentMesh.Stream.Transport
import LatentMesh.Stream.Progress
import LatentMesh.Core.Authority
import LatentMesh.Core.Floats
import LatentMesh.Gate.Admission
import LatentMesh.Stream.Sequence
import LatentMesh.Stream.Escalation
import LatentMesh.Stream.Receiver
import LatentMesh.Stream.Account
import LatentMesh.Esp32.Packet
import LatentMesh.Esp32.Policy
import LatentMesh.Esp32.Identification
import LatentMesh.Esp32.Kiss
import LatentMesh.Esp32.KissUart
import LatentMesh.Lib.Bitmap
import LatentMesh.Esp32.BleFrag
import LatentMesh.Esp32.BleTransfer
import LatentMesh.Reasoning.Context
import LatentMesh.Bridge.Decode
import LatentMesh.Lib.Lines
import LatentMesh.Bridge.Wire
import LatentMesh.Bridge.Federation
import LatentMesh.Bridge.Authenticity
import LatentMesh.Memory.Record
import LatentMesh.Memory.Store
import LatentMesh.Memory.Tiers
import LatentMesh.Evolve.Topology
import LatentMesh.Evolve.Mutation
import LatentMesh.Evolve.Darwin
import LatentMesh.Evolve.Constitution
import LatentMesh.AirCore.Atomicity
import LatentMesh.Lib.Base128
import LatentMesh.Meshtastic.Varint
import LatentMesh.Meshtastic.Exactness
import LatentMesh.Gate.Specification
import LatentMesh.Lib.Sections
import LatentMesh.Lib.Guards
import LatentMesh.Reasoning.Compat
import LatentMesh.Reasoning.Envelope
import LatentMesh.Reasoning.EnvelopeCodec
import LatentMesh.Lib.Ranking
import LatentMesh.Reasoning.SparseCodec
import LatentMesh.Reasoning.Budget
import LatentMesh.Reasoning.Effort
import LatentMesh.Lib.Selection
import LatentMesh.Reasoning.Routing
import LatentMesh.Harness.Routing
import LatentMesh.Harness.RoutingAgreement
import LatentMesh.AirC.Compaction
import LatentMesh.AirC.EnvelopeAgreement
import LatentMesh.AirC.Acceptance
import LatentMesh.AirC.TxAgreement
import LatentMesh.Runtime.Queue
import LatentMesh.Runtime.Interleaving
import LatentMesh.Lib.Decimal
import LatentMesh.Lib.JsString
import LatentMesh.Lib.Json
import LatentMesh.Harness.Canonical
import LatentMesh.Harness.Receipts
import LatentMesh.Harness.TamperEvidence
import LatentMesh.Harness.Genome
import LatentMesh.Harness.Admitted
import LatentMesh.Harness.Search
import LatentMesh.Harness.Cache
import LatentMesh.Harness.Champion
import LatentMesh.Esp32.KissGrammar
import LatentMesh.Memory.Recall
import LatentMesh.Lib.Rounding
import LatentMesh.Core.Binary32
import LatentMesh.Core.Binary32Order
import LatentMesh.Lib.Utf8
import LatentMesh.Federation.Confidence
import LatentMesh.Federation.Rule
import LatentMesh.Lib.Digits
import LatentMesh.Bridge.Bulletin
import LatentMesh.Lib.Calendar
import LatentMesh.Cognitum.Timestamp
import LatentMesh.Bridge.Mcp
import LatentMesh.Lib.Streak
import LatentMesh.Runtime.Breaker
import LatentMesh.Lib.Traverse
import LatentMesh.Core.Quantization
import LatentMesh.AirC.InterleaverAgreement
import LatentMesh.AirCore.SemanticHash
import LatentMesh.Lib.PrefixCode
import LatentMesh.Reasoning.Preimage
import LatentMesh.Lib.CrcDetection
import LatentMesh.AirC.ErrorDetection
import LatentMesh.Lib.Stutter
import LatentMesh.AirC.NoisyLink
import LatentMesh.AirC.BlockNoise
import LatentMesh.Lib.RandomizationTest
import LatentMesh.Gate.Causal
import LatentMesh.Federation.Model
import LatentMesh.Federation.Admission
import LatentMesh.Federation.Transport
import LatentMesh.Lib.Memo
import LatentMesh.Evolve.Fitness
import LatentMesh.Evolve.Verification
import LatentMesh.Evolve.Acceptance
import LatentMesh.AirRadio.Replica
