import OldPart.Lib.MachineInt
import OldPart.Lib.Cuts
import OldPart.Lib.Pull
import OldPart.Lib.Cbc
import OldPart.Lib.Machine
import OldPart.Lib.Table
import OldPart.Lib.Packed
import OldPart.Lib.Framing
import OldPart.Proto.Schema
import OldPart.Proto.Buffer
import OldPart.Proto.Read
import OldPart.Proto.ReadCorrect
import OldPart.Proto.ReaderCuts
import OldPart.Proto.ReadPart
import OldPart.Proto.ReaderControl
import OldPart.Proto.Layout
import OldPart.Proto.WriteCorrect
import OldPart.Proto.WriterChunks
import OldPart.Serializer.OMessage
import OldPart.Serializer.DfcCrypto
import OldPart.Serializer.Serialize
import OldPart.Serializer.Deserialize
import OldPart.Serializer.DeserializeCorrect
import OldPart.Serializer.RoundTrip
import OldPart.Serializer.Acceptance
import OldPart.Serializer.EncryptRoundTrip
import OldPart.Serializer.ZLibContract
import OldPart.Serializer.CompressCorrect
import OldPart.Serializer.InflateCorrect
import OldPart.Serializer.StoredZlib
import OldPart.Serializer.CompressWhole
import OldPart.Serializer.CompressRoundTrip
import OldPart.Serializer.InflateChunks
import OldPart.Serializer.Termination
import OldPart.Serializer.Numbering
import OldPart.Serializer.Streams
import OldPart.Serializer.Registry
import OldPart.Socket.TSocket
import OldPart.Socket.WriteOrder
import OldPart.Socket.StopCause
import OldPart.Socket.Reassembly
import OldPart.Socket.Wire
import OldPart.Socket.Reception
import OldPart.Socket.Delivery
import OldPart.Socket.Senders
import OldPart.Socket.ResponseGuard
import OldPart.Server.NameMapping
import OldPart.Server.TServer
import OldPart.Serializer.AesDecrypt
import OldPart.Proto.ReaderKeeps
import OldPart.Serializer.TargetObject
import OldPart.Proto.Fill
import OldPart.Serializer.Residue
import OldPart.Lib.Attempt
import OldPart.Lib.Context
import OldPart.Lib.Ring
import OldPart.Opc.FileSystem
import OldPart.Opc.GrepFile
import OldPart.Opc.GrepCorrect
import OldPart.Opc.GrepContext
import OldPart.Opc.FileHandler
import OldPart.Opc.OPCBasic
import OldPart.Opc.HealthyTrees
import OldPart.Opc.Reported
import OldPart.Opc.MultiGrep
import OldPart.Opp.IOStream
import OldPart.Lib.Replace
import OldPart.Opc.ReplaceVisit
import OldPart.Opc.RewriteInPlace
import OldPart.Common.SPSCArray
import OldPart.Common.SPSCSteps
import OldPart.Common.SPSCFifo
import OldPart.Common.SPSCWrap
import OldPart.Lib.Pattern
import OldPart.Opc.Wildcard
import OldPart.Opc.WildcardCorrect
import OldPart.Opc.Walk
import OldPart.Opc.PatternSearch
import OldPart.Opc.Links
import OldPart.Opc.CopyFiles
import OldPart.Opc.FilteredWalk
import OldPart.Serializer.AesOverloads
import OldPart.Common.SPSCThreads
import OldPart.Socket.Channel
import OldPart.Socket.OneMessage
import OldPart.Socket.Progress
import OldPart.Common.Md5
import OldPart.Common.Md5Correct
import OldPart.Common.Md5Text
import OldPart.Discovery.Discover
import OldPart.Discovery.Network
import OldPart.Opc.ProtoFields
import OldPart.Socket.Session
import OldPart.Lib.Turns
import OldPart.Server.Lifetime
import OldPart.Lib.Cfb
import OldPart.Opc.FileType
import OldPart.Serializer.BlowFish
import OldPart.Server.Routing
