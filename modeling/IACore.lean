import IACore.Library.CyclicMemory
import IACore.RingBuffer.Equiv.Fifo
import IACore.RingBuffer.Equiv.Spsc
import IACore.RingBuffer.Equiv.Offsets
import IACore.IPC.Equiv.Receive
import IACore.IPC.Equiv.Manager
import IACore.AsyncOps.Equiv.Lifetime
import IACore.AsyncOps.Equiv.Order
import IACore.AsyncOps.Equiv.WakeUp
import IACore.AsyncOps.Equiv.Termination
import IACore.AsyncOps.Equiv.Shutdown
import IACore.AsyncOps.Equiv.Deadlock
import IACore.StreamWriter.Equiv.FileBacked
import IACore.StreamWriter.Equiv.InMemory
import IACore.StreamWriter.Equiv.FixedBuffer
import IACore.StreamReader.Equiv.Roundtrip
import IACore.StreamReader.Equiv.Bounds
import IACore.DataOps.Equiv.Burst
import IACore.DataOps.Equiv.Crc32
import IACore.DataOps.Equiv.Compression
import IACore.DataOps.Equiv.Fnv1a
import IACore.DataOps.Equiv.Growth
import IACore.DataOps.Equiv.HashDetection
import IACore.DataOps.Equiv.XxHash
import IACore.DataOps.Equiv.Zstd
import IACore.Environment.Equiv.Variables
import IACore.StringOps.Equiv.Base64
import IACore.IPC.Equiv.Descriptor
import IACore.IPC.Equiv.Callbacks
import IACore.IPC.Equiv.Ownership
import IACore.IPC.Equiv.SpawnNode
import IACore.IPC.Equiv.Endpoints
import IACore.ProcessOps.Equiv.LineBuffer
import IACore.ProcessOps.Equiv.Inheritance
import IACore.ProcessOps.Equiv.Spawn
import IACore.ProcessOps.Equiv.Terminate
import IACore.Utils.Equiv.Hex
import IACore.HttpCommon.Equiv.UrlCodec
import IACore.IPC.Equiv.Format
import IACore.StreamReader.Equiv.Files
import IACore.StreamReader.Equiv.Objects
import IACore.FileOps.Equiv.Backing
import IACore.FileOps.Equiv.BinaryFile
import IACore.FileOps.Equiv.Frame
import IACore.FileOps.Equiv.Mapping
import IACore.RingBuffer.Equiv.Attach
import IACore.IPC.Equiv.SpawnFailure
import IACore.IPC.Equiv.Connect
import IACore.XML.Equiv.Escape
import IACore.HttpClient.Equiv.Headers
import IACore.HttpClient.Equiv.Requests
import IACore.IPC.Equiv.Channel
