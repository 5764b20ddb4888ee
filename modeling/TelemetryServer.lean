import TelemetryServer.Bench.EndToEnd
import TelemetryServer.Config.Grammar
import TelemetryServer.Ipc.BatchSpec
import TelemetryServer.Ipc.Estimate
import TelemetryServer.Ipc.RingSystem
import TelemetryServer.Lib.Replay
import TelemetryServer.Main.Shutdown
import TelemetryServer.Main.StartupSpec
import TelemetryServer.Protocol.CodecSpec
import TelemetryServer.Reader.Batching
import TelemetryServer.Reader.Stored
import TelemetryServer.Server.InputBuffer
import TelemetryServer.Server.Lifetime
import TelemetryServer.Server.Signals
import TelemetryServer.Storage.AppendLoop
import TelemetryServer.Storage.ArchiveNames
import TelemetryServer.Storage.Recovery
