import FluxBridge.Atomic.Program
import FluxBridge.Atomic.System
import FluxBridge.Atomic.Logic
import FluxBridge.Atomic.Progress
import FluxBridge.Atomic.History
import FluxBridge.Types
import FluxBridge.Flux.Words
import FluxBridge.Flux.Pll
import FluxBridge.Flux.PllLock
import FluxBridge.Flux.PllBounds
import FluxBridge.Flux.Rotation
import FluxBridge.Flux.RotationAction
import FluxBridge.Flux.LeastBest
import FluxBridge.Flux.Join
import FluxBridge.Flux.Gaps
import FluxBridge.Flux.IndexCut
import FluxBridge.Flux.Scan
import FluxBridge.Flux.SyncWindow
import FluxBridge.Flux.SectorScan
import FluxBridge.Flux.CleanVerdict
import FluxBridge.Flux.TurnedScan
import FluxBridge.Flux.TurningDisk
import FluxBridge.Transport.Wire
import FluxBridge.Transport.Polls
import FluxBridge.Transport.Passages
import FluxBridge.Transport.Numerals
import FluxBridge.Transport.DirectFtdi
import FluxBridge.Transport.StableSort
import FluxBridge.Device.Session
import FluxBridge.Device.Greaseweazle
import FluxBridge.Device.TickCodec
import FluxBridge.Device.StreamPrefix
import FluxBridge.Device.Loopback
import FluxBridge.Device.IndexedCapture
import FluxBridge.Device.DrawBridge
import FluxBridge.Device.SuperCardPro
import FluxBridge.Device.ImmediateWindow
import FluxBridge.Device.Replay
import FluxBridge.Device.CounterExpansion
import FluxBridge.Device.WriteEncodings
import FluxBridge.Device.WriteRejection
import FluxBridge.Device.DensityAgreement
import FluxBridge.Device.StreamStop
import FluxBridge.Device.GreaseweazleHost
import FluxBridge.Device.TickArithmetic
import FluxBridge.Device.MotorDelay
import FluxBridge.Device.SelectLine
import FluxBridge.Device.ReplyPipe
import FluxBridge.Device.ReplyCorrelation
import FluxBridge.Device.GrowingCapture
import FluxBridge.Device.ChunkedDrain
import FluxBridge.Device.WriteTranscripts
import FluxBridge.Device.ReadTranscripts
import FluxBridge.Device.MarkedCodes
import FluxBridge.Device.MarkedCounters
import FluxBridge.Device.SuperCardProOpening
import FluxBridge.Device.DrawBridgeOpening
import FluxBridge.Device.Discovery
import FluxBridge.Controller.State
import FluxBridge.Controller.Worker
import FluxBridge.Controller.Bridge
import FluxBridge.Controller.Actions
import FluxBridge.Controller.Frames
import FluxBridge.Controller.Positioning
import FluxBridge.Controller.Placement
import FluxBridge.Controller.PlacementArithmetic
import FluxBridge.Controller.CaptureCache
import FluxBridge.Controller.Freshness
import FluxBridge.Controller.WriteOutcomes
import FluxBridge.Controller.DeviceCalls
import FluxBridge.Controller.WriteOrder
import FluxBridge.Controller.MotorWish
import FluxBridge.Controller.LostDevice
import FluxBridge.Controller.ErrorCount
import FluxBridge.Controller.PartialCapture
import FluxBridge.Controller.Dropping
import FluxBridge.Controller.Demand
import FluxBridge.Controller.Provenance
import FluxBridge.Controller.Reports
import FluxBridge.Controller.Finality
