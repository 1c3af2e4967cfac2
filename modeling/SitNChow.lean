import SitNChow.Audio.Framing
import SitNChow.Audio.Intercom
import SitNChow.Audio.Player
import SitNChow.Audio.Receive
import SitNChow.Audio.Reception
import SitNChow.Audio.Restart
import SitNChow.Audio.Solo
import SitNChow.Boot
import SitNChow.CJson
import SitNChow.Camera.Assembly
import SitNChow.Camera.Capture
import SitNChow.Camera.Delivery
import SitNChow.Camera.Dma
import SitNChow.Camera.Driver
import SitNChow.Camera.Filling
import SitNChow.Camera.Owners
import SitNChow.Clock
import SitNChow.Dispenser
import SitNChow.Feeder.Commands
import SitNChow.Feeder.Drive
import SitNChow.Feeder.Finish
import SitNChow.Feeder.Model
import SitNChow.Feeder.Records
import SitNChow.Feeder.Steps
import SitNChow.Feeder.Stream
import SitNChow.Feeder.Workflow
import SitNChow.Firebase.OutParam
import SitNChow.Firebase.Response
import SitNChow.Firebase.Streaming
import SitNChow.Firebase.Token
import SitNChow.Firebase.Transfer
import SitNChow.Firebase.Whole
import SitNChow.FrameOwners
import SitNChow.Frames
import SitNChow.Grams
import SitNChow.Http
import SitNChow.HttpOwners
import SitNChow.Jpeg.Accept
import SitNChow.Jpeg.Coder
import SitNChow.Jpeg.Decoder
import SitNChow.Jpeg.Encoder
import SitNChow.Jpeg.Header
import SitNChow.Jpeg.Picture
import SitNChow.Jpeg.Pixels
import SitNChow.Jpeg.Prepare
import SitNChow.Jpeg.Reader
import SitNChow.Jpeg.RoundTrip
import SitNChow.Jpeg.Scan
import SitNChow.Jpeg.Shift
import SitNChow.Jpeg.Tables
import SitNChow.Jpeg.Transform
import SitNChow.Jpeg.Writer
import SitNChow.Kit.Bits
import SitNChow.Kit.Block
import SitNChow.Kit.Calendar
import SitNChow.Kit.Heap
import SitNChow.Kit.Json
import SitNChow.Kit.Lease
import SitNChow.Kit.Line
import SitNChow.Kit.Machine
import SitNChow.Kit.Memory
import SitNChow.Kit.Mutex
import SitNChow.Kit.Pool
import SitNChow.Kit.PrefixCode
import SitNChow.Kit.Recall
import SitNChow.Kit.Ring
import SitNChow.Kit.Streak
import SitNChow.Kit.Trapezoid
import SitNChow.Kit.Window
import SitNChow.Motor
import SitNChow.Ramp
import SitNChow.Schedule.Parse
import SitNChow.Schedule.Runner
import SitNChow.Schedule.Runs
import SitNChow.Schedule.Task
import SitNChow.Sitting
import SitNChow.Tof.Correction
import SitNChow.Tof.Init
import SitNChow.Tof.Presence
import SitNChow.Tof.Sensor
import SitNChow.Wifi
import SitNChow.Kit.Fragments
import SitNChow.Socket.Client
import SitNChow.Socket.Messages
