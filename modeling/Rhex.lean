import Rhex.Lib.Exchange
import Rhex.Lib.Cauchy
import Rhex.Lib.Memory
import Rhex.Gf256
import Rhex.InvertMat
import Rhex.Fec
import Rhex.Packet
import Rhex.StreamTx
import Rhex.StreamRx
import Rhex.VideoLink
import Rhex.Restart
import Rhex.Capture
import Rhex.Lib.Serial
import Rhex.Lib.Run
import Rhex.Rc
import Rhex.Lib.Window
import Rhex.Telemetry
import Rhex.TelemetryLink
import Rhex.RcLink
import Rhex.Lib.Traced
import Rhex.Radiotap
import Rhex.StreamInterface
import Rhex.RadiotapFields
import Rhex.Lib.Align
import Rhex.Lib.Placed
import Rhex.SharedMem
import Rhex.ShmServices
import Rhex.Boot
import Rhex.Motion
import Rhex.Parking
import Rhex.Lib.Ring
import Rhex.Log
import Rhex.LogRun
import Rhex.Netlink
import Rhex.LinkList
import Rhex.NetlinkCalls
import Rhex.NetlinkConfirm
import Rhex.Mavlink
import Rhex.Control
import Rhex.ControlStream
import Rhex.Gps
import Rhex.GpsFix
import Rhex.SkipFec
import Rhex.WfbFrames
import Rhex.WfbTxInit
import Rhex.Segmentation
import Rhex.TelemetryRing
import Rhex.FilteredFrames
import Rhex.StreamHeader
import Rhex.GpsLines
import Rhex.Lib.Crc
import Rhex.Lib.CrcErrors
import Rhex.MavlinkCrc
import Rhex.ShmLayout
import Rhex.LogBounds
import Rhex.NetlinkAttrs
import Rhex.TelemetryOrder
import Rhex.RcAccounting
import Rhex.NetlinkFamily
import Rhex.StreamStats
import Rhex.TelemetryCrc
import Rhex.Gait
import Rhex.LegTurn
import Rhex.Tripod
import Rhex.LegSpeed
import Rhex.CanTable
import Rhex.StreamBuffer
import Rhex.I2c
import Rhex.Sensors
import Rhex.Lib.CString
import Rhex.Nmea
import Rhex.NmeaScan
import Rhex.NmeaFields
import Rhex.NmeaNumber
import Rhex.NmeaSentence
import Rhex.NmeaPosition
import Rhex.Watchdog
import Rhex.VideoAir
import Rhex.Ports
import Rhex.Robot
import Rhex.Lib.Once
import Rhex.TelemetryAir
