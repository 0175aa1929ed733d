import CoreC.Common.FanOut
import CoreC.Common.RateWindow
import CoreC.Common.Reconnect
import CoreC.Config.TagRoutes
import CoreC.Engine.AlertStream
import CoreC.Engine.AuditTrail
import CoreC.Engine.CacheOrder
import CoreC.Engine.DataBusClose
import CoreC.Engine.Deadband
import CoreC.Engine.Degrade
import CoreC.Engine.Discovery
import CoreC.Engine.JsonlFaults
import CoreC.Engine.OfflineRuns
import CoreC.Engine.Order
import CoreC.Engine.Pacing
import CoreC.Engine.Provenance
import CoreC.Engine.Registry
import CoreC.Engine.Rollback
import CoreC.Engine.Settlement
import CoreC.Engine.Transports
import CoreC.Executor.Reload
import CoreC.Modbus.ScaledWrite
import CoreC.Modbus.Steady
import CoreC.Mqtt.Authentic
import CoreC.Mqtt.Replay
import CoreC.Opcua.Driver
import CoreC.Rules.Match
import CoreC.S7.Reading
import CoreC.Transport.HttpPush
import CoreC.Transport.Notify
