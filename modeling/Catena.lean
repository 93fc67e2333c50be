import Catena.Store.Device
import Catena.Store.RoundTrip
import Catena.Store.Constraints
import Catena.Store.WriteFrame
import Catena.Store.ReadFrame
import Catena.Store.AllOrNothing
import Catena.Store.Limits
import Catena.Store.RangeConstraint
import Catena.Store.PathGrammar
import Catena.Store.BadRequests
import Catena.Store.OverlapText
import Catena.Store.Subtree
import Catena.Store.LanguagePacks
import Catena.Rpc.ConnectionQueue
import Catena.Rpc.PushUpdates
import Catena.Rpc.Subscriptions
import Catena.Rpc.DeviceStream
import Catena.Rpc.Framing
import Catena.Rpc.Compression
import Catena.Go.ValueRoundTrip
import Catena.Go.Asset
import Catena.Go.ParamRequests
import Catena.Go.QueueSafety
import Catena.Go.Slots
import Catena.Go.Transports
import Catena.Go.DeviceJson
import Catena.Go.Authorization
import Catena.Store.Expansion
import Catena.Rpc.ParamInfoExact
import Catena.Codegen.Imports
import Catena.Codegen.Values
import Catena.Codegen.Names
import Catena.Codegen.Serdes
import Catena.Go.Heartbeat
import Catena.Rpc.Heartbeat
import Catena.Java.ParamInfoManager
import Catena.Common.PathCursor
import Catena.Common.Base64
import Catena.Grpc.Devices
import Catena.Grpc.Answers
import Catena.Grpc.WholeDevice
import Catena.Grpc.SubscriptionStream
import Catena.Grpc.CommandStream
import Catena.Grpc.ObjectStream
import Catena.Framework.EventStream
import Catena.Framework.Handlers
import Catena.Framework.Http
import Catena.Framework.Shutdown
import Catena.Rest.Answers
import Catena.Rest.Client
import Catena.Rest.CommandStream
import Catena.Rest.DeviceStream
import Catena.Rest.Shutdown
import Catena.Rest.Devices
import Catena.Rest.SubscriptionStream
import Catena.Rest.Responses
