import MqttBroker.Spec.PropertyRoundTrip
import MqttBroker.Spec.TopicMatch
import MqttBroker.Spec.RetainedMatch
import MqttBroker.Spec.TopicFilter
import MqttBroker.Spec.Framing
import MqttBroker.Spec.Segmentation
import MqttBroker.Spec.Delivery
import MqttBroker.Spec.ServerLoop
import MqttBroker.Spec.Inbound
import MqttBroker.Spec.Outbound
import MqttBroker.Spec.BeforeConnect
import MqttBroker.Spec.ClientIds
import MqttBroker.Spec.RejectedConnect
import MqttBroker.Spec.FanOut
import MqttBroker.Spec.Will
import MqttBroker.Spec.CommandQueue
import MqttBroker.Spec.Isolation
import MqttBroker.Spec.SubscribedClients
import MqttBroker.Spec.CleanStart
import MqttBroker.Spec.EventLoop
import MqttBroker.Spec.PollLoop
import MqttBroker.Spec.MessageFlow
import MqttBroker.Spec.PacketIds
import MqttBroker.Spec.Release
import MqttBroker.Spec.HeaderRoundTrip
import MqttBroker.Spec.ConnectParse
import MqttBroker.Spec.DecodedChain
import MqttBroker.Spec.OldContents
import MqttBroker.Spec.PropertyCopy
import MqttBroker.Spec.PublishPayload
import MqttBroker.Spec.SubscribeParse
import MqttBroker.Spec.BadSection
import MqttBroker.Spec.ExactMatch
import MqttBroker.Spec.HashOrder
import MqttBroker.Spec.LatestRequest
import MqttBroker.Spec.HeaderSizes
import MqttBroker.Spec.UnsubscribeAnswer
import MqttBroker.Spec.GrantedQoS
import MqttBroker.Spec.ReleasedMessage
import MqttBroker.Spec.ClearedTopics
import MqttBroker.Spec.CompleteWill
import MqttBroker.Spec.KeepAlive
import MqttBroker.Spec.WriteData
import MqttBroker.Spec.ClientCount
import MqttBroker.Native.PoolAllocator
import MqttBroker.Spec.PoolAllocator
import MqttBroker.Spec.PoolBlocks
import MqttBroker.Spec.SenderThreads
import MqttBroker.Spec.ServiceHandlers
import MqttBroker.Spec.ServiceTables
import MqttBroker.Spec.ServiceConnect
import MqttBroker.Spec.ServiceRefinement
import MqttBroker.Spec.ServiceRuns
import MqttBroker.Spec.ServiceIds
import MqttBroker.Spec.ServiceSessions
import MqttBroker.Spec.ServiceMessages
import MqttBroker.Spec.ServiceDelivery
import MqttBroker.Spec.OverdueClients
import MqttBroker.Spec.OutputStream
import MqttBroker.Spec.ServiceProgress
