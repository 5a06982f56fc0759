import MqttEngine.Lib.Checked
import MqttEngine.Lib.BoundedVec
import MqttEngine.Lib.Cursor
import MqttEngine.Lib.Reader
import MqttEngine.Lib.Base128
import MqttEngine.Lib.Effect
import MqttEngine.Lib.Segment
import MqttEngine.Packet.Types
import MqttEngine.Packet.Varint
import MqttEngine.Packet.Properties
import MqttEngine.Packet.Codec
import MqttEngine.Packet.Wire
import MqttEngine.Packet.RoundTrip
import MqttEngine.Packet.Safety
import MqttEngine.Packet.Framing
import MqttEngine.Embedded.Inflight
import MqttEngine.Embedded.Client
import MqttEngine.Embedded.Sending
import MqttEngine.Embedded.Publishing
import MqttEngine.Embedded.System
import MqttEngine.Embedded.OutgoingFrames
import MqttEngine.Embedded.Tracking
import MqttEngine.Embedded.Receiving
import MqttEngine.Embedded.ReceivePath
import MqttEngine.Embedded.ExactlyOnce
import MqttEngine.Core.State
import MqttEngine.Packet.OwnFrame
import MqttEngine.Embedded.PacketIds
import MqttEngine.Embedded.Batching
import MqttEngine.Lib.Assoc
import MqttEngine.Lib.Mpsc
import MqttEngine.Tokio.Types
import MqttEngine.Tokio.Registry
import MqttEngine.Tokio.Pruning
import MqttEngine.Tokio.EventLoop
import MqttEngine.Tokio.System
import MqttEngine.Tokio.Sending
import MqttEngine.Tokio.Requests
import MqttEngine.Tokio.Stopping
import MqttEngine.Tokio.PendingIds
import MqttEngine.Tokio.Deliveries
import MqttEngine.Tokio.ReasonCodes
import MqttEngine.Tokio.Handshakes
import MqttEngine.Embedded.Acknowledgements
import MqttEngine.Core.Inflight
import MqttEngine.Storage.Mem
import MqttEngine.Tokio.Stream
import MqttEngine.Tokio.Recovery
import MqttEngine.Tokio.InflightPublishes
import MqttEngine.Tokio.ResendOrder
import MqttEngine.Tokio.Waiters
import MqttEngine.Lib.IdleTimer
import MqttEngine.Tokio.KeepAlive
import MqttEngine.Tokio.Client
import MqttEngine.Tokio.OfflineQueue
import MqttEngine.Tokio.Reading
import MqttEngine.Tokio.Chunks
import MqttEngine.Packet.PropertyBlocks
import MqttEngine.Packet.EncoderSafety
import MqttEngine.Packet.BufferRoom
import MqttEngine.Packet.Iteration
import MqttEngine.Packet.Reencoding
import MqttEngine.Packet.Truncation
import MqttEngine.Embedded.StreamLengths
import MqttEngine.Lib.Utf8
import MqttEngine.Tokio.SensorData
import MqttEngine.Tokio.Topics
import MqttEngine.ReceiveSafety
import MqttEngine.PacketIdCycle
import MqttEngine.Tokio.HandOver
import MqttEngine.Embedded.BatchEquivalence
import MqttEngine.Embedded.StreamPublish
import MqttEngine.Embedded.DroppedEvents
import MqttEngine.Embedded.ConnectionStates
import MqttEngine.Embedded.Datagrams
import MqttEngine.Tokio.Reordering
import MqttEngine.Packet.QosBits
import MqttEngine.Tokio.FilterGrammar
import MqttEngine.Core.Lifecycles
import MqttEngine.Tokio.StreamEnd
import MqttEngine.Tokio.SystemTopics
import MqttEngine.Lib.SlidingWindow
import MqttEngine.Tokio.Journal
import MqttEngine.Bridges.Web
import MqttEngine.Tokio.Backoff
import MqttEngine.Embedded.KeepAlive
import MqttEngine.Lib.Broadcast
import MqttEngine.Lib.Decimal
import MqttEngine.Lib.Multipart
import MqttEngine.Bridges.Hub
import MqttEngine.Bridges.Fanout
import MqttEngine.Bridges.Emission
import MqttEngine.Bridges.Mjpeg
import MqttEngine.Bridges.Sse
import MqttEngine.Tokio.Statuses
import MqttEngine.Packet.UniqueDecoding
import MqttEngine.Packet.Conversation
import MqttEngine.Embedded.Conversation
import MqttEngine.Tokio.Saying
import MqttEngine.Tokio.Conversation
import MqttEngine.Tokio.Uri
import MqttEngine.Tokio.StreamDelivery
import MqttEngine.Bridges.Slint
import MqttEngine.Core.Actions
