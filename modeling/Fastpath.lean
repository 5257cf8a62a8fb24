import Fastpath.Lib.LittleEndian
import Fastpath.Lib.Exec
import Fastpath.Lib.Frames
import Fastpath.Lib.Splits
import Fastpath.Lib.Cuts
import Fastpath.Lib.SplitFirst
import Fastpath.Lib.Scan
import Fastpath.Lib.Segments
import Fastpath.Lib.Smear
import Fastpath.Lib.Fifo
import Fastpath.Lib.Steps
import Fastpath.Lib.Fanout
import Fastpath.Lib.Tally
import Fastpath.Lib.RefCounts
import Fastpath.Lib.Turns
import Fastpath.Lib.Broker
import Fastpath.Lib.Patterns
import Fastpath.Lib.OrderedMap
import Fastpath.Model.Storage
import Fastpath.Model.Sizes
import Fastpath.Model.Message
import Fastpath.Model.Codec
import Fastpath.Model.Nesting
import Fastpath.Model.Access
import Fastpath.Model.Arena
import Fastpath.Model.Memory
import Fastpath.Model.Subject
import Fastpath.Model.Tokens
import Fastpath.Model.Pool
import Fastpath.Model.Transport
import Fastpath.Model.Router
import Fastpath.Model.Listener
import Fastpath.Model.Resubscribe
import Fastpath.Model.Socket
import Fastpath.Model.SharedMemory
import Fastpath.Model.Doorbell
import Fastpath.Model.ServerTransport
import Fastpath.Model.Interprocess
import Fastpath.Model.Segment
import Fastpath.Model.Ring
import Fastpath.Model.Spsc
import Fastpath.Model.MultiRing
import Fastpath.Model.Semaphore
import Fastpath.Model.Dispatch
import Fastpath.Model.MessageDispatch
import Fastpath.Model.Registry
import Fastpath.Model.EventManager
import Fastpath.Model.RwLock
import Fastpath.Model.LockModes
import Fastpath.Model.Kqueue
import Fastpath.Model.Url
import Fastpath.Model.Session
import Fastpath.Model.Hub
import Fastpath.Model.Exposed
import Fastpath.Spec.Wire
import Fastpath.Spec.Extent
import Fastpath.Spec.Reach
import Fastpath.Spec.Traffic
import Fastpath.Proofs.Cursor
import Fastpath.Proofs.Made
import Fastpath.Proofs.Encode
import Fastpath.Proofs.Capacity
import Fastpath.Proofs.Sizes
import Fastpath.Proofs.Frame
import Fastpath.Proofs.RoundTrip
import Fastpath.Proofs.Built
import Fastpath.Proofs.Removal
import Fastpath.Proofs.Ordered
import Fastpath.Proofs.Codec
import Fastpath.Proofs.Typed
import Fastpath.Proofs.Equality
import Fastpath.Proofs.Buffer
import Fastpath.Proofs.Stream
import Fastpath.Proofs.Pool
import Fastpath.Proofs.Receive
import Fastpath.Proofs.Reconnect
import Fastpath.Proofs.Send
import Fastpath.Proofs.Socket
import Fastpath.Proofs.Forward
import Fastpath.Proofs.Subscriptions
import Fastpath.Proofs.Tokens
import Fastpath.Proofs.Wildcard
import Fastpath.Proofs.Observers
import Fastpath.Proofs.Traffic
import Fastpath.Proofs.EndToEnd
import Fastpath.Proofs.MessageDispatch
import Fastpath.Proofs.MessageLifetime
import Fastpath.Proofs.PubSub
import Fastpath.Proofs.Bounds
import Fastpath.Proofs.Exposed
import Fastpath.Proofs.Reach
import Fastpath.Proofs.Inside
import Fastpath.Proofs.Stable
import Fastpath.Proofs.Suffix
import Fastpath.Proofs.Distinct
import Fastpath.Proofs.Arena
import Fastpath.Proofs.Blocks
import Fastpath.Proofs.Alike
import Fastpath.Proofs.Nesting
import Fastpath.Proofs.Copies
import Fastpath.Proofs.Books
import Fastpath.Proofs.Reclaim
import Fastpath.Proofs.Outcomes
import Fastpath.Proofs.Progress
import Fastpath.Proofs.Agreement
import Fastpath.Proofs.Isolation
import Fastpath.Proofs.Boundaries
import Fastpath.Proofs.Recycle
import Fastpath.Proofs.Exchange
import Fastpath.Proofs.Doorbell
import Fastpath.Proofs.ServerTransport
import Fastpath.Proofs.Interprocess
import Fastpath.Proofs.Resubscribe
import Fastpath.Proofs.Lifetime
import Fastpath.Proofs.Ring
import Fastpath.Proofs.Spsc
import Fastpath.Proofs.MultiRing
import Fastpath.Proofs.MultiExact
import Fastpath.Proofs.MultiProgress
import Fastpath.Proofs.Semaphore
import Fastpath.Proofs.Dispatch
import Fastpath.Proofs.Unregister
import Fastpath.Proofs.EventManager
import Fastpath.Proofs.Edges
import Fastpath.Proofs.Registry
import Fastpath.Proofs.Kqueue
import Fastpath.Proofs.RwLock
import Fastpath.Proofs.LockModes
import Fastpath.Proofs.Session
import Fastpath.Proofs.Hub
import Fastpath.Proofs.Delivery
import Fastpath.Proofs.Containment
import Fastpath.Proofs.Url
import Fastpath.Proofs.UrlRoundTrip
