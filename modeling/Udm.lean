import Udm.Library.Memory
import Udm.Library.Word
import Udm.Library.CString
import Udm.Library.Decimal
import Udm.Library.OrdMap
import Udm.Library.Wp
import Udm.Library.Chunk
import Udm.Library.Run
import Udm.Library.Network
import Udm.Library.Fairness
import Udm.Library.Lockstep
import Udm.Library.Linked
import Udm.Protocol
import Udm.Protocol.Windows
import Udm.Protocol.Ordered
import Udm.Protocol.Liveness
import Udm.Capsule
import Udm.DataFactory
import Udm.Source
import Udm.Source.Progress
import Udm.Process
import Udm.Queue
import Udm.Queue.Refinement
import Udm.Queue.Interleaving
import Udm.Pool
import Udm.Connection
import Udm.Gateway
import Udm.Gateway.Interfaces
import Udm.Gateway.Wire
import Udm.Presentation
import Udm.Presentation.Sink
import Udm.Session
import Udm.Session.Steps
import Udm.Session.Handshake
import Udm.Session.Transfer
import Udm.Session.Transition
import Udm.Session.Addresses
import Udm.Session.Advertisement
import Udm.Session.AddressText
import Udm.Gateway.AddressList
import Udm.Session.Acknowledgement
import Udm.Session.Accesses
import Udm.Session.Storage
import Udm.Session.Reception
import Udm.Session.Buffers
import Udm.Session.Destinations
import Udm.Session.Window
import Udm.Session.Order
import Udm.Session.Sender
import Udm.Session.Receiver
import Udm.Session.Pointers
import Udm.Session.Reassembly
import Udm.Session.Flow
import Udm.Session.Completeness
import Udm.Session.Termination
import Udm.Session.Failures
import Udm.Session.Disk
import Udm.Session.Memory
import Udm.Session.Disclosure
import Udm.Session.Shortfall
import Udm.Context
import Udm.Context.Reception
import Udm.Startup
import Udm.Exchange
import Udm.Exchange.Identity
import Udm.Exchange.Acknowledgements
import Udm.Exchange.Messages
import Udm.Exchange.Sending
import Udm.Exchange.Receiving
import Udm.Exchange.Integrity
import Udm.Exchange.FinFlag
import Udm.Exchange.Loss
import Udm.Exchange.Addresses
import Udm.Exchange.Discovery
import Udm.Exchange.Liveness
import Udm.Exchange.Rest
import Udm.Exchange.Lockstep
import Udm.Exchange.Disk
import Udm.Exchange.Memory
import Udm.Exchange.Safety
import Udm.Exchange.Programs
