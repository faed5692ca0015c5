import Enet.Library.CircularList
import Enet.Model.Protocol

/-!
# The state of a host and its peers

The structures of `enet/enet.h` as the modelled functions read and write them.
A list of commands is a Lean list, except the dispatch queue, whose links are
kept: some runs link a peer into it twice, and what the code does then depends
on the pointers.

A packet is carried by value in the commands that point to it, with the address
it was allocated at; its reference count is kept in the heap under that
address. Addresses are successive allocation numbers, and an allocation may
fail.

Three fields are not in the source and no function reads them: `Heap.destroyed`
lists the packets destroyed so far, `Host.history` lists what the host was seen
doing, and `Host.decrementedAtZero` tells whether a count of peers ever was.
-/

set_option autoImplicit false

namespace Enet

open Library (Links)

/-! ## Packets and commands -/

/-- The bits of `ENetPacketFlag` that the library reads. -/
structure PacketFlags where
  reliable : Bool
  unsequenced : Bool
  noAllocate : Bool
  unreliableFragment : Bool
  deriving DecidableEq, Repr

/-- `ENetPacket`. -/
structure Packet where
  address : Nat
  flags : PacketFlags
  data : List UInt8
  deriving DecidableEq, Repr

/-- `packet->dataLength`. -/
def Packet.dataLength (packet : Packet) : Nat := packet.data.length

/-- `ENetAcknowledgement`. -/
structure Acknowledgement where
  sentTime : Nat
  command : Protocol
  deriving DecidableEq, Repr

/-- `ENetOutgoingCommand`. -/
structure OutgoingCommand where
  address : Nat
  reliableSequenceNumber : Nat
  unreliableSequenceNumber : Nat
  sentTime : Nat
  roundTripTimeout : Nat
  queueTime : Nat
  fragmentOffset : Nat
  fragmentLength : Nat
  sendAttempts : Nat
  command : Protocol
  packet : Option Packet
  deriving DecidableEq, Repr

/-- `ENetIncomingCommand`. The bitmap `fragments` is a set of fragment numbers. -/
structure IncomingCommand where
  address : Nat
  reliableSequenceNumber : Nat
  unreliableSequenceNumber : Nat
  command : Protocol
  fragmentCount : Nat
  fragmentsRemaining : Nat
  fragments : Nat → Bool
  packet : Packet

/-! ## Memory -/

/-- The allocator, the reference counts, and the packets destroyed so far. -/
structure Heap where
  /-- Whether the allocation with this number succeeds. -/
  mallocSucceeds : Nat → Bool
  /-- What fresh memory at an address holds, byte by byte. -/
  uninitialised : Nat → Nat → UInt8
  nextAddress : Nat
  freed : List Nat
  referenceCount : Nat → Nat
  destroyed : List Nat

namespace Heap

/-- `enet_malloc`: the address, or nothing when the allocation fails. -/
def malloc (heap : Heap) : Heap × Option Nat :=
  ({ heap with nextAddress := heap.nextAddress + 1 },
    if heap.mallocSucceeds heap.nextAddress then some heap.nextAddress else none)

/-- `enet_free`. -/
def free (heap : Heap) (address : Nat) : Heap :=
  { heap with freed := address :: heap.freed }

/-- `++packet->referenceCount`. -/
def acquire (heap : Heap) (packet : Packet) : Heap :=
  { heap with
    referenceCount :=
      Function.update heap.referenceCount packet.address
        (heap.referenceCount packet.address + 1) }

/-- `enet_packet_destroy`. -/
def destroy (heap : Heap) (packet : Packet) : Heap :=
  { heap with destroyed := packet.address :: heap.destroyed }

/-- `--packet->referenceCount`. -/
def unreference (heap : Heap) (packet : Packet) : Heap :=
  { heap with
    referenceCount :=
      Function.update heap.referenceCount packet.address
        (heap.referenceCount packet.address - 1) }

/-- Drop one reference, and destroy the packet with the last one. -/
def release (heap : Heap) (packet : Packet) : Heap :=
  let heap := heap.unreference packet
  if heap.referenceCount packet.address = 0 then heap.destroy packet else heap

/-- Release the packet of a command that may have none. -/
def releaseOption (heap : Heap) : Option Packet → Heap
  | none => heap
  | some packet => heap.release packet

end Heap

/-! ## Peers -/

/-- `ENetChannel`. -/
structure Channel where
  outgoingReliableSequenceNumber : Nat
  outgoingUnreliableSequenceNumber : Nat
  usedReliableWindows : Nat
  reliableWindows : Nat → Nat
  incomingReliableSequenceNumber : Nat
  incomingUnreliableSequenceNumber : Nat
  incomingReliableCommands : List IncomingCommand
  incomingUnreliableCommands : List IncomingCommand

/-- A channel as `enet_host_connect` and `enet_protocol_handle_connect` set it up. -/
def Channel.empty : Channel where
  outgoingReliableSequenceNumber := 0
  outgoingUnreliableSequenceNumber := 0
  usedReliableWindows := 0
  reliableWindows := fun _ => 0
  incomingReliableSequenceNumber := 0
  incomingUnreliableSequenceNumber := 0
  incomingReliableCommands := []
  incomingUnreliableCommands := []

/-- `ENetPeerState`. -/
inductive PeerState where
  | disconnected
  | connecting
  | acknowledgingConnect
  | connectionPending
  | connectionSucceeded
  | connected
  | disconnectLater
  | disconnecting
  | acknowledgingDisconnect
  | zombie
  deriving DecidableEq, Repr

namespace PeerState

/-- The value of the enumerator, which the code compares. -/
def value : PeerState → Nat
  | disconnected => 0
  | connecting => 1
  | acknowledgingConnect => 2
  | connectionPending => 3
  | connectionSucceeded => 4
  | connected => 5
  | disconnectLater => 6
  | disconnecting => 7
  | acknowledgingDisconnect => 8
  | zombie => 9

/-- `CONNECTED` or `DISCONNECT_LATER`, the pair that the code tests throughout. -/
def isConnected (state : PeerState) : Bool :=
  state = connected || state = disconnectLater

end PeerState

/-- `ENetAddress`. -/
structure Address where
  host : Nat
  port : Nat
  deriving DecidableEq, Repr

/-- `ENetPeer`. The two bits of `flags` are two fields. `channelsAllocated` is
the length of the array `channels` points to, zero for a null pointer. -/
structure Peer where
  outgoingPeerID : Nat
  incomingPeerID : Nat
  connectID : Nat
  outgoingSessionID : Nat
  incomingSessionID : Nat
  address : Address
  state : PeerState
  channels : Nat → Channel
  channelsAllocated : Nat
  channelCount : Nat
  incomingBandwidth : Nat
  outgoingBandwidth : Nat
  incomingBandwidthThrottleEpoch : Nat
  outgoingBandwidthThrottleEpoch : Nat
  incomingDataTotal : Nat
  outgoingDataTotal : Nat
  lastSendTime : Nat
  lastReceiveTime : Nat
  nextTimeout : Nat
  earliestTimeout : Nat
  packetLossEpoch : Nat
  packetsSent : Nat
  packetsLost : Nat
  packetLoss : Nat
  packetLossVariance : Nat
  packetThrottle : Nat
  packetThrottleLimit : Nat
  packetThrottleCounter : Nat
  packetThrottleEpoch : Nat
  packetThrottleAcceleration : Nat
  packetThrottleDeceleration : Nat
  packetThrottleInterval : Nat
  pingInterval : Nat
  timeoutLimit : Nat
  timeoutMinimum : Nat
  timeoutMaximum : Nat
  lastRoundTripTime : Nat
  lowestRoundTripTime : Nat
  lastRoundTripTimeVariance : Nat
  highestRoundTripTimeVariance : Nat
  roundTripTime : Nat
  roundTripTimeVariance : Nat
  mtu : Nat
  windowSize : Nat
  reliableDataInTransit : Nat
  outgoingReliableSequenceNumber : Nat
  acknowledgements : List Acknowledgement
  sentReliableCommands : List OutgoingCommand
  outgoingSendReliableCommands : List OutgoingCommand
  outgoingCommands : List OutgoingCommand
  dispatchedCommands : List IncomingCommand
  /-- `ENET_PEER_FLAG_NEEDS_DISPATCH` -/
  needsDispatch : Bool
  /-- `ENET_PEER_FLAG_CONTINUE_SENDING` -/
  continueSending : Bool
  incomingUnsequencedGroup : Nat
  outgoingUnsequencedGroup : Nat
  unsequencedWindow : Nat → Bool
  eventData : Nat
  totalWaitingData : Nat

namespace Peer

/-- `peer->channels[channelID] = channel`. -/
def setChannel (peer : Peer) (channelID : Nat) (channel : Channel) : Peer :=
  { peer with channels := Function.update peer.channels channelID channel }

@[simp] theorem setChannel_channels (peer : Peer) (channelID : Nat) (channel : Channel) :
    (peer.setChannel channelID channel).channels =
      Function.update peer.channels channelID channel := rfl

/-- `peer->state = state`. -/
def setState (peer : Peer) (state : PeerState) : Peer := { peer with state := state }

/-- `peer->eventData = data`. -/
def setEventData (peer : Peer) (data : Nat) : Peer := { peer with eventData := data }

/-- Set or clear `ENET_PEER_FLAG_NEEDS_DISPATCH`. -/
def setNeedsDispatch (peer : Peer) (flag : Bool) : Peer := { peer with needsDispatch := flag }

/-- Set or clear `ENET_PEER_FLAG_CONTINUE_SENDING`. -/
def setContinueSending (peer : Peer) (flag : Bool) : Peer := { peer with continueSending := flag }

/-- Replace the queue of acknowledgements. -/
def setAcknowledgements (peer : Peer) (acknowledgements : List Acknowledgement) : Peer :=
  { peer with acknowledgements := acknowledgements }

/-- Replace the two outgoing queues. -/
def setOutgoing (peer : Peer) (outgoingCommands outgoingSendReliableCommands :
    List OutgoingCommand) : Peer :=
  { peer with
    outgoingCommands := outgoingCommands
    outgoingSendReliableCommands := outgoingSendReliableCommands }

/-- Replace the queue of commands in transit. -/
def setSentReliable (peer : Peer) (sentReliableCommands : List OutgoingCommand) : Peer :=
  { peer with sentReliableCommands := sentReliableCommands }

/-- `peer->nextTimeout = time`. -/
def setNextTimeout (peer : Peer) (time : Nat) : Peer := { peer with nextTimeout := time }

/-- Replace the queue of dispatched commands, and the count of waiting data. -/
def setDispatched (peer : Peer) (dispatchedCommands : List IncomingCommand)
    (totalWaitingData : Nat) : Peer :=
  { peer with dispatchedCommands := dispatchedCommands, totalWaitingData := totalWaitingData }

/-- Store the three parameters of the throttle. -/
def setThrottle (peer : Peer) (interval acceleration deceleration : Nat) : Peer :=
  { peer with
    packetThrottleInterval := interval
    packetThrottleAcceleration := acceleration
    packetThrottleDeceleration := deceleration }

/-- Store the start of the unsequenced window and its bits. -/
def setUnsequencedWindow (peer : Peer) (group : Nat) (window : Nat → Bool) : Peer :=
  { peer with incomingUnsequencedGroup := group, unsequencedWindow := window }

end Peer

/-! ## Events and the outside world -/

/-- `ENetEventType`. -/
inductive EventType where
  | none
  | connect
  | disconnect
  | receive
  deriving DecidableEq, Repr

/-- `ENetEvent`. A peer is named by its index in the host's array. -/
structure Event where
  type : EventType
  peer : Option Nat
  channelID : Nat
  data : Nat
  packet : Option Packet
  deriving DecidableEq, Repr

/-- The stores of a packet and its channel to `*event`. -/
def Event.setPacket (event : Event) (packet : Packet) (channelID : Nat) : Event :=
  { event with packet := some packet, channelID := channelID }

/-- What `enet_socket_receive` returns: an error, nothing, or a datagram. -/
inductive ReceiveResult where
  | error
  | nothing
  | datagram (source : Address) (bytes : List UInt8)
  deriving DecidableEq, Repr

/-- What `enet_socket_wait` leaves behind: an error, or the two conditions. -/
inductive WaitResult where
  | error
  | done (interrupt receive : Bool)
  deriving DecidableEq, Repr

/-- The clock and the socket: the results of their successive calls, and the
datagrams passed to `enet_socket_send` so far. -/
structure World where
  time : Nat → Nat
  timeCalls : Nat
  receive : Nat → ReceiveResult
  receiveCalls : Nat
  /-- What `enet_socket_send` returns. -/
  send : Nat → Int
  wait : Nat → WaitResult
  waitCalls : Nat
  sent : List (Address × List UInt8)
  /-- What the receive buffer holds past the end of a datagram. -/
  stale : List UInt8

/-- A command of the datagram under construction, with the packet bytes that
follow it. -/
structure Part where
  command : Protocol
  payload : Option (List UInt8)
  deriving DecidableEq, Repr

/-- `host->commands`, `host->buffers` past the header, `host->packetSize` and the
sent-time bit of `host->headerFlags`. -/
structure Datagram where
  parts : List Part
  packetSize : Nat
  sentTime : Bool
  deriving DecidableEq, Repr

namespace Datagram

/-- `host->commandCount`. -/
def commandCount (datagram : Datagram) : Nat := datagram.parts.length

/-- `host->bufferCount`: the header, one buffer for each command and one for
each payload. -/
def bufferCount (datagram : Datagram) : Nat :=
  1 + datagram.parts.length + (datagram.parts.filter fun part => part.payload.isSome).length

/-- The datagram of a peer before its first command. -/
def start : Datagram where
  parts := []
  packetSize := 4
  sentTime := false

/-- Append a command and its payload. -/
def push (datagram : Datagram) (part : Part) (size : Nat) : Datagram :=
  { datagram with
    parts := datagram.parts ++ [part]
    packetSize := datagram.packetSize + size }

end Datagram

/-! ## Hosts -/

/-- What `enet_peer_dispatch_incoming_unreliable_commands` is entered with: the channel,
and the address of the command that is being queued. -/
structure Dispatching where
  channel : Channel
  queuedCommand : Option Nat

/-- A received command that is handed to its handler: with the peer as it is, the service
time, the limits on received data, what the datagram has of the data of the command, and
whether it carried a sent time. -/
structure Heard where
  before : Peer
  serviceTime : Nat
  maximumPacketSize : Nat
  maximumWaitingData : Nat
  command : Protocol
  data : List UInt8
  sentTime : Bool

/-- What the host was seen doing, newest last. -/
inductive Observation where
  /-- `enet_host_connect` took the slot, or a CONNECT command did. -/
  | started (peer : Nat) (locally : Bool)
  /-- An event of the peer was stored in `*event`. -/
  | event (peer : Nat) (type : EventType)
  /-- `enet_peer_reset` was entered with the peer in this state. -/
  | reset (peer : Nat) (before : Peer)
  /-- A received command was handed to its handler. -/
  | command (peer : Nat) (heard : Heard)
  /-- `enet_peer_dispatch_incoming_unreliable_commands` was entered with a channel of
  the peer. -/
  | dispatching (peer : Nat) (entered : Dispatching)

/-- `ENetCompressor` with a context that is not null. Each callback takes the
bytes and the output limit to the bytes it writes, none where it returns zero. -/
structure Compressor where
  compress : Option (List UInt8 → Nat → List UInt8)
  decompress : Option (List UInt8 → Nat → List UInt8)

/-- The nodes of the dispatch queue: its sentinel and the `dispatchList` fields. -/
inductive DispatchNode where
  | sentinel
  | peer (index : Nat)
  deriving DecidableEq, Repr

/-- `ENetHost`. -/
structure Host where
  incomingBandwidth : Nat
  outgoingBandwidth : Nat
  bandwidthThrottleEpoch : Nat
  mtu : Nat
  randomSeed : Nat
  recalculateBandwidthLimits : Bool
  peers : Nat → Peer
  peerCount : Nat
  channelLimit : Nat
  serviceTime : Nat
  dispatchQueue : Links DispatchNode
  totalQueued : Nat
  datagram : Datagram
  /-- `host->checksum`, on the bytes held in the buffers. -/
  checksum : Option (List UInt8 → Nat)
  compressor : Option Compressor
  receivedAddress : Address
  receivedData : List UInt8
  totalSentData : Nat
  totalSentPackets : Nat
  totalReceivedData : Nat
  totalReceivedPackets : Nat
  connectedPeers : Nat
  bandwidthLimitedPeers : Nat
  duplicatePeers : Nat
  maximumPacketSize : Nat
  maximumWaitingData : Nat
  heap : Heap
  world : World
  history : List Observation
  decrementedAtZero : Bool

namespace Host

/-- Replace one peer. -/
def setPeer (host : Host) (index : Nat) (peer : Peer) : Host :=
  { host with peers := Function.update host.peers index peer }

/-- Install the heap. -/
def setHeap (host : Host) (heap : Heap) : Host := { host with heap := heap }

/-- Install the links of the dispatch queue. -/
def setDispatchQueue (host : Host) (dispatchQueue : Links DispatchNode) : Host :=
  { host with dispatchQueue := dispatchQueue }

/-- Install the datagram under construction. -/
def setDatagram (host : Host) (datagram : Datagram) : Host := { host with datagram := datagram }

/-- `host->recalculateBandwidthLimits = 1`. -/
def recalculate (host : Host) : Host := { host with recalculateBandwidthLimits := true }

/-- Write observations down. -/
def observeAll (host : Host) (observations : List Observation) : Host :=
  { host with history := host.history ++ observations }

/-- Write an observation down. -/
def observe (host : Host) (observation : Observation) : Host := host.observeAll [observation]

@[simp] theorem setPeer_peers (host : Host) (index : Nat) (peer : Peer) :
    (host.setPeer index peer).peers = Function.update host.peers index peer := rfl

@[simp] theorem setPeer_self (host : Host) (index : Nat) (peer : Peer) :
    (host.setPeer index peer).peers index = peer := Function.update_self ..

theorem setPeer_of_ne (host : Host) {index other : Nat} (peer : Peer) (different : other ≠ index) :
    (host.setPeer index peer).peers other = host.peers other :=
  Function.update_of_ne different ..

@[simp] theorem setPeer_dispatchQueue (host : Host) (index : Nat) (peer : Peer) :
    (host.setPeer index peer).dispatchQueue = host.dispatchQueue := rfl

@[simp] theorem setPeer_history (host : Host) (index : Nat) (peer : Peer) :
    (host.setPeer index peer).history = host.history := rfl

@[simp] theorem setPeer_heap (host : Host) (index : Nat) (peer : Peer) :
    (host.setPeer index peer).heap = host.heap := rfl

@[simp] theorem setPeer_peerCount (host : Host) (index : Nat) (peer : Peer) :
    (host.setPeer index peer).peerCount = host.peerCount := rfl

@[simp] theorem setPeer_serviceTime (host : Host) (index : Nat) (peer : Peer) :
    (host.setPeer index peer).serviceTime = host.serviceTime := rfl

@[simp] theorem setPeer_datagram (host : Host) (index : Nat) (peer : Peer) :
    (host.setPeer index peer).datagram = host.datagram := rfl

@[simp] theorem setPeer_world (host : Host) (index : Nat) (peer : Peer) :
    (host.setPeer index peer).world = host.world := rfl

@[simp] theorem setPeer_mtu (host : Host) (index : Nat) (peer : Peer) :
    (host.setPeer index peer).mtu = host.mtu := rfl

@[simp] theorem setHeap_peers (host : Host) (heap : Heap) :
    (host.setHeap heap).peers = host.peers := rfl

@[simp] theorem setHeap_dispatchQueue (host : Host) (heap : Heap) :
    (host.setHeap heap).dispatchQueue = host.dispatchQueue := rfl

@[simp] theorem setHeap_history (host : Host) (heap : Heap) :
    (host.setHeap heap).history = host.history := rfl

@[simp] theorem setHeap_heap (host : Host) (heap : Heap) :
    (host.setHeap heap).heap = heap := rfl

@[simp] theorem setHeap_peerCount (host : Host) (heap : Heap) :
    (host.setHeap heap).peerCount = host.peerCount := rfl

@[simp] theorem setHeap_serviceTime (host : Host) (heap : Heap) :
    (host.setHeap heap).serviceTime = host.serviceTime := rfl

@[simp] theorem setHeap_datagram (host : Host) (heap : Heap) :
    (host.setHeap heap).datagram = host.datagram := rfl

@[simp] theorem setHeap_world (host : Host) (heap : Heap) :
    (host.setHeap heap).world = host.world := rfl

@[simp] theorem setHeap_mtu (host : Host) (heap : Heap) :
    (host.setHeap heap).mtu = host.mtu := rfl

@[simp] theorem setDispatchQueue_peers (host : Host) (queue : Links DispatchNode) :
    (host.setDispatchQueue queue).peers = host.peers := rfl

@[simp] theorem setDispatchQueue_dispatchQueue (host : Host) (queue : Links DispatchNode) :
    (host.setDispatchQueue queue).dispatchQueue = queue := rfl

@[simp] theorem setDispatchQueue_history (host : Host) (queue : Links DispatchNode) :
    (host.setDispatchQueue queue).history = host.history := rfl

@[simp] theorem setDispatchQueue_heap (host : Host) (queue : Links DispatchNode) :
    (host.setDispatchQueue queue).heap = host.heap := rfl

@[simp] theorem setDispatchQueue_peerCount (host : Host) (queue : Links DispatchNode) :
    (host.setDispatchQueue queue).peerCount = host.peerCount := rfl

@[simp] theorem setDispatchQueue_serviceTime (host : Host) (queue : Links DispatchNode) :
    (host.setDispatchQueue queue).serviceTime = host.serviceTime := rfl

@[simp] theorem setDispatchQueue_datagram (host : Host) (queue : Links DispatchNode) :
    (host.setDispatchQueue queue).datagram = host.datagram := rfl

@[simp] theorem setDispatchQueue_world (host : Host) (queue : Links DispatchNode) :
    (host.setDispatchQueue queue).world = host.world := rfl

@[simp] theorem setDispatchQueue_mtu (host : Host) (queue : Links DispatchNode) :
    (host.setDispatchQueue queue).mtu = host.mtu := rfl

@[simp] theorem setDatagram_peers (host : Host) (datagram : Datagram) :
    (host.setDatagram datagram).peers = host.peers := rfl

@[simp] theorem setDatagram_dispatchQueue (host : Host) (datagram : Datagram) :
    (host.setDatagram datagram).dispatchQueue = host.dispatchQueue := rfl

@[simp] theorem setDatagram_history (host : Host) (datagram : Datagram) :
    (host.setDatagram datagram).history = host.history := rfl

@[simp] theorem setDatagram_heap (host : Host) (datagram : Datagram) :
    (host.setDatagram datagram).heap = host.heap := rfl

@[simp] theorem setDatagram_peerCount (host : Host) (datagram : Datagram) :
    (host.setDatagram datagram).peerCount = host.peerCount := rfl

@[simp] theorem setDatagram_serviceTime (host : Host) (datagram : Datagram) :
    (host.setDatagram datagram).serviceTime = host.serviceTime := rfl

@[simp] theorem setDatagram_datagram (host : Host) (datagram : Datagram) :
    (host.setDatagram datagram).datagram = datagram := rfl

@[simp] theorem setDatagram_world (host : Host) (datagram : Datagram) :
    (host.setDatagram datagram).world = host.world := rfl

@[simp] theorem setDatagram_mtu (host : Host) (datagram : Datagram) :
    (host.setDatagram datagram).mtu = host.mtu := rfl

@[simp] theorem recalculate_peers (host : Host) : host.recalculate.peers = host.peers := rfl

@[simp] theorem recalculate_dispatchQueue (host : Host) :
    host.recalculate.dispatchQueue = host.dispatchQueue := rfl

@[simp] theorem recalculate_history (host : Host) : host.recalculate.history = host.history := rfl

@[simp] theorem recalculate_heap (host : Host) : host.recalculate.heap = host.heap := rfl

@[simp] theorem recalculate_peerCount (host : Host) :
    host.recalculate.peerCount = host.peerCount := rfl

@[simp] theorem recalculate_serviceTime (host : Host) :
    host.recalculate.serviceTime = host.serviceTime := rfl

@[simp] theorem recalculate_datagram (host : Host) :
    host.recalculate.datagram = host.datagram := rfl

@[simp] theorem recalculate_world (host : Host) : host.recalculate.world = host.world := rfl

@[simp] theorem recalculate_mtu (host : Host) : host.recalculate.mtu = host.mtu := rfl

@[simp] theorem observeAll_peers (host : Host) (observations : List Observation) :
    (host.observeAll observations).peers = host.peers := rfl

@[simp] theorem observeAll_dispatchQueue (host : Host) (observations : List Observation) :
    (host.observeAll observations).dispatchQueue = host.dispatchQueue := rfl

@[simp] theorem observeAll_history (host : Host) (observations : List Observation) :
    (host.observeAll observations).history = host.history ++ observations := rfl

@[simp] theorem observeAll_heap (host : Host) (observations : List Observation) :
    (host.observeAll observations).heap = host.heap := rfl

@[simp] theorem observeAll_peerCount (host : Host) (observations : List Observation) :
    (host.observeAll observations).peerCount = host.peerCount := rfl

@[simp] theorem observeAll_serviceTime (host : Host) (observations : List Observation) :
    (host.observeAll observations).serviceTime = host.serviceTime := rfl

@[simp] theorem observeAll_datagram (host : Host) (observations : List Observation) :
    (host.observeAll observations).datagram = host.datagram := rfl

@[simp] theorem observeAll_world (host : Host) (observations : List Observation) :
    (host.observeAll observations).world = host.world := rfl

@[simp] theorem observeAll_mtu (host : Host) (observations : List Observation) :
    (host.observeAll observations).mtu = host.mtu := rfl

@[simp] theorem observe_peers (host : Host) (observation : Observation) :
    (host.observe observation).peers = host.peers := rfl

@[simp] theorem observe_dispatchQueue (host : Host) (observation : Observation) :
    (host.observe observation).dispatchQueue = host.dispatchQueue := rfl

@[simp] theorem observe_history (host : Host) (observation : Observation) :
    (host.observe observation).history = host.history ++ [observation] := rfl

@[simp] theorem observe_heap (host : Host) (observation : Observation) :
    (host.observe observation).heap = host.heap := rfl

@[simp] theorem observe_peerCount (host : Host) (observation : Observation) :
    (host.observe observation).peerCount = host.peerCount := rfl

@[simp] theorem observe_serviceTime (host : Host) (observation : Observation) :
    (host.observe observation).serviceTime = host.serviceTime := rfl

@[simp] theorem observe_datagram (host : Host) (observation : Observation) :
    (host.observe observation).datagram = host.datagram := rfl

@[simp] theorem observe_world (host : Host) (observation : Observation) :
    (host.observe observation).world = host.world := rfl

@[simp] theorem observe_mtu (host : Host) (observation : Observation) :
    (host.observe observation).mtu = host.mtu := rfl

end Host

end Enet
