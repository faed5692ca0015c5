import Enet.Model.Send

/-!
# Connections and the dispatch queue

Changes of a peer's state, the dispatch queue and the events read from it, the
reset of a peer, and the two ways a connection starts.

`enet_peer_disconnect` flushes the host in some states and is itself called
while the host is flushed, but then only on a peer that is connected. The part
for a connected peer, which flushes nothing, is `startDisconnect`.
-/

set_option autoImplicit false

namespace Enet

namespace Peer

/-- What `enet_peer_reset_queues` leaves in a peer. -/
def resetQueues (peer : Peer) : Peer :=
  { peer with
    needsDispatch := false
    acknowledgements := []
    sentReliableCommands := []
    outgoingCommands := []
    outgoingSendReliableCommands := []
    dispatchedCommands := []
    channels := fun _ => Channel.empty
    channelsAllocated := 0
    channelCount := 0 }

/-- What `enet_peer_reset` writes before it resets the queues, for a host with
this `mtu`. -/
def resetFields (peer : Peer) (mtu : Nat) : Peer :=
  { peer with
    outgoingPeerID := protocolMaximumPeerID
    connectID := 0
    state := .disconnected
    incomingBandwidth := 0
    outgoingBandwidth := 0
    incomingBandwidthThrottleEpoch := 0
    outgoingBandwidthThrottleEpoch := 0
    incomingDataTotal := 0
    outgoingDataTotal := 0
    lastSendTime := 0
    lastReceiveTime := 0
    nextTimeout := 0
    earliestTimeout := 0
    packetLossEpoch := 0
    packetsSent := 0
    packetsLost := 0
    packetLoss := 0
    packetLossVariance := 0
    packetThrottle := peerDefaultPacketThrottle
    packetThrottleLimit := peerPacketThrottleScale
    packetThrottleCounter := 0
    packetThrottleEpoch := 0
    packetThrottleAcceleration := peerPacketThrottleAcceleration
    packetThrottleDeceleration := peerPacketThrottleDeceleration
    packetThrottleInterval := peerPacketThrottleInterval
    pingInterval := peerPingInterval
    timeoutLimit := peerTimeoutLimit
    timeoutMinimum := peerTimeoutMinimum
    timeoutMaximum := peerTimeoutMaximum
    lastRoundTripTime := peerDefaultRoundTripTime
    lowestRoundTripTime := peerDefaultRoundTripTime
    lastRoundTripTimeVariance := 0
    highestRoundTripTimeVariance := 0
    roundTripTime := peerDefaultRoundTripTime
    roundTripTimeVariance := 0
    mtu := mtu
    reliableDataInTransit := 0
    outgoingReliableSequenceNumber := 0
    windowSize := protocolMaximumWindowSize
    incomingUnsequencedGroup := 0
    outgoingUnsequencedGroup := 0
    eventData := 0
    totalWaitingData := 0
    needsDispatch := false
    continueSending := false
    unsequencedWindow := fun _ => false }

/-- `peer->channels = NULL`. -/
def clearChannels (peer : Peer) : Peer :=
  { peer with channels := fun _ => Channel.empty, channelsAllocated := 0 }

/-- The received commands of the channels in use. -/
def incomingCommands (peer : Peer) : List IncomingCommand :=
  (List.range peer.channelCount).flatMap fun channelID =>
    (peer.channels channelID).incomingReliableCommands ++
      (peer.channels channelID).incomingUnreliableCommands

/-- The windowSize bounds that `host.c` and `protocol.c` apply throughout. -/
def clampWindowSize (windowSize : Nat) : Nat :=
  if windowSize < protocolMinimumWindowSize then protocolMinimumWindowSize
  else if protocolMaximumWindowSize < windowSize then protocolMaximumWindowSize
  else windowSize

/-- The mtu bounds that `protocol.c` applies to a received value. -/
def clampMtu (mtu : Nat) : Nat :=
  if mtu < protocolMinimumMtu then protocolMinimumMtu
  else if protocolMaximumMtu < mtu then protocolMaximumMtu
  else mtu

/-- The window size for a bandwidth, before it is clamped. -/
def scaleWindowSize (bandwidth : Nat) : Nat :=
  u32 (bandwidth / peerWindowSizeScale * protocolMinimumWindowSize)

/-- The window size for the bandwidths of both sides, as `enet_protocol_handle_connect`
and `enet_protocol_handle_bandwidth_limit` compute it. -/
def negotiateWindowSize (hostOutgoingBandwidth incomingBandwidth : Nat) : Nat :=
  clampWindowSize
    (if hostOutgoingBandwidth = 0 ∧ incomingBandwidth = 0 then protocolMaximumWindowSize
    else if hostOutgoingBandwidth = 0 ∨ incomingBandwidth = 0 then
      scaleWindowSize (max hostOutgoingBandwidth incomingBandwidth)
    else scaleWindowSize (min hostOutgoingBandwidth incomingBandwidth))

/-- The session id that `enet_protocol_handle_connect` derives from the one the
other side used last and the one this slot used last. -/
def nextSessionID (received previous : Nat) : Nat :=
  let sessionID := if received = 0xFF then previous else received
  let sessionID := (sessionID + 1) % 4
  if sessionID = previous then (sessionID + 1) % 4 else sessionID

end Peer

namespace Heap

/-- Free an outgoing command and drop its reference to its packet. -/
def removeOutgoing (heap : Heap) (outgoing : OutgoingCommand) : Heap :=
  (heap.releaseOption outgoing.packet).free outgoing.address

/-- The releases of `enet_peer_reset_queues`. -/
def resetQueues (heap : Heap) (peer : Peer) : Heap :=
  let heap := peer.sentReliableCommands.foldl removeOutgoing heap
  let heap := peer.outgoingCommands.foldl removeOutgoing heap
  let heap := peer.outgoingSendReliableCommands.foldl removeOutgoing heap
  let heap := peer.dispatchedCommands.foldl removeIncoming heap
  peer.incomingCommands.foldl removeIncoming heap

end Heap

namespace Host

/-! ## States -/

/-- `enet_peer_on_connect`. -/
def onConnect (host : Host) (index : Nat) : Host :=
  let peer := host.peers index
  if peer.state.isConnected then host
  else
    { host with
      bandwidthLimitedPeers :=
        if peer.incomingBandwidth ≠ 0 then host.bandwidthLimitedPeers + 1
        else host.bandwidthLimitedPeers
      connectedPeers := host.connectedPeers + 1 }

/-- `enet_peer_on_disconnect`. -/
def onDisconnect (host : Host) (index : Nat) : Host :=
  let peer := host.peers index
  if peer.state.isConnected then
    { host with
      bandwidthLimitedPeers :=
        if peer.incomingBandwidth ≠ 0 then sub64 host.bandwidthLimitedPeers 1
        else host.bandwidthLimitedPeers
      connectedPeers := sub64 host.connectedPeers 1
      decrementedAtZero :=
        host.decrementedAtZero || decide (host.connectedPeers = 0) ||
          (decide (peer.incomingBandwidth ≠ 0) && decide (host.bandwidthLimitedPeers = 0)) }
  else host

/-- `enet_protocol_change_state`. -/
def changeState (host : Host) (index : Nat) (state : PeerState) : Host :=
  let host := if state.isConnected then host.onConnect index else host.onDisconnect index
  host.setPeer index ((host.peers index).setState state)

/-- `enet_protocol_dispatch_state`. -/
def dispatchState (host : Host) (index : Nat) (state : PeerState) : Host :=
  (host.changeState index state).scheduleDispatch index

/-- `enet_peer_reset_queues`. -/
def resetQueues (host : Host) (index : Nat) : Host :=
  let peer := host.peers index
  let host :=
    if peer.needsDispatch then
      host.setDispatchQueue (host.dispatchQueue.remove (.peer index))
    else host
  (host.setHeap (host.heap.resetQueues peer)).setPeer index peer.resetQueues

/-- `enet_peer_reset`. The flags are cleared before the queues are reset, so the
peer is not taken out of the dispatch queue. -/
def peerReset (host : Host) (index : Nat) : Host :=
  let host := host.observe (.reset index (host.peers index))
  let host := host.onDisconnect index
  (host.setPeer index ((host.peers index).resetFields host.mtu)).resetQueues index

/-- `enet_peer_disconnect` for a peer that is `CONNECTED` or `DISCONNECT_LATER`. -/
def startDisconnect (host : Host) (index data : Nat) : Host :=
  let host := host.resetQueues index
  let host :=
    (host.queueOutgoingCommand index
      { command := .disconnect data
        acknowledge := true
        unsequenced := false
        channelID := 0xFF
        reliableSequenceNumber := 0 } none 0 0).1
  let host := host.onDisconnect index
  host.setPeer index ((host.peers index).setState .disconnecting)

/-! ## Events -/

/-- The stores to `*event` of an event of a peer. -/
def storeEvent (host : Host) (index : Nat) (type : EventType) (data : Nat) (event : Event) :
    Host × Event :=
  (host.observe (.event index type), { event with type := type, peer := some index, data := data })

/-- One turn of `enet_protocol_dispatch_incoming_commands` for the first peer of
the queue, and whether an event was stored. -/
def dispatchTurn (host : Host) (index : Nat) (event : Event) : Host × Event × Bool :=
  let host := host.setDispatchQueue (host.dispatchQueue.remove (.peer index))
  let peer := (host.peers index).setNeedsDispatch false
  let host := host.setPeer index peer
  match peer.state with
  | .connectionPending | .connectionSucceeded =>
    let stored := (host.changeState index .connected).storeEvent index .connect peer.eventData event
    (stored.1, stored.2, true)
  | .zombie =>
    let host := host.recalculate
    let stored := host.storeEvent index .disconnect peer.eventData event
    (stored.1.peerReset index, stored.2, true)
  | .connected =>
    match host.peerReceive index with
    | (host, none) => (host, event, false)
    | (host, some (packet, channelID)) =>
      let stored :=
        host.storeEvent index .receive event.data
          (event.setPacket packet channelID)
      let host := stored.1
      (if (host.peers index).dispatchedCommands.isEmpty then host
        else host.scheduleDispatch index, stored.2, true)
  | _ => (host, event, false)

/-- `enet_protocol_dispatch_incoming_commands`. Nothing is returned when the
fuel runs out: the loop then goes on. -/
def dispatchIncomingCommands : (fuel : Nat) → Host → Event → Option (Host × Event × Int)
  | 0, _, _ => none
  | fuel + 1, host, event =>
    match host.dispatchQueue.next .sentinel with
    | .sentinel => some (host, event, 0)
    | .peer index =>
      match host.dispatchTurn index event with
      | (host, event, true) => some (host, event, 1)
      | (host, event, false) => dispatchIncomingCommands fuel host event

/-- `enet_protocol_notify_connect`. -/
def notifyConnect (host : Host) (index : Nat) (event : Option Event) : Host × Option Event :=
  let host := host.recalculate
  match event with
  | some event =>
    let host := host.changeState index .connected
    let stored := host.storeEvent index .connect (host.peers index).eventData event
    (stored.1, some stored.2)
  | none =>
    (host.dispatchState index
      (if (host.peers index).state = .connecting then .connectionSucceeded
      else .connectionPending), none)

/-- Recalculate the bandwidth limits for a peer whose state is `CONNECTION_PENDING` or later. -/
def recalculateFrom (host : Host) (state : PeerState) : Host :=
  if PeerState.connectionPending.value ≤ state.value then host.recalculate else host

/-- `enet_protocol_notify_disconnect`. -/
def notifyDisconnect (host : Host) (index : Nat) (event : Option Event) : Host × Option Event :=
  let state := (host.peers index).state
  let host := host.recalculateFrom state
  if state ≠ .connecting ∧ state.value < PeerState.connectionSucceeded.value then
    (host.peerReset index, event)
  else
    match event with
    | some event =>
      let stored := host.storeEvent index .disconnect 0 event
      (stored.1.peerReset index, some stored.2)
    | none =>
      let host := host.setPeer index ((host.peers index).setEventData 0)
      (host.dispatchState index .zombie, none)

/-! ## Starting a connection -/

/-- The value that `enet_host_random` returns for a seed. -/
def mulberry (n : Nat) : Nat :=
  let n := u32 ((n ^^^ (n >>> 15)) * (n ||| 1))
  let n := n ^^^ u32 (n + u32 ((n ^^^ (n >>> 7)) * (n ||| 61)))
  n ^^^ (n >>> 14)

/-- `host->randomSeed = seed`. -/
def setRandomSeed (host : Host) (seed : Nat) : Host := { host with randomSeed := seed }

/-- `enet_host_random`. -/
def random (host : Host) : Host × Nat :=
  let seed := u32 (host.randomSeed + 0x6D2B79F5)
  (host.setRandomSeed seed, mulberry seed)

/-- The first slot that is free. -/
def freePeer (host : Host) : Option Nat :=
  (List.range host.peerCount).find? fun index => (host.peers index).state = .disconnected

/-- The bounds that `enet_host_connect` puts on a number of channels. -/
def clampChannelCount (channelCount : Nat) : Nat :=
  if channelCount < protocolMinimumChannelCount then protocolMinimumChannelCount
  else if protocolMaximumChannelCount < channelCount then protocolMaximumChannelCount
  else channelCount

/-- The peer that `enet_host_connect` sets up. -/
def connectingPeer (host : Host) (peer : Peer) (address : Address) (channelCount connectID : Nat) :
    Peer :=
  { peer with
    channels := fun _ => Channel.empty
    channelsAllocated := channelCount
    channelCount := channelCount
    state := .connecting
    address := address
    connectID := connectID
    mtu := host.mtu
    windowSize :=
      Peer.clampWindowSize
        (if host.outgoingBandwidth = 0 then protocolMaximumWindowSize
        else Peer.scaleWindowSize host.outgoingBandwidth) }

/-- The CONNECT command of a peer that `enet_host_connect` has set up. -/
def connectCommand (host : Host) (peer : Peer) (data : Nat) : Protocol where
  command :=
    .connect
      { outgoingPeerID := peer.incomingPeerID
        incomingSessionID := peer.incomingSessionID
        outgoingSessionID := peer.outgoingSessionID
        mtu := peer.mtu
        windowSize := peer.windowSize
        channelCount := peer.channelCount
        incomingBandwidth := host.incomingBandwidth
        outgoingBandwidth := host.outgoingBandwidth
        packetThrottleInterval := peer.packetThrottleInterval
        packetThrottleAcceleration := peer.packetThrottleAcceleration
        packetThrottleDeceleration := peer.packetThrottleDeceleration
        connectID := peer.connectID
        data := data }
  acknowledge := true
  unsequenced := false
  channelID := 0xFF
  reliableSequenceNumber := 0

/-- `enet_host_connect`: the slot taken, if any. -/
def hostConnect (host : Host) (address : Address) (channelCount data : Nat) :
    Host × Option Nat :=
  match host.freePeer with
  | none => (host, none)
  | some index =>
    match host.heap.malloc with
    | (heap, none) =>
      -- the null pointer is stored in `currentPeer->channels`
      ((host.setHeap heap).setPeer index (host.peers index).clearChannels, none)
    | (heap, some _) =>
      let random := (host.setHeap heap).random
      let host := random.1.observe (.started index true)
      let peer :=
        host.connectingPeer (host.peers index) address (clampChannelCount channelCount) random.2
      (((host.setPeer index peer).queueOutgoingCommand index (host.connectCommand peer data)
        none 0 0).1, some index)

/-! ## Datagrams -/

/-- `enet_protocol_send_acknowledgements`, over the acknowledgements left. -/
def sendAcknowledgements (index : Nat) : List Acknowledgement → Host → Host
  | [], host => host
  | acknowledgement :: rest, host =>
    let peer := host.peers index
    if protocolMaximumPacketCommands ≤ host.datagram.commandCount ∨
        bufferMaximum ≤ host.datagram.bufferCount ∨
        sub64 peer.mtu host.datagram.packetSize < commandSizes 1 then
      host.setPeer index (peer.setContinueSending true)
    else
      let number := acknowledgement.command.reliableSequenceNumber
      let part : Part :=
        { command :=
            { command := .acknowledge number (u16 acknowledgement.sentTime)
              acknowledge := false
              unsequenced := false
              channelID := acknowledgement.command.channelID
              reliableSequenceNumber := number }
          payload := none }
      let host := host.setDatagram (host.datagram.push part (commandSizes 1))
      let host :=
        match acknowledgement.command.command with
        | .disconnect _ => host.dispatchState index .zombie
        | _ => host
      let host := host.setPeer index ((host.peers index).setAcknowledgements rest)
      sendAcknowledgements index rest host

/-- `enet_protocol_check_outgoing_commands`: the unreliable commands sent so far,
and whether a ping may be added. -/
def checkOutgoingCommands (host : Host) (index : Nat) (sentUnreliable : List OutgoingCommand) :
    Host × List OutgoingCommand × Bool :=
  let scan :=
    (host.peers index).checkOutgoingCommands host.heap host.datagram sentUnreliable
      host.serviceTime
  let peer := scan.finish
  let host := ((host.setHeap scan.heap).setDatagram scan.datagram).setPeer index peer
  let host :=
    if peer.state = .disconnectLater ∧ !peer.hasOutgoingCommands ∧ scan.sentUnreliable.isEmpty then
      host.startDisconnect index peer.eventData
    else host
  (host, scan.sentUnreliable, scan.canPing)

/-- `enet_protocol_remove_sent_unreliable_commands`. -/
def removeSentUnreliableCommands (host : Host) (index : Nat)
    (sentUnreliable : List OutgoingCommand) : Host :=
  if sentUnreliable.isEmpty then host
  else
    let host := host.setHeap (sentUnreliable.foldl Heap.removeOutgoing host.heap)
    let peer := host.peers index
    if peer.state = .disconnectLater ∧ !peer.hasOutgoingCommands then
      host.startDisconnect index peer.eventData
    else host

/-- `enet_protocol_check_timeouts`, and whether it gave the peer up. -/
def checkTimeouts (host : Host) (index : Nat) (event : Option Event) :
    Host × Option Event × Bool :=
  let checked := (host.peers index).checkTimeouts host.serviceTime
  let host := host.setPeer index checked.1
  if checked.2 then
    let notified := host.notifyDisconnect index event
    (notified.1, notified.2, true)
  else (host, event, false)

end Host

end Enet
