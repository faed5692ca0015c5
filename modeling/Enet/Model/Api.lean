import Enet.Model.Service

/-!
# The functions an application calls

`enet_host_bandwidth_throttle`, `enet_host_service` and the calls on peers that
flush the host; and `enet_host_create`, where every run begins.
-/

set_option autoImplicit false

namespace Enet

namespace Host

/-- `enet_time_get`. -/
def timeGet (host : Host) : Host × Nat :=
  ({ host with world := { host.world with timeCalls := host.world.timeCalls + 1 } },
    u32 (host.world.time host.world.timeCalls))

/-- `host->serviceTime = enet_time_get()`. -/
def setServiceTime (host : Host) : Host :=
  let timed := host.timeGet
  { timed.1 with serviceTime := timed.2 }

/-- The next call of `enet_socket_wait`. -/
def countWait (host : Host) : Host :=
  { host with world := { host.world with waitCalls := host.world.waitCalls + 1 } }

/-- Install the peers. -/
def setPeers (host : Host) (peers : Nat → Peer) : Host := { host with peers := peers }

/-- `host->bandwidthThrottleEpoch = time`. -/
def setThrottleEpoch (host : Host) (time : Nat) : Host :=
  { host with bandwidthThrottleEpoch := time }

/-- `host->recalculateBandwidthLimits = 0`. -/
def recalculated (host : Host) : Host := { host with recalculateBandwidthLimits := false }

/-! ## Bandwidth -/

end Host

namespace Peer

/-- `peer->outgoingBandwidthThrottleEpoch = time`. -/
def setOutgoingEpoch (peer : Peer) (time : Nat) : Peer :=
  { peer with outgoingBandwidthThrottleEpoch := time }

/-- `peer->incomingBandwidthThrottleEpoch = time`. -/
def setIncomingEpoch (peer : Peer) (time : Nat) : Peer :=
  { peer with incomingBandwidthThrottleEpoch := time }

end Peer

namespace Host

/-- The registers of the loops of `enet_host_bandwidth_throttle`. -/
structure Throttling where
  peers : Nat → Peer
  peersRemaining : Nat
  dataTotal : Nat
  bandwidth : Nat
  needsAdjustment : Bool

/-- The throttle for the data and the bandwidth that are left. -/
def throttleOf (dataTotal bandwidth : Nat) : Nat :=
  if dataTotal ≤ bandwidth then peerPacketThrottleScale
  else u32 (bandwidth * peerPacketThrottleScale) / dataTotal

/-- Give a peer a throttle limit, and start its counts of data anew. -/
def limitThrottle (peer : Peer) (limit : Nat) : Peer :=
  { peer with
    packetThrottleLimit := limit
    packetThrottle := if limit < peer.packetThrottle then limit else peer.packetThrottle
    incomingDataTotal := 0
    outgoingDataTotal := 0 }

/-- One peer of the loop that limits the peers with a bandwidth of their own. -/
def adjustPeer (timeCurrent elapsedTime throttle : Nat) (state : Throttling) (index : Nat) :
    Throttling :=
  let peer := state.peers index
  if !peer.state.isConnected || decide (peer.incomingBandwidth = 0) ||
      decide (peer.outgoingBandwidthThrottleEpoch = timeCurrent) then state
  else
    let peerBandwidth := u32 (peer.incomingBandwidth * elapsedTime) / 1000
    if u32 (throttle * peer.outgoingDataTotal) / peerPacketThrottleScale ≤ peerBandwidth then state
    else
      let limit := u32 (peerBandwidth * peerPacketThrottleScale) / peer.outgoingDataTotal
      { peers :=
          Function.update state.peers index
            ((limitThrottle peer (if limit = 0 then 1 else limit)).setOutgoingEpoch timeCurrent)
        peersRemaining := sub32 state.peersRemaining 1
        dataTotal := sub32 state.dataTotal peerBandwidth
        bandwidth := sub32 state.bandwidth peerBandwidth
        needsAdjustment := true }

/-- The first loop. Each turn that is followed by another limits a peer, so one
turn more than there are peers is enough. -/
def adjustPeers (peerCount timeCurrent elapsedTime : Nat) : (fuel : Nat) → Throttling → Throttling
  | 0, state => state
  | fuel + 1, state =>
    if 0 < state.peersRemaining ∧ state.needsAdjustment then
      adjustPeers peerCount timeCurrent elapsedTime fuel
        ((List.range peerCount).foldl
          (adjustPeer timeCurrent elapsedTime (throttleOf state.dataTotal state.bandwidth))
          { state with needsAdjustment := false })
    else state

/-- One peer of the loop that shares what is left. -/
def sharePeer (timeCurrent throttle : Nat) (peers : Nat → Peer) (index : Nat) : Nat → Peer :=
  let peer := peers index
  if !peer.state.isConnected || decide (peer.outgoingBandwidthThrottleEpoch = timeCurrent) then
    peers
  else Function.update peers index (limitThrottle peer throttle)

/-- One peer of the loop that recalculates the limits. -/
def recalculatePeer (timeCurrent bandwidthLimit : Nat) (state : Throttling) (index : Nat) :
    Throttling :=
  let peer := state.peers index
  if !peer.state.isConnected || decide (peer.incomingBandwidthThrottleEpoch = timeCurrent) then
    state
  else if 0 < peer.outgoingBandwidth ∧ bandwidthLimit ≤ peer.outgoingBandwidth then state
  else
    { state with
      peers :=
        Function.update state.peers index
          (peer.setIncomingEpoch timeCurrent)
      peersRemaining := sub32 state.peersRemaining 1
      bandwidth := sub32 state.bandwidth peer.outgoingBandwidth
      needsAdjustment := true }

/-- The loop that recalculates the limits, with the last `bandwidthLimit`. -/
def recalculatePeers (peerCount timeCurrent : Nat) :
    (fuel : Nat) → Throttling → (bandwidthLimit : Nat) → Throttling × Nat
  | 0, state, bandwidthLimit => (state, bandwidthLimit)
  | fuel + 1, state, bandwidthLimit =>
    if 0 < state.peersRemaining ∧ state.needsAdjustment then
      let bandwidthLimit := state.bandwidth / state.peersRemaining
      recalculatePeers peerCount timeCurrent fuel
        ((List.range peerCount).foldl (recalculatePeer timeCurrent bandwidthLimit)
          { state with needsAdjustment := false })
        bandwidthLimit
    else (state, bandwidthLimit)

/-- The last loop: each connected peer is told its limit. -/
def announceLimit (timeCurrent bandwidthLimit : Nat) (host : Host) (index : Nat) : Host :=
  let peer := host.peers index
  if !peer.state.isConnected then host
  else
    (host.queueOutgoingCommand index
      { command :=
          .bandwidthLimit
            (if peer.incomingBandwidthThrottleEpoch = timeCurrent then peer.outgoingBandwidth
            else bandwidthLimit)
            host.outgoingBandwidth
        acknowledge := true
        unsequenced := false
        channelID := 0xFF
        reliableSequenceNumber := 0 } none 0 0).1

/-- The data of the connected peers since the last throttling. -/
def outgoingData (host : Host) : Nat :=
  (List.range host.peerCount).foldl
    (fun total index =>
      if (host.peers index).state.isConnected then
        u32 (total + (host.peers index).outgoingDataTotal)
      else total) 0

/-- The registers before the first loop. -/
def startThrottling (host : Host) (elapsedTime : Nat) : Throttling where
  peers := host.peers
  peersRemaining := u32 host.connectedPeers
  dataTotal := if host.outgoingBandwidth ≠ 0 then host.outgoingData else 0xFFFFFFFF
  bandwidth :=
    if host.outgoingBandwidth ≠ 0 then u32 (host.outgoingBandwidth * elapsedTime) / 1000
    else 0xFFFFFFFF
  needsAdjustment := decide (0 < host.bandwidthLimitedPeers)

/-- Share what the first loop has left among the other peers. -/
def sharePeers (peerCount timeCurrent : Nat) (state : Throttling) : Nat → Peer :=
  if 0 < state.peersRemaining then
    (List.range peerCount).foldl
      (sharePeer timeCurrent (throttleOf state.dataTotal state.bandwidth)) state.peers
  else state.peers

/-- The part of `enet_host_bandwidth_throttle` that sets the throttle limits. -/
def throttlePeers (host : Host) (timeCurrent elapsedTime : Nat) : Host :=
  host.setPeers
    (sharePeers host.peerCount timeCurrent
      (adjustPeers host.peerCount timeCurrent elapsedTime (host.peerCount + 1)
        (host.startThrottling elapsedTime)))

/-- The registers before the limits are recalculated. -/
def startRecalculation (host : Host) : Throttling where
  peers := host.peers
  peersRemaining := u32 host.connectedPeers
  dataTotal := 0
  bandwidth := host.incomingBandwidth
  needsAdjustment := true

/-- The peers that are given a limit of their own, and the limit of the others. -/
def recalculateShares (host : Host) (timeCurrent : Nat) : Host × Nat :=
  if host.incomingBandwidth = 0 then (host, 0)
  else
    let recalculated :=
      recalculatePeers host.peerCount timeCurrent (host.peerCount + 1) host.startRecalculation 0
    (host.setPeers recalculated.1.peers, recalculated.2)

/-- The part of `enet_host_bandwidth_throttle` that recalculates the limits. -/
def recalculateLimits (host : Host) (timeCurrent : Nat) : Host :=
  let shares := host.recalculated.recalculateShares timeCurrent
  (List.range host.peerCount).foldl (announceLimit timeCurrent shares.2) shares.1

/-- `enet_host_bandwidth_throttle`. -/
def bandwidthThrottle (host : Host) : Host :=
  let timed := host.timeGet
  let host := timed.1
  let timeCurrent := timed.2
  let elapsedTime := sub32 timeCurrent host.bandwidthThrottleEpoch
  if elapsedTime < hostBandwidthThrottleInterval then host
  else
    let host := host.setThrottleEpoch timeCurrent
    if u32 host.connectedPeers = 0 then host
    else
      let host := host.throttlePeers timeCurrent elapsedTime
      if host.recalculateBandwidthLimits then host.recalculateLimits timeCurrent else host

/-! ## Disconnecting -/

/-- `enet_host_flush`. -/
def flush (fuel : Nat) (host : Host) : Option Host :=
  (sendOutgoingCommands fuel host.setServiceTime none false).map Prod.fst

/-- The DISCONNECT command that asks for no acknowledgement. -/
def disconnectCommand (data : Nat) : Protocol where
  command := .disconnect data
  acknowledge := false
  unsequenced := true
  channelID := 0xFF
  reliableSequenceNumber := 0

/-- `enet_peer_disconnect_now`. -/
def peerDisconnectNow (fuel : Nat) (host : Host) (index data : Nat) : Option Host :=
  let state := (host.peers index).state
  if state = .disconnected then some host
  else if state ≠ .zombie ∧ state ≠ .disconnecting then
    let host := ((host.resetQueues index).queueOutgoingCommand index
      (disconnectCommand data) none 0 0).1
    (host.flush fuel).map fun host => host.peerReset index
  else some (host.peerReset index)

/-- `enet_peer_disconnect`. -/
def peerDisconnect (fuel : Nat) (host : Host) (index data : Nat) : Option Host :=
  let state := (host.peers index).state
  if state = .disconnecting ∨ state = .disconnected ∨ state = .acknowledgingDisconnect ∨
      state = .zombie then some host
  else if state.isConnected then some (host.startDisconnect index data)
  else
    let host := ((host.resetQueues index).queueOutgoingCommand index
      (disconnectCommand data) none 0 0).1
    (host.flush fuel).map fun host => host.peerReset index

/-- `enet_peer_disconnect_later`. -/
def peerDisconnectLater (fuel : Nat) (host : Host) (index data : Nat) : Option Host :=
  let peer := host.peers index
  if peer.state.isConnected && peer.hasOutgoingCommands then
    some (host.setPeer index ((peer.setState .disconnectLater).setEventData data))
  else host.peerDisconnect fuel index data

/-! ## Service -/

/-- An event that nothing was stored in. -/
def clearEvent (event : Event) : Event :=
  { event with type := .none, peer := none, packet := none }

/-- `enet_host_check_events`. -/
def checkEvents (fuel : Nat) (host : Host) (event : Event) : Option (Host × Event × Int) :=
  dispatchIncomingCommands fuel host (clearEvent event)

/-- The dispatch of `enet_host_service`, which a null `event` skips. -/
def dispatchStage (fuel : Nat) (host : Host) (event : Option Event) :
    Option (Host × Option Event × Int) :=
  match event with
  | none => some (host, none, 0)
  | some event =>
    (dispatchIncomingCommands fuel host event).map fun dispatched =>
      (dispatched.1, some dispatched.2.1, dispatched.2.2)

/-- Run a stage after one that returned zero. -/
def andThen (before : Option (Host × Option Event × Int))
    (stage : Host → Option Event → Option (Host × Option Event × Int)) :
    Option (Host × Option Event × Int) :=
  before.bind fun result => if result.2.2 = 0 then stage result.1 result.2.1 else some result

/-- The body of the outer loop of `enet_host_service`, up to the test of the time. -/
def serviceTurn (fuel : Nat) (host : Host) (event : Option Event) :
    Option (Host × Option Event × Int) :=
  let host :=
    if hostBandwidthThrottleInterval ≤
        timeDifference host.serviceTime host.bandwidthThrottleEpoch then host.bandwidthThrottle
    else host
  let sent := sendOutgoingCommands fuel host event true
  let received := andThen sent fun host event => some (host.receiveIncomingCommands 256 event)
  let sent := andThen received fun host event => sendOutgoingCommands fuel host event true
  andThen sent fun host event => dispatchStage fuel host event

/-- The inner loop of `enet_host_service`: a value to return, or whether the wait
found something to receive. -/
def waitLoop (timeout : Nat) : (fuel : Nat) → Host → Option (Host × Except Int Bool)
  | 0, _ => none
  | fuel + 1, host =>
    let host := host.setServiceTime
    if timeGreaterEqual host.serviceTime timeout then some (host, .error 0)
    else
      let result := host.world.wait host.world.waitCalls
      let host := host.countWait
      match result with
      | .error => some (host, .error (-1))
      | .done true _ => waitLoop timeout fuel host
      | .done false receive => some (host, .ok receive)

/-- The outer loop of `enet_host_service`. -/
def serviceLoop (timeout : Nat) : (fuel : Nat) → Host → Option Event →
    Option (Host × Option Event × Int)
  | 0, _, _ => none
  | fuel + 1, host, event =>
    andThen (host.serviceTurn fuel event) fun host event =>
      if timeGreaterEqual host.serviceTime timeout then some (host, event, 0)
      else
        (waitLoop timeout fuel host).bind fun waited =>
          match waited with
          | (host, .error value) => some (host, event, value)
          | (host, .ok receive) =>
            let host := host.setServiceTime
            if receive then serviceLoop timeout fuel host event else some (host, event, 0)

/-- `enet_host_service`. -/
def service (fuel : Nat) (host : Host) (event : Option Event) (timeout : Nat) :
    Option (Host × Option Event × Int) :=
  andThen (dispatchStage fuel host (event.map clearEvent)) fun host event =>
    let host := host.setServiceTime
    serviceLoop (u32 (timeout + host.serviceTime)) fuel host event

/-! ## Settings of a host -/

/-- `enet_host_bandwidth_limit`. -/
def bandwidthLimit (host : Host) (incomingBandwidth outgoingBandwidth : Nat) : Host :=
  { host with
    incomingBandwidth := incomingBandwidth
    outgoingBandwidth := outgoingBandwidth
    recalculateBandwidthLimits := true }

/-- The channel limit that `enet_host_create` and `enet_host_channel_limit` take. -/
def clampChannelLimit (channelLimit : Nat) : Nat :=
  if channelLimit = 0 ∨ protocolMaximumChannelCount < channelLimit then
    protocolMaximumChannelCount
  else if channelLimit < protocolMinimumChannelCount then protocolMinimumChannelCount
  else channelLimit

/-- `enet_host_channel_limit`. -/
def setChannelLimit (host : Host) (channelLimit : Nat) : Host :=
  { host with channelLimit := clampChannelLimit channelLimit }

/-- Stores to the fields of a host that are settings. -/
def configure (host : Host) (mtu duplicatePeers maximumPacketSize maximumWaitingData : Nat)
    (checksum : Option (List UInt8 → Nat)) (compressor : Option Compressor) : Host :=
  { host with
    mtu := mtu
    duplicatePeers := duplicatePeers
    maximumPacketSize := maximumPacketSize
    maximumWaitingData := maximumWaitingData
    checksum := checksum
    compressor := compressor }

/-- `enet_host_broadcast`. -/
def broadcast (host : Host) (channelID : Nat) (packet : Packet) : Host :=
  let host :=
    (List.range host.peerCount).foldl
      (fun host index =>
        if (host.peers index).state ≠ .connected then host
        else (host.peerSend index channelID packet).1) host
  if host.heap.referenceCount packet.address = 0 then host.setHeap (host.heap.destroy packet)
  else host

/-! ## Creation -/

/-- A peer of the array that `enet_host_create` has cleared. -/
def clearedPeer (index : Nat) : Peer where
  outgoingPeerID := 0
  incomingPeerID := index
  connectID := 0
  outgoingSessionID := 0xFF
  incomingSessionID := 0xFF
  address := ⟨0, 0⟩
  state := .disconnected
  channels := fun _ => Channel.empty
  channelsAllocated := 0
  channelCount := 0
  incomingBandwidth := 0
  outgoingBandwidth := 0
  incomingBandwidthThrottleEpoch := 0
  outgoingBandwidthThrottleEpoch := 0
  incomingDataTotal := 0
  outgoingDataTotal := 0
  lastSendTime := 0
  lastReceiveTime := 0
  nextTimeout := 0
  earliestTimeout := 0
  packetLossEpoch := 0
  packetsSent := 0
  packetsLost := 0
  packetLoss := 0
  packetLossVariance := 0
  packetThrottle := 0
  packetThrottleLimit := 0
  packetThrottleCounter := 0
  packetThrottleEpoch := 0
  packetThrottleAcceleration := 0
  packetThrottleDeceleration := 0
  packetThrottleInterval := 0
  pingInterval := 0
  timeoutLimit := 0
  timeoutMinimum := 0
  timeoutMaximum := 0
  lastRoundTripTime := 0
  lowestRoundTripTime := 0
  lastRoundTripTimeVariance := 0
  highestRoundTripTimeVariance := 0
  roundTripTime := 0
  roundTripTimeVariance := 0
  mtu := 0
  windowSize := 0
  reliableDataInTransit := 0
  outgoingReliableSequenceNumber := 0
  acknowledgements := []
  sentReliableCommands := []
  outgoingSendReliableCommands := []
  outgoingCommands := []
  dispatchedCommands := []
  needsDispatch := false
  continueSending := false
  incomingUnsequencedGroup := 0
  outgoingUnsequencedGroup := 0
  unsequencedWindow := fun _ => false
  eventData := 0
  totalWaitingData := 0

/-- `enet_host_create`, once its allocations and its socket have succeeded. The
peers are reset; that writes nothing but their fields. -/
def create (heap : Heap) (world : World) (randomSeed peerCount channelLimit incomingBandwidth
    outgoingBandwidth : Nat) : Host where
  incomingBandwidth := incomingBandwidth
  outgoingBandwidth := outgoingBandwidth
  bandwidthThrottleEpoch := 0
  mtu := hostDefaultMtu
  randomSeed := randomSeed
  recalculateBandwidthLimits := false
  peers := fun index => ((clearedPeer index).resetFields hostDefaultMtu).resetQueues
  peerCount := peerCount
  channelLimit := clampChannelLimit channelLimit
  serviceTime := 0
  dispatchQueue := Library.Links.clear ⟨id, id⟩ .sentinel
  totalQueued := 0
  datagram := Datagram.start
  checksum := none
  compressor := none
  receivedAddress := ⟨hostAny, 0⟩
  receivedData := []
  totalSentData := 0
  totalSentPackets := 0
  totalReceivedData := 0
  totalReceivedPackets := 0
  connectedPeers := 0
  bandwidthLimitedPeers := 0
  duplicatePeers := protocolMaximumPeerID
  maximumPacketSize := hostDefaultMaximumPacketSize
  maximumWaitingData := hostDefaultMaximumWaitingData
  heap := heap
  world := world
  history := []
  decrementedAtZero := false

/-! ## Destruction -/

/-- The loop of `enet_host_destroy`, which resets every peer. The memory of the host
is freed after it, with what the compressor holds. -/
def hostDestroy (host : Host) : Host := (List.range host.peerCount).foldl peerReset host

/-! ## Runs -/

/-- A call of the application on one host. -/
inductive Call where
  | service (event : Option Event) (timeout : Nat)
  | checkEvents (event : Event)
  | flush
  | connect (address : Address) (channelCount data : Nat)
  | send (peer channelID : Nat) (packet : Packet)
  | broadcast (channelID : Nat) (packet : Packet)
  | receive (peer : Nat)
  | ping (peer : Nat)
  | pingInterval (peer interval : Nat)
  | timeout (peer limit minimum maximum : Nat)
  | throttleConfigure (peer interval acceleration deceleration : Nat)
  | reset (peer : Nat)
  | disconnect (peer data : Nat)
  | disconnectNow (peer data : Nat)
  | disconnectLater (peer data : Nat)
  | bandwidthLimit (incomingBandwidth outgoingBandwidth : Nat)
  | channelLimit (limit : Nat)
  /-- Stores to the fields of the host that are settings. -/
  | configure (mtu duplicatePeers maximumPacketSize maximumWaitingData : Nat)
      (checksum : Option (List UInt8 → Nat)) (compressor : Option Compressor)

namespace Call

/-- What a call has left in `*event` before it does anything else. -/
def event : Call → Option Event
  | service event _ => event.map clearEvent
  | checkEvents event => some (clearEvent event)
  | _ => none

/-- Run a call: the host, what `event` points to, and the integer returned. -/
def run (fuel : Nat) (host : Host) : Call → Option (Host × Option Event × Int)
  | service event duration => host.service fuel event duration
  | checkEvents event =>
    (host.checkEvents fuel event).map fun checked => (checked.1, some checked.2.1, checked.2.2)
  | flush => (host.flush fuel).map fun host => (host, none, 0)
  | connect address channelCount data =>
    some ((host.hostConnect address channelCount data).1, none, 0)
  | send peer channelID packet =>
    let sent := host.peerSend peer channelID packet
    some (sent.1, none, sent.2)
  | broadcast channelID packet => some (host.broadcast channelID packet, none, 0)
  | receive peer => some ((host.peerReceive peer).1, none, 0)
  | ping peer => some (host.peerPing peer, none, 0)
  | pingInterval peer interval => some (host.peerPingInterval peer interval, none, 0)
  | timeout peer limit minimum maximum =>
    some (host.peerTimeout peer limit minimum maximum, none, 0)
  | throttleConfigure peer interval acceleration deceleration =>
    some (host.peerThrottleConfigure peer interval acceleration deceleration, none, 0)
  | reset peer => some (host.peerReset peer, none, 0)
  | disconnect peer data => (host.peerDisconnect fuel peer data).map fun host => (host, none, 0)
  | disconnectNow peer data =>
    (host.peerDisconnectNow fuel peer data).map fun host => (host, none, 0)
  | disconnectLater peer data =>
    (host.peerDisconnectLater fuel peer data).map fun host => (host, none, 0)
  | bandwidthLimit incoming outgoing => some (host.bandwidthLimit incoming outgoing, none, 0)
  | channelLimit limit => some (host.setChannelLimit limit, none, 0)
  | configure mtu duplicatePeers maximumPacketSize maximumWaitingData checksum compressor =>
    some
      (host.configure mtu duplicatePeers maximumPacketSize maximumWaitingData checksum compressor,
        none, 0)

end Call

/-- The hosts that calls lead to from a new host, with any datagrams, any clock
and any results of the socket. -/
inductive Reachable : Host → Prop where
  | create (heap : Heap) (world : World) (randomSeed peerCount channelLimit incomingBandwidth
      outgoingBandwidth : Nat) :
      Reachable (create heap world randomSeed peerCount channelLimit incomingBandwidth
        outgoingBandwidth)
  | call {host host' : Host} {event : Option Event} {value : Int} (fuel : Nat) (call : Call)
      (reachable : Reachable host) (returns : call.run fuel host = some (host', event, value)) :
      Reachable host'

end Host

/-! ## Concrete worlds -/

/-- An allocator that never fails. -/
def Heap.ample : Heap where
  mallocSucceeds := fun _ => true
  uninitialised := fun _ _ => 0
  nextAddress := 0
  freed := []
  referenceCount := fun _ => 0
  destroyed := []

/-- A world in which these datagrams arrive, one at each call, at these times. -/
def World.delivering (time : Nat → Nat) (datagrams : List (Address × List UInt8)) : World where
  time := time
  timeCalls := 0
  receive := fun call =>
    match datagrams[call]? with
    | some (source, bytes) => .datagram source bytes
    | none => .nothing
  receiveCalls := 0
  send := fun _ => 0
  wait := fun _ => .done false false
  waitCalls := 0
  sent := []
  stale := []

end Enet
