import Enet.Library.Bytes
import Enet.Model.Host

/-!
# The command handlers

The handlers of `protocol.c`, one for each received command. A handler's Boolean
is the truth value of the integer it returns: true where the rest of the
datagram is given up.

The data handlers are given the bytes of the datagram behind the command. The
loop that calls them moves on by the command's data length, as they do.
-/

set_option autoImplicit false

namespace Enet

open Library

/-! ## Data -/

namespace Command

/-- The number of bytes that a command announces behind itself. -/
def dataLength : Command → Nat
  | sendReliable dataLength => dataLength
  | sendUnreliable _ dataLength => dataLength
  | sendUnsequenced _ dataLength => dataLength
  | sendFragment fields => fields.dataLength
  | sendUnreliableFragment fields => fields.dataLength
  | _ => 0

end Command

namespace IncomingCommand

/-- The command once a fragment is in: its bit, the count and the bytes. -/
def addFragment (incoming : IncomingCommand) (fragmentNumber fragmentOffset : Nat)
    (fragment : List UInt8) : IncomingCommand :=
  let fragmentLength :=
    if incoming.packet.dataLength < u32 (fragmentOffset + fragment.length) then
      sub32 (u32 incoming.packet.dataLength) fragmentOffset
    else fragment.length
  { incoming with
    fragmentsRemaining := sub32 incoming.fragmentsRemaining 1
    fragments := Function.update incoming.fragments fragmentNumber true
    packet :=
      { incoming.packet with
        data := overwrite incoming.packet.data fragmentOffset (fragment.take fragmentLength) } }

end IncomingCommand

namespace Peer

/-- The stores of `enet_protocol_handle_bandwidth_limit` to the peer. -/
def setBandwidth (peer : Peer) (incomingBandwidth outgoingBandwidth windowSize : Nat) : Peer :=
  { peer with
    incomingBandwidth := incomingBandwidth
    outgoingBandwidth := outgoingBandwidth
    windowSize := windowSize }

end Peer

namespace Host

/-- The tests with which every data handler begins: the channel, the state, and
the data behind the command. -/
def rejectsData (host : Host) (index : Nat) (command : Protocol) (data : List UInt8) : Bool :=
  let peer := host.peers index
  let dataLength := command.command.dataLength
  decide (peer.channelCount ≤ command.channelID) || !peer.state.isConnected ||
    decide (host.maximumPacketSize < dataLength) || decide (data.length < dataLength)

/-- `enet_protocol_handle_send_reliable`. -/
def handleSendReliable (host : Host) (index : Nat) (command : Protocol) (data : List UInt8) :
    Host × Bool :=
  if host.rejectsData index command data then (host, true)
  else
    let dataLength := command.command.dataLength
    match host.queueIncomingCommand index command (some (data.take dataLength)) dataLength
        ⟨true, false, false, false⟩ 0 with
    | (host, .rejected) => (host, true)
    | (host, _) => (host, false)

/-- `enet_protocol_handle_send_unreliable`. -/
def handleSendUnreliable (host : Host) (index : Nat) (command : Protocol) (data : List UInt8) :
    Host × Bool :=
  if host.rejectsData index command data then (host, true)
  else
    let dataLength := command.command.dataLength
    match host.queueIncomingCommand index command (some (data.take dataLength)) dataLength
        ⟨false, false, false, false⟩ 0 with
    | (host, .rejected) => (host, true)
    | (host, _) => (host, false)

/-- Move the window of unsequenced groups, unless it starts there already. -/
def moveUnsequencedWindow (host : Host) (index start : Nat) : Host :=
  let peer := host.peers index
  if start = peer.incomingUnsequencedGroup then host
  else host.setPeer index (peer.setUnsequencedWindow start fun _ => false)

/-- Note a group of the window of unsequenced groups. -/
def markUnsequenced (host : Host) (index place : Nat) : Host :=
  let peer := host.peers index
  host.setPeer index
    (peer.setUnsequencedWindow peer.incomingUnsequencedGroup
      (Function.update peer.unsequencedWindow place true))

/-- A received group, taken past the wrap-around where it is below the current one. -/
def unwrapGroup (received current : Nat) : Nat :=
  if received < current then received + 0x10000 else received

/-- `enet_protocol_handle_send_unsequenced`. -/
def handleSendUnsequenced (host : Host) (index : Nat) (command : Protocol) (received : Nat)
    (data : List UInt8) : Host × Bool :=
  if host.rejectsData index command data then (host, true)
  else
    let peer := host.peers index
    let place := received % peerUnsequencedWindowSize
    let unsequencedGroup := unwrapGroup received peer.incomingUnsequencedGroup
    if peer.incomingUnsequencedGroup + peerFreeUnsequencedWindows * peerUnsequencedWindowSize ≤
        unsequencedGroup then (host, false)
    else
      let start := u16 unsequencedGroup - place
      if start = peer.incomingUnsequencedGroup ∧ peer.unsequencedWindow place then (host, false)
      else
        let dataLength := command.command.dataLength
        match (host.moveUnsequencedWindow index start).queueIncomingCommand index command
            (some (data.take dataLength)) dataLength ⟨false, true, false, false⟩ 0 with
        | (host, .rejected) => (host, true)
        | (host, _) => (host.markUnsequenced index place, false)

/-- The list with a command written over the one at its address. -/
def writeCommand (incoming : IncomingCommand) : List IncomingCommand → List IncomingCommand
  | [] => []
  | other :: rest =>
    if other.address = incoming.address then incoming :: rest
    else other :: writeCommand incoming rest

/-- The command with an address, in one of the two lists of a channel. -/
def startCommand (host : Host) (index channelID : Nat) (reliable : Bool) (address : Nat) :
    Option IncomingCommand :=
  let channel := (host.peers index).channels channelID
  (if reliable then channel.incomingReliableCommands
    else channel.incomingUnreliableCommands).find? fun incoming => incoming.address = address

/-- Write through the pointer to a command of a channel. -/
def setStartCommand (host : Host) (index channelID : Nat) (reliable : Bool)
    (incoming : IncomingCommand) : Host :=
  let peer := host.peers index
  let channel := peer.channels channelID
  host.setPeer index
    (peer.setChannel channelID
      (if reliable then
        { channel with
          incomingReliableCommands := writeCommand incoming channel.incomingReliableCommands }
      else
        { channel with
          incomingUnreliableCommands :=
            writeCommand incoming channel.incomingUnreliableCommands }))

/-- The end of the two fragment handlers: put a fragment into the command it
belongs to, and dispatch the command when it is the last one. -/
def addFragment (host : Host) (index channelID : Nat) (reliable : Bool) (address : Nat)
    (fields : SendFragment) (data : List UInt8) : Host :=
  match host.startCommand index channelID reliable address with
  | none => host
  | some incoming =>
    if incoming.fragments fields.fragmentNumber then host
    else
      let incoming :=
        incoming.addFragment fields.fragmentNumber fields.fragmentOffset
          (data.take fields.dataLength)
      let host := host.setStartCommand index channelID reliable incoming
      if incoming.fragmentsRemaining ≤ 0 then
        if reliable then host.dispatchIncomingReliableCommands index channelID none
        else host.dispatchIncomingUnreliableCommands index channelID none
      else host

/-- Whether the command found in a list is not the one a fragment belongs to. -/
def isForeign (command : Protocol) (fields : SendFragment) (incoming : IncomingCommand) : Bool :=
  decide (incoming.command.command.number ≠ command.command.number) ||
    decide (fields.totalLength ≠ incoming.packet.dataLength) ||
    decide (fields.fragmentCount ≠ incoming.fragmentCount)

/-- `enet_protocol_handle_send_fragment`. -/
def handleSendFragment (host : Host) (index : Nat) (command : Protocol) (fields : SendFragment)
    (data : List UInt8) : Host × Bool :=
  if host.rejectsData index command data || decide (fields.dataLength ≤ 0) then (host, true)
  else
    let channel := (host.peers index).channels command.channelID
    if !Channel.inWindow channel.incomingReliableSequenceNumber fields.startSequenceNumber then
      (host, false)
    else if protocolMaximumFragmentCount < fields.fragmentCount ∨
        fields.fragmentCount ≤ fields.fragmentNumber ∨
        host.maximumPacketSize < fields.totalLength ∨
        fields.totalLength < fields.fragmentCount ∨
        fields.totalLength ≤ fields.fragmentOffset ∨
        fields.totalLength - fields.fragmentOffset < fields.dataLength then (host, true)
    else
      match channel.searchReliable fields.startSequenceNumber with
      | .found incoming =>
        if isForeign command fields incoming then (host, true)
        else (host.addFragment index command.channelID true incoming.address fields data, false)
      | .place _ _ =>
        match host.queueIncomingCommand index
            { command with reliableSequenceNumber := fields.startSequenceNumber } none
            fields.totalLength ⟨true, false, false, false⟩ fields.fragmentCount with
        | (host, .command address) =>
          (host.addFragment index command.channelID true address fields data, false)
        | (host, _) => (host, true)

/-- `enet_protocol_handle_send_unreliable_fragment`. -/
def handleSendUnreliableFragment (host : Host) (index : Nat) (command : Protocol)
    (fields : SendFragment) (data : List UInt8) : Host × Bool :=
  if host.rejectsData index command data then (host, true)
  else
    let channel := (host.peers index).channels command.channelID
    let number := command.reliableSequenceNumber
    if !Channel.inWindow channel.incomingReliableSequenceNumber number then (host, false)
    else if number = channel.incomingReliableSequenceNumber ∧
        fields.startSequenceNumber ≤ channel.incomingUnreliableSequenceNumber then (host, false)
    else if protocolMaximumFragmentCount < fields.fragmentCount ∨
        fields.fragmentCount ≤ fields.fragmentNumber ∨
        host.maximumPacketSize < fields.totalLength ∨
        fields.totalLength ≤ fields.fragmentOffset ∨
        fields.totalLength - fields.fragmentOffset < fields.dataLength then (host, true)
    else
      match channel.searchUnreliable number fields.startSequenceNumber with
      | .found incoming =>
        if isForeign command fields incoming then (host, true)
        else (host.addFragment index command.channelID false incoming.address fields data, false)
      | .place _ _ =>
        match host.queueIncomingCommand index command none fields.totalLength
            ⟨false, false, false, true⟩ fields.fragmentCount with
        | (host, .command address) =>
          (host.addFragment index command.channelID false address fields data, false)
        | (host, _) => (host, true)

/-! ## Settings -/

/-- `enet_protocol_handle_ping`. -/
def handlePing (host : Host) (index : Nat) : Host × Bool :=
  (host, !(host.peers index).state.isConnected)

/-- `host->bandwidthLimitedPeers = count`, after a decrement of the count or without. -/
def setBandwidthLimitedPeers (host : Host) (count : Nat) (decremented : Bool) : Host :=
  { host with
    bandwidthLimitedPeers := count
    decrementedAtZero :=
      host.decrementedAtZero || (decremented && decide (host.bandwidthLimitedPeers = 0)) }

/-- `enet_protocol_handle_bandwidth_limit`. -/
def handleBandwidthLimit (host : Host) (index incomingBandwidth outgoingBandwidth : Nat) :
    Host × Bool :=
  let peer := host.peers index
  if !peer.state.isConnected then (host, true)
  else
    let limited :=
      if peer.incomingBandwidth ≠ 0 then sub64 host.bandwidthLimitedPeers 1
      else host.bandwidthLimitedPeers
    let limited := if incomingBandwidth ≠ 0 then limited + 1 else limited
    ((host.setBandwidthLimitedPeers limited (decide (peer.incomingBandwidth ≠ 0))).setPeer index
      (peer.setBandwidth incomingBandwidth outgoingBandwidth
        (Peer.negotiateWindowSize host.outgoingBandwidth incomingBandwidth)), false)

/-- `enet_protocol_handle_throttle_configure`. -/
def handleThrottleConfigure (host : Host) (index interval acceleration deceleration : Nat) :
    Host × Bool :=
  let peer := host.peers index
  if !peer.state.isConnected then (host, true)
  else
    (host.setPeer index (peer.setThrottle interval acceleration deceleration), false)

/-! ## Connections -/

/-- The slots that `enet_protocol_handle_connect` compares a CONNECT command
with: those from the same host that are in use and not connecting. -/
def isDuplicate (host : Host) (index : Nat) : Bool :=
  let peer := host.peers index
  decide (peer.state ≠ .disconnected) && decide (peer.state ≠ .connecting) &&
    decide (peer.address.host = host.receivedAddress.host)

/-- Whether a slot already holds the connection of a CONNECT command. -/
def isSameConnection (host : Host) (connectID index : Nat) : Bool :=
  host.isDuplicate index &&
    decide ((host.peers index).address.port = host.receivedAddress.port) &&
    decide ((host.peers index).connectID = connectID)

/-- The window size that `enet_protocol_handle_connect` answers with. -/
def verifiedWindowSize (host : Host) (received : Nat) : Nat :=
  let windowSize :=
    if host.incomingBandwidth = 0 then protocolMaximumWindowSize
    else Peer.scaleWindowSize host.incomingBandwidth
  Peer.clampWindowSize (if received < windowSize then received else windowSize)

/-- The peer that `enet_protocol_handle_connect` sets up for a CONNECT command. -/
def acceptedPeer (host : Host) (peer : Peer) (fields : Connect) : Peer :=
  let channelCount :=
    if host.channelLimit < fields.channelCount then host.channelLimit else fields.channelCount
  let mtu := Peer.clampMtu fields.mtu
  { peer with
    channels := fun _ => Channel.empty
    channelsAllocated := channelCount
    channelCount := channelCount
    state := .acknowledgingConnect
    connectID := fields.connectID
    address := host.receivedAddress
    mtu := if mtu < host.mtu then mtu else host.mtu
    outgoingPeerID := fields.outgoingPeerID
    incomingBandwidth := fields.incomingBandwidth
    outgoingBandwidth := fields.outgoingBandwidth
    packetThrottleInterval := fields.packetThrottleInterval
    packetThrottleAcceleration := fields.packetThrottleAcceleration
    packetThrottleDeceleration := fields.packetThrottleDeceleration
    eventData := fields.data
    outgoingSessionID := Peer.nextSessionID fields.incomingSessionID peer.outgoingSessionID
    incomingSessionID := Peer.nextSessionID fields.outgoingSessionID peer.incomingSessionID
    windowSize := Peer.negotiateWindowSize host.outgoingBandwidth fields.incomingBandwidth }

/-- The VERIFY_CONNECT command with which a host answers. -/
def verifyCommand (host : Host) (peer : Peer) (fields : Connect) : Protocol where
  command :=
    .verifyConnect
      { outgoingPeerID := peer.incomingPeerID
        incomingSessionID := peer.outgoingSessionID
        outgoingSessionID := peer.incomingSessionID
        mtu := peer.mtu
        windowSize := host.verifiedWindowSize fields.windowSize
        channelCount := peer.channelCount
        incomingBandwidth := host.incomingBandwidth
        outgoingBandwidth := host.outgoingBandwidth
        packetThrottleInterval := peer.packetThrottleInterval
        packetThrottleAcceleration := peer.packetThrottleAcceleration
        packetThrottleDeceleration := peer.packetThrottleDeceleration
        connectID := peer.connectID }
  acknowledge := true
  unsequenced := false
  channelID := 0xFF
  reliableSequenceNumber := 0

/-- `enet_protocol_handle_connect`: the slot taken, if any. -/
def handleConnect (host : Host) (fields : Connect) : Host × Option Nat :=
  if fields.channelCount < protocolMinimumChannelCount ∨
      protocolMaximumChannelCount < fields.channelCount ∨
      (List.range host.peerCount).any (host.isSameConnection fields.connectID) then
    (host, none)
  else
    match host.freePeer with
    | none => (host, none)
    | some index =>
      if host.duplicatePeers ≤ ((List.range host.peerCount).filter host.isDuplicate).length then
        (host, none)
      else
        match host.heap.malloc with
        | (heap, none) =>
          -- the null pointer is stored in `peer->channels`
          ((host.setHeap heap).setPeer index (host.peers index).clearChannels, none)
        | (heap, some _) =>
          let host := (host.setHeap heap).observe (.started index false)
          let peer := host.acceptedPeer (host.peers index) fields
          (((host.setPeer index peer).queueOutgoingCommand index (host.verifyCommand peer fields)
            none 0 0).1, some index)

/-- The branches of `enet_protocol_handle_disconnect` on the state of the peer. -/
def leaveConnection (host : Host) (index : Nat) (state : PeerState) (acknowledge : Bool) : Host :=
  if state = .connectionSucceeded ∨ state = .disconnecting ∨ state = .connecting then
    host.dispatchState index .zombie
  else if !state.isConnected then
    (if state = .connectionPending then host.recalculate else host).peerReset index
  else if acknowledge then host.changeState index .acknowledgingDisconnect
  else host.dispatchState index .zombie

/-- `enet_protocol_handle_disconnect`. -/
def handleDisconnect (host : Host) (index : Nat) (command : Protocol) (data : Nat) : Host × Bool :=
  let state := (host.peers index).state
  if state = .disconnected ∨ state = .zombie ∨ state = .acknowledgingDisconnect then
    (host, false)
  else
    let host := (host.resetQueues index).leaveConnection index state command.acknowledge
    if (host.peers index).state ≠ .disconnected then
      (host.setPeer index ((host.peers index).setEventData data), false)
    else (host, false)

end Host

/-! ## Acknowledgements -/

namespace Peer

/-- The round-trip time of an acknowledgement, taken into the averages. -/
def averageRoundTripTime (peer : Peer) (roundTripTime : Nat) : Peer :=
  if 0 < peer.lastReceiveTime then
    let peer := peer.throttle roundTripTime
    let variance := peer.roundTripTimeVariance - peer.roundTripTimeVariance / 4
    if peer.roundTripTime ≤ roundTripTime then
      let diff := roundTripTime - peer.roundTripTime
      { peer with
        roundTripTimeVariance := u32 (variance + diff / 4)
        roundTripTime := u32 (peer.roundTripTime + diff / 8) }
    else
      let diff := peer.roundTripTime - roundTripTime
      { peer with
        roundTripTimeVariance := u32 (variance + diff / 4)
        roundTripTime := peer.roundTripTime - diff / 8 }
  else
    { peer with
      roundTripTime := roundTripTime
      roundTripTimeVariance := u32 (roundTripTime + 1) / 2 }

/-- The two extremes, and the start of a new throttle interval. -/
def trackRoundTripTime (peer : Peer) (serviceTime : Nat) : Peer :=
  let peer :=
    { peer with
      lowestRoundTripTime :=
        if peer.roundTripTime < peer.lowestRoundTripTime then peer.roundTripTime
        else peer.lowestRoundTripTime
      highestRoundTripTimeVariance :=
        if peer.highestRoundTripTimeVariance < peer.roundTripTimeVariance then
          peer.roundTripTimeVariance
        else peer.highestRoundTripTimeVariance }
  if peer.packetThrottleEpoch = 0 ∨
      peer.packetThrottleInterval ≤ timeDifference serviceTime peer.packetThrottleEpoch then
    { peer with
      lastRoundTripTime := peer.lowestRoundTripTime
      lastRoundTripTimeVariance := max peer.highestRoundTripTimeVariance 1
      lowestRoundTripTime := peer.roundTripTime
      highestRoundTripTimeVariance := peer.roundTripTimeVariance
      packetThrottleEpoch := serviceTime }
  else peer

/-- What `enet_protocol_handle_acknowledge` does with a round-trip time. -/
def updateRoundTripTime (peer : Peer) (serviceTime roundTripTime : Nat) : Peer :=
  { (peer.averageRoundTripTime roundTripTime).trackRoundTripTime serviceTime with
    lastReceiveTime := max serviceTime 1
    earliestTimeout := 0 }

end Peer

namespace Host

/-- `receivedSentTime`, with the upper half that the clock gives it. -/
def receivedSentTime (serviceTime received : Nat) : Nat :=
  let sentTime := received ||| (serviceTime &&& 0xFFFF0000)
  if serviceTime &&& 0x8000 < sentTime &&& 0x8000 then sub32 sentTime 0x10000 else sentTime

/-- `enet_protocol_remove_sent_reliable_command`: the number of the command
removed, zero if there is none. -/
def removeSentReliableCommand (host : Host) (index reliableSequenceNumber channelID : Nat) :
    Host × Nat :=
  match (host.peers index).removeSentReliableCommand reliableSequenceNumber channelID with
  | (_, none) => (host, 0)
  | (peer, some outgoing) =>
    ((host.setHeap (host.heap.removeOutgoing outgoing)).setPeer index peer,
      outgoing.command.command.number)

/-- The switch of `enet_protocol_handle_acknowledge` on the state of the peer. -/
def settleAcknowledge (host : Host) (event : Option Event) (index commandNumber : Nat) :
    Host × Option Event × Bool :=
  match (host.peers index).state with
  | .acknowledgingConnect =>
    if commandNumber ≠ 3 then (host, event, true)
    else
      let notified := host.notifyConnect index event
      (notified.1, notified.2, false)
  | .disconnecting =>
    if commandNumber ≠ 4 then (host, event, true)
    else
      let notified := host.notifyDisconnect index event
      (notified.1, notified.2, false)
  | .disconnectLater =>
    if (host.peers index).hasOutgoingCommands then (host, event, false)
    else (host.startDisconnect index (host.peers index).eventData, event, false)
  | _ => (host, event, false)

/-- `enet_protocol_handle_acknowledge`. -/
def handleAcknowledge (host : Host) (event : Option Event)
    (index channelID received sentTime : Nat) : Host × Option Event × Bool :=
  let state := (host.peers index).state
  if state = .disconnected ∨ state = .zombie then (host, event, false)
  else
    let receivedSentTime := receivedSentTime host.serviceTime sentTime
    if timeLess host.serviceTime receivedSentTime then (host, event, false)
    else
      let roundTripTime := max (timeDifference host.serviceTime receivedSentTime) 1
      let removed :=
        (host.setPeer index
          ((host.peers index).updateRoundTripTime host.serviceTime
            roundTripTime)).removeSentReliableCommand index received channelID
      removed.1.settleAcknowledge event index removed.2

/-- The tests of `enet_protocol_handle_verify_connect`. -/
def rejectsVerify (peer : Peer) (fields : VerifyConnect) : Bool :=
  decide (fields.channelCount < protocolMinimumChannelCount) ||
    decide (protocolMaximumChannelCount < fields.channelCount) ||
    decide (fields.packetThrottleInterval ≠ peer.packetThrottleInterval) ||
    decide (fields.packetThrottleAcceleration ≠ peer.packetThrottleAcceleration) ||
    decide (fields.packetThrottleDeceleration ≠ peer.packetThrottleDeceleration) ||
    decide (fields.connectID ≠ peer.connectID)

/-- The fields that a VERIFY_CONNECT command sets. -/
def verifiedPeer (peer : Peer) (fields : VerifyConnect) : Peer :=
  let mtu := Peer.clampMtu fields.mtu
  let windowSize := Peer.clampWindowSize fields.windowSize
  { peer with
    channelCount :=
      if fields.channelCount < peer.channelCount then fields.channelCount else peer.channelCount
    outgoingPeerID := fields.outgoingPeerID
    incomingSessionID := fields.incomingSessionID
    outgoingSessionID := fields.outgoingSessionID
    mtu := if mtu < peer.mtu then mtu else peer.mtu
    windowSize := if windowSize < peer.windowSize then windowSize else peer.windowSize
    incomingBandwidth := fields.incomingBandwidth
    outgoingBandwidth := fields.outgoingBandwidth }

/-- `enet_protocol_handle_verify_connect`. -/
def handleVerifyConnect (host : Host) (event : Option Event) (index : Nat)
    (fields : VerifyConnect) : Host × Option Event × Bool :=
  let peer := host.peers index
  if peer.state ≠ .connecting then (host, event, false)
  else if rejectsVerify peer fields then
    ((host.setPeer index (peer.setEventData 0)).dispatchState index .zombie, event, true)
  else
    let host := (host.removeSentReliableCommand index 1 0xFF).1
    let host := host.setPeer index (verifiedPeer (host.peers index) fields)
    let notified := host.notifyConnect index event
    (notified.1, notified.2, false)

/-! ## One command -/

/-- The switch of `enet_protocol_handle_incoming_commands` for a known peer. -/
def handleCommand (host : Host) (event : Option Event) (index : Nat) (command : Protocol)
    (data : List UInt8) : Host × Option Event × Bool :=
  let keep (handled : Host × Bool) : Host × Option Event × Bool := (handled.1, event, handled.2)
  match command.command with
  | .acknowledge received sentTime =>
    host.handleAcknowledge event index command.channelID received sentTime
  | .connect _ => (host, event, true)
  | .verifyConnect fields => host.handleVerifyConnect event index fields
  | .disconnect data => keep (host.handleDisconnect index command data)
  | .ping => keep (host.handlePing index)
  | .sendReliable _ => keep (host.handleSendReliable index command data)
  | .sendUnreliable _ _ => keep (host.handleSendUnreliable index command data)
  | .sendFragment fields => keep (host.handleSendFragment index command fields data)
  | .sendUnsequenced group _ => keep (host.handleSendUnsequenced index command group data)
  | .bandwidthLimit incoming outgoing => keep (host.handleBandwidthLimit index incoming outgoing)
  | .throttleConfigure interval acceleration deceleration =>
    keep (host.handleThrottleConfigure index interval acceleration deceleration)
  | .sendUnreliableFragment fields =>
    keep (host.handleSendUnreliableFragment index command fields data)

/-- The acknowledgement of a handled command. -/
def acknowledgeCommand (host : Host) (index : Nat) (command : Protocol) (sentTime : Nat) : Host :=
  match (host.peers index).state with
  | .disconnecting | .acknowledgingConnect | .disconnected | .zombie => host
  | .acknowledgingDisconnect =>
    match command.command with
    | .disconnect _ => (host.queueAcknowledgement index command sentTime).1
    | _ => host
  | _ => (host.queueAcknowledgement index command sentTime).1

end Host

end Enet
