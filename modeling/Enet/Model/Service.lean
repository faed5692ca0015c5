import Enet.Model.Incoming

/-!
# Serving a host

`enet_protocol_send_outgoing_commands` with the bytes it passes to the socket,
`enet_host_bandwidth_throttle`, and the functions that an application calls.

Three loops have no bound in the source: the passes over the peers while one of
them has more to send, the dispatch loop, and the two loops of
`enet_host_service` around the socket. They are given fuel, and nothing is
returned when it runs out.
-/

set_option autoImplicit false

namespace Enet

open Library

/-! ## The datagram of a peer -/

namespace Part

/-- The bytes of the buffers of a command. -/
def encode (part : Part) : List UInt8 := part.command.encode ++ part.payload.getD []

end Part

/-- The bytes of the buffers past the header. -/
def encodeParts (parts : List Part) : List UInt8 := parts.flatMap Part.encode

/-- The first word of a datagram. -/
def headerWord (peer : Peer) (sentTime compressed : Bool) : Nat :=
  u16 (peer.outgoingPeerID ||| (if sentTime then 0x8000 else 0) |||
    (if compressed then 0x4000 else 0) |||
    (if peer.outgoingPeerID < protocolMaximumPeerID then peer.outgoingSessionID <<< 12 else 0))

namespace Peer

/-- `peer->lastSendTime = time`. -/
def setLastSendTime (peer : Peer) (time : Nat) : Peer := { peer with lastSendTime := time }

/-- The packet loss of a peer, once an interval is over. -/
def updatePacketLoss (peer : Peer) (serviceTime : Nat) : Peer :=
  if peer.packetLossEpoch = 0 then { peer with packetLossEpoch := serviceTime }
  else if peerPacketLossInterval ≤ timeDifference serviceTime peer.packetLossEpoch ∧
      0 < peer.packetsSent then
    let packetLoss := u32 (peer.packetsLost * peerPacketLossScale) / peer.packetsSent
    let difference :=
      if packetLoss < peer.packetLoss then peer.packetLoss - packetLoss
      else packetLoss - peer.packetLoss
    { peer with
      packetLossVariance := u32 (u32 (peer.packetLossVariance * 3) + difference) / 4
      packetLoss := u32 (u32 (peer.packetLoss * 7) + packetLoss) / 8
      packetLossEpoch := serviceTime
      packetsSent := 0
      packetsLost := 0 }
  else peer

end Peer

namespace Host

/-- The bytes of the parts as the compressor leaves them, where that is shorter. -/
def compressed (host : Host) (originalSize : Nat) (bytes : List UInt8) : Option (List UInt8) :=
  match host.compressor.bind Compressor.compress with
  | none => none
  | some compress =>
    let shorter := compress bytes originalSize
    if 0 < shorter.length ∧ shorter.length < originalSize then some shorter else none

/-- The bytes that `enet_protocol_send_outgoing_commands` passes to
`enet_socket_send` for the datagram of a peer. -/
def datagramBytes (host : Host) (peer : Peer) : List UInt8 :=
  let body := encodeParts host.datagram.parts
  let compressed := host.compressed (host.datagram.packetSize - 4) body
  let header :=
    toBigEndian 2 (headerWord peer host.datagram.sentTime compressed.isSome) ++
      if host.datagram.sentTime then toBigEndian 2 (u16 host.serviceTime) else []
  let header :=
    match host.checksum with
    | none => header
    | some checksum =>
      let connectID := if peer.outgoingPeerID < protocolMaximumPeerID then peer.connectID else 0
      header ++ toLittleEndian 4 (checksum (header ++ toLittleEndian 4 connectID ++ body))
  header ++ compressed.getD body

/-- Note the bytes passed to `enet_socket_send`. -/
def pass (host : Host) (address : Address) (bytes : List UInt8) : Host :=
  { host with world := { host.world with sent := host.world.sent ++ [(address, bytes)] } }

/-- The counts of a host for a datagram it has sent. -/
def countSent (host : Host) (sentLength : Nat) : Host :=
  { host with
    totalSentData := u32 (host.totalSentData + sentLength)
    totalSentPackets := u32 (host.totalSentPackets + 1) }

/-- Pass the datagram of a peer to the socket; the Boolean is false where the
socket fails. -/
def sendDatagram (host : Host) (index : Nat) (sentUnreliable : List OutgoingCommand) :
    Host × Bool :=
  let host := host.setPeer index ((host.peers index).updatePacketLoss host.serviceTime)
  let peer := host.peers index
  let bytes := host.datagramBytes peer
  let sentLength := host.world.send host.world.sent.length
  let host := host.pass peer.address bytes
  let host := host.setPeer index (peer.setLastSendTime host.serviceTime)
  let host := host.removeSentUnreliableCommands index sentUnreliable
  if sentLength < 0 then (host, false)
  else
    (host.countSent sentLength.toNat, true)

/-! ## One peer of a pass -/

/-- What one peer's turn in `enet_protocol_send_outgoing_commands` leads to. -/
inductive Turn where
  | skip
  | next
  | return (value : Int)
  deriving DecidableEq, Repr

/-- The datagram, emptied for a peer, and the acknowledgements put in it. -/
def startDatagram (host : Host) (index : Nat) : Host :=
  let host :=
    (host.setDatagram Datagram.start).setPeer index
      ((host.peers index).setContinueSending false)
  sendAcknowledgements index (host.peers index).acknowledgements host

/-- Whether a ping may follow what the first check of the outgoing commands left. -/
def needsPing (host : Host) (index : Nat) : Bool :=
  let peer := host.peers index
  peer.sentReliableCommands.isEmpty &&
    decide (peer.pingInterval ≤ timeDifference host.serviceTime peer.lastReceiveTime) &&
    decide (4 ≤ sub64 peer.mtu host.datagram.packetSize)

/-- The first check of the outgoing commands, which empty queues skip. -/
def checkWaitingCommands (host : Host) (index : Nat) : Host × List OutgoingCommand × Bool :=
  let peer := host.peers index
  if peer.outgoingCommands.isEmpty && peer.outgoingSendReliableCommands.isEmpty then
    (host, [], true)
  else host.checkOutgoingCommands index []

/-- The commands of a peer, and a ping where nothing else is to be acknowledged. -/
def fillDatagram (host : Host) (index : Nat) : Host × List OutgoingCommand :=
  let checked := host.checkWaitingCommands index
  if checked.2.2 && checked.1.needsPing index then
    let pinged := (checked.1.peerPing index).checkOutgoingCommands index checked.2.1
    (pinged.1, pinged.2.1)
  else (checked.1, checked.2.1)

/-- The check of the timeouts, where it is due. -/
def checkDueTimeouts (host : Host) (event : Option Event) (checkForTimeouts : Bool) (index : Nat) :
    Host × Option Event × Bool :=
  let peer := host.peers index
  if checkForTimeouts && !peer.sentReliableCommands.isEmpty &&
      timeGreaterEqual host.serviceTime peer.nextTimeout then
    host.checkTimeouts index event
  else (host, event, false)

/-- Fill the datagram of a peer and send it, unless it stays empty. -/
def sendFilled (host : Host) (event : Option Event) (index : Nat) : Host × Option Event × Turn :=
  let filled := host.fillDatagram index
  if filled.1.datagram.commandCount = 0 then (filled.1, event, .next)
  else
    match filled.1.sendDatagram index filled.2 with
    | (host, true) => (host, event, .next)
    | (host, false) => (host, event, .return (-1))

/-- The body of the inner loop of `enet_protocol_send_outgoing_commands`. -/
def sendPeer (host : Host) (event : Option Event) (checkForTimeouts : Bool) (sendPass index : Nat) :
    Host × Option Event × Turn :=
  let peer := host.peers index
  if peer.state = .disconnected ∨ peer.state = .zombie ∨
      (0 < sendPass ∧ peer.continueSending = false) then (host, event, .skip)
  else
    let checked := (host.startDatagram index).checkDueTimeouts event checkForTimeouts index
    if checked.2.2 then
      (checked.1, checked.2.1, if isStored checked.2.1 then .return 1 else .next)
    else checked.1.sendFilled checked.2.1 index

/-- The inner loop, over the peers left. -/
def sendPeers (checkForTimeouts : Bool) (sendPass : Nat) :
    List Nat → Host → Option Event → (continueSending : Bool) →
      Host × Option Event × Bool × Turn
  | [], host, event, continueSending => (host, event, continueSending, .next)
  | index :: rest, host, event, continueSending =>
    match host.sendPeer event checkForTimeouts sendPass index with
    | (host, event, .return value) => (host, event, continueSending, .return value)
    | (host, event, .skip) =>
      sendPeers checkForTimeouts sendPass rest host event continueSending
    | (host, event, .next) =>
      sendPeers checkForTimeouts sendPass rest host event
        (continueSending || (host.peers index).continueSending)

/-- The passes of `enet_protocol_send_outgoing_commands`. -/
def sendPasses (checkForTimeouts : Bool) :
    (fuel sendPass : Nat) → Host → Option Event → Option (Host × Option Event × Int)
  | 0, _, _, _ => none
  | fuel + 1, sendPass, host, event =>
    match sendPeers checkForTimeouts sendPass (List.range host.peerCount) host event false with
    | (host, event, _, .return value) => some (host, event, value)
    | (host, event, true, _) => sendPasses checkForTimeouts fuel (sendPass + 1) host event
    | (host, event, false, _) => some (host, event, 0)

/-- `enet_protocol_send_outgoing_commands`. -/
def sendOutgoingCommands (fuel : Nat) (host : Host) (event : Option Event)
    (checkForTimeouts : Bool) : Option (Host × Option Event × Int) :=
  sendPasses checkForTimeouts fuel 0 host event

end Host

end Enet
