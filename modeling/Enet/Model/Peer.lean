import Enet.Model.State

/-!
# Peers: numbering, queueing and sending

The functions of `peer.c` that number outgoing commands and put them in the two
outgoing queues, the packet throttle, and the acknowledgement queue.

Where a function touches one peer only, it is a function on peers; the function
of the same name on hosts allocates, counts references and installs the result.
-/

set_option autoImplicit false

namespace Enet

namespace Peer

/-! ## The throttle -/

/-- `enet_peer_throttle`. No caller reads its return value. -/
def throttle (peer : Peer) (rtt : Nat) : Peer :=
  if peer.lastRoundTripTime ≤ peer.lastRoundTripTimeVariance then
    { peer with packetThrottle := peer.packetThrottleLimit }
  else if rtt ≤ peer.lastRoundTripTime then
    let packetThrottle := u32 (peer.packetThrottle + peer.packetThrottleAcceleration)
    { peer with
      packetThrottle :=
        if peer.packetThrottleLimit < packetThrottle then peer.packetThrottleLimit
        else packetThrottle }
  else if u32 (peer.lastRoundTripTime + 2 * peer.lastRoundTripTimeVariance) < rtt then
    { peer with
      packetThrottle :=
        if peer.packetThrottleDeceleration < peer.packetThrottle then
          peer.packetThrottle - peer.packetThrottleDeceleration
        else 0 }
  else peer

/-! ## Numbering and queueing -/

/-- The sequence numbers `enet_peer_setup_outgoing_command` gives a command:
those of the connection for channel 255, of the channel otherwise. -/
def numberOutgoingCommand (peer : Peer) (outgoing : OutgoingCommand) : Peer × OutgoingCommand :=
  if outgoing.command.channelID = 0xFF then
    let number := u16 (peer.outgoingReliableSequenceNumber + 1)
    ({ peer with outgoingReliableSequenceNumber := number },
      { outgoing with reliableSequenceNumber := number, unreliableSequenceNumber := 0 })
  else
    let channel := peer.channels outgoing.command.channelID
    if outgoing.command.acknowledge then
      let number := u16 (channel.outgoingReliableSequenceNumber + 1)
      (peer.setChannel outgoing.command.channelID
          { channel with
            outgoingReliableSequenceNumber := number
            outgoingUnreliableSequenceNumber := 0 },
        { outgoing with reliableSequenceNumber := number, unreliableSequenceNumber := 0 })
    else if outgoing.command.unsequenced then
      ({ peer with outgoingUnsequencedGroup := u16 (peer.outgoingUnsequencedGroup + 1) },
        { outgoing with reliableSequenceNumber := 0, unreliableSequenceNumber := 0 })
    else
      let number :=
        if outgoing.fragmentOffset = 0 then u16 (channel.outgoingUnreliableSequenceNumber + 1)
        else channel.outgoingUnreliableSequenceNumber
      (peer.setChannel outgoing.command.channelID
          { channel with outgoingUnreliableSequenceNumber := number },
        { outgoing with
          reliableSequenceNumber := channel.outgoingReliableSequenceNumber
          unreliableSequenceNumber := number })

/-- The fields of the wire command that `enet_peer_setup_outgoing_command` fills in. -/
def stampCommand (command : Protocol) (reliableSequenceNumber unreliableSequenceNumber
    unsequencedGroup : Nat) : Protocol :=
  { command with
    reliableSequenceNumber := reliableSequenceNumber
    command :=
      match command.command with
      | .sendUnreliable _ dataLength => .sendUnreliable unreliableSequenceNumber dataLength
      | .sendUnsequenced _ dataLength => .sendUnsequenced unsequencedGroup dataLength
      | other => other }

/-- Count the bytes of a command. -/
def countOutgoingData (peer : Peer) (outgoing : OutgoingCommand) : Peer :=
  { peer with
    outgoingDataTotal :=
      u32 (peer.outgoingDataTotal + outgoing.command.size + outgoing.fragmentLength) }

/-- A numbered command with its other fields set, for a new value of
`host->totalQueued` and the number of the unsequenced group. -/
def stampOutgoing (outgoing : OutgoingCommand) (totalQueued unsequencedGroup : Nat) :
    OutgoingCommand :=
  { outgoing with
    sendAttempts := 0
    sentTime := 0
    roundTripTimeout := 0
    queueTime := totalQueued
    command :=
      stampCommand outgoing.command outgoing.reliableSequenceNumber
        outgoing.unreliableSequenceNumber unsequencedGroup }

/-- Put a command in its queue. -/
def enqueueOutgoing (peer : Peer) (outgoing : OutgoingCommand) : Peer :=
  if outgoing.command.acknowledge && outgoing.packet.isSome then
    peer.setOutgoing peer.outgoingCommands (peer.outgoingSendReliableCommands ++ [outgoing])
  else peer.setOutgoing (peer.outgoingCommands ++ [outgoing]) peer.outgoingSendReliableCommands

/-- `enet_peer_setup_outgoing_command`, with the new value of `host->totalQueued`. -/
def setupOutgoingCommand (peer : Peer) (totalQueued : Nat) (outgoing : OutgoingCommand) : Peer :=
  let numbered := (peer.countOutgoingData outgoing).numberOutgoingCommand outgoing
  numbered.1.enqueueOutgoing
    (stampOutgoing numbered.2 totalQueued numbered.1.outgoingUnsequencedGroup)

/-- `enet_peer_has_outgoing_commands`. -/
def hasOutgoingCommands (peer : Peer) : Bool :=
  !(peer.outgoingCommands.isEmpty && peer.outgoingSendReliableCommands.isEmpty &&
    peer.sentReliableCommands.isEmpty)

/-- The window of a received number relative to the current one: sixteen more
when the number is below `incomingReliableSequenceNumber`. -/
def receivedWindow (reliableSequenceNumber incomingReliableSequenceNumber : Nat) : Nat :=
  if reliableSequenceNumber < incomingReliableSequenceNumber then
    reliableSequenceNumber / peerReliableWindowSize + peerReliableWindows
  else reliableSequenceNumber / peerReliableWindowSize

/-- The zone in which `enet_peer_queue_acknowledgement` acknowledges nothing. -/
def inUnacknowledgedZone (reliableSequenceNumber incomingReliableSequenceNumber : Nat) : Bool :=
  let reliableWindow := receivedWindow reliableSequenceNumber incomingReliableSequenceNumber
  let currentWindow := incomingReliableSequenceNumber / peerReliableWindowSize
  decide (currentWindow + peerFreeReliableWindows - 1 ≤ reliableWindow) &&
    decide (reliableWindow ≤ currentWindow + peerFreeReliableWindows)

/-- The store of `enet_peer_ping_interval`. -/
def setPingInterval (peer : Peer) (pingInterval : Nat) : Peer :=
  { peer with pingInterval := if pingInterval = 0 then peerPingInterval else pingInterval }

/-- The stores of `enet_peer_timeout`. -/
def setTimeout (peer : Peer) (timeoutLimit timeoutMinimum timeoutMaximum : Nat) : Peer :=
  { peer with
    timeoutLimit := if timeoutLimit = 0 then peerTimeoutLimit else timeoutLimit
    timeoutMinimum := if timeoutMinimum = 0 then peerTimeoutMinimum else timeoutMinimum
    timeoutMaximum := if timeoutMaximum = 0 then peerTimeoutMaximum else timeoutMaximum }

/-- Queue an acknowledgement. -/
def addAcknowledgement (peer : Peer) (acknowledgement : Acknowledgement) : Peer :=
  { peer with
    outgoingDataTotal := u32 (peer.outgoingDataTotal + commandSizes 1)
    acknowledgements := peer.acknowledgements ++ [acknowledgement] }

end Peer

namespace Host

/-! ## The host's part -/

/-- `++host->totalQueued`. -/
def countQueued (host : Host) : Host := { host with totalQueued := u32 (host.totalQueued + 1) }

/-- `enet_peer_setup_outgoing_command`. -/
def setupOutgoingCommand (host : Host) (index : Nat) (outgoing : OutgoingCommand) : Host :=
  host.countQueued.setPeer index
    ((host.peers index).setupOutgoingCommand host.countQueued.totalQueued outgoing)

/-- `enet_peer_queue_outgoing_command`, and whether it returned a command. -/
def queueOutgoingCommand (host : Host) (index : Nat) (command : Protocol)
    (packet : Option Packet) (offset length : Nat) : Host × Bool :=
  match host.heap.malloc with
  | (heap, none) => (host.setHeap heap, false)
  | (heap, some address) =>
    let heap :=
      match packet with
      | none => heap
      | some packet => heap.acquire packet
    ((host.setHeap heap).setupOutgoingCommand index
      { address := address
        reliableSequenceNumber := 0
        unreliableSequenceNumber := 0
        sentTime := 0
        roundTripTimeout := 0
        queueTime := 0
        fragmentOffset := offset
        fragmentLength := u16 length
        sendAttempts := 0
        command := command
        packet := packet }, true)

/-- `enet_peer_ping`. -/
def peerPing (host : Host) (index : Nat) : Host :=
  if (host.peers index).state = .connected then
    (host.queueOutgoingCommand index
      { command := .ping
        acknowledge := true
        unsequenced := false
        channelID := 0xFF
        reliableSequenceNumber := 0 } none 0 0).1
  else host

/-- `enet_peer_throttle_configure`. -/
def peerThrottleConfigure (host : Host) (index interval acceleration deceleration : Nat) : Host :=
  let peer := (host.peers index).setThrottle interval acceleration deceleration
  ((host.setPeer index peer).queueOutgoingCommand index
    { command := .throttleConfigure interval acceleration deceleration
      acknowledge := true
      unsequenced := false
      channelID := 0xFF
      reliableSequenceNumber := 0 } none 0 0).1

/-- `enet_peer_ping_interval`. -/
def peerPingInterval (host : Host) (index pingInterval : Nat) : Host :=
  host.setPeer index ((host.peers index).setPingInterval pingInterval)

/-- `enet_peer_timeout`. -/
def peerTimeout (host : Host) (index timeoutLimit timeoutMinimum timeoutMaximum : Nat) : Host :=
  host.setPeer index ((host.peers index).setTimeout timeoutLimit timeoutMinimum timeoutMaximum)

/-! ## Sending a packet -/

/-- Free the fragments made before an allocation failed. -/
def freeFragments (heap : Heap) (fragments : List OutgoingCommand) : Heap :=
  fragments.foldl (fun heap fragment => heap.free fragment.address) heap

/-- The loop of `enet_peer_send` that allocates a command for each fragment.
When an allocation fails the fragments made so far are freed. The fuel runs out
only where the 32-bit offset never reaches the end of the packet, and the loop
goes on until an allocation fails. -/
def makeFragments (packet : Packet)
    (make : (address fragmentNumber fragmentOffset fragmentLength : Nat) → OutgoingCommand) :
    (fuel : Nat) → Heap → (fragmentLength fragmentNumber fragmentOffset : Nat) →
      List OutgoingCommand → Heap × Option (List OutgoingCommand)
  | 0, heap, _, _, _, fragments => (freeFragments heap fragments, none)
  | fuel + 1, heap, fragmentLength, fragmentNumber, fragmentOffset, fragments =>
    if fragmentOffset < packet.dataLength then
      let fragmentLength :=
        if packet.dataLength - fragmentOffset < fragmentLength then
          packet.dataLength - fragmentOffset
        else fragmentLength
      match heap.malloc with
      | (heap, none) => (freeFragments heap fragments, none)
      | (heap, some address) =>
        makeFragments packet make fuel heap fragmentLength (u32 (fragmentNumber + 1))
          (u32 (fragmentOffset + fragmentLength))
          (fragments ++ [make address fragmentNumber fragmentOffset fragmentLength])
    else (heap, some fragments)

/-- The largest payload `enet_peer_send` puts in one command. -/
def fragmentLength (host : Host) (index : Nat) : Nat :=
  let length := sub64 (host.peers index).mtu (4 + 24)
  if host.checksum.isSome then sub64 length 4 else length

/-- Whether `enet_peer_send` sends the fragments of a packet unreliably. -/
def sendsUnreliableFragments (channel : Channel) (packet : Packet) : Bool :=
  !packet.flags.reliable && packet.flags.unreliableFragment &&
    decide (channel.outgoingUnreliableSequenceNumber < 0xFFFF)

/-- The command that `enet_peer_send` makes for a fragment. -/
def makeFragment (channel : Channel) (channelID : Nat) (packet : Packet) (fragmentCount address
    fragmentNumber fragmentOffset fragmentLength : Nat) : OutgoingCommand :=
  let unreliable := sendsUnreliableFragments channel packet
  let fields : SendFragment :=
    { startSequenceNumber :=
        if unreliable then u16 (channel.outgoingUnreliableSequenceNumber + 1)
        else u16 (channel.outgoingReliableSequenceNumber + 1)
      dataLength := u16 fragmentLength
      fragmentCount := fragmentCount
      fragmentNumber := fragmentNumber
      totalLength := u32 packet.dataLength
      fragmentOffset := fragmentOffset }
  { address := address
    reliableSequenceNumber := 0
    unreliableSequenceNumber := 0
    sentTime := 0
    roundTripTimeout := 0
    queueTime := 0
    fragmentOffset := fragmentOffset
    fragmentLength := u16 fragmentLength
    sendAttempts := 0
    command :=
      { command := if unreliable then .sendUnreliableFragment fields else .sendFragment fields
        acknowledge := !unreliable
        unsequenced := false
        channelID := channelID
        reliableSequenceNumber := 0 }
    packet := some packet }

/-- The branch of `enet_peer_send` for a packet longer than one fragment. -/
def sendFragments (host : Host) (index channelID : Nat) (packet : Packet) : Host × Int :=
  let fragmentLength := host.fragmentLength index
  let fragmentCount := u32 ((packet.dataLength + fragmentLength - 1) / fragmentLength)
  if protocolMaximumFragmentCount < fragmentCount then (host, -1)
  else
    match makeFragments packet
        (makeFragment ((host.peers index).channels channelID) channelID packet fragmentCount)
        (packet.dataLength + 1) host.heap fragmentLength 0 0 [] with
    | (heap, none) => (host.setHeap heap, -1)
    | (heap, some fragments) =>
      let heap := fragments.foldl (fun heap _ => heap.acquire packet) heap
      (fragments.foldl (fun host fragment => host.setupOutgoingCommand index fragment)
        (host.setHeap heap), 0)

/-- The command with which `enet_peer_send` sends a packet unfragmented. -/
def sendCommand (channel : Channel) (channelID : Nat) (packet : Packet) : Protocol :=
  if !packet.flags.reliable && packet.flags.unsequenced then
    { command := .sendUnsequenced 0 (u16 packet.dataLength)
      acknowledge := false
      unsequenced := true
      channelID := channelID
      reliableSequenceNumber := 0 }
  else if packet.flags.reliable || decide (0xFFFF ≤ channel.outgoingUnreliableSequenceNumber) then
    { command := .sendReliable (u16 packet.dataLength)
      acknowledge := true
      unsequenced := false
      channelID := channelID
      reliableSequenceNumber := 0 }
  else
    { command := .sendUnreliable 0 (u16 packet.dataLength)
      acknowledge := false
      unsequenced := false
      channelID := channelID
      reliableSequenceNumber := 0 }

/-- `enet_peer_send`. -/
def peerSend (host : Host) (index channelID : Nat) (packet : Packet) : Host × Int :=
  let peer := host.peers index
  if peer.state ≠ .connected ∨ peer.channelCount ≤ channelID ∨
      host.maximumPacketSize < packet.dataLength then
    (host, -1)
  else if host.fragmentLength index < packet.dataLength then
    host.sendFragments index channelID packet
  else
    match host.queueOutgoingCommand index (sendCommand (peer.channels channelID) channelID packet)
        (some packet) 0 packet.dataLength with
    | (host, false) => (host, -1)
    | (host, true) => (host, 0)

/-! ## Acknowledgements -/

/-- `enet_peer_queue_acknowledgement`, and whether it queued one. -/
def queueAcknowledgement (host : Host) (index : Nat) (command : Protocol) (sentTime : Nat) :
    Host × Bool :=
  let peer := host.peers index
  if command.channelID < peer.channelCount ∧
      Peer.inUnacknowledgedZone command.reliableSequenceNumber
        (peer.channels command.channelID).incomingReliableSequenceNumber then
    (host, false)
  else
    match host.heap.malloc with
    | (heap, none) => (host.setHeap heap, false)
    | (heap, some _) =>
      ((host.setHeap heap).setPeer index (peer.addAcknowledgement ⟨sentTime, command⟩), true)

end Host

end Enet
