import Enet.Model.Receive

/-!
# Outgoing commands

The parts of `protocol.c` that move commands between the outgoing queues and
`sentReliableCommands`: transmission, retransmission after a timeout, and
removal by an acknowledgement.

`enet_protocol_check_outgoing_commands` walks two queues with one iterator in
each. A queue is kept here as the commands the iterator has passed, which stay
queued, and the rest.
-/

set_option autoImplicit false

namespace Enet

namespace Peer

/-! ## Acknowledged commands -/

/-- Whether a command has the number and channel of an acknowledgement. -/
def isAcknowledged (reliableSequenceNumber channelID : Nat) (outgoing : OutgoingCommand) : Bool :=
  decide (outgoing.reliableSequenceNumber = reliableSequenceNumber) &&
    decide (outgoing.command.channelID = channelID)

/-- `enet_protocol_find_sent_reliable_command`: the place of the command found
in an outgoing queue. The search passes over commands that are not to be
acknowledged and stops at the first one never transmitted. -/
def findSentReliableCommand (reliableSequenceNumber channelID : Nat) :
    List OutgoingCommand → Option Nat
  | [] => none
  | outgoing :: rest =>
    if !outgoing.command.acknowledge then
      (findSentReliableCommand reliableSequenceNumber channelID rest).map (· + 1)
    else if outgoing.sendAttempts < 1 then none
    else if isAcknowledged reliableSequenceNumber channelID outgoing then some 0
    else (findSentReliableCommand reliableSequenceNumber channelID rest).map (· + 1)

/-- Take one command of a window out of the count of the channel. -/
def closeWindow (channel : Channel) (reliableSequenceNumber : Nat) : Channel :=
  let window := reliableSequenceNumber / peerReliableWindowSize
  if 0 < channel.reliableWindows window then
    let count := channel.reliableWindows window - 1
    { channel with
      reliableWindows := Function.update channel.reliableWindows window count
      usedReliableWindows :=
        if count = 0 then channel.usedReliableWindows &&& (65535 ^^^ (1 <<< window))
        else channel.usedReliableWindows }
  else channel

/-- The part of `enet_protocol_remove_sent_reliable_command` that takes a
command out of the peer: the command, and the peer without it. -/
def takeSentReliableCommand (peer : Peer) (reliableSequenceNumber channelID : Nat) :
    Peer × Option OutgoingCommand :=
  match peer.sentReliableCommands.findIdx? (isAcknowledged reliableSequenceNumber channelID) with
  | some place =>
    (peer.setSentReliable (peer.sentReliableCommands.eraseIdx place),
      peer.sentReliableCommands[place]?)
  | none =>
    match findSentReliableCommand reliableSequenceNumber channelID peer.outgoingCommands with
    | some place =>
      (peer.setOutgoing (peer.outgoingCommands.eraseIdx place) peer.outgoingSendReliableCommands,
        peer.outgoingCommands[place]?)
    | none =>
      match findSentReliableCommand reliableSequenceNumber channelID
          peer.outgoingSendReliableCommands with
      | some place =>
        (peer.setOutgoing peer.outgoingCommands
            (peer.outgoingSendReliableCommands.eraseIdx place),
          peer.outgoingSendReliableCommands[place]?)
      | none => (peer, none)

/-- Take the data of an acknowledged command out of the data in transit. -/
def landReliableData (peer : Peer) (outgoing : OutgoingCommand) (wasSent : Bool) : Peer :=
  if outgoing.packet.isSome && wasSent then
    { peer with
      reliableDataInTransit := sub32 peer.reliableDataInTransit outgoing.fragmentLength }
  else peer

/-- Set the next timeout from the first command in transit, if there is one. -/
def scheduleTimeout (peer : Peer) : Peer :=
  match peer.sentReliableCommands with
  | [] => peer
  | first :: _ => peer.setNextTimeout (u32 (first.sentTime + first.roundTripTimeout))

/-- Take one command out of the count of its window, where it has a channel. -/
def closeCommandWindow (peer : Peer) (reliableSequenceNumber channelID : Nat) : Peer :=
  if channelID < peer.channelCount then
    peer.setChannel channelID (closeWindow (peer.channels channelID) reliableSequenceNumber)
  else peer

/-- Whether a command with a number and channel is in transit. -/
def isInTransit (peer : Peer) (reliableSequenceNumber channelID : Nat) : Bool :=
  (peer.sentReliableCommands.findIdx? (isAcknowledged reliableSequenceNumber channelID)).isSome

/-- `enet_protocol_remove_sent_reliable_command`, with the command removed. -/
def removeSentReliableCommand (peer : Peer) (reliableSequenceNumber channelID : Nat) :
    Peer × Option OutgoingCommand :=
  let taken := peer.takeSentReliableCommand reliableSequenceNumber channelID
  match taken.2 with
  | none => (peer, none)
  | some outgoing =>
    (((taken.1.closeCommandWindow reliableSequenceNumber channelID).landReliableData outgoing
        (peer.isInTransit reliableSequenceNumber channelID)).scheduleTimeout, some outgoing)

/-! ## Timeouts -/

/-- The state of the loop of `enet_protocol_check_timeouts` at the head of
`rest`: the commands of `sentReliableCommands` it has passed, and those it has
put at the front of the two outgoing queues. -/
structure TimeoutScan where
  peer : Peer
  passed : List OutgoingCommand
  requeued : List OutgoingCommand
  requeuedReliable : List OutgoingCommand

/-- Whether `enet_protocol_check_timeouts` gives the peer up at a command. -/
def isTimedOut (peer : Peer) (serviceTime : Nat) (outgoing : OutgoingCommand) : Bool :=
  peer.earliestTimeout != 0 &&
    (decide (peer.timeoutMaximum ≤ timeDifference serviceTime peer.earliestTimeout) ||
      (decide (peer.timeoutLimit ≤ 1 <<< (outgoing.sendAttempts - 1)) &&
        decide (peer.timeoutMinimum ≤ timeDifference serviceTime peer.earliestTimeout)))

/-- `earliestTimeout` after an overdue command. -/
def noteTimeout (peer : Peer) (outgoing : OutgoingCommand) : Peer :=
  if peer.earliestTimeout = 0 || timeLess outgoing.sentTime peer.earliestTimeout then
    { peer with earliestTimeout := outgoing.sentTime }
  else peer

/-- The peer once a command is back in an outgoing queue. -/
def requeue (peer : Peer) (outgoing : OutgoingCommand) : Peer :=
  { peer with
    packetsLost := u32 (peer.packetsLost + 1)
    reliableDataInTransit :=
      if outgoing.packet.isSome then
        sub32 peer.reliableDataInTransit outgoing.fragmentLength
      else peer.reliableDataInTransit }

/-- Set the next timeout from the command behind one put back, where no command
stays in transit before it. -/
def scheduleNext (peer : Peer) (passed rest : List OutgoingCommand) : Peer :=
  match passed, rest with
  | [], next :: _ => peer.setNextTimeout (u32 (next.sentTime + next.roundTripTimeout))
  | _, _ => peer

/-- A command put back has twice its timeout. -/
def backOff (outgoing : OutgoingCommand) : OutgoingCommand :=
  { outgoing with roundTripTimeout := u32 (outgoing.roundTripTimeout * 2) }

/-- Put a command back in front of its outgoing queue, behind those put back before. -/
def TimeoutScan.putBack (scan : TimeoutScan) (peer : Peer) (outgoing : OutgoingCommand) :
    TimeoutScan :=
  if outgoing.packet.isSome then
    { scan with peer := peer, requeuedReliable := scan.requeuedReliable ++ [backOff outgoing] }
  else { scan with peer := peer, requeued := scan.requeued ++ [backOff outgoing] }

/-- Pass over a command that is not overdue. -/
def TimeoutScan.pass (scan : TimeoutScan) (outgoing : OutgoingCommand) : TimeoutScan :=
  { scan with passed := scan.passed ++ [outgoing] }

/-- Install the peer. -/
def TimeoutScan.setPeer (scan : TimeoutScan) (peer : Peer) : TimeoutScan :=
  { scan with peer := peer }

/-- The loop of `enet_protocol_check_timeouts`. It ends early, with the commands
not yet reached, where the peer is given up. -/
def scanTimeouts (serviceTime : Nat) :
    TimeoutScan → List OutgoingCommand → TimeoutScan × Option (List OutgoingCommand)
  | scan, [] => (scan, none)
  | scan, outgoing :: rest =>
    if timeDifference serviceTime outgoing.sentTime < outgoing.roundTripTimeout then
      scanTimeouts serviceTime (scan.pass outgoing) rest
    else
      let peer := scan.peer.noteTimeout outgoing
      if peer.isTimedOut serviceTime outgoing then (scan.setPeer peer, some (outgoing :: rest))
      else
        scanTimeouts serviceTime
          (scan.putBack ((peer.requeue outgoing).scheduleNext scan.passed rest) outgoing) rest

/-- The peer with its queues as the loop leaves them. -/
def TimeoutScan.finish (scan : TimeoutScan) (rest : List OutgoingCommand) : Peer :=
  (scan.peer.setSentReliable (scan.passed ++ rest)).setOutgoing
    (scan.requeued ++ scan.peer.outgoingCommands)
    (scan.requeuedReliable ++ scan.peer.outgoingSendReliableCommands)

/-- `enet_protocol_check_timeouts` up to the call that gives the peer up, and
whether it is given up. -/
def checkTimeouts (peer : Peer) (serviceTime : Nat) : Peer × Bool :=
  let scanned := scanTimeouts serviceTime ⟨peer, [], [], []⟩ peer.sentReliableCommands
  (scanned.1.finish (scanned.2.getD []), scanned.2.isSome)

end Peer

namespace Peer

/-- `++peer->packetsSent`. -/
def countPacketSent (peer : Peer) : Peer :=
  { peer with packetsSent := u32 (peer.packetsSent + 1) }

/-- `peer->packetThrottleCounter = counter`. -/
def setThrottleCounter (peer : Peer) (counter : Nat) : Peer :=
  { peer with packetThrottleCounter := counter }

end Peer

/-! ## Transmission -/

/-- The state of the loop of `enet_protocol_check_outgoing_commands`. -/
structure OutgoingScan where
  heap : Heap
  peer : Peer
  datagram : Datagram
  sentUnreliable : List OutgoingCommand
  passed : List OutgoingCommand
  rest : List OutgoingCommand
  passedReliable : List OutgoingCommand
  restReliable : List OutgoingCommand
  windowWrap : Bool
  canPing : Bool

namespace OutgoingScan

/-- Which queue the next command is taken from, and the command. -/
def next (scan : OutgoingScan) : Option (Bool × OutgoingCommand) :=
  match scan.rest, scan.restReliable with
  | [], [] => none
  | [], outgoing :: _ => some (true, outgoing)
  | outgoing :: _, [] => some (false, outgoing)
  | outgoing :: _, reliable :: _ =>
    if timeLess reliable.queueTime outgoing.queueTime then some (true, reliable)
    else some (false, outgoing)

/-- Move the iterator past its command, which stays in its queue. -/
def pass (scan : OutgoingScan) (reliable : Bool) : OutgoingScan :=
  if reliable then
    { scan with
      passedReliable := scan.passedReliable ++ scan.restReliable.take 1
      restReliable := scan.restReliable.drop 1 }
  else
    { scan with
      passed := scan.passed ++ scan.rest.take 1
      rest := scan.rest.drop 1 }

/-- Take the command at the iterator out of its queue. -/
def unlink (scan : OutgoingScan) (reliable : Bool) : OutgoingScan :=
  if reliable then { scan with restReliable := scan.restReliable.drop 1 }
  else { scan with rest := scan.rest.drop 1 }

/-- Install the peer. -/
def setPeer (scan : OutgoingScan) (peer : Peer) : OutgoingScan := { scan with peer := peer }

/-- Install the heap. -/
def setHeap (scan : OutgoingScan) (heap : Heap) : OutgoingScan := { scan with heap := heap }

/-- Install the commands of `outgoingCommands` from the iterator on. -/
def setRest (scan : OutgoingScan) (rest : List OutgoingCommand) : OutgoingScan :=
  { scan with rest := rest }

/-- Append a command to `sentUnreliableCommands`. -/
def addSentUnreliable (scan : OutgoingScan) (outgoing : OutgoingCommand) : OutgoingScan :=
  { scan with sentUnreliable := scan.sentUnreliable ++ [outgoing] }

/-- Move the iterator of the reliable queue to its end. -/
def skipReliable (scan : OutgoingScan) : OutgoingScan :=
  { scan with
    passedReliable := scan.passedReliable ++ scan.restReliable
    restReliable := [] }

/-- The channel of a command, where it has one. -/
def hasChannel (scan : OutgoingScan) (outgoing : OutgoingCommand) : Bool :=
  decide (outgoing.command.channelID < scan.peer.channelCount)

/-- The windows that must hold no command in flight before a window is opened:
the window itself and the nine after it. -/
def windowMask (window : Nat) : Nat :=
  let free := (1 <<< (peerFreeReliableWindows + 2)) - 1
  (free <<< window) ||| (free >>> (peerReliableWindows - window))

/-- The test that holds a command back at the start of a window. -/
def windowBlocked (channel : Channel) (outgoing : OutgoingCommand) : Bool :=
  let window := outgoing.reliableSequenceNumber / peerReliableWindowSize
  decide (outgoing.sendAttempts < 1) &&
    decide (outgoing.reliableSequenceNumber % peerReliableWindowSize = 0) &&
    (decide (peerReliableWindowSize ≤
        channel.reliableWindows ((window + peerReliableWindows - 1) % peerReliableWindows)) ||
      decide (channel.usedReliableWindows &&& windowMask window ≠ 0))

/-- The test that holds a command back while too much data is in transit. -/
def dataBlocked (peer : Peer) (outgoing : OutgoingCommand) : Bool :=
  outgoing.packet.isSome &&
    decide (max (u32 (peer.packetThrottle * peer.windowSize) / peerPacketThrottleScale) peer.mtu <
      u32 (peer.reliableDataInTransit + outgoing.fragmentLength))

/-- The test that ends a datagram before a command. -/
def isFull (scan : OutgoingScan) (outgoing : OutgoingCommand) : Bool :=
  let room := sub64 scan.peer.mtu scan.datagram.packetSize
  decide (protocolMaximumPacketCommands ≤ scan.datagram.commandCount) ||
    decide (bufferMaximum ≤ scan.datagram.bufferCount + 1) ||
    decide (room < outgoing.command.size) ||
    (outgoing.packet.isSome &&
      decide (u16 room < u16 (outgoing.command.size + outgoing.fragmentLength)))

/-- Count a command as in flight in its window. -/
def openWindow (channel : Channel) (reliableSequenceNumber : Nat) : Channel :=
  let window := reliableSequenceNumber / peerReliableWindowSize
  { channel with
    usedReliableWindows := channel.usedReliableWindows ||| (1 <<< window)
    reliableWindows :=
      Function.update channel.reliableWindows window
        (u16 (channel.reliableWindows window + 1)) }

/-- The bytes of a packet that a command carries. -/
def payload (outgoing : OutgoingCommand) : Option (List UInt8) :=
  outgoing.packet.map fun packet =>
    (packet.data.drop outgoing.fragmentOffset).take outgoing.fragmentLength

/-- Put a command and its payload in the datagram. -/
def emit (scan : OutgoingScan) (outgoing : OutgoingCommand) : OutgoingScan :=
  { scan with
    datagram :=
      scan.datagram.push ⟨outgoing.command, payload outgoing⟩
        (outgoing.command.size +
          if outgoing.packet.isSome then outgoing.fragmentLength else 0)
    peer := scan.peer.countPacketSent }

/-- The fields of a command that its transmission sets. -/
def transmitted (peer : Peer) (serviceTime : Nat) (outgoing : OutgoingCommand) : OutgoingCommand :=
  { outgoing with
    sendAttempts := u16 (outgoing.sendAttempts + 1)
    sentTime := serviceTime
    roundTripTimeout :=
      if outgoing.roundTripTimeout = 0 then
        u32 (peer.roundTripTime + 4 * peer.roundTripTimeVariance)
      else outgoing.roundTripTimeout }

/-- Count a command as in flight in the window of its channel, at its first transmission. -/
def openCommandWindow (scan : OutgoingScan) (outgoing : OutgoingCommand) : Peer :=
  if scan.hasChannel outgoing && decide (outgoing.sendAttempts < 1) then
    scan.peer.setChannel outgoing.command.channelID
      (openWindow (scan.peer.channels outgoing.command.channelID)
        outgoing.reliableSequenceNumber)
  else scan.peer

/-- Append a transmitted command to `sentReliableCommands`. -/
def addSentReliable (peer : Peer) (serviceTime : Nat) (outgoing : OutgoingCommand) : Peer :=
  { peer with
    nextTimeout :=
      if peer.sentReliableCommands.isEmpty then u32 (serviceTime + outgoing.roundTripTimeout)
      else peer.nextTimeout
    sentReliableCommands := peer.sentReliableCommands ++ [outgoing]
    reliableDataInTransit := u32 (peer.reliableDataInTransit + outgoing.fragmentLength) }

/-- Set the sent-time bit of the header. -/
def needSentTime (scan : OutgoingScan) : OutgoingScan :=
  { scan with datagram := { scan.datagram with sentTime := true } }

/-- The transmission of a command that is to be acknowledged. -/
def sendReliable (scan : OutgoingScan) (serviceTime : Nat) (reliable : Bool)
    (outgoing : OutgoingCommand) : OutgoingScan :=
  let sent := transmitted scan.peer serviceTime outgoing
  let peer := addSentReliable (scan.openCommandWindow outgoing) serviceTime sent
  (((scan.unlink reliable).setPeer peer).needSentTime).emit sent

/-- The loop that drops the rest of a throttled packet: the commands behind it
with the same two numbers. A null packet there would be dereferenced; the heap
is left as it is. -/
def dropPacket (reliableSequenceNumber unreliableSequenceNumber : Nat) :
    Heap → List OutgoingCommand → Heap × List OutgoingCommand
  | heap, [] => (heap, [])
  | heap, outgoing :: rest =>
    if outgoing.reliableSequenceNumber = reliableSequenceNumber ∧
        outgoing.unreliableSequenceNumber = unreliableSequenceNumber then
      dropPacket reliableSequenceNumber unreliableSequenceNumber
        ((heap.releaseOption outgoing.packet).free outgoing.address) rest
    else (heap, outgoing :: rest)

/-- Whether the throttle is applied to a command: to the first of each packet. -/
def isThrottled (outgoing : OutgoingCommand) : Bool :=
  outgoing.packet.isSome && decide (outgoing.fragmentOffset = 0)

/-- `packetThrottleCounter` once a command is counted. -/
def throttleCounter (peer : Peer) (outgoing : OutgoingCommand) : Nat :=
  if isThrottled outgoing then
    u32 (peer.packetThrottleCounter + peerPacketThrottleCounter) % peerPacketThrottleScale
  else peer.packetThrottleCounter

/-- The drop of a throttled packet. -/
def dropThrottled (scan : OutgoingScan) (reliable : Bool) (outgoing : OutgoingCommand) :
    OutgoingScan :=
  let dropped :=
    dropPacket outgoing.reliableSequenceNumber outgoing.unreliableSequenceNumber
      ((scan.heap.releaseOption outgoing.packet).free outgoing.address) (scan.unlink reliable).rest
  ((scan.unlink reliable).setHeap dropped.1).setRest dropped.2

/-- The transmission of a command that is not to be acknowledged. -/
def transmitUnreliable (scan : OutgoingScan) (reliable : Bool) (outgoing : OutgoingCommand) :
    OutgoingScan :=
  let scan := (scan.unlink reliable).emit outgoing
  if outgoing.packet.isSome then scan.addSentUnreliable outgoing
  else scan.setHeap (scan.heap.free outgoing.address)

/-- The transmission, or the drop, of a command that is not to be acknowledged. -/
def sendUnreliable (scan : OutgoingScan) (reliable : Bool) (outgoing : OutgoingCommand) :
    OutgoingScan :=
  let counter := throttleCounter scan.peer outgoing
  let scan := scan.setPeer (scan.peer.setThrottleCounter counter)
  if isThrottled outgoing && decide (scan.peer.packetThrottle < counter) then
    scan.dropThrottled reliable outgoing
  else scan.transmitUnreliable reliable outgoing

/-- End the datagram before the command at an iterator, which stays in its queue. -/
def stopFull (scan : OutgoingScan) : OutgoingScan :=
  scan.setPeer (scan.peer.setContinueSending true)

/-- Hold back the commands of all channels. -/
def wrapWindow (scan : OutgoingScan) : OutgoingScan := { scan with windowWrap := true }

/-- No ping is needed. -/
def forbidPing (scan : OutgoingScan) : OutgoingScan := { scan with canPing := false }

/-- The body of the loop for the command at an iterator: the new state, and
whether the loop goes on. -/
def step (scan : OutgoingScan) (serviceTime : Nat) (reliable : Bool)
    (outgoing : OutgoingCommand) : OutgoingScan × Bool :=
  if outgoing.command.acknowledge then
    if scan.hasChannel outgoing && scan.windowWrap then (scan.pass reliable, true)
    else if scan.hasChannel outgoing &&
        windowBlocked (scan.peer.channels outgoing.command.channelID) outgoing then
      ((scan.pass reliable).skipReliable.wrapWindow, true)
    else if dataBlocked scan.peer outgoing then ((scan.pass reliable).skipReliable, true)
    else if scan.isFull outgoing then (scan.forbidPing.stopFull, false)
    else (scan.forbidPing.sendReliable serviceTime reliable outgoing, true)
  else if scan.isFull outgoing then (scan.stopFull, false)
  else (scan.sendUnreliable reliable outgoing, true)

/-- The loop. Each turn moves an iterator or takes a command out of its queue. -/
def run (serviceTime : Nat) : (fuel : Nat) → OutgoingScan → OutgoingScan
  | 0, scan => scan
  | fuel + 1, scan =>
    match scan.next with
    | none => scan
    | some (reliable, outgoing) =>
      let stepped := scan.step serviceTime reliable outgoing
      if stepped.2 then run serviceTime fuel stepped.1 else stepped.1

/-- The peer with its queues as the loop leaves them. -/
def finish (scan : OutgoingScan) : Peer :=
  scan.peer.setOutgoing (scan.passed ++ scan.rest) (scan.passedReliable ++ scan.restReliable)

/-- The state before the loop. -/
def start (peer : Peer) (heap : Heap) (datagram : Datagram)
    (sentUnreliable : List OutgoingCommand) : OutgoingScan where
  heap := heap
  peer := peer
  datagram := datagram
  sentUnreliable := sentUnreliable
  passed := []
  rest := peer.outgoingCommands
  passedReliable := []
  restReliable := peer.outgoingSendReliableCommands
  windowWrap := false
  canPing := true

end OutgoingScan

/-- `enet_protocol_check_outgoing_commands` before its last test. -/
def Peer.checkOutgoingCommands (peer : Peer) (heap : Heap) (datagram : Datagram)
    (sentUnreliable : List OutgoingCommand) (serviceTime : Nat) : OutgoingScan :=
  OutgoingScan.run serviceTime
    (peer.outgoingCommands.length + peer.outgoingSendReliableCommands.length)
    (OutgoingScan.start peer heap datagram sentUnreliable)

end Enet
