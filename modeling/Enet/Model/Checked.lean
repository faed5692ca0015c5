import Enet.Model.Incoming

/-!
# The command loop with its memory accesses

The command loop of `enet_protocol_handle_incoming_commands` on the receive
buffer itself. A command is read at a place of the buffer, whatever follows the
datagram there, and each access to the channels of a peer, to a payload, to the
bitmap of a command or to the bytes of its packet is checked: nothing is
returned where one falls outside.
-/

set_option autoImplicit false

namespace Enet

/-! ## Accesses -/

/-- The words of the bitmap that `enet_peer_queue_incoming_command` allocates. -/
def IncomingCommand.bitmapWords (incoming : IncomingCommand) : Nat :=
  (incoming.fragmentCount + 31) / 32

/-- The bytes that a fragment handler copies into the packet. -/
def IncomingCommand.copyLength (incoming : IncomingCommand) (fragmentOffset fragmentLength : Nat) :
    Nat :=
  if incoming.packet.dataLength < u32 (fragmentOffset + fragmentLength) then
    sub32 (u32 incoming.packet.dataLength) fragmentOffset
  else fragmentLength

/-- The command at a place of the receive buffer, where the tests at the head of
the loop pass. -/
def Protocol.readAt (memory : List UInt8) (limit currentData : Nat) : Option Protocol :=
  if limit < currentData + 4 then none
  else if limit < currentData + commandSizes (field memory currentData 1 % 16) then none
  else Protocol.decode (memory.drop currentData)

namespace Peer

/-- Whether `&peer->channels[channelID]` is an element of the array, for a channel
in use. -/
def hasChannel (peer : Peer) (channelID : Nat) : Bool :=
  decide (channelID < peer.channelCount) && decide (peer.channelCount ≤ peer.channelsAllocated)

/-- Whether every channel in use is an element of the array. -/
def hasChannels (peer : Peer) : Bool := decide (peer.channelCount ≤ peer.channelsAllocated)

end Peer

namespace Host

/-! ## Data -/

/-- A handler that queues the payload behind its command. -/
def handleDataChecked (host : Host) (index : Nat) (command : Protocol) (data : List UInt8)
    (handled : Host × Bool) : Option (Host × Bool) :=
  if host.rejectsData index command data then some handled
  else if !(host.peers index).hasChannel command.channelID then none
  else if data.length < command.command.dataLength then none
  else some handled

/-- The end of the two fragment handlers. -/
def addFragmentChecked (host : Host) (index channelID : Nat) (reliable : Bool) (address : Nat)
    (fields : SendFragment) (data : List UInt8) : Option Host :=
  match host.startCommand index channelID reliable address with
  | none => none
  | some incoming =>
    if incoming.bitmapWords ≤ fields.fragmentNumber / 32 then none
    else if incoming.fragments fields.fragmentNumber then some host
    else if data.length < incoming.copyLength fields.fragmentOffset fields.dataLength then none
    else if incoming.packet.dataLength <
        fields.fragmentOffset + incoming.copyLength fields.fragmentOffset fields.dataLength then
      none
    else some (host.addFragment index channelID reliable address fields data)

/-- `enet_protocol_handle_send_fragment`. -/
def handleSendFragmentChecked (host : Host) (index : Nat) (command : Protocol)
    (fields : SendFragment) (data : List UInt8) : Option (Host × Bool) :=
  if host.rejectsData index command data || decide (fields.dataLength ≤ 0) then some (host, true)
  else if !(host.peers index).hasChannel command.channelID then none
  else
    let channel := (host.peers index).channels command.channelID
    if !Channel.inWindow channel.incomingReliableSequenceNumber fields.startSequenceNumber then
      some (host, false)
    else if protocolMaximumFragmentCount < fields.fragmentCount ∨
        fields.fragmentCount ≤ fields.fragmentNumber ∨
        host.maximumPacketSize < fields.totalLength ∨
        fields.totalLength < fields.fragmentCount ∨
        fields.totalLength ≤ fields.fragmentOffset ∨
        fields.totalLength - fields.fragmentOffset < fields.dataLength then some (host, true)
    else
      match channel.searchReliable fields.startSequenceNumber with
      | .found incoming =>
        if isForeign command fields incoming then some (host, true)
        else
          (host.addFragmentChecked index command.channelID true incoming.address fields data).map
            fun host => (host, false)
      | .place _ _ =>
        match host.queueIncomingCommand index
            { command with reliableSequenceNumber := fields.startSequenceNumber } none
            fields.totalLength ⟨true, false, false, false⟩ fields.fragmentCount with
        | (host, .command address) =>
          (host.addFragmentChecked index command.channelID true address fields data).map
            fun host => (host, false)
        | (host, _) => some (host, true)

/-- `enet_protocol_handle_send_unreliable_fragment`. -/
def handleSendUnreliableFragmentChecked (host : Host) (index : Nat) (command : Protocol)
    (fields : SendFragment) (data : List UInt8) : Option (Host × Bool) :=
  if host.rejectsData index command data then some (host, true)
  else if !(host.peers index).hasChannel command.channelID then none
  else
    let channel := (host.peers index).channels command.channelID
    let number := command.reliableSequenceNumber
    if !Channel.inWindow channel.incomingReliableSequenceNumber number then some (host, false)
    else if number = channel.incomingReliableSequenceNumber ∧
        fields.startSequenceNumber ≤ channel.incomingUnreliableSequenceNumber then
      some (host, false)
    else if protocolMaximumFragmentCount < fields.fragmentCount ∨
        fields.fragmentCount ≤ fields.fragmentNumber ∨
        host.maximumPacketSize < fields.totalLength ∨
        fields.totalLength ≤ fields.fragmentOffset ∨
        fields.totalLength - fields.fragmentOffset < fields.dataLength then some (host, true)
    else
      match channel.searchUnreliable number fields.startSequenceNumber with
      | .found incoming =>
        if isForeign command fields incoming then some (host, true)
        else
          (host.addFragmentChecked index command.channelID false incoming.address fields data).map
            fun host => (host, false)
      | .place _ _ =>
        match host.queueIncomingCommand index command none fields.totalLength
            ⟨false, false, false, true⟩ fields.fragmentCount with
        | (host, .command address) =>
          (host.addFragmentChecked index command.channelID false address fields data).map
            fun host => (host, false)
        | (host, _) => some (host, true)

end Host

/-! ## Acknowledged commands -/

namespace Peer

/-- The part of `enet_protocol_remove_sent_reliable_command` that looks the channel up. -/
def closeCommandWindowChecked (peer : Peer) (reliableSequenceNumber channelID : Nat) :
    Option Peer :=
  if channelID < peer.channelCount then
    if peer.hasChannel channelID then
      some (peer.setChannel channelID
        (closeWindow (peer.channels channelID) reliableSequenceNumber))
    else none
  else some peer

/-- `enet_protocol_remove_sent_reliable_command`, with the command removed. -/
def removeSentReliableCommandChecked (peer : Peer) (reliableSequenceNumber channelID : Nat) :
    Option (Peer × Option OutgoingCommand) :=
  let taken := peer.takeSentReliableCommand reliableSequenceNumber channelID
  match taken.2 with
  | none => some (peer, none)
  | some outgoing =>
    (taken.1.closeCommandWindowChecked reliableSequenceNumber channelID).map fun closed =>
      ((closed.landReliableData outgoing
        (peer.isInTransit reliableSequenceNumber channelID)).scheduleTimeout, some outgoing)

end Peer

namespace Host

/-- `enet_protocol_remove_sent_reliable_command`. -/
def removeSentReliableCommandChecked (host : Host) (index reliableSequenceNumber channelID : Nat) :
    Option (Host × Nat) :=
  ((host.peers index).removeSentReliableCommandChecked reliableSequenceNumber channelID).map
    fun removed =>
      match removed with
      | (_, none) => (host, 0)
      | (peer, some outgoing) =>
        ((host.setHeap (host.heap.removeOutgoing outgoing)).setPeer index peer,
          outgoing.command.command.number)

/-- `enet_protocol_handle_acknowledge`. The switch on the state of the peer may reset its
queues, which counts up to `channelCount`. -/
def handleAcknowledgeChecked (host : Host) (event : Option Event)
    (index channelID received sentTime : Nat) : Option (Host × Option Event × Bool) :=
  let state := (host.peers index).state
  if state = .disconnected ∨ state = .zombie then some (host, event, false)
  else
    let receivedSentTime := receivedSentTime host.serviceTime sentTime
    if timeLess host.serviceTime receivedSentTime then some (host, event, false)
    else
      let roundTripTime := max (timeDifference host.serviceTime receivedSentTime) 1
      ((host.setPeer index
        ((host.peers index).updateRoundTripTime host.serviceTime
          roundTripTime)).removeSentReliableCommandChecked index received channelID).bind
        fun removed =>
          if (removed.1.peers index).hasChannels then
            some (removed.1.settleAcknowledge event index removed.2)
          else none

/-- `enet_protocol_handle_verify_connect`. -/
def handleVerifyConnectChecked (host : Host) (event : Option Event) (index : Nat)
    (fields : VerifyConnect) : Option (Host × Option Event × Bool) :=
  let peer := host.peers index
  if peer.state ≠ .connecting then some (host, event, false)
  else if rejectsVerify peer fields then
    some ((host.setPeer index (peer.setEventData 0)).dispatchState index .zombie, event, true)
  else
    (host.removeSentReliableCommandChecked index 1 0xFF).map fun removed =>
      let host := removed.1.setPeer index (verifiedPeer (removed.1.peers index) fields)
      let notified := host.notifyConnect index event
      (notified.1, notified.2, false)

/-- `enet_protocol_handle_disconnect`, which resets the queues of the peer. -/
def handleDisconnectChecked (host : Host) (index : Nat) (command : Protocol) (data : Nat) :
    Option (Host × Bool) :=
  if (host.peers index).hasChannels then some (host.handleDisconnect index command data) else none

/-- `enet_peer_queue_acknowledgement`, and whether it queued one. -/
def queueAcknowledgementChecked (host : Host) (index : Nat) (command : Protocol)
    (sentTime : Nat) : Option (Host × Bool) :=
  let peer := host.peers index
  let queued : Host × Bool :=
    match host.heap.malloc with
    | (heap, none) => (host.setHeap heap, false)
    | (heap, some _) =>
      ((host.setHeap heap).setPeer index (peer.addAcknowledgement ⟨sentTime, command⟩), true)
  if command.channelID < peer.channelCount then
    if !peer.hasChannel command.channelID then none
    else if Peer.inUnacknowledgedZone command.reliableSequenceNumber
        (peer.channels command.channelID).incomingReliableSequenceNumber then
      some (host, false)
    else some queued
  else some queued

/-- The acknowledgement of a handled command. -/
def acknowledgeCommandChecked (host : Host) (index : Nat) (command : Protocol) (sentTime : Nat) :
    Option Host :=
  match (host.peers index).state with
  | .disconnecting | .acknowledgingConnect | .disconnected | .zombie => some host
  | .acknowledgingDisconnect =>
    match command.command with
    | .disconnect _ => (host.queueAcknowledgementChecked index command sentTime).map Prod.fst
    | _ => some host
  | _ => (host.queueAcknowledgementChecked index command sentTime).map Prod.fst

/-! ## The loop -/

/-- The switch of the command loop. The other handlers look no channel up. -/
def handleCommandChecked (host : Host) (event : Option Event) (index : Nat) (command : Protocol)
    (data : List UInt8) : Option (Host × Option Event × Bool) :=
  let keep (handled : Option (Host × Bool)) : Option (Host × Option Event × Bool) :=
    handled.map fun handled => (handled.1, event, handled.2)
  match command.command with
  | .acknowledge received sentTime =>
    host.handleAcknowledgeChecked event index command.channelID received sentTime
  | .verifyConnect fields => host.handleVerifyConnectChecked event index fields
  | .disconnect data => keep (host.handleDisconnectChecked index command data)
  | .sendReliable _ =>
    keep (host.handleDataChecked index command data (host.handleSendReliable index command data))
  | .sendUnreliable _ _ =>
    keep (host.handleDataChecked index command data (host.handleSendUnreliable index command data))
  | .sendUnsequenced group _ =>
    keep (host.handleDataChecked index command data
      (host.handleSendUnsequenced index command group data))
  | .sendFragment fields => keep (host.handleSendFragmentChecked index command fields data)
  | .sendUnreliableFragment fields =>
    keep (host.handleSendUnreliableFragmentChecked index command fields data)
  | _ => some (host.handleCommand event index command data)

/-- The acknowledgement stage after a handler. -/
def acknowledgeStageChecked (host : Host) (index : Nat) (command : Protocol)
    (sentTime : Option Nat) : Option (Host × Bool) :=
  if command.acknowledge then
    match sentTime with
    | none => some (host, true)
    | some time =>
      (host.acknowledgeCommandChecked index command time).map fun host => (host, false)
  else some (host, false)

/-- A command of a known peer. -/
def commandStepChecked (host : Host) (event : Option Event) (index : Nat) (sentTime : Option Nat)
    (command : Protocol) (data : List UInt8) : Option (Host × Option Event × Bool) :=
  let host := host.hear index command data sentTime.isSome
  (host.handleCommandChecked event index command data).bind fun handled =>
    if handled.2.2 then some (handled.1, handled.2.1, true)
    else
      (handled.1.acknowledgeStageChecked index command sentTime).map fun staged =>
        (staged.1, handled.2.1, staged.2)

/-- One turn of the command loop at a place of the receive buffer, with the next
place, or none where the loop ends. -/
def incomingStepChecked (host : Host) (event : Option Event) (peer sentTime : Option Nat)
    (memory : List UInt8) (limit currentData : Nat) :
    Option (Host × Option Event × Option Nat × Option Nat) :=
  match Protocol.readAt memory limit currentData with
  | none => some (host, event, peer, none)
  | some command =>
    let behind := currentData + command.size
    match peer with
    | none =>
      match command.command with
      | .connect fields =>
        match host.handleConnect fields with
        | (host, none) => some (host, event, none, none)
        | (host, some index) =>
          (host.acknowledgeStageChecked index command sentTime).map fun staged =>
            (staged.1, event, some index, if staged.2 then none else some behind)
      | _ => some (host, event, none, none)
    | some index =>
      (host.commandStepChecked event index sentTime command
        ((memory.take limit).drop behind)).map fun stepped =>
          (stepped.1, stepped.2.1, some index,
            if stepped.2.2 then none else some (behind + command.command.dataLength))

/-- The command loop. Nothing is returned when the fuel runs out, or where
`currentData` does not grow. -/
def incomingLoopChecked (memory : List UInt8) (limit : Nat) :
    (fuel : Nat) → Host → Option Event → (peer sentTime : Option Nat) → (currentData : Nat) →
      Option (Host × Option Event)
  | 0, _, _, _, _, _ => none
  | fuel + 1, host, event, peer, sentTime, currentData =>
    if limit ≤ currentData then some (host, event)
    else
      (host.incomingStepChecked event peer sentTime memory limit currentData).bind fun stepped =>
        match stepped with
        | (host, event, _, none) => some (host, event)
        | (host, event, peer, some next) =>
          if next ≤ currentData then none
          else incomingLoopChecked memory limit fuel host event peer sentTime next

end Host

end Enet
