import Enet.Model.Handlers
import Enet.Model.Wire

/-!
# Received datagrams

`enet_protocol_handle_incoming_commands`: the header, the decompression, the
checksum and the command loop; and the loop that reads the socket.

Memory past the end of a datagram still holds what an earlier one left there. It
is read where a datagram is shorter than its header says.
-/

set_option autoImplicit false

namespace Enet

open Library

/-- The stores to a peer for a datagram from an address. -/
def Peer.noteReceived (peer : Peer) (address : Address) (receivedDataLength : Nat) : Peer :=
  { peer with
    address := address
    incomingDataTotal := u32 (peer.incomingDataTotal + receivedDataLength) }

/-! ## The header -/

/-- The fields of the first word of a datagram. -/
structure HeaderWord where
  peerID : Nat
  sessionID : Nat
  compressed : Bool
  sentTime : Bool
  deriving DecidableEq, Repr

/-- Take the first word apart. -/
def HeaderWord.decode (word : Nat) : HeaderWord where
  peerID := word &&& 0x0FFF
  sessionID := (word &&& 0x3000) >>> 12
  compressed := word.testBit 14
  sentTime := word.testBit 15

/-- The size of the header in front of the first command. -/
def HeaderWord.size (header : HeaderWord) (checksum : Bool) : Nat :=
  (if header.sentTime then 4 else 2) + (if checksum then 4 else 0)

/-- A datagram whose header was accepted. -/
structure Opened where
  /-- The addressed peer, none for the largest id. -/
  peer : Option Nat
  /-- The sent time, where the header has one. -/
  sentTime : Option Nat
  /-- The bytes of `host->receivedData`, with the header. -/
  bytes : List UInt8
  headerSize : Nat
  deriving DecidableEq, Repr

namespace Host

/-- Whether a datagram from the address in `host->receivedAddress` reaches a peer. -/
def isAddressed (host : Host) (index sessionID : Nat) : Bool :=
  let peer := host.peers index
  !(decide (peer.state = .disconnected) || decide (peer.state = .zombie) ||
    ((decide (host.receivedAddress.host ≠ peer.address.host) ||
        decide (host.receivedAddress.port ≠ peer.address.port)) &&
      decide (peer.address.host ≠ hostBroadcast)) ||
    (decide (peer.outgoingPeerID < protocolMaximumPeerID) &&
      decide (sessionID ≠ peer.incomingSessionID)))

/-- The peer that a header names: none where the datagram is dropped, and no
index for a datagram that is to start a connection. -/
def addressedPeer (host : Host) (header : HeaderWord) : Option (Option Nat) :=
  if header.peerID = protocolMaximumPeerID then some none
  else if host.peerCount ≤ header.peerID then none
  else if host.isAddressed header.peerID header.sessionID then some (some header.peerID)
  else none

/-- The datagram with its compressed part expanded. -/
def expand (host : Host) (header : HeaderWord) (headerSize : Nat) (bytes : List UInt8) :
    Option (List UInt8) :=
  if header.compressed then
    match host.compressor.bind Compressor.decompress with
    | none => none
    | some decompress =>
      let memory := bytes ++ host.world.stale
      let limit := sub64 protocolMaximumMtu headerSize
      let original :=
        decompress ((memory.drop headerSize).take (sub64 bytes.length headerSize)) limit
      if original.length ≤ 0 ∨ limit < original.length then none
      else some (memory.take headerSize ++ original)
  else some bytes

/-- The checksum test. The test leaves the connect id in the place of the checksum. -/
def verifyChecksum (host : Host) (peer : Option Nat) (headerSize : Nat) (bytes : List UInt8) :
    Option (List UInt8) :=
  match host.checksum with
  | none => some bytes
  | some checksum =>
    let memory := bytes ++ host.world.stale
    let desiredChecksum := nativeField memory (headerSize - 4) 4
    let connectID :=
      match peer with
      | some index => (host.peers index).connectID
      | none => 0
    let planted :=
      (overwrite memory (headerSize - 4) (toLittleEndian 4 connectID)).take bytes.length
    if checksum planted ≠ desiredChecksum then none else some planted

/-- The part of `enet_protocol_handle_incoming_commands` before the command loop. -/
def openDatagram (host : Host) (bytes : List UInt8) : Option Opened :=
  if bytes.length < 2 then none
  else
    let header := HeaderWord.decode (field bytes 0 2)
    let headerSize := header.size host.checksum.isSome
    let sentTime := if header.sentTime then some (field (bytes ++ host.world.stale) 2 2) else none
    (host.addressedPeer header).bind fun peer =>
      (host.expand header headerSize bytes).bind fun expanded =>
        (host.verifyChecksum peer headerSize expanded).map fun verified =>
          { peer := peer, sentTime := sentTime, bytes := verified, headerSize := headerSize }

/-- `host->receivedData`, with its length. -/
def setReceivedData (host : Host) (bytes : List UInt8) : Host := { host with receivedData := bytes }

/-- The fields of the peer that an accepted datagram sets. -/
def noteDatagram (host : Host) (opened : Opened) : Host :=
  let host := host.setReceivedData opened.bytes
  match opened.peer with
  | none => host
  | some index =>
    host.setPeer index ((host.peers index).noteReceived host.receivedAddress opened.bytes.length)

/-! ## The command loop -/

/-- The acknowledgement stage after a handler, and whether it ends the loop: a
command to be acknowledged does where the header has no sent time. -/
def acknowledgeStage (host : Host) (index : Nat) (command : Protocol) (sentTime : Option Nat) :
    Host × Bool :=
  if command.acknowledge then
    match sentTime with
    | none => (host, true)
    | some time => (host.acknowledgeCommand index command time, false)
  else (host, false)

/-- A received command of a peer as it is. -/
def heard (host : Host) (index : Nat) (command : Protocol) (data : List UInt8)
    (sentTime : Bool) : Heard where
  before := host.peers index
  serviceTime := host.serviceTime
  maximumPacketSize := host.maximumPacketSize
  maximumWaitingData := host.maximumWaitingData
  command := command
  data := data.take command.command.dataLength
  sentTime := sentTime

/-- A received command is handed to its handler. -/
def hear (host : Host) (index : Nat) (command : Protocol) (data : List UInt8)
    (sentTime : Bool) : Host :=
  host.observe (.command index (host.heard index command data sentTime))

/-- A command of a known peer, and whether the loop ends with it. -/
def commandStep (host : Host) (event : Option Event) (index : Nat) (sentTime : Option Nat)
    (command : Protocol) (data : List UInt8) : Host × Option Event × Bool :=
  let host := host.hear index command data sentTime.isSome
  match host.handleCommand event index command data with
  | (host, event, true) => (host, event, true)
  | (host, event, false) =>
    let staged := host.acknowledgeStage index command sentTime
    (staged.1, event, staged.2)

/-- One turn of the command loop for the command at the head of the bytes that
are left: the host, the event, the peer, and the bytes behind the command with
its data, or none where the loop ends. -/
def incomingStep (host : Host) (event : Option Event) (peer sentTime : Option Nat)
    (bytes : List UInt8) : Host × Option Event × Option Nat × Option (List UInt8) :=
  match Protocol.decode bytes with
  | none => (host, event, peer, none)
  | some command =>
    let data := bytes.drop command.size
    match peer with
    | none =>
      match command.command with
      | .connect fields =>
        match host.handleConnect fields with
        | (host, none) => (host, event, none, none)
        | (host, some index) =>
          let staged := host.acknowledgeStage index command sentTime
          (staged.1, event, some index, if staged.2 then none else some data)
      | _ => (host, event, none, none)
    | some index =>
      let stepped := host.commandStep event index sentTime command data
      (stepped.1, stepped.2.1, some index,
        if stepped.2.2 then none else some (data.drop command.command.dataLength))

/-- The command loop. A turn passes over at least four bytes. -/
def incomingLoop : (fuel : Nat) → Host → Option Event → (peer sentTime : Option Nat) →
    List UInt8 → Host × Option Event
  | 0, host, event, _, _, _ => (host, event)
  | fuel + 1, host, event, peer, sentTime, bytes =>
    if bytes.isEmpty then (host, event)
    else
      match host.incomingStep event peer sentTime bytes with
      | (host, event, _, none) => (host, event)
      | (host, event, peer, some rest) => incomingLoop fuel host event peer sentTime rest

/-- Whether `event` points to an event that was stored. -/
def isStored (event : Option Event) : Bool :=
  match event with
  | none => false
  | some event => event.type ≠ .none

/-- `enet_protocol_handle_incoming_commands`. -/
def handleIncomingCommands (host : Host) (event : Option Event) : Host × Option Event × Int :=
  match host.openDatagram host.receivedData with
  | none => (host, event, 0)
  | some opened =>
    let handled :=
      incomingLoop opened.bytes.length (host.noteDatagram opened) event opened.peer
        opened.sentTime (opened.bytes.drop opened.headerSize)
    (handled.1, handled.2, if isStored handled.2 then 1 else 0)

/-- The socket's next call. -/
def countReceive (host : Host) : Host :=
  { host with world := { host.world with receiveCalls := host.world.receiveCalls + 1 } }

/-- `host->receivedAddress = source`. -/
def setReceivedAddress (host : Host) (source : Address) : Host :=
  { host with receivedAddress := source }

/-- The stores to a host for a datagram it has read. -/
def countReceived (host : Host) (bytes : List UInt8) : Host :=
  { host with
    receivedData := bytes
    totalReceivedData := u32 (host.totalReceivedData + bytes.length)
    totalReceivedPackets := u32 (host.totalReceivedPackets + 1) }

/-- `enet_protocol_receive_incoming_commands`, with the datagrams it may still read. -/
def receiveIncomingCommands : (packets : Nat) → Host → Option Event → Host × Option Event × Int
  | 0, host, event => (host, event, 0)
  | packets + 1, host, event =>
    let received := host.world.receive host.world.receiveCalls
    let host := host.countReceive
    match received with
    | .error => (host, event, -1)
    | .nothing => (host, event, 0)
    | .datagram source bytes =>
      let host := host.setReceivedAddress source
      if bytes.isEmpty then (host, event, 0)
      else
        let handled := (host.countReceived bytes).handleIncomingCommands event
        if handled.2.2 = 1 then handled
        else receiveIncomingCommands packets handled.1 handled.2.1

end Host

end Enet
