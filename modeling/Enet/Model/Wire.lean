import Enet.Library.Bytes
import Enet.Model.State

/-!
# The bytes of a command

The packed layout of the members of `ENetProtocol`. Fields are in network byte
order, except the one-byte session ids and `connectID`, which both sides copy
from memory as it is.
-/

set_option autoImplicit false

namespace Enet

open Library

/-! ## Writing -/

namespace Command

/-- The bytes of a fragment after the command header. -/
def encodeFragment (fields : SendFragment) : List UInt8 :=
  toBigEndian 2 fields.startSequenceNumber ++ toBigEndian 2 fields.dataLength ++
    toBigEndian 4 fields.fragmentCount ++ toBigEndian 4 fields.fragmentNumber ++
    toBigEndian 4 fields.totalLength ++ toBigEndian 4 fields.fragmentOffset

/-- The bytes of a union member after the command header. -/
def encode : Command → List UInt8
  | acknowledge number sentTime => toBigEndian 2 number ++ toBigEndian 2 sentTime
  | connect fields =>
    toBigEndian 2 fields.outgoingPeerID ++ toBigEndian 1 fields.incomingSessionID ++
      toBigEndian 1 fields.outgoingSessionID ++ toBigEndian 4 fields.mtu ++
      toBigEndian 4 fields.windowSize ++ toBigEndian 4 fields.channelCount ++
      toBigEndian 4 fields.incomingBandwidth ++ toBigEndian 4 fields.outgoingBandwidth ++
      toBigEndian 4 fields.packetThrottleInterval ++
      toBigEndian 4 fields.packetThrottleAcceleration ++
      toBigEndian 4 fields.packetThrottleDeceleration ++
      toLittleEndian 4 fields.connectID ++ toBigEndian 4 fields.data
  | verifyConnect fields =>
    toBigEndian 2 fields.outgoingPeerID ++ toBigEndian 1 fields.incomingSessionID ++
      toBigEndian 1 fields.outgoingSessionID ++ toBigEndian 4 fields.mtu ++
      toBigEndian 4 fields.windowSize ++ toBigEndian 4 fields.channelCount ++
      toBigEndian 4 fields.incomingBandwidth ++ toBigEndian 4 fields.outgoingBandwidth ++
      toBigEndian 4 fields.packetThrottleInterval ++
      toBigEndian 4 fields.packetThrottleAcceleration ++
      toBigEndian 4 fields.packetThrottleDeceleration ++
      toLittleEndian 4 fields.connectID
  | disconnect data => toBigEndian 4 data
  | ping => []
  | sendReliable dataLength => toBigEndian 2 dataLength
  | sendUnreliable number dataLength => toBigEndian 2 number ++ toBigEndian 2 dataLength
  | sendFragment fields => encodeFragment fields
  | sendUnsequenced group dataLength => toBigEndian 2 group ++ toBigEndian 2 dataLength
  | bandwidthLimit incoming outgoing => toBigEndian 4 incoming ++ toBigEndian 4 outgoing
  | throttleConfigure interval acceleration deceleration =>
    toBigEndian 4 interval ++ toBigEndian 4 acceleration ++ toBigEndian 4 deceleration
  | sendUnreliableFragment fields => encodeFragment fields

end Command

namespace Protocol

/-- The command byte: the number and the two flags. -/
def commandByte (protocol : Protocol) : Nat :=
  protocol.command.number + (if protocol.acknowledge then 128 else 0) +
    (if protocol.unsequenced then 64 else 0)

/-- The bytes of a command. -/
def encode (protocol : Protocol) : List UInt8 :=
  toBigEndian 1 protocol.commandByte ++ toBigEndian 1 protocol.channelID ++
    toBigEndian 2 protocol.reliableSequenceNumber ++ protocol.command.encode

end Protocol

/-! ## Reading -/

/-- The big-endian field of a width at an offset. -/
def field (bytes : List UInt8) (offset width : Nat) : Nat :=
  bigEndian ((bytes.drop offset).take width)

/-- The field at an offset that is copied from memory as it is. -/
def nativeField (bytes : List UInt8) (offset width : Nat) : Nat :=
  littleEndian ((bytes.drop offset).take width)

namespace Command

/-- The fields of a fragment, from the first byte of the command. -/
def decodeFragment (bytes : List UInt8) : SendFragment where
  startSequenceNumber := field bytes 4 2
  dataLength := field bytes 6 2
  fragmentCount := field bytes 8 4
  fragmentNumber := field bytes 12 4
  totalLength := field bytes 16 4
  fragmentOffset := field bytes 20 4

/-- The union member with a number, from the first byte of the command. -/
def decode (number : Nat) (bytes : List UInt8) : Option Command :=
  match number with
  | 1 => some (.acknowledge (field bytes 4 2) (field bytes 6 2))
  | 2 =>
    some (.connect
      { outgoingPeerID := field bytes 4 2
        incomingSessionID := field bytes 6 1
        outgoingSessionID := field bytes 7 1
        mtu := field bytes 8 4
        windowSize := field bytes 12 4
        channelCount := field bytes 16 4
        incomingBandwidth := field bytes 20 4
        outgoingBandwidth := field bytes 24 4
        packetThrottleInterval := field bytes 28 4
        packetThrottleAcceleration := field bytes 32 4
        packetThrottleDeceleration := field bytes 36 4
        connectID := nativeField bytes 40 4
        data := field bytes 44 4 })
  | 3 =>
    some (.verifyConnect
      { outgoingPeerID := field bytes 4 2
        incomingSessionID := field bytes 6 1
        outgoingSessionID := field bytes 7 1
        mtu := field bytes 8 4
        windowSize := field bytes 12 4
        channelCount := field bytes 16 4
        incomingBandwidth := field bytes 20 4
        outgoingBandwidth := field bytes 24 4
        packetThrottleInterval := field bytes 28 4
        packetThrottleAcceleration := field bytes 32 4
        packetThrottleDeceleration := field bytes 36 4
        connectID := nativeField bytes 40 4 })
  | 4 => some (.disconnect (field bytes 4 4))
  | 5 => some .ping
  | 6 => some (.sendReliable (field bytes 4 2))
  | 7 => some (.sendUnreliable (field bytes 4 2) (field bytes 6 2))
  | 8 => some (.sendFragment (decodeFragment bytes))
  | 9 => some (.sendUnsequenced (field bytes 4 2) (field bytes 6 2))
  | 10 => some (.bandwidthLimit (field bytes 4 4) (field bytes 8 4))
  | 11 => some (.throttleConfigure (field bytes 4 4) (field bytes 8 4) (field bytes 12 4))
  | 12 => some (.sendUnreliableFragment (decodeFragment bytes))
  | _ => none

end Command

namespace Protocol

/-- The command at the head of the bytes that are left, where the tests at the
head of the command loop pass: the header fits, the number has a size, and the
command fits. -/
def decode (bytes : List UInt8) : Option Protocol :=
  if bytes.length < 4 then none
  else
    let commandByte := field bytes 0 1
    if bytes.length < commandSizes (commandByte % 16) then none
    else
      (Command.decode (commandByte % 16) bytes).map fun command =>
        { command := command
          acknowledge := commandByte.testBit 7
          unsequenced := commandByte.testBit 6
          channelID := field bytes 1 1
          reliableSequenceNumber := field bytes 2 2 }

end Protocol

end Enet
