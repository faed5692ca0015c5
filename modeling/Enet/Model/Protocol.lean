import Mathlib.Logic.Function.Basic

/-!
# Constants, wire commands and time

The constants of `enet/protocol.h` and `enet/enet.h` that the modelled
functions read, the 32-bit time arithmetic of `enet/time.h`, and the commands
that the packed union `ENetProtocol` carries.

A command is kept in host byte order with its fields as natural numbers. The
low four bits of the command byte select the union member, so the member is
the constructor; the two flag bits are kept beside it. Bits four and five of
the byte are read by no function.
-/

set_option autoImplicit false

namespace Enet

/-! ## Machine arithmetic -/

/-- The value of a 16-bit unsigned register. -/
abbrev u16 (n : Nat) : Nat := n % 65536

/-- The value of a 32-bit unsigned register. -/
abbrev u32 (n : Nat) : Nat := n % 4294967296

/-- 32-bit subtraction with wrap-around. -/
def sub32 (a b : Nat) : Nat := if b ≤ a then a - b else a + 4294967296 - b

/-- 64-bit subtraction with wrap-around. -/
def sub64 (a b : Nat) : Nat := if b ≤ a then a - b else a + 18446744073709551616 - b

theorem sub64_of_le {a b : Nat} (fits : b ≤ a) : sub64 a b = a - b := if_pos fits

/-! ## Constants -/

@[simp] abbrev protocolMinimumMtu : Nat := 576
@[simp] abbrev protocolMaximumMtu : Nat := 4096
@[simp] abbrev protocolMaximumPacketCommands : Nat := 32
@[simp] abbrev protocolMinimumWindowSize : Nat := 4096
@[simp] abbrev protocolMaximumWindowSize : Nat := 65536
@[simp] abbrev protocolMinimumChannelCount : Nat := 1
@[simp] abbrev protocolMaximumChannelCount : Nat := 255
@[simp] abbrev protocolMaximumPeerID : Nat := 0xFFF
@[simp] abbrev protocolMaximumFragmentCount : Nat := 1024 * 1024

@[simp] abbrev bufferMaximum : Nat := 1 + 2 * protocolMaximumPacketCommands

@[simp] abbrev hostBandwidthThrottleInterval : Nat := 1000
@[simp] abbrev hostDefaultMtu : Nat := 1392
@[simp] abbrev hostDefaultMaximumPacketSize : Nat := 32 * 1024 * 1024
@[simp] abbrev hostDefaultMaximumWaitingData : Nat := 32 * 1024 * 1024

@[simp] abbrev peerDefaultRoundTripTime : Nat := 500
@[simp] abbrev peerDefaultPacketThrottle : Nat := 32
@[simp] abbrev peerPacketThrottleScale : Nat := 32
@[simp] abbrev peerPacketThrottleCounter : Nat := 7
@[simp] abbrev peerPacketThrottleAcceleration : Nat := 2
@[simp] abbrev peerPacketThrottleDeceleration : Nat := 2
@[simp] abbrev peerPacketThrottleInterval : Nat := 5000
@[simp] abbrev peerPacketLossScale : Nat := 65536
@[simp] abbrev peerPacketLossInterval : Nat := 10000
@[simp] abbrev peerWindowSizeScale : Nat := 64 * 1024
@[simp] abbrev peerTimeoutLimit : Nat := 32
@[simp] abbrev peerTimeoutMinimum : Nat := 5000
@[simp] abbrev peerTimeoutMaximum : Nat := 30000
@[simp] abbrev peerPingInterval : Nat := 500
@[simp] abbrev peerUnsequencedWindowSize : Nat := 1024
@[simp] abbrev peerFreeUnsequencedWindows : Nat := 32
@[simp] abbrev peerReliableWindows : Nat := 16
@[simp] abbrev peerReliableWindowSize : Nat := 0x1000
@[simp] abbrev peerFreeReliableWindows : Nat := 8

@[simp] abbrev hostAny : Nat := 0
@[simp] abbrev hostBroadcast : Nat := 0xFFFFFFFF

/-! ## Time -/

@[simp] abbrev timeOverflow : Nat := 86400000

/-- `ENET_TIME_LESS`. -/
def timeLess (a b : Nat) : Bool := decide (timeOverflow ≤ sub32 a b)

/-- `ENET_TIME_GREATER_EQUAL`. -/
def timeGreaterEqual (a b : Nat) : Bool := !timeLess a b

/-- `ENET_TIME_DIFFERENCE`. -/
def timeDifference (a b : Nat) : Nat :=
  if timeOverflow ≤ sub32 a b then sub32 b a else sub32 a b

/-! ## Commands -/

/-- The fields of `ENetProtocolConnect`. -/
structure Connect where
  outgoingPeerID : Nat
  incomingSessionID : Nat
  outgoingSessionID : Nat
  mtu : Nat
  windowSize : Nat
  channelCount : Nat
  incomingBandwidth : Nat
  outgoingBandwidth : Nat
  packetThrottleInterval : Nat
  packetThrottleAcceleration : Nat
  packetThrottleDeceleration : Nat
  connectID : Nat
  data : Nat
  deriving DecidableEq, Repr

/-- The fields of `ENetProtocolVerifyConnect`. -/
structure VerifyConnect where
  outgoingPeerID : Nat
  incomingSessionID : Nat
  outgoingSessionID : Nat
  mtu : Nat
  windowSize : Nat
  channelCount : Nat
  incomingBandwidth : Nat
  outgoingBandwidth : Nat
  packetThrottleInterval : Nat
  packetThrottleAcceleration : Nat
  packetThrottleDeceleration : Nat
  connectID : Nat
  deriving DecidableEq, Repr

/-- The fields of `ENetProtocolSendFragment`. -/
structure SendFragment where
  startSequenceNumber : Nat
  dataLength : Nat
  fragmentCount : Nat
  fragmentNumber : Nat
  totalLength : Nat
  fragmentOffset : Nat
  deriving DecidableEq, Repr

/-- The members of the union `ENetProtocol`, selected by the command number. -/
inductive Command where
  | acknowledge (receivedReliableSequenceNumber receivedSentTime : Nat)
  | connect (fields : Connect)
  | verifyConnect (fields : VerifyConnect)
  | disconnect (data : Nat)
  | ping
  | sendReliable (dataLength : Nat)
  | sendUnreliable (unreliableSequenceNumber dataLength : Nat)
  | sendFragment (fields : SendFragment)
  | sendUnsequenced (unsequencedGroup dataLength : Nat)
  | bandwidthLimit (incomingBandwidth outgoingBandwidth : Nat)
  | throttleConfigure (packetThrottleInterval packetThrottleAcceleration
      packetThrottleDeceleration : Nat)
  | sendUnreliableFragment (fields : SendFragment)
  deriving DecidableEq, Repr

namespace Command

/-- The command number in the low four bits of the command byte. -/
def number : Command → Nat
  | acknowledge .. => 1
  | connect _ => 2
  | verifyConnect _ => 3
  | disconnect _ => 4
  | ping => 5
  | sendReliable _ => 6
  | sendUnreliable .. => 7
  | sendFragment _ => 8
  | sendUnsequenced .. => 9
  | bandwidthLimit .. => 10
  | throttleConfigure .. => 11
  | sendUnreliableFragment _ => 12

end Command

/-- `commandSizes`: the packed size of each union member, zero for the number
that no command has. -/
def commandSizes : Nat → Nat
  | 1 => 8
  | 2 => 48
  | 3 => 44
  | 4 => 8
  | 5 => 4
  | 6 => 6
  | 7 => 8
  | 8 => 24
  | 9 => 8
  | 10 => 12
  | 11 => 16
  | 12 => 24
  | _ => 0

/-- A wire command with its header. -/
structure Protocol where
  command : Command
  /-- `ENET_PROTOCOL_COMMAND_FLAG_ACKNOWLEDGE` -/
  acknowledge : Bool
  /-- `ENET_PROTOCOL_COMMAND_FLAG_UNSEQUENCED` -/
  unsequenced : Bool
  channelID : Nat
  reliableSequenceNumber : Nat
  deriving DecidableEq, Repr

namespace Protocol

/-- `enet_protocol_command_size`. -/
def size (protocol : Protocol) : Nat := commandSizes protocol.command.number

/-- The 16-bit field at the place of `sendUnreliable.unreliableSequenceNumber`.
`ENetProtocolSendFragment` has its start sequence number there. -/
def unreliableSequenceNumber (protocol : Protocol) : Nat :=
  match protocol.command with
  | .sendUnreliable number _ => number
  | .sendFragment fields => fields.startSequenceNumber
  | .sendUnreliableFragment fields => fields.startSequenceNumber
  | _ => 0

end Protocol

end Enet
