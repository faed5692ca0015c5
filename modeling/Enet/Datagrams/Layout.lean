import Enet.Datagrams.Packing
import Enet.Runs.Bounds

/-!
# What is read of a command that was written

The packed struct holds a field in as many bytes as its type has. A command that is
written and read again is the command as its struct holds it, whatever follows it
in the datagram.
-/

set_option autoImplicit false

namespace Enet

open Library

/-! ## Stored fields -/

/-- A fragment as its struct holds it. -/
def SendFragment.stored (fields : SendFragment) : SendFragment where
  startSequenceNumber := u16 fields.startSequenceNumber
  dataLength := u16 fields.dataLength
  fragmentCount := u32 fields.fragmentCount
  fragmentNumber := u32 fields.fragmentNumber
  totalLength := u32 fields.totalLength
  fragmentOffset := u32 fields.fragmentOffset

/-- A request for a connection as its struct holds it. -/
def Connect.stored (fields : Connect) : Connect where
  outgoingPeerID := u16 fields.outgoingPeerID
  incomingSessionID := fields.incomingSessionID % 256
  outgoingSessionID := fields.outgoingSessionID % 256
  mtu := u32 fields.mtu
  windowSize := u32 fields.windowSize
  channelCount := u32 fields.channelCount
  incomingBandwidth := u32 fields.incomingBandwidth
  outgoingBandwidth := u32 fields.outgoingBandwidth
  packetThrottleInterval := u32 fields.packetThrottleInterval
  packetThrottleAcceleration := u32 fields.packetThrottleAcceleration
  packetThrottleDeceleration := u32 fields.packetThrottleDeceleration
  connectID := u32 fields.connectID
  data := u32 fields.data

/-- The answer to a request as its struct holds it. -/
def VerifyConnect.stored (fields : VerifyConnect) : VerifyConnect where
  outgoingPeerID := u16 fields.outgoingPeerID
  incomingSessionID := fields.incomingSessionID % 256
  outgoingSessionID := fields.outgoingSessionID % 256
  mtu := u32 fields.mtu
  windowSize := u32 fields.windowSize
  channelCount := u32 fields.channelCount
  incomingBandwidth := u32 fields.incomingBandwidth
  outgoingBandwidth := u32 fields.outgoingBandwidth
  packetThrottleInterval := u32 fields.packetThrottleInterval
  packetThrottleAcceleration := u32 fields.packetThrottleAcceleration
  packetThrottleDeceleration := u32 fields.packetThrottleDeceleration
  connectID := u32 fields.connectID

namespace Command

/-- The member of the union as its struct holds it. -/
def stored : Command → Command
  | acknowledge number sentTime => acknowledge (u16 number) (u16 sentTime)
  | connect fields => connect fields.stored
  | verifyConnect fields => verifyConnect fields.stored
  | disconnect data => disconnect (u32 data)
  | ping => ping
  | sendReliable dataLength => sendReliable (u16 dataLength)
  | sendUnreliable number dataLength => sendUnreliable (u16 number) (u16 dataLength)
  | sendFragment fields => sendFragment fields.stored
  | sendUnsequenced group dataLength => sendUnsequenced (u16 group) (u16 dataLength)
  | bandwidthLimit incoming outgoing => bandwidthLimit (u32 incoming) (u32 outgoing)
  | throttleConfigure interval acceleration deceleration =>
    throttleConfigure (u32 interval) (u32 acceleration) (u32 deceleration)
  | sendUnreliableFragment fields => sendUnreliableFragment fields.stored

@[simp] theorem stored_number (command : Command) : command.stored.number = command.number := by
  cases command <;> rfl

@[simp] theorem stored_dataLength (command : Command) :
    command.stored.dataLength = u16 command.dataLength := by
  cases command <;> rfl

end Command

/-- A command as its struct holds it. -/
def Protocol.stored (protocol : Protocol) : Protocol :=
  { protocol with
    command := protocol.command.stored
    channelID := protocol.channelID % 256
    reliableSequenceNumber := u16 protocol.reliableSequenceNumber }

@[simp] theorem Protocol.stored_size (protocol : Protocol) : protocol.stored.size = protocol.size :=
  congrArg commandSizes protocol.command.stored_number

/-! ## Fields that were written -/

theorem field_here (width value : Nat) (rest : List UInt8) :
    field (toBigEndian width value ++ rest) 0 width = value % 256 ^ width := by
  unfold field
  rw [List.drop_zero, List.take_append_of_le_length (by rw [length_toBigEndian]),
    List.take_of_length_le (by rw [length_toBigEndian]), bigEndian_toBigEndian]

theorem nativeField_here (width value : Nat) (rest : List UInt8) :
    nativeField (toLittleEndian width value ++ rest) 0 width = value % 256 ^ width := by
  unfold nativeField
  rw [List.drop_zero, List.take_append_of_le_length (by rw [length_toLittleEndian]),
    List.take_of_length_le (by rw [length_toLittleEndian]), littleEndian_toLittleEndian]

/-- A field behind some bytes. -/
theorem field_behind {before : List UInt8} {offset : Nat} (past : before.length ≤ offset)
    (rest : List UInt8) (width : Nat) :
    field (before ++ rest) offset width = field rest (offset - before.length) width := by
  unfold field
  rw [List.drop_append, List.drop_of_length_le past, List.nil_append]

theorem nativeField_behind {before : List UInt8} {offset : Nat} (past : before.length ≤ offset)
    (rest : List UInt8) (width : Nat) :
    nativeField (before ++ rest) offset width =
      nativeField rest (offset - before.length) width := by
  unfold nativeField
  rw [List.drop_append, List.drop_of_length_le past, List.nil_append]

/-! ## Commands that were written -/

theorem Command.number_lt (command : Command) : command.number < 16 := by
  cases command <;> simp [number]

/-- The byte of a command keeps its number and its two flags. -/
theorem Protocol.commandByte_fields (protocol : Protocol) :
    protocol.commandByte < 256 ∧ protocol.commandByte % 16 = protocol.command.number ∧
      protocol.commandByte.testBit 7 = protocol.acknowledge ∧
      protocol.commandByte.testBit 6 = protocol.unsequenced := by
  have bits : ∀ number < 16, ∀ acknowledge unsequenced : Bool,
      let byte := number + (if acknowledge then 128 else 0) + (if unsequenced then 64 else 0)
      byte < 256 ∧ byte % 16 = number ∧ byte.testBit 7 = acknowledge ∧
        byte.testBit 6 = unsequenced := by
    decide
  exact bits _ protocol.command.number_lt _ _

/-- The member of the union is read from behind the header of the command. -/
theorem Command.decode_encode (command : Command) {header : List UInt8} (length : header.length = 4)
    (rest : List UInt8) :
    Command.decode command.number (header ++ (command.encode ++ rest)) = some command.stored := by
  cases command <;>
    simp (disch := simp [length]) [Command.decode, Command.number, Command.encode, Command.stored,
      decodeFragment, encodeFragment, field_behind, nativeField_behind, field_here,
      nativeField_here, length, SendFragment.stored, Connect.stored, VerifyConnect.stored]

theorem Protocol.four_le_size (protocol : Protocol) : 4 ≤ protocol.size := by
  unfold size
  cases protocol.command <;> simp [Command.number, commandSizes]

/-- **A command that was written is read as its struct holds it**, whatever follows. -/
theorem Protocol.decode_encode (protocol : Protocol) (rest : List UInt8) :
    Protocol.decode (protocol.encode ++ rest) = some protocol.stored := by
  obtain ⟨small, number, acknowledge, unsequenced⟩ := protocol.commandByte_fields
  have length : (protocol.encode ++ rest).length = protocol.size + rest.length := by
    rw [List.length_append, protocol.length_encode]
  have header := protocol.four_le_size
  have split : protocol.encode ++ rest = toBigEndian 1 protocol.commandByte ++
      (toBigEndian 1 protocol.channelID ++ (toBigEndian 2 protocol.reliableSequenceNumber ++
        (protocol.command.encode ++ rest))) := by
    unfold Protocol.encode
    simp only [List.append_assoc]
  have byte : field (protocol.encode ++ rest) 0 1 = protocol.commandByte := by
    rw [split, field_here]
    exact Nat.mod_eq_of_lt small
  have channelID : field (protocol.encode ++ rest) 1 1 = protocol.channelID % 256 := by
    rw [split, field_behind (by simp)]
    exact field_here ..
  have reliable : field (protocol.encode ++ rest) 2 2 = u16 protocol.reliableSequenceNumber := by
    rw [split, field_behind (by simp), field_behind (by simp)]
    exact field_here ..
  have command : Command.decode protocol.command.number (protocol.encode ++ rest) =
      some protocol.command.stored := by
    have behind := @Command.decode_encode protocol.command (toBigEndian 1 protocol.commandByte ++
      toBigEndian 1 protocol.channelID ++ toBigEndian 2 protocol.reliableSequenceNumber)
      (by simp) rest
    rwa [← List.append_assoc] at behind
  unfold Protocol.decode
  dsimp only
  have whole : ¬(protocol.encode ++ rest).length < commandSizes protocol.command.number := by
    rw [length]
    exact Nat.not_lt.mpr (Nat.le_add_right ..)
  rw [byte, number, if_neg (by omega), if_neg whole, command, channelID, reliable, acknowledge,
    unsequenced]
  rfl

end Enet
