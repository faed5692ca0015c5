import Enet.Datagrams.Header
import Enet.Datagrams.Written
import Mathlib.Data.Nat.Bitwise

/-!
# How a datagram is read back

The sender packs the id of the peer, its session and two flags into one word,
puts the connect id in the place of the checksum while it computes that, and
leaves the commands compressed where that is shorter. The receiver undoes these
in another order: it looks the peer up, expands the commands, and then computes
the checksum with its own connect id planted. The buffer it expands into has room
for the largest mtu, header included.
-/

set_option autoImplicit false

namespace Enet

open Library

/-! ## The first word -/

/-- The session bits of the header: none where no peer is named. -/
def Peer.sessionBits (peer : Peer) : Nat :=
  if peer.outgoingPeerID < protocolMaximumPeerID then peer.outgoingSessionID else 0

/-- The parts of the first word lie side by side. -/
theorem headerWord_eq {peer : Peer} (named : peer.outgoingPeerID ≤ protocolMaximumPeerID)
    (session : peer.sessionBits < 4) (sentTime compressed : Bool) :
    headerWord peer sentTime compressed =
      2 ^ 15 * sentTime.toNat + (2 ^ 14 * compressed.toNat +
        (2 ^ 12 * peer.sessionBits + peer.outgoingPeerID)) := by
  have small : peer.outgoingPeerID < 2 ^ 12 := Nat.lt_succ_of_le named
  have ids : 2 ^ 12 * peer.sessionBits + peer.outgoingPeerID < 2 ^ 14 := by omega
  have flagged : 2 ^ 14 * compressed.toNat + (2 ^ 12 * peer.sessionBits + peer.outgoingPeerID) <
      2 ^ 15 := by
    cases compressed <;> simp only [Bool.toNat_true, Bool.toNat_false] <;> omega
  have time : (if sentTime then 0x8000 else 0) = 2 ^ 15 * sentTime.toNat := by
    cases sentTime <;> rfl
  have shorter : (if compressed then 0x4000 else 0) = 2 ^ 14 * compressed.toNat := by
    cases compressed <;> rfl
  have bits : (if peer.outgoingPeerID < protocolMaximumPeerID then
      peer.outgoingSessionID <<< 12 else 0) = 2 ^ 12 * peer.sessionBits := by
    unfold Peer.sessionBits
    split
    · rw [Nat.shiftLeft_eq, Nat.mul_comm]
    · rfl
  have whole : 2 ^ 15 * sentTime.toNat + (2 ^ 14 * compressed.toNat +
      (2 ^ 12 * peer.sessionBits + peer.outgoingPeerID)) < 65536 := by
    cases sentTime <;> simp only [Bool.toNat_true, Bool.toNat_false] <;> omega
  rw [← Nat.mod_eq_of_lt whole, Nat.two_pow_add_eq_or_of_lt flagged,
    Nat.two_pow_add_eq_or_of_lt ids, Nat.two_pow_add_eq_or_of_lt small]
  unfold headerWord
  rw [time, shorter, bits]
  refine congrArg u16 ?_
  rw [Nat.lor_assoc, Nat.lor_assoc, Nat.lor_comm peer.outgoingPeerID, Nat.lor_assoc,
    Nat.lor_assoc]

/-- **The first word is taken apart into what was packed in it.** -/
theorem HeaderWord.decode_headerWord {peer : Peer}
    (named : peer.outgoingPeerID ≤ protocolMaximumPeerID) (session : peer.sessionBits < 4)
    (sentTime compressed : Bool) :
    HeaderWord.decode (headerWord peer sentTime compressed) =
      ⟨peer.outgoingPeerID, peer.sessionBits, compressed, sentTime⟩ := by
  have small : peer.outgoingPeerID < 2 ^ 12 := Nat.lt_succ_of_le named
  rw [headerWord_eq named session]
  generalize peer.outgoingPeerID = id at small ⊢
  generalize peer.sessionBits = bits at session ⊢
  unfold decode
  have shifted : ∀ word : Nat, (word &&& 0x3000) >>> 12 = word / 2 ^ 12 % 2 ^ 2 := by
    intro word
    rw [Nat.shiftRight_and_distrib, Nat.shiftRight_eq_div_pow]
    exact Nat.and_two_pow_sub_one_eq_mod (word / 2 ^ 12) 2
  have masked : ∀ word : Nat, word &&& 0x0FFF = word % 2 ^ 12 :=
    fun word => Nat.and_two_pow_sub_one_eq_mod word 12
  rw [masked, shifted]
  simp only [Nat.testBit_eq_decide_div_mod_eq]
  cases sentTime <;> cases compressed <;>
    simp only [Bool.toNat_true, Bool.toNat_false, HeaderWord.mk.injEq, decide_eq_true_eq,
      decide_eq_false_iff_not] <;> omega

/-! ## The bytes that are sent -/

/-- A compressor and a decompressor that undo each other wherever there is room. -/
def Decodes (compress decompress : List UInt8 → Nat → List UInt8) : Prop :=
  ∀ bytes limit, 0 < (compress bytes limit).length → (compress bytes limit).length < limit →
    ∀ outLimit, bytes.length ≤ outLimit → decompress (compress bytes limit) outLimit = bytes

/-- The statistics of a peer are no part of the first word. -/
theorem headerWord_updatePacketLoss (peer : Peer) (serviceTime : Nat) (sentTime compressed : Bool) :
    headerWord (peer.updatePacketLoss serviceTime) sentTime compressed =
      headerWord peer sentTime compressed := by
  unfold Peer.updatePacketLoss
  split
  · rfl
  · split <;> rfl

namespace Peer

/-- The connect id in the place of the checksum: none where no peer is named. -/
def plantedID (peer : Peer) : Nat :=
  if peer.outgoingPeerID < protocolMaximumPeerID then peer.connectID else 0

theorem plantedID_updatePacketLoss (peer : Peer) (serviceTime : Nat) :
    (peer.updatePacketLoss serviceTime).plantedID = peer.plantedID := by
  unfold updatePacketLoss
  split
  · rfl
  · split <;> rfl

end Peer

namespace Host

/-- The bytes of the datagram past its header. -/
def body (host : Host) : List UInt8 := encodeParts host.datagram.parts

/-- What the compressor leaves of them, where that is shorter. -/
def shortened (host : Host) : Option (List UInt8) :=
  host.compressed (host.datagram.packetSize - 4) host.body

/-- The header of the datagram of a peer, before its checksum. -/
def plainHeader (host : Host) (index : Nat) : List UInt8 :=
  toBigEndian 2 (headerWord (host.peers index) host.datagram.sentTime host.shortened.isSome) ++
    if host.datagram.sentTime then toBigEndian 2 (u16 host.serviceTime) else []

/-- The field of the checksum, with a given value in it for a given callback. -/
def sumField (host : Host) (value : (List UInt8 → Nat) → Nat) : List UInt8 :=
  match host.checksum with
  | none => []
  | some checksum => toLittleEndian 4 (value checksum)

/-- The checksum of the datagram of a peer. -/
def sentSum (host : Host) (index : Nat) (checksum : List UInt8 → Nat) : Nat :=
  checksum (host.plainHeader index ++ toLittleEndian 4 (host.peers index).plantedID ++ host.body)

/-- The header, the checksum, and the commands. -/
theorem sentBytes_eq (host : Host) (index : Nat) :
    host.sentBytes index = host.plainHeader index ++ host.sumField (host.sentSum index) ++
      host.shortened.getD host.body := by
  have word := headerWord_updatePacketLoss (host.peers index) host.serviceTime
    host.datagram.sentTime host.shortened.isSome
  have planted := (host.peers index).plantedID_updatePacketLoss host.serviceTime
  unfold Peer.plantedID at planted
  unfold sentBytes datagramBytes sumField sentSum plainHeader Peer.plantedID
  dsimp only
  cases sums : host.checksum with
  | none =>
      rw [show (host.setPeer index ((host.peers index).updatePacketLoss
        host.serviceTime)).checksum = none from sums, ← word]
      exact congrArg (· ++ host.shortened.getD host.body) (List.append_nil _).symm
  | some checksum =>
      rw [show (host.setPeer index ((host.peers index).updatePacketLoss
        host.serviceTime)).checksum = some checksum from sums, ← word, ← planted]
      rfl

theorem length_plainHeader (host : Host) (index : Nat) :
    (host.plainHeader index).length = if host.datagram.sentTime then 4 else 2 := by
  unfold plainHeader
  cases host.datagram.sentTime <;> simp

theorem length_sumField (host : Host) (value : (List UInt8 → Nat) → Nat) :
    (host.sumField value).length = if host.checksum.isSome then 4 else 0 := by
  unfold sumField
  cases host.checksum <;> simp

/-! ## The receiver -/

/-- The slot of a receiver that knows the peer of a sender: it has the address, the session
and the connect id that the sender uses. -/
structure Knows (receiver : Host) (peer : Peer) (slot : Nat) : Prop where
  named : peer.outgoingPeerID = slot
  known : slot < protocolMaximumPeerID
  within : slot < receiver.peerCount
  used : (receiver.peers slot).state ≠ .disconnected ∧ (receiver.peers slot).state ≠ .zombie
  address : (receiver.receivedAddress.host = (receiver.peers slot).address.host ∧
      receiver.receivedAddress.port = (receiver.peers slot).address.port) ∨
    (receiver.peers slot).address.host = hostBroadcast
  session : peer.outgoingSessionID = (receiver.peers slot).incomingSessionID
  bits : (receiver.peers slot).incomingSessionID < 4
  connectID : peer.connectID = (receiver.peers slot).connectID

/-- The slot that the datagrams of a peer are for: none where the sender does not know one
yet, which is so for a CONNECT. -/
def Awaits (receiver : Host) (peer : Peer) : Option Nat → Prop
  | none => peer.outgoingPeerID = protocolMaximumPeerID
  | some slot => receiver.Knows peer slot

/-- Two hosts with the same checksum, and compressors that undo each other. -/
structure Agrees (receiver sender : Host) : Prop where
  checksum : receiver.checksum = sender.checksum
  narrow : ∀ checksum, sender.checksum = some checksum → ∀ bytes, checksum bytes < 4294967296
  decodes : ∀ compress, sender.compressor.bind Compressor.compress = some compress →
    ∃ decompress, receiver.compressor.bind Compressor.decompress = some decompress ∧
      Decodes compress decompress

theorem Awaits.named {receiver : Host} {peer : Peer} {slot : Option Nat}
    (awaits : receiver.Awaits peer slot) :
    peer.outgoingPeerID ≤ protocolMaximumPeerID ∧ peer.sessionBits < 4 := by
  unfold Peer.sessionBits
  cases slot with
  | none =>
      have unnamed : peer.outgoingPeerID = protocolMaximumPeerID := awaits
      rw [unnamed, if_neg (Nat.lt_irrefl _)]
      exact ⟨le_refl _, by decide⟩
  | some slot =>
      have knows : receiver.Knows peer slot := awaits
      rw [knows.named, if_pos knows.known, knows.session]
      exact ⟨knows.known.le, knows.bits⟩

/-- **The receiver finds the peer** that the first word names. -/
theorem Awaits.addressedPeer {receiver : Host} {peer : Peer} {slot : Option Nat}
    (awaits : receiver.Awaits peer slot) (compressed sentTime : Bool) :
    receiver.addressedPeer ⟨peer.outgoingPeerID, peer.sessionBits, compressed, sentTime⟩ =
      some slot := by
  unfold Host.addressedPeer
  dsimp only
  cases slot with
  | none => exact if_pos awaits
  | some slot =>
      have knows : receiver.Knows peer slot := awaits
      obtain ⟨named, known, within, used, address, session, bits, connectID⟩ := knows
      have unnamed : ¬slot = protocolMaximumPeerID := by omega
      have sessions : peer.sessionBits = (receiver.peers slot).incomingSessionID := by
        unfold Peer.sessionBits
        rw [named, if_pos known, session]
      rw [named, if_neg unnamed, if_neg (Nat.not_le.mpr within), if_pos]
      unfold isAddressed
      simpa [used.1, used.2, sessions] using address

/-- The connect id of a slot: 0 for none. -/
def connectIDOf (receiver : Host) : Option Nat → Nat
  | some slot => (receiver.peers slot).connectID
  | none => 0

/-- The receiver plants the connect id that the sender planted. -/
theorem Awaits.connectIDOf_eq {receiver : Host} {peer : Peer} {slot : Option Nat}
    (awaits : receiver.Awaits peer slot) : receiver.connectIDOf slot = peer.plantedID := by
  unfold connectIDOf Peer.plantedID
  cases slot with
  | none =>
      have unnamed : peer.outgoingPeerID = protocolMaximumPeerID := awaits
      rw [unnamed, if_neg (Nat.lt_irrefl _)]
  | some slot =>
      have knows : receiver.Knows peer slot := awaits
      dsimp only
      rw [knows.named, if_pos knows.known, knows.connectID]

/-! ## The stages before the command loop -/

variable {receiver sender : Host} {index : Nat} {slot : Option Nat}

/-- The header of a datagram, as its receiver takes it apart. -/
def sentHeader (sender : Host) (index : Nat) : HeaderWord :=
  ⟨(sender.peers index).outgoingPeerID, (sender.peers index).sessionBits,
    sender.shortened.isSome, sender.datagram.sentTime⟩

theorem Awaits.header_read (awaits : receiver.Awaits (sender.peers index) slot)
    (rest : List UInt8) :
    headerOf (sender.plainHeader index ++ rest) = sender.sentHeader index := by
  obtain ⟨named, session⟩ := awaits.named
  unfold headerOf plainHeader
  rw [List.append_assoc, field_here]
  have small : headerWord (sender.peers index) sender.datagram.sentTime
      sender.shortened.isSome < 65536 := Nat.mod_lt _ (by decide)
  rw [show 256 ^ 2 = 65536 from rfl, Nat.mod_eq_of_lt small]
  exact HeaderWord.decode_headerWord named session _ _

/-- The sent time is read from behind the first word. -/
theorem field_plainHeader (timed : sender.datagram.sentTime = true) (rest : List UInt8) :
    field (sender.plainHeader index ++ rest) 2 2 = u16 sender.serviceTime := by
  unfold plainHeader
  rw [timed, if_pos rfl, List.append_assoc, field_behind (by simp), length_toBigEndian,
    field_here]
  exact Nat.mod_mod _ _

/-- The length of the header of a datagram, with its checksum. -/
def headerLength (sender : Host) : Nat :=
  (if sender.datagram.sentTime then 4 else 2) + if sender.checksum.isSome then 4 else 0

theorem headerLength_le (sender : Host) : sender.headerLength ≤ 8 := by
  unfold headerLength
  split <;> split <;> omega

theorem length_header (sender : Host) (index : Nat) (value : (List UInt8 → Nat) → Nat) :
    (sender.plainHeader index ++ sender.sumField value).length = sender.headerLength := by
  rw [List.length_append, length_plainHeader, length_sumField]
  rfl

/-- A datagram that is not compressed, or whose commands fit behind its header in a buffer
of the largest mtu. -/
def Expandable (sender : Host) : Prop :=
  sender.shortened = none ∨ sender.headerLength + sender.body.length ≤ protocolMaximumMtu

/-- What the compressor returned for the commands. -/
theorem shortened_eq_some {coded : List UInt8} (shortens : sender.shortened = some coded) :
    ∃ compress, sender.compressor.bind Compressor.compress = some compress ∧
      coded = compress sender.body (sender.datagram.packetSize - 4) ∧ 0 < coded.length ∧
      coded.length < sender.datagram.packetSize - 4 := by
  unfold shortened compressed at shortens
  split at shortens
  · cases shortens
  next compress given =>
      dsimp only at shortens
      split at shortens
      next shorter =>
          cases shortens
          exact ⟨compress, given, rfl, shorter⟩
      · cases shortens

/-- What the receiver expands where a datagram is compressed. -/
theorem expand_compressed {header : HeaderWord} (compressed : header.compressed = true)
    {decompress : List UInt8 → Nat → List UInt8}
    (given : receiver.compressor.bind Compressor.decompress = some decompress)
    {front : List UInt8} (fits : front.length ≤ 8) (coded : List UInt8) :
    receiver.expand header front.length (front ++ coded) =
      if (decompress coded (protocolMaximumMtu - front.length)).length ≤ 0 ∨
          protocolMaximumMtu - front.length <
            (decompress coded (protocolMaximumMtu - front.length)).length then none
      else some (front ++ decompress coded (protocolMaximumMtu - front.length)) := by
  have room : sub64 protocolMaximumMtu front.length = protocolMaximumMtu - front.length :=
    sub64_of_le (by simp only [protocolMaximumMtu]; omega)
  have left : sub64 (front ++ coded).length front.length = coded.length := by
    rw [sub64_of_le (by rw [List.length_append]; omega), List.length_append]
    omega
  unfold expand
  rw [if_pos compressed, given]
  dsimp only
  rw [room, left, List.append_assoc, List.drop_left, List.take_left, List.take_left]

/-- **The receiver expands what the sender compressed**, where it has the room. -/
theorem Agrees.expand (agrees : receiver.Agrees sender) (filled : sender.body ≠ [])
    {front : List UInt8} (header : front.length = sender.headerLength)
    (expandable : sender.Expandable) :
    receiver.expand (sender.sentHeader index) front.length
      (front ++ sender.shortened.getD sender.body) = some (front ++ sender.body) := by
  have small := sender.headerLength_le
  cases shortens : sender.shortened with
  | none =>
      have plain : (sender.sentHeader index).compressed = false := by
        unfold sentHeader
        rw [shortens]
        rfl
      unfold Host.expand
      rw [plain, if_neg Bool.false_ne_true, Option.getD_none]
  | some coded =>
      obtain ⟨compress, given, rfl, positive, shorter⟩ := shortened_eq_some shortens
      obtain ⟨decompress, returned, decodes⟩ := agrees.decodes compress given
      have fits : sender.headerLength + sender.body.length ≤ protocolMaximumMtu := by
        rcases expandable with none | fits
        · rw [shortens] at none
          cases none
        · exact fits
      have decoded := decodes sender.body _ positive shorter
        (protocolMaximumMtu - front.length) (by omega)
      have compressed : (sender.sentHeader index).compressed = true := by
        unfold sentHeader
        rw [shortens]
        rfl
      have content : 0 < sender.body.length := List.length_pos_of_ne_nil filled
      rw [Option.getD_some, expand_compressed compressed returned (by omega), decoded, if_neg]
      omega

/-- What is expanded of a compressed datagram fits into the buffer, with its header. -/
theorem length_expand {coded expanded front : List UInt8} (shortens : sender.shortened = some coded)
    (header : front.length = sender.headerLength)
    (expands : receiver.expand (sender.sentHeader index) front.length (front ++ coded) =
      some expanded) : expanded.length ≤ protocolMaximumMtu := by
  have small := sender.headerLength_le
  have compressed : (sender.sentHeader index).compressed = true := by
    unfold sentHeader
    rw [shortens]
    rfl
  cases given : receiver.compressor.bind Compressor.decompress with
  | none =>
      unfold expand at expands
      rw [if_pos compressed, given] at expands
      cases expands
  | some decompress =>
      rw [expand_compressed compressed given (by omega)] at expands
      split at expands
      · cases expands
      · cases expands
        simp only [protocolMaximumMtu] at *
        rw [List.length_append]
        omega

theorem verifyChecksum_some {checksum : List UInt8 → Nat}
    (given : receiver.checksum = some checksum) (headerSize : Nat) (bytes : List UInt8) :
    receiver.verifyChecksum slot headerSize bytes =
      let planted := (overwrite (bytes ++ receiver.world.stale) (headerSize - 4)
        (toLittleEndian 4 (receiver.connectIDOf slot))).take bytes.length
      if checksum planted ≠ nativeField (bytes ++ receiver.world.stale) (headerSize - 4) 4 then none
      else some planted := by
  unfold verifyChecksum
  rw [given]
  cases slot <;> rfl

/-- The checksum test leaves the length. -/
theorem length_verifyChecksum {headerSize : Nat} {bytes verified : List UInt8}
    (verifies : receiver.verifyChecksum slot headerSize bytes = some verified) :
    verified.length = bytes.length := by
  cases given : receiver.checksum with
  | none =>
      unfold verifyChecksum at verifies
      rw [given] at verifies
      cases verifies
      rfl
  | some checksum =>
      rw [verifyChecksum_some given] at verifies
      dsimp only at verifies
      split at verifies
      · cases verifies
      · cases verifies
        rw [List.length_take, length_overwrite, List.length_append]
        omega

/-- **The receiver accepts the checksum of the sender**, and leaves its connect id in the
place of it. -/
theorem Agrees.verifyChecksum (agrees : receiver.Agrees sender)
    (awaits : receiver.Awaits (sender.peers index) slot) :
    receiver.verifyChecksum slot sender.headerLength
      (sender.plainHeader index ++ sender.sumField (sender.sentSum index) ++ sender.body) =
        some (sender.plainHeader index ++
          sender.sumField (fun _ => (sender.peers index).plantedID) ++ sender.body) := by
  have header := sender.length_header index (sender.sentSum index)
  unfold sumField at header ⊢
  cases given : sender.checksum with
  | none =>
      unfold Host.verifyChecksum
      rw [agrees.checksum, given]
  | some checksum =>
      rw [given] at header
      dsimp only at header ⊢
      rw [List.length_append, length_toLittleEndian] at header
      have place : sender.headerLength - 4 = (sender.plainHeader index).length := by omega
      have desired : nativeField (sender.plainHeader index ++
          toLittleEndian 4 (sender.sentSum index checksum) ++ sender.body ++ receiver.world.stale)
          (sender.plainHeader index).length 4 = sender.sentSum index checksum := by
        rw [List.append_assoc, List.append_assoc, nativeField_behind (le_refl _), Nat.sub_self,
          nativeField_here]
        exact Nat.mod_eq_of_lt (agrees.narrow checksum given _)
      have planted : (overwrite (sender.plainHeader index ++
          toLittleEndian 4 (sender.sentSum index checksum) ++ sender.body ++ receiver.world.stale)
          (sender.plainHeader index).length
          (toLittleEndian 4 (sender.peers index).plantedID)).take
            (sender.plainHeader index ++ toLittleEndian 4 (sender.sentSum index checksum) ++
              sender.body).length =
          sender.plainHeader index ++ toLittleEndian 4 (sender.peers index).plantedID ++
            sender.body := by
        have same : (sender.plainHeader index ++
            toLittleEndian 4 (sender.sentSum index checksum) ++ sender.body).length =
              (sender.plainHeader index ++ toLittleEndian 4 (sender.peers index).plantedID ++
                sender.body).length := by
          simp only [List.length_append, length_toLittleEndian]
        rw [overwrite_append (by simp), same, List.take_left]
      have sums : ¬checksum (sender.plainHeader index ++
          toLittleEndian 4 (sender.peers index).plantedID ++ sender.body) ≠
            sender.sentSum index checksum := fun differs => differs rfl
      rw [verifyChecksum_some (agrees.checksum.trans given), awaits.connectIDOf_eq, place,
        desired, planted, if_neg sums]

end Host

end Enet
