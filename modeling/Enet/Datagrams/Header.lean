import Enet.Model.Checked
import Enet.Model.Api

/-!
# The header stage of a received datagram

The part of `enet_protocol_handle_incoming_commands` before the command loop, with
its accesses to the datagram: the header word, the sent time, the checksum, and
the length given to the decompressor. Only the two bytes of the header word are
tested for; what a header with a sent time or a checksum needs is not. The
theorem says for which datagrams that is harmless.
-/

set_option autoImplicit false

namespace Enet

/-! ## The stage with its accesses -/

namespace Host

/-- The header of a datagram. -/
def headerOf (bytes : List UInt8) : HeaderWord := HeaderWord.decode (field bytes 0 2)

/-- The size of the header that the flags of a datagram and the checksum ask for. -/
def headerSizeOf (host : Host) (bytes : List UInt8) : Nat :=
  (headerOf bytes).size host.checksum.isSome

/-- The decompression. Nothing is returned where the length passed to the
decompressor is not what is left behind the header. -/
def expandChecked (host : Host) (header : HeaderWord) (headerSize : Nat) (bytes : List UInt8) :
    Option (Option (List UInt8)) :=
  if header.compressed then
    match host.compressor.bind Compressor.decompress with
    | none => some none
    | some _ =>
      if headerSize + sub64 bytes.length headerSize ≠ bytes.length then none
      else some (host.expand header headerSize bytes)
  else some (some bytes)

/-- The checksum test. Nothing is returned where the field is not in the datagram. -/
def verifyChecksumChecked (host : Host) (peer : Option Nat) (headerSize : Nat)
    (bytes : List UInt8) : Option (Option (List UInt8)) :=
  match host.checksum with
  | none => some (some bytes)
  | some _ =>
    if bytes.length < headerSize - 4 + 4 then none
    else some (host.verifyChecksum peer headerSize bytes)

/-- The end of the stage. The sent time of the received header is read for the
first command to be acknowledged, so only where there is room for a command. -/
def openedChecked (peer : Option Nat) (header : HeaderWord) (sentTime : Nat) (headerSize : Nat)
    (received verified : List UInt8) : Option (Option Opened) :=
  if header.sentTime && decide (headerSize + 4 ≤ verified.length) &&
      decide (received.length < 4) then none
  else
    some (some
      { peer := peer
        sentTime := if header.sentTime then some sentTime else none
        bytes := verified
        headerSize := headerSize })

/-- The part of `enet_protocol_handle_incoming_commands` before the command loop.
Nothing is returned where an access falls outside of the datagram. -/
def openDatagramChecked (host : Host) (bytes : List UInt8) : Option (Option Opened) :=
  if bytes.length < 2 then some none
  else
    match host.addressedPeer (headerOf bytes) with
    | none => some none
    | some peer =>
      (host.expandChecked (headerOf bytes) (host.headerSizeOf bytes) bytes).bind fun expanded =>
        match expanded with
        | none => some none
        | some expanded =>
          (host.verifyChecksumChecked peer (host.headerSizeOf bytes) expanded).bind fun verified =>
            match verified with
            | none => some none
            | some verified =>
              openedChecked peer (headerOf bytes) (field (bytes ++ host.world.stale) 2 2)
                (host.headerSizeOf bytes) bytes verified

end Host

/-! ## Headers that fit -/

theorem HeaderWord.two_le_size (header : HeaderWord) (checksum : Bool) :
    2 ≤ header.size checksum := by
  unfold HeaderWord.size
  split <;> omega

theorem HeaderWord.size_le_eight (header : HeaderWord) (checksum : Bool) :
    header.size checksum ≤ 8 := by
  unfold HeaderWord.size
  split <;> split <;> omega

theorem HeaderWord.four_le_size_of_sentTime {header : HeaderWord}
    (sentTime : header.sentTime = true)
    (checksum : Bool) : 4 ≤ header.size checksum := by
  unfold HeaderWord.size
  rw [if_pos sentTime]
  omega

theorem HeaderWord.six_le_size_of_checksum (header : HeaderWord) : 6 ≤ header.size true := by
  unfold HeaderWord.size
  split <;> simp

namespace Host

/-- What the decompression leaves is no shorter than the header. -/
theorem headerSize_le_expand {host : Host} {header : HeaderWord} {headerSize : Nat}
    {bytes expanded : List UInt8} (fits : headerSize ≤ bytes.length)
    (expands : host.expand header headerSize bytes = some expanded) :
    headerSize ≤ expanded.length := by
  unfold expand at expands
  split at expands
  · split at expands
    · cases expands
    · dsimp only at expands
      split at expands
      · cases expands
      · cases expands
        rw [List.length_append, List.length_take, List.length_append]
        omega
  · cases expands
    exact fits

theorem expandChecked_of_fits {host : Host} {header : HeaderWord} {headerSize : Nat}
    {bytes : List UInt8} (fits : headerSize ≤ bytes.length) :
    host.expandChecked header headerSize bytes = some (host.expand header headerSize bytes) := by
  unfold expandChecked
  split
  next compressed =>
      split
      next none =>
          unfold expand
          rw [if_pos compressed, none]
      · rw [sub64_of_le fits, if_neg (by omega)]
  next plain =>
      unfold expand
      rw [if_neg plain]

theorem verifyChecksumChecked_of_fits {host : Host} {peer : Option Nat} {header : HeaderWord}
    {bytes : List UInt8} (fits : header.size host.checksum.isSome ≤ bytes.length) :
    host.verifyChecksumChecked peer (header.size host.checksum.isSome) bytes =
      some (host.verifyChecksum peer (header.size host.checksum.isSome) bytes) := by
  unfold verifyChecksumChecked verifyChecksum
  cases given : host.checksum with
  | none => rfl
  | some checksum =>
      rw [given] at fits
      have room := header.six_le_size_of_checksum
      dsimp only [Option.isSome_some] at fits ⊢
      rw [if_neg (by omega)]

/-- The stage for a datagram that reaches the test of its peer. -/
theorem openDatagram_of_word {host : Host} {bytes : List UInt8} (word : ¬ bytes.length < 2) :
    host.openDatagram bytes =
      (host.addressedPeer (headerOf bytes)).bind fun peer =>
        (host.expand (headerOf bytes) (host.headerSizeOf bytes) bytes).bind fun expanded =>
          (host.verifyChecksum peer (host.headerSizeOf bytes) expanded).map fun verified =>
            { peer := peer
              sentTime :=
                if (headerOf bytes).sentTime then some (field (bytes ++ host.world.stale) 2 2)
                else none
              bytes := verified
              headerSize := host.headerSizeOf bytes } := by
  unfold openDatagram
  rw [if_neg word]
  rfl

theorem openedChecked_of_fits {peer : Option Nat} {header : HeaderWord} {sentTime : Nat}
    {checksum : Bool} {received verified : List UInt8}
    (fits : header.size checksum ≤ received.length) :
    openedChecked peer header sentTime (header.size checksum) received verified =
      some (some
        { peer := peer
          sentTime := if header.sentTime then some sentTime else none
          bytes := verified
          headerSize := header.size checksum }) := by
  unfold openedChecked
  rw [if_neg]
  intro outside
  simp only [Bool.and_eq_true, decide_eq_true_eq] at outside
  have room := HeaderWord.four_le_size_of_sentTime outside.1.1 checksum
  omega

/-- **Where the header fits, every access is inside the datagram.** -/
theorem openDatagramChecked_of_fits {host : Host} {bytes : List UInt8}
    (fits : host.headerSizeOf bytes ≤ bytes.length) :
    host.openDatagramChecked bytes = some (host.openDatagram bytes) := by
  have word : ¬ bytes.length < 2 := by
    have least := (headerOf bytes).two_le_size host.checksum.isSome
    unfold headerSizeOf at fits
    omega
  rw [openDatagram_of_word word]
  unfold openDatagramChecked
  rw [if_neg word]
  cases host.addressedPeer (headerOf bytes) with
  | none => rfl
  | some peer =>
      dsimp only [Option.bind_some]
      rw [expandChecked_of_fits fits]
      cases expands : host.expand (headerOf bytes) (host.headerSizeOf bytes) bytes with
      | none => rfl
      | some expanded =>
          dsimp only [Option.bind_some]
          have kept := headerSize_le_expand fits expands
          unfold headerSizeOf at kept ⊢
          rw [verifyChecksumChecked_of_fits kept]
          cases host.verifyChecksum peer ((headerOf bytes).size host.checksum.isSome) expanded with
          | none => rfl
          | some verified =>
              exact openedChecked_of_fits fits

/-! ## Short headers -/

/-- The header stage uses the bytes of the datagram only, and gives the
decompressor the length that is left; a datagram shorter than its flags ask for
changes no peer and stores no event. -/
structure HeaderStaysInside (host : Host) : Prop where
  inside : host.openDatagramChecked host.receivedData = some (host.openDatagram host.receivedData)
  dropped : host.receivedData.length < host.headerSizeOf host.receivedData →
    ∀ event, (host.handleIncomingCommands event).1.peers = host.peers ∧
      (host.handleIncomingCommands event).2.1 = event

/-- The header of the datagram fits, or the stage comes to its end without it: the
datagram is shorter than the header word, reaches no peer, is compressed and the
host has no decompressor, or is to start a connection and neither compressed nor
with a checksum. -/
def IsHeaderHarmless (host : Host) : Prop :=
  host.headerSizeOf host.receivedData ≤ host.receivedData.length ∨
    host.receivedData.length < 2 ∨
    host.addressedPeer (headerOf host.receivedData) = none ∨
    ((headerOf host.receivedData).compressed = true ∧
      host.compressor.bind Compressor.decompress = none) ∨
    ((headerOf host.receivedData).compressed = false ∧ host.checksum = none ∧
      host.addressedPeer (headerOf host.receivedData) = some none)

/-- A datagram that the stage gives up without an access outside. -/
theorem HeaderStaysInside.of_closed {host : Host}
    (closed : host.openDatagram host.receivedData = none)
    (inside : host.openDatagramChecked host.receivedData = some none) :
    host.HeaderStaysInside := by
  refine ⟨by rw [inside, closed], fun _ event => ?_⟩
  unfold handleIncomingCommands
  rw [closed]
  exact ⟨rfl, rfl⟩

/-- A datagram that is shorter than its header and still opened runs no command. -/
theorem handleIncomingCommands_of_short {host : Host} {opened : Opened}
    (opens : host.openDatagram host.receivedData = some opened)
    (short : opened.bytes.length ≤ opened.headerSize) (event : Option Event) :
    (host.handleIncomingCommands event).1 = host.noteDatagram opened ∧
      (host.handleIncomingCommands event).2.1 = event := by
  unfold handleIncomingCommands
  rw [opens]
  dsimp only
  rw [List.drop_eq_nil_of_le short]
  cases opened.bytes.length with
  | zero => exact ⟨rfl, rfl⟩
  | succ length => exact ⟨rfl, rfl⟩

theorem expandChecked_of_wraps {host : Host} {header : HeaderWord} {headerSize : Nat}
    {bytes : List UInt8} {decompress : List UInt8 → Nat → List UInt8}
    (compressed : header.compressed = true)
    (given : host.compressor.bind Compressor.decompress = some decompress)
    (short : bytes.length < headerSize) :
    host.expandChecked header headerSize bytes = none := by
  have wraps : headerSize + sub64 bytes.length headerSize ≠ bytes.length := by
    unfold sub64
    rw [if_neg (by omega)]
    omega
  unfold expandChecked
  rw [if_pos compressed, given]
  exact if_pos wraps

theorem verifyChecksumChecked_of_short {host : Host} {peer : Option Nat} {headerSize : Nat}
    {bytes : List UInt8} (given : host.checksum.isSome = true)
    (short : bytes.length < headerSize) :
    host.verifyChecksumChecked peer headerSize bytes = none := by
  unfold verifyChecksumChecked
  cases same : host.checksum with
  | none => rw [same] at given; cases given
  | some checksum =>
      dsimp only
      rw [if_pos (by omega)]

/-- **A short datagram that is decompressed, or has a checksum, takes the stage outside.** -/
theorem openDatagramChecked_of_short {host : Host} {bytes : List UInt8} {peer : Option Nat}
    (word : ¬ bytes.length < 2) (addressed : host.addressedPeer (headerOf bytes) = some peer)
    (short : bytes.length < host.headerSizeOf bytes)
    (used : (headerOf bytes).compressed = true →
      host.compressor.bind Compressor.decompress ≠ none)
    (checked : (headerOf bytes).compressed = false → host.checksum ≠ none) :
    host.openDatagramChecked bytes = none := by
  unfold openDatagramChecked
  rw [if_neg word, addressed]
  dsimp only
  cases compressed : (headerOf bytes).compressed with
  | true =>
      obtain ⟨decompress, given⟩ := Option.ne_none_iff_exists'.mp (used compressed)
      rw [expandChecked_of_wraps compressed given short]
      rfl
  | false =>
      have given : host.checksum.isSome = true :=
        Option.isSome_iff_ne_none.mpr (checked compressed)
      have plain : host.expandChecked (headerOf bytes) (host.headerSizeOf bytes) bytes =
          some (some bytes) := by
        unfold expandChecked
        rw [if_neg (by simp [compressed])]
      rw [plain]
      dsimp only [Option.bind_some]
      rw [verifyChecksumChecked_of_short given short]
      rfl

/-- A short datagram that nothing decompresses is dropped. -/
theorem openDatagram_of_stuck {host : Host} {bytes : List UInt8}
    (compressed : (headerOf bytes).compressed = true)
    (none : host.compressor.bind Compressor.decompress = none) :
    host.openDatagram bytes = Option.none ∧ host.openDatagramChecked bytes = some Option.none := by
  have stuck : host.expand (headerOf bytes) (host.headerSizeOf bytes) bytes = Option.none := by
    unfold expand
    rw [if_pos compressed, none]
  have stuck' : host.expandChecked (headerOf bytes) (host.headerSizeOf bytes) bytes =
      some Option.none := by
    unfold expandChecked
    rw [if_pos compressed, none]
  by_cases word : bytes.length < 2
  · exact ⟨if_pos word, if_pos word⟩
  · rw [openDatagram_of_word word]
    unfold openDatagramChecked
    rw [if_neg word, stuck, stuck']
    cases host.addressedPeer (headerOf bytes) with
    | none => exact ⟨rfl, rfl⟩
    | some peer => exact ⟨rfl, rfl⟩

/-- A short datagram without a checksum, not compressed, is opened as it is. -/
theorem openDatagram_of_plain {host : Host} {bytes : List UInt8} {peer : Option Nat}
    (word : ¬ bytes.length < 2) (addressed : host.addressedPeer (headerOf bytes) = some peer)
    (plain : (headerOf bytes).compressed = false) (unchecked : host.checksum = none) :
    host.openDatagram bytes =
      some
        { peer := peer
          sentTime :=
            if (headerOf bytes).sentTime then some (field (bytes ++ host.world.stale) 2 2)
            else none
          bytes := bytes
          headerSize := host.headerSizeOf bytes } := by
  rw [openDatagram_of_word word, addressed]
  simp [expand, plain, verifyChecksum, unchecked]

theorem openDatagramChecked_of_plain {host : Host} {bytes : List UInt8} {peer : Option Nat}
    (word : ¬ bytes.length < 2) (addressed : host.addressedPeer (headerOf bytes) = some peer)
    (plain : (headerOf bytes).compressed = false) (unchecked : host.checksum = none) 
    (short : bytes.length < host.headerSizeOf bytes) :
    host.openDatagramChecked bytes = some (host.openDatagram bytes) := by
  rw [openDatagram_of_plain word addressed plain unchecked]
  have narrow : ¬ host.headerSizeOf bytes + 4 ≤ bytes.length := by omega
  unfold openDatagramChecked
  rw [if_neg word, addressed]
  simp [expandChecked, plain, verifyChecksumChecked, unchecked, openedChecked, narrow]

/-- A datagram of two or three bytes moves the count of received data of its peer. -/
theorem noteDatagram_ne_peers (host : Host) {opened : Opened} {index : Nat}
    (peer : opened.peer = some index) (positive : 0 < opened.bytes.length)
    (short : opened.bytes.length ≤ 8) : (host.noteDatagram opened).peers ≠ host.peers := by
  intro same
  have counts := congrArg (fun peers => (peers index).incomingDataTotal) same
  unfold noteDatagram at counts
  dsimp only at counts
  rw [peer] at counts
  simp only [setPeer_self] at counts
  change u32 ((host.peers index).incomingDataTotal + opened.bytes.length) =
    (host.peers index).incomingDataTotal at counts
  unfold u32 at counts
  omega

end Host

/-! ## The exact condition -/

/-- **The header stage stays inside a datagram exactly where the header is harmless.** -/
theorem headerStaysInside_iff (host : Host) :
    host.HeaderStaysInside ↔ host.IsHeaderHarmless := by
  constructor
  · intro stays
    by_contra harms
    unfold Host.IsHeaderHarmless at harms
    simp only [not_or, not_and, Nat.not_le, Nat.not_lt] at harms
    obtain ⟨short, word, addressed, used, plain⟩ := harms
    obtain ⟨peer, addressed⟩ := Option.ne_none_iff_exists'.mp addressed
    by_cases unchecked : (Host.headerOf host.receivedData).compressed = false ∧
        host.checksum = none
    · cases peer with
      | none => exact plain unchecked.1 unchecked.2 addressed
      | some index =>
          have opens :=
            Host.openDatagram_of_plain (by omega) addressed unchecked.1 unchecked.2
          have small : host.headerSizeOf host.receivedData ≤ 8 :=
            (Host.headerOf host.receivedData).size_le_eight host.checksum.isSome
          obtain ⟨kept, -⟩ := stays.dropped short none
          rw [(Host.handleIncomingCommands_of_short opens (Nat.le_of_lt short) none).1] at kept
          exact Host.noteDatagram_ne_peers host rfl (by dsimp only; omega)
            (by dsimp only; omega) kept
    · have outside := Host.openDatagramChecked_of_short (by omega) addressed short used
        fun compressed checked => unchecked ⟨compressed, checked⟩
      rw [stays.inside] at outside
      cases outside
  · rintro (fits | word | refused | ⟨compressed, none⟩ | ⟨plain, unchecked, connects⟩)
    · exact ⟨Host.openDatagramChecked_of_fits fits, fun short => absurd fits (by omega)⟩
    · exact .of_closed (if_pos word) (if_pos word)
    · by_cases word : host.receivedData.length < 2
      · exact .of_closed (if_pos word) (if_pos word)
      · refine .of_closed ?_ ?_
        · rw [Host.openDatagram_of_word word, refused]
          rfl
        · unfold Host.openDatagramChecked
          rw [if_neg word, refused]
    · obtain ⟨closed, stuck⟩ := Host.openDatagram_of_stuck compressed none
      exact .of_closed closed stuck
    · by_cases word : host.receivedData.length < 2
      · exact .of_closed (if_pos word) (if_pos word)
      · by_cases short : host.receivedData.length < host.headerSizeOf host.receivedData
        · have opens := Host.openDatagram_of_plain word connects plain unchecked
          refine ⟨Host.openDatagramChecked_of_plain word connects plain unchecked short,
            fun _ event => ?_⟩
          obtain ⟨handled, kept⟩ :=
            Host.handleIncomingCommands_of_short opens (Nat.le_of_lt short) event
          rw [handled]
          exact ⟨rfl, kept⟩
        · exact ⟨Host.openDatagramChecked_of_fits (by omega), fun less => absurd less short⟩

/-- A host with one slot and a decompressor. -/
def decompressingHost : Host :=
  (Host.create .ample (.delivering (fun _ => 1) []) 0 1 1 0 0).configure 1392 4095 33554432 33554432
    none (some ⟨none, some fun bytes _ => bytes⟩)

/-- Two bytes that announce a sent time and compressed commands. -/
theorem headerStaysInside_not_short :
    ¬ (decompressingHost.setReceivedData [0xCF, 0xFF]).HeaderStaysInside := by
  intro stays
  have outside : (decompressingHost.setReceivedData [0xCF, 0xFF]).openDatagramChecked
      [0xCF, 0xFF] = none := by decide
  have inside := stays.inside
  change (decompressingHost.setReceivedData [0xCF, 0xFF]).openDatagramChecked [0xCF, 0xFF] =
    some _ at inside
  rw [outside] at inside
  cases inside

end Enet
