import Enet.Runs.Steps

/-!
# A datagram concerns one peer

The command loop acts on the peer that the header names, once the header's tests
have let the datagram through, or on the free slot that its CONNECT command
takes. Every other peer stays as it is; the links of the dispatch queue, which
another peer's turn may move, are the host's.
-/

set_option autoImplicit false

namespace Enet

open Library

/-! ## The tests of the header -/

/-- The tests that a datagram for a peer passes: the peer is in use, and the
source address and the session id are its own. A peer that connects to the
broadcast address takes any source, and one that knows no session id yet takes
any session id. -/
structure Host.Matches (host : Host) (header : HeaderWord) (index : Nat) : Prop where
  named : header.peerID = index
  slot : index < host.peerCount
  used : (host.peers index).state ≠ .disconnected ∧ (host.peers index).state ≠ .zombie
  source : host.receivedAddress = (host.peers index).address ∨
    (host.peers index).address.host = hostBroadcast
  session : (host.peers index).outgoingPeerID < protocolMaximumPeerID →
    header.sessionID = (host.peers index).incomingSessionID

theorem Host.matches_of_addressedPeer {host : Host} {header : HeaderWord} {index : Nat}
    (addressed : host.addressedPeer header = some (some index)) : host.Matches header index := by
  unfold addressedPeer at addressed
  split at addressed
  · cases addressed
  · split at addressed
    · cases addressed
    next slot =>
      split at addressed
      next accepts =>
          simp only [Option.some.injEq] at addressed
          subst addressed
          simp only [isAddressed, Bool.not_eq_true', Bool.or_eq_false_iff, Bool.and_eq_false_iff,
            decide_eq_false_iff_not, not_not] at accepts
          obtain ⟨⟨⟨disconnected, zombie⟩, source⟩, session⟩ := accepts
          refine ⟨rfl, Nat.lt_of_not_le slot, ⟨disconnected, zombie⟩, ?_, ?_⟩
          · rcases source with ⟨sameHost, samePort⟩ | broadcast
            · left
              cases received : host.receivedAddress with
              | mk receivedHost receivedPort =>
                  rw [received] at sameHost samePort
                  dsimp only at sameHost samePort
                  rw [sameHost, samePort]
            · exact .inr broadcast
          · intro known
            rcases session with unknown | same
            · exact absurd known unknown
            · exact same
      · cases addressed

theorem Host.maximum_of_addressedPeer {host : Host} {header : HeaderWord}
    (addressed : host.addressedPeer header = some none) :
    header.peerID = protocolMaximumPeerID := by
  unfold addressedPeer at addressed
  split at addressed
  next maximum => exact maximum
  · split at addressed
    · cases addressed
    · split at addressed
      · cases addressed
      · cases addressed

/-- The checksum of a datagram is right for the peer that it is for. -/
def Host.ChecksumMatches (host : Host) (peer : Option Nat) (header : HeaderWord)
    (bytes : List UInt8) : Prop :=
  ∃ expanded, host.expand header (header.size host.checksum.isSome) bytes = some expanded ∧
    (host.verifyChecksum peer (header.size host.checksum.isSome) expanded).isSome = true

/-- What the header stage lets through has passed its tests. -/
theorem Host.openDatagram_tests {host : Host} {bytes : List UInt8} {opened : Opened}
    (opens : host.openDatagram bytes = some opened) :
    host.addressedPeer (HeaderWord.decode (field bytes 0 2)) = some opened.peer ∧
      host.ChecksumMatches opened.peer (HeaderWord.decode (field bytes 0 2)) bytes := by
  unfold openDatagram at opens
  split at opens
  · cases opens
  · obtain ⟨peer, addressed, opens⟩ := Option.bind_eq_some_iff.mp opens
    obtain ⟨expanded, expands, opens⟩ := Option.bind_eq_some_iff.mp opens
    obtain ⟨verified, verifies, rfl⟩ := Option.map_eq_some_iff.mp opens
    exact ⟨addressed, expanded, expands, by rw [verifies]; rfl⟩

/-! ## The command loop -/

/-- An accepted CONNECT command takes the first free slot. -/
theorem Host.handleConnect_slot {host host' : Host} {fields : Connect} {slot index : Nat}
    (free : host.freePeer = some slot) (accepts : host.handleConnect fields = (host', some index)) :
    index = slot := by
  unfold handleConnect at accepts
  split at accepts
  · cases accepts
  · rw [free] at accepts
    dsimp only at accepts
    split at accepts
    · cases accepts
    · split at accepts
      · cases accepts
      · cases accepts
        rfl

/-- A turn of the loop for a known peer concerns that peer. -/
theorem ActsOn.incomingStep (host : Host) (event : Option Event) (index : Nat)
    (sentTime : Option Nat) (bytes : List UInt8) :
    ActsOn index host (host.incomingStep event (some index) sentTime bytes).1 ∧
      (host.incomingStep event (some index) sentTime bytes).2.2.1 = some index := by
  unfold Host.incomingStep
  cases Protocol.decode bytes with
  | none => exact ⟨.refl index host, rfl⟩
  | some command => exact ⟨.commandStep .., rfl⟩

theorem ActsOn.incomingLoop (index : Nat) (sentTime : Option Nat) (fuel : Nat) :
    ∀ (host : Host) (event : Option Event) (bytes : List UInt8),
      ActsOn index host (host.incomingLoop fuel event (some index) sentTime bytes).1 := by
  induction fuel with
  | zero => intro host event bytes; exact .refl index host
  | succ fuel ih =>
      intro host event bytes
      obtain ⟨acts, same⟩ := ActsOn.incomingStep host event index sentTime bytes
      unfold Host.incomingLoop
      split
      · exact .refl index host
      · split
        next stepped => rw [stepped] at acts; exact acts
        next stepped =>
            rw [stepped] at acts same
            dsimp only at same
            subst same
            exact acts.trans (ih _ _ _)

/-- Nothing changes, or one slot does, and that was free. -/
def Host.TakesOne (host host' : Host) : Prop :=
  host'.peers = host.peers ∨
    ∃ slot, slot < host.peerCount ∧ (host.peers slot).state = .disconnected ∧
      ∀ other, other ≠ slot → host'.peers other = host.peers other

/-- A turn of the loop for no peer yet changes one slot at most, which was free and
is the peer from then on. -/
theorem Host.incomingStep_takesOne (host : Host) (event : Option Event) (sentTime : Option Nat)
    (bytes : List UInt8) :
    host.TakesOne (host.incomingStep event none sentTime bytes).1 ∧
      ∀ rest, (host.incomingStep event none sentTime bytes).2.2.2 = some rest →
        ∃ slot, (host.incomingStep event none sentTime bytes).2.2.1 = some slot ∧
          host.freePeer = some slot ∧
          ActsOn slot host (host.incomingStep event none sentTime bytes).1 := by
  have idle : host.TakesOne host := .inl rfl
  unfold incomingStep
  cases Protocol.decode bytes with
  | none => exact ⟨idle, fun rest goesOn => by cases goesOn⟩
  | some command =>
      dsimp only
      split
      next fields _ =>
          cases free : host.freePeer with
          | none =>
              have refuses : host.handleConnect fields = (host, none) := by
                unfold handleConnect
                rw [free]
                split <;> rfl
              rw [refuses]
              exact ⟨idle, fun rest goesOn => by cases goesOn⟩
          | some slot =>
              have acts := ActsOn.handleConnect fields free
              have takes : ∀ host', ActsOn slot host host' → host.TakesOne host' := by
                intro host' acts
                exact .inr ⟨slot, freePeer_lt free, freePeer_disconnected free, acts.others⟩
              split
              next accepted =>
                  rw [accepted] at acts
                  exact ⟨takes _ acts, fun rest goesOn => by cases goesOn⟩
              next index accepted =>
                  have taken : index = slot := handleConnect_slot free accepted
                  subst taken
                  rw [accepted] at acts
                  have acts := acts.trans
                    (Acknowledges.acknowledgeStage _ index command sentTime).acts
                  exact ⟨takes _ acts, fun rest goesOn => ⟨index, rfl, rfl, acts⟩⟩
      · exact ⟨idle, fun rest goesOn => by cases goesOn⟩

/-- The loop for no peer yet changes one slot at most, and that was free. -/
theorem Host.incomingLoop_takesOne (host : Host) (event : Option Event) (sentTime : Option Nat)
    (fuel : Nat) (bytes : List UInt8) :
    host.TakesOne (host.incomingLoop fuel event none sentTime bytes).1 := by
  cases fuel with
  | zero => exact .inl rfl
  | succ fuel =>
      obtain ⟨takes, binds⟩ := host.incomingStep_takesOne event sentTime bytes
      unfold incomingLoop
      split
      · exact .inl rfl
      · split
        next stepped => rw [stepped] at takes; exact takes
        next after event' peer rest stepped =>
            rw [stepped] at takes binds
            obtain ⟨slot, same, free, acts⟩ := binds rest rfl
            dsimp only at same acts
            subst same
            refine .inr ⟨slot, freePeer_lt free, freePeer_disconnected free, ?_⟩
            exact (acts.trans (ActsOn.incomingLoop slot sentTime fuel _ _ _)).others

/-! ## One datagram -/

/-- **A datagram changes one peer at most**: the peer that it names, and only where
the state, the source address, the session id and the checksum match; or, for the
largest peer id, a slot that was free. -/
theorem handleIncomingCommands_isolated (host : Host) (event : Option Event) :
    let header := HeaderWord.decode (field host.receivedData 0 2)
    let after := (host.handleIncomingCommands event).1
    after.peers = host.peers ∨
      ∃ slot, (∀ other, other ≠ slot → after.peers other = host.peers other) ∧
        (host.Matches header slot ∧
            host.ChecksumMatches (some slot) header host.receivedData ∨
          header.peerID = protocolMaximumPeerID ∧
            host.ChecksumMatches none header host.receivedData ∧
            slot < host.peerCount ∧ (host.peers slot).state = .disconnected) := by
  intro header after
  cases opens : host.openDatagram host.receivedData with
  | none =>
      have same : after = host := by
        simp only [after, Host.handleIncomingCommands, opens]
      exact .inl (by rw [same])
  | some opened =>
      obtain ⟨addressed, checksum⟩ := Host.openDatagram_tests opens
      have loop : after.peers = (Host.incomingLoop opened.bytes.length (host.noteDatagram opened)
          event opened.peer opened.sentTime (opened.bytes.drop opened.headerSize)).1.peers := by
        simp only [after, Host.handleIncomingCommands, opens]
      rw [loop]
      cases named : opened.peer with
      | some index =>
          rw [named] at addressed checksum
          refine .inr ⟨index, fun other different => ?_,
            .inl ⟨Host.matches_of_addressedPeer addressed, checksum⟩⟩
          have notes : ActsOn index host (host.noteDatagram opened) := by
            unfold Host.noteDatagram
            rw [named]
            exact .of_setPeer rfl rfl (.refl _) rfl
          exact (notes.trans (.incomingLoop index _ _ _ _ _)).others other different
      | none =>
          rw [named] at addressed checksum
          have maximum := Host.maximum_of_addressedPeer addressed
          have notes : (host.noteDatagram opened).peers = host.peers ∧
              (host.noteDatagram opened).peerCount = host.peerCount := by
            unfold Host.noteDatagram
            rw [named]
            exact ⟨rfl, rfl⟩
          rcases Host.incomingLoop_takesOne (host.noteDatagram opened) event opened.sentTime
            opened.bytes.length (opened.bytes.drop opened.headerSize) with same | one
          · exact .inl (same.trans notes.1)
          · obtain ⟨slot, within, free, others⟩ := one
            rw [notes.1] at free others
            rw [notes.2] at within
            exact .inr ⟨slot, others, .inr ⟨maximum, checksum, within, free⟩⟩

end Enet
