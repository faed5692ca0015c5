import Enet.Runs.Books

/-!
# The packets of a host

The books of a host are kept by everything the library does: each command that
is made takes a reference, and each one that goes gives its reference up.
-/

set_option autoImplicit false

namespace Enet

open Library Finset

/-! ## One peer of a host -/

namespace Peer

theorem incomingReferences_le (peer : Peer) : peer.incomingReferences ≤ peer.references :=
  Multiset.le_add_left ..

theorem setupOutgoingCommand_references (peer : Peer) (totalQueued : Nat)
    (outgoing : OutgoingCommand) :
    (peer.setupOutgoingCommand totalQueued outgoing).references =
      outgoingPackets [outgoing] + peer.references := by
  have sending := SendingOnly.setupOutgoingCommand peer totalQueued outgoing
  have numbers : ((peer.countOutgoingData outgoing).numberOutgoingCommand outgoing).2.packet =
        outgoing.packet ∧
      ((peer.countOutgoingData outgoing).numberOutgoingCommand outgoing).1.outgoingReferences =
        peer.outgoingReferences := by
    unfold numberOutgoingCommand
    split
    · exact ⟨rfl, rfl⟩
    · split
      · exact ⟨rfl, rfl⟩
      · split
        · exact ⟨rfl, rfl⟩
        · exact ⟨rfl, rfl⟩
  have queues : (peer.setupOutgoingCommand totalQueued outgoing).outgoingReferences =
      outgoingPackets [outgoing] + peer.outgoingReferences := by
    unfold setupOutgoingCommand
    dsimp only
    generalize (peer.countOutgoingData outgoing).numberOutgoingCommand outgoing = numbered
      at numbers ⊢
    obtain ⟨packet, same⟩ := numbers
    have stamped : outgoingPackets [stampOutgoing numbered.2 totalQueued
        numbered.1.outgoingUnsequencedGroup] = outgoingPackets [outgoing] :=
      outgoingPackets_congr packet
    rw [← same]
    unfold enqueueOutgoing
    split
    · unfold outgoingReferences
      dsimp only [setOutgoing]
      rw [outgoingPackets_append, stamped]
      abel
    · unfold outgoingReferences
      dsimp only [setOutgoing]
      rw [outgoingPackets_append, stamped]
      abel
  unfold references
  rw [sending.incomingReferences, queues, add_assoc]

/-- The references of a peer that has the channel, with another channel in its
place and other dispatched commands. -/
theorem incomingReferences_split {peer : Peer} {channelID : Nat}
    (hasChannel : channelID < peer.channelCount) :
    ∃ others : Multiset Nat, peer.incomingReferences = incomingPackets ↑peer.dispatchedCommands +
        (incomingPackets (peer.channels channelID).commands + others) ∧
      ∀ channel dispatchedCommands total, ((peer.setChannel channelID channel).setDispatched
        dispatchedCommands total).incomingReferences = incomingPackets ↑dispatchedCommands +
          (incomingPackets channel.commands + others) := by
  have member : channelID ∈ range peer.channelCount := mem_range.mpr hasChannel
  refine ⟨∑ other ∈ (range peer.channelCount).erase channelID,
    incomingPackets (peer.channels other).commands, ?_, fun channel dispatchedCommands total => ?_⟩
  · unfold incomingReferences
    rw [← add_sum_erase _ _ member]
  · unfold incomingReferences
    dsimp only [setDispatched, setChannel]
    rw [← add_sum_erase _ _ member, Function.update_self]
    congr 2
    refine sum_congr rfl fun other erased => ?_
    rw [Function.update_of_ne (mem_erase.mp erased).1]

end Peer

/-! ## Allocations -/

theorem Heap.createPacket_ledger (heap : Heap) (data : Option (List UInt8)) (dataLength : Nat)
    (flags : PacketFlags) :
    (heap.createPacket data dataLength flags).1.ledger = heap.ledger ∧
      ∀ packet, (heap.createPacket data dataLength flags).2 = some packet →
        heap.nextAddress ≤ packet.address ∧
          packet.address < (heap.createPacket data dataLength flags).1.nextAddress := by
  unfold createPacket
  split
  next allocated => exact ⟨ledger_of_malloc allocated, fun packet made => by cases made⟩
  next first address allocated =>
      obtain ⟨taken, grown⟩ := malloc_some allocated
      split
      · refine ⟨ledger_of_malloc allocated, fun packet made => ?_⟩
        cases made
        have below : address < first.nextAddress := by omega
        exact ⟨taken.ge, below⟩
      · split
        next allocated' =>
            exact ⟨(ledger_of_malloc allocated').trans (ledger_of_malloc allocated),
              fun packet made => by cases made⟩
        next second bytes allocated' =>
            obtain ⟨taken', grown'⟩ := malloc_some allocated'
            refine ⟨(ledger_of_malloc allocated').trans (ledger_of_malloc allocated),
              fun packet made => ?_⟩
            cases made
            have below : address < first.nextAddress := by omega
            exact ⟨taken.ge, Nat.lt_of_lt_of_le below (grows_of_malloc allocated').nextAddress⟩

/-- The packet of a received command is new: it is referred to once where the command
is allocated, and destroyed again where that fails. -/
def Heap.Allocates (heap : Heap) (created : Option Packet) :
    Heap × Option IncomingCommand → Prop
  | (heap', none) => heap'.ledger = heap.ledger ∨
      ∃ packet, created = some packet ∧ heap.nextAddress ≤ packet.address ∧
        packet.address < heap'.nextAddress ∧ heap'.ledger = heap.ledger.destroy packet.address
  | (heap', some incoming) => created = some incoming.packet ∧
      heap.nextAddress ≤ incoming.packet.address ∧
        incoming.packet.address < heap'.nextAddress ∧
          heap'.ledger = heap.ledger.acquire incoming.packet.address

theorem Host.allocateIncoming_ledger (heap : Heap) (command : Protocol)
    (data : Option (List UInt8)) (dataLength : Nat) (flags : PacketFlags) (fragmentCount : Nat) :
    heap.Allocates (heap.createPacket data dataLength flags).2
      (allocateIncoming heap command data dataLength flags fragmentCount) := by
  obtain ⟨same, made⟩ := heap.createPacket_ledger data dataLength flags
  unfold allocateIncoming
  split
  next created =>
      rw [created] at same
      exact .inl same
  next first packet created =>
      rw [created] at same made ⊢
      obtain ⟨new, below⟩ := made packet rfl
      split
      next allocated =>
          have grows := (Heap.grows_of_malloc allocated).nextAddress
          refine .inr ⟨packet, rfl, new, Nat.lt_of_lt_of_le below grows, ?_⟩
          rw [Heap.destroy_ledger, Heap.ledger_of_malloc allocated, same]
      next second address allocated =>
          have grows := (Heap.grows_of_malloc allocated).nextAddress
          have kept := (Heap.ledger_of_malloc allocated).trans same
          dsimp only
          split
          · refine ⟨rfl, new, Nat.lt_of_lt_of_le below grows, ?_⟩
            rw [Heap.acquire_ledger, kept]
          · split
            · refine .inr ⟨packet, rfl, new, Nat.lt_of_lt_of_le below grows, ?_⟩
              rw [Heap.destroy_ledger, Heap.free_ledger, kept]
            · split
              next allocated' =>
                  have grows' := (Heap.grows_of_malloc allocated').nextAddress
                  refine .inr ⟨packet, rfl, new,
                    Nat.lt_of_lt_of_le below (grows.trans grows'), ?_⟩
                  rw [Heap.destroy_ledger, Heap.free_ledger, Heap.ledger_of_malloc allocated', kept]
              next allocated' =>
                  have grows' := (Heap.grows_of_malloc allocated').nextAddress
                  refine ⟨rfl, new, Nat.lt_of_lt_of_le below (grows.trans grows'), ?_⟩
                  rw [Heap.acquire_ledger, Heap.ledger_of_malloc allocated', kept]

/-- **A dispatch releases what it removes.** -/
theorem Heap.Releases.installDispatched (host : Host) {index channelID : Nat}
    {dispatched : Channel.Dispatched} {added : Multiset Nat}
    (hasChannel : channelID < (host.peers index).channelCount)
    (conserved : incomingPackets dispatched.commands =
      added + incomingPackets ((host.peers index).channels channelID).commands) :
    host.heap.Releases (host.installDispatched index channelID dispatched).heap
      (added + (host.peers index).incomingReferences)
      ((host.installDispatched index channelID dispatched).peers index).incomingReferences := by
  obtain ⟨flag, peer⟩ := host.installDispatched_peer index channelID dispatched
  obtain ⟨others, before, after⟩ := Peer.incomingReferences_split hasChannel
  have removes := (foldl_removeIncoming dispatched.removed host.heap).beside
    (incomingPackets ↑((host.peers index).dispatchedCommands ++ dispatched.moved) +
      (incomingPackets dispatched.channel.commands + others))
  rw [zero_add, ← host.installDispatched_heap index channelID dispatched] at removes
  refine removes.congr ?_ ?_
  · rw [before]
    unfold Channel.Dispatched.commands at conserved
    rw [incomingPackets_add, incomingPackets_add] at conserved
    rw [← Multiset.coe_add, incomingPackets_add]
    calc _ = added + incomingPackets ((host.peers index).channels channelID).commands +
          (incomingPackets ↑(host.peers index).dispatchedCommands + others) := by abel
      _ = _ := by
        rw [← conserved]
        abel
  · rw [peer]
    exact after dispatched.channel ((host.peers index).dispatchedCommands ++ dispatched.moved)
      (host.peers index).totalWaitingData

/-! ## One host -/

namespace Host

variable {host host' : Host} {index : Nat}

theorem incomingReferences_le (host : Host) : host.incomingReferences ≤ host.references :=
  sum_le_sum fun index _ => (host.peers index).incomingReferences_le

/-- What is done for one peer changes the references of that peer. -/
theorem references_frame (acts : ActsOn index host host') (inside : index < host.peerCount) :
    ∃ others received : Multiset Nat,
      host.references = (host.peers index).references + others ∧
      host'.references = (host'.peers index).references + others ∧
      host.incomingReferences = (host.peers index).incomingReferences + received ∧
      host'.incomingReferences = (host'.peers index).incomingReferences + received := by
  have member : index ∈ range host.peerCount := mem_range.mpr inside
  have others : ∀ slot ∈ (range host.peerCount).erase index,
      host'.peers slot = host.peers slot :=
    fun slot erased => acts.others slot (mem_erase.mp erased).1
  refine ⟨∑ slot ∈ (range host.peerCount).erase index, (host.peers slot).references,
    ∑ slot ∈ (range host.peerCount).erase index, (host.peers slot).incomingReferences,
    ?_, ?_, ?_, ?_⟩
  · exact (add_sum_erase _ _ member).symm
  · unfold references
    rw [acts.peerCount, ← add_sum_erase _ _ member]
    congr 1
    exact sum_congr rfl fun slot erased => by rw [others slot erased]
  · exact (add_sum_erase _ _ member).symm
  · unfold incomingReferences
    rw [acts.peerCount, ← add_sum_erase _ _ member]
    congr 1
    exact sum_congr rfl fun slot erased => by rw [others slot erased]

/-- A slot past the array is no peer. -/
theorem references_outside (acts : ActsOn index host host') (outside : host.peerCount ≤ index) :
    host'.references = host.references ∧ host'.incomingReferences = host.incomingReferences := by
  have others : ∀ slot ∈ range host.peerCount, host'.peers slot = host.peers slot := by
    intro slot member
    have inside := mem_range.mp member
    exact acts.others slot (by omega)
  refine ⟨?_, ?_⟩
  · unfold references
    rw [acts.peerCount]
    exact sum_congr rfl fun slot member => by rw [others slot member]
  · unfold incomingReferences
    rw [acts.peerCount]
    exact sum_congr rfl fun slot member => by rw [others slot member]

end Host

/-- The books of a host, with the unreliable commands in the datagram of a peer. -/
structure Keeps (rules : Ledger.Rules Nat) (start : Ledger.Books Nat) (begun : Heap) (host : Host)
    (sentUnreliable : List OutgoingCommand) : Prop where
  contained : Contained host
  booked : Booked rules start begun host.heap (host.references + outgoingPackets sentUnreliable)
    host.incomingReferences
  idle : ∀ index, host.peerCount ≤ index → (host.peers index).references = 0

namespace Keeps

variable {rules : Ledger.Rules Nat} {start : Ledger.Books Nat} {begun : Heap} {index : Nat}
  {host host' : Host} {sentUnreliable sentUnreliable' : List OutgoingCommand}

theorem within (host : Host) (sentUnreliable : List OutgoingCommand) :
    host.incomingReferences ≤ host.references + outgoingPackets sentUnreliable :=
  host.incomingReferences_le.trans (Multiset.le_add_right ..)

theorem still_idle (keeps : Keeps rules start begun host sentUnreliable)
    (acts : ActsOn index host host')
    (shrinks : host.peerCount ≤ index →
      (host'.peers index).references ≤ (host.peers index).references) :
    ∀ other, host'.peerCount ≤ other → (host'.peers other).references = 0 := by
  intro other beyond
  rw [acts.peerCount] at beyond
  rcases eq_or_ne other index with same | different
  · rw [same] at beyond ⊢
    have less := shrinks beyond
    rw [keeps.idle index beyond] at less
    exact Multiset.le_zero.mp less
  · rw [acts.others other different]
    exact keeps.idle other beyond

/-- **What is done for a peer that gives references up.** -/
theorem releases (keeps : Keeps rules start begun host sentUnreliable)
    (acts : ActsOn index host host') (contained : Contained host')
    (releases : host.heap.Releases host'.heap
      ((host.peers index).references + outgoingPackets sentUnreliable)
      ((host'.peers index).references + outgoingPackets sentUnreliable'))
    (shrinks : (host'.peers index).references ≤ (host.peers index).references)
    (fewer : (host'.peers index).incomingReferences ≤ (host.peers index).incomingReferences) :
    Keeps rules start begun host' sentUnreliable' := by
  refine ⟨contained, ?_, keeps.still_idle acts fun _ => shrinks⟩
  rcases Nat.lt_or_ge index host.peerCount with inside | outside
  · obtain ⟨others, received, before, after, beforeIn, afterIn⟩ :=
      Host.references_frame acts inside
    refine keeps.booked.releases ((releases.beside others).congr ?_ ?_) acts.mallocs
      ?_ (within host' sentUnreliable')
    · rw [before]
      abel
    · rw [after]
      abel
    · rw [beforeIn, afterIn]
      exact add_le_add_left fewer received
  · obtain ⟨same, sameIn⟩ := Host.references_outside acts outside
    have none : (host.peers index).references = 0 := keeps.idle index outside
    rw [none] at shrinks releases
    rw [Multiset.le_zero.mp shrinks] at releases
    refine keeps.booked.releases ((releases.beside host.references).congr ?_ ?_)
      acts.mallocs sameIn.le (within host' sentUnreliable')
    · abel
    · rw [same]
      abel

/-- What leaves the references of the peer. -/
theorem same (keeps : Keeps rules start begun host sentUnreliable)
    (acts : ActsOn index host host') (contained : Contained host')
    (ledger : host'.heap.ledger = host.heap.ledger)
    (references : (host'.peers index).references = (host.peers index).references)
    (received : (host'.peers index).incomingReferences =
      (host.peers index).incomingReferences) :
    Keeps rules start begun host' sentUnreliable :=
  keeps.releases acts contained (.of_same ledger (by rw [references])) references.le received.le

theorem setPeer (keeps : Keeps rules start begun host sentUnreliable) {peer : Peer}
    (contained : Contained (host.setPeer index peer))
    (references : peer.references = (host.peers index).references)
    (received : peer.incomingReferences = (host.peers index).incomingReferences) :
    Keeps rules start begun (host.setPeer index peer) sentUnreliable := by
  refine keeps.same (.setPeer host index peer) contained rfl ?_ ?_
  · rw [Host.setPeer_self]
    exact references
  · rw [Host.setPeer_self]
    exact received

/-- What changes nothing but the host's own fields, and allocates. -/
theorem of_heap (keeps : Keeps rules start begun host sentUnreliable)
    (peers : host'.peers = host.peers) (peerCount : host'.peerCount = host.peerCount)
    (ledger : host'.heap.ledger = host.heap.ledger)
    (grows : host.heap.Grows host'.heap) :
    Keeps rules start begun host' sentUnreliable := by
  have references : host'.references = host.references := by
    unfold Host.references
    rw [peers, peerCount]
  have received : host'.incomingReferences = host.incomingReferences := by
    unfold Host.incomingReferences
    rw [peers, peerCount]
  refine ⟨⟨?_, ?_⟩, ?_, ?_⟩
  · rw [peers]
    exact keeps.contained.peers
  · rw [peers, peerCount]
    exact keeps.contained.spare
  · exact keeps.booked.same ledger grows (by rw [references]) received (within host _)
  · rw [peers, peerCount]
    exact keeps.idle

theorem quiet (keeps : Keeps rules start begun host sentUnreliable) (quiet : Quiet host host') :
    Keeps rules start begun host' sentUnreliable := by
  have references : host'.references = host.references := by
    unfold Host.references
    rw [quiet.peerCount]
    exact sum_congr rfl fun slot _ => (quiet.peers slot).references
  have received : host'.incomingReferences = host.incomingReferences := by
    unfold Host.incomingReferences
    rw [quiet.peerCount]
    exact sum_congr rfl fun slot _ =>
      (Peer.SendingOnly.of_alike (quiet.peers slot)).incomingReferences
  refine ⟨keeps.contained.quiet quiet, ?_, fun other beyond => ?_⟩
  · exact keeps.booked.same (by rw [quiet.heap]) quiet.mallocs (by rw [references])
      received (within host _)
  · rw [quiet.peerCount] at beyond
    rw [(quiet.peers other).references]
    exact keeps.idle other beyond

/-! ## Received commands -/

/-- The allocations of a received command that fail. -/
theorem unmake (keeps : Keeps rules start begun host sentUnreliable) {heap : Heap}
    {created : Option Packet}
    (may : ∀ packet, created = some packet → rules.discards packet.address)
    (grows : host.heap.Grows heap) (allocates : host.heap.Allocates created (heap, none)) :
    Keeps rules start begun (host.setHeap heap) sentUnreliable := by
  rcases allocates with same | ⟨packet, made, new, below, same⟩
  · exact keeps.of_heap rfl rfl same grows
  · exact ⟨⟨keeps.contained.peers, keeps.contained.spare⟩,
      keeps.booked.unmake (may packet made) grows new below same, keeps.idle⟩

end Keeps

end Enet
