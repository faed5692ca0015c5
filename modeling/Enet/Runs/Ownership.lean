import Enet.Runs.PacketCounts

/-!
# The packets of the application

The application sends packets that it has: they are allocated and not destroyed,
and the host does not hold them as received. A call for a packet takes one
reference for each command that it makes, and the packet that the application
receives has no reference left.
-/

set_option autoImplicit false

namespace Enet

open Library Finset Relation

/-! ## Sending a packet -/

namespace Host

theorem freeFragments_ledger (fragments : List OutgoingCommand) : ∀ heap : Heap,
    (freeFragments heap fragments).ledger = heap.ledger := by
  induction fragments with
  | nil => intro heap; rfl
  | cons fragment rest ih => intro heap; exact ih (heap.free fragment.address)

/-- The loop that makes the fragments takes no reference. -/
theorem makeFragments_ledger (packet : Packet) (make : Nat → Nat → Nat → Nat → OutgoingCommand)
    (fuel : Nat) : ∀ (heap : Heap) (length number offset : Nat) (fragments : List OutgoingCommand),
    (makeFragments packet make fuel heap length number offset fragments).1.ledger =
      heap.ledger := by
  induction fuel with
  | zero => intro heap length number offset fragments; exact freeFragments_ledger fragments heap
  | succ fuel ih =>
      intro heap length number offset fragments
      unfold makeFragments
      split
      · dsimp only
        split
        next allocated =>
            exact (freeFragments_ledger fragments _).trans (Heap.ledger_of_malloc allocated)
        next allocated => exact (ih ..).trans (Heap.ledger_of_malloc allocated)
      · rfl

/-- Every fragment refers to the packet. -/
theorem makeFragments_packets {packet : Packet} {make : Nat → Nat → Nat → Nat → OutgoingCommand}
    (carries : ∀ address number offset length,
      (make address number offset length).packet = some packet) {fuel : Nat} {heap' : Heap}
    {made : List OutgoingCommand} : ∀ {heap : Heap} {length number offset : Nat}
      {fragments : List OutgoingCommand},
      (∀ fragment ∈ fragments, fragment.packet = some packet) →
      makeFragments packet make fuel heap length number offset fragments = (heap', some made) →
      ∀ fragment ∈ made, fragment.packet = some packet := by
  induction fuel with
  | zero => intro heap length number offset fragments before makes; cases makes
  | succ fuel ih =>
      intro heap length number offset fragments before makes
      unfold makeFragments at makes
      split at makes
      · dsimp only at makes
        split at makes
        · cases makes
        · refine ih ?_ makes
          intro fragment member
          rcases List.mem_append.mp member with old | new
          · exact before fragment old
          · rw [List.mem_singleton.mp new]
            exact carries ..
      · cases makes
        exact before

end Host

theorem outgoingPackets_of_packet {packet : Packet} {commands : List OutgoingCommand}
    (carry : ∀ outgoing ∈ commands, outgoing.packet = some packet) :
    outgoingPackets commands = Multiset.replicate commands.length packet.address := by
  induction commands with
  | nil => rfl
  | cons outgoing rest ih =>
      have first : outgoingPackets [outgoing] = {packet.address} := by
        unfold outgoingPackets
        rw [List.filterMap_cons, carry outgoing List.mem_cons_self]
        rfl
      rw [outgoingPackets_cons, first, ih fun other member => carry other
        (List.mem_cons_of_mem _ member), List.length_cons, Multiset.replicate_succ,
        Multiset.singleton_add]

namespace Host

theorem foldl_setupOutgoingCommand_references (index : Nat) (fragments : List OutgoingCommand) :
    ∀ host : Host,
      (fragments.foldl (fun host fragment => host.setupOutgoingCommand index fragment) host).heap =
          host.heap ∧
        ((fragments.foldl (fun host fragment => host.setupOutgoingCommand index fragment)
          host).peers index).references =
          outgoingPackets fragments + (host.peers index).references := by
  induction fragments with
  | nil => intro host; exact ⟨rfl, (zero_add _).symm⟩
  | cons fragment rest ih =>
      intro host
      obtain ⟨heap, references⟩ := ih (host.setupOutgoingCommand index fragment)
      refine ⟨heap, references.trans ?_⟩
      unfold setupOutgoingCommand
      rw [setPeer_self, Peer.setupOutgoingCommand_references, outgoingPackets_cons fragment rest]
      abel

/-- One reference to the packet for each of the commands at these addresses. -/
def TakesReferences (index : Nat) (packet : Packet) (host host' : Host) : Prop :=
  ∃ holders : List Nat,
    host'.heap.ledger =
        holders.foldl (fun ledger _ => ledger.acquire packet.address) host.heap.ledger ∧
      (host'.peers index).references =
        Multiset.replicate holders.length packet.address + (host.peers index).references

theorem TakesReferences.none {host host' : Host} {index : Nat} {packet : Packet}
    (ledger : host'.heap.ledger = host.heap.ledger) (peers : host'.peers = host.peers) :
    TakesReferences index packet host host' :=
  ⟨[], ledger, by rw [peers]; exact (zero_add _).symm⟩

theorem sendFragments_takes (host : Host) (index channelID : Nat) (packet : Packet) :
    TakesReferences index packet host (host.sendFragments index channelID packet).1 := by
  have ledger := makeFragments_ledger packet
    (makeFragment ((host.peers index).channels channelID) channelID packet
      (u32 ((packet.dataLength + host.fragmentLength index - 1) / host.fragmentLength index)))
    (packet.dataLength + 1) host.heap (host.fragmentLength index) 0 0 []
  unfold sendFragments
  dsimp only
  split
  · exact .none rfl rfl
  · split
    next heap made =>
        rw [made] at ledger
        exact .none ledger rfl
    next heap fragments made =>
        rw [made] at ledger
        have carry := makeFragments_packets (fun _ _ _ _ => rfl) (by simp) made
        obtain ⟨same, references⟩ := foldl_setupOutgoingCommand_references index fragments
          (host.setHeap (fragments.foldl (fun heap _ => heap.acquire packet) heap))
        refine ⟨fragments.map OutgoingCommand.address, ?_, ?_⟩
        · dsimp only at ledger ⊢
          rw [same, ← ledger, List.foldl_map]
          exact (List.foldl_hom Heap.ledger fun heap fragment =>
            (heap.acquire_ledger packet).symm).symm
        · rw [List.length_map, ← outgoingPackets_of_packet carry]
          exact references

/-- **A packet is referred to once by each command that is made for it.** -/
theorem peerSend_takes (host : Host) (index channelID : Nat) (packet : Packet) :
    TakesReferences index packet host (host.peerSend index channelID packet).1 := by
  unfold peerSend
  dsimp only
  split
  · exact .none rfl rfl
  · split
    · exact sendFragments_takes ..
    · have queues : TakesReferences index packet host (host.queueOutgoingCommand index
          (sendCommand ((host.peers index).channels channelID) channelID packet) (some packet) 0
            packet.dataLength).1 := by
        unfold queueOutgoingCommand
        split
        next allocated => exact .none (Heap.ledger_of_malloc allocated) rfl
        next heap address allocated =>
            refine ⟨[address], ?_, ?_⟩
            · exact congrArg (fun ledger => ledger.acquire packet.address)
                (Heap.ledger_of_malloc allocated)
            · unfold setupOutgoingCommand
              rw [setPeer_self, Peer.setupOutgoingCommand_references]
              rfl
      split
      next queued => rw [queued] at queues; exact queues
      next queued => rw [queued] at queues; exact queues

/-- **A packet that is received leaves the references of its peer.** -/
theorem peerReceive_takes {host : Host} {index channelID : Nat} {packet : Packet}
    (takes : (host.peerReceive index).2 = some (packet, channelID)) :
    (host.peerReceive index).1.heap.ledger = host.heap.ledger.drop packet.address ∧
      (host.peers index).references =
        packet.address ::ₘ ((host.peerReceive index).1.peers index).references ∧
      (host.peers index).incomingReferences =
        packet.address ::ₘ ((host.peerReceive index).1.peers index).incomingReferences := by
  unfold peerReceive at takes ⊢
  dsimp only at takes ⊢
  split at takes
  · cases takes
  next command rest dispatched =>
      cases takes
      have less : (host.peers index).incomingReferences = command.packet.address ::ₘ
          ((host.peers index).setDispatched rest (sub64 (host.peers index).totalWaitingData
            command.packet.dataLength)).incomingReferences := by
        unfold Peer.incomingReferences
        rw [dispatched, ← Multiset.cons_coe, ← Multiset.cons_add]
        exact congrArg (· + _) (Multiset.map_cons ..)
      rw [setPeer_self]
      refine ⟨rfl, ?_, less⟩
      unfold Peer.references
      rw [less, Multiset.add_cons]
      rfl

/-- A packet that the application has. -/
structure Owns (host : Host) (packet : Packet) : Prop where
  allocated : packet.address < host.heap.nextAddress
  alive : packet.address ∉ host.heap.destroyed
  own : packet.address ∉ host.incomingReferences

/-- What is sent stays with the application. -/
theorem Owns.peerSend {host : Host} {packet : Packet} (owns : host.Owns packet)
    (index channelID : Nat) : (host.peerSend index channelID packet).1.Owns packet := by
  have acts := ActsOn.peerSend host index channelID packet
  have sends := SendsFor.peerSend host index channelID packet
  obtain ⟨holders, ledger, -⟩ := host.peerSend_takes index channelID packet
  refine ⟨Nat.lt_of_lt_of_le owns.allocated acts.mallocs.nextAddress, ?_, ?_⟩
  · rw [show (host.peerSend index channelID packet).1.heap.destroyed = host.heap.destroyed from
      (congrArg Ledger.destroyed ledger).trans (Ledger.foldl_acquire_destroyed ..)]
    exact owns.alive
  · have same : (host.peerSend index channelID packet).1.incomingReferences =
        host.incomingReferences := by
      unfold incomingReferences
      rw [acts.peerCount]
      refine sum_congr rfl fun slot _ => ?_
      rcases eq_or_ne slot index with equal | different
      · rw [equal]
        exact sends.peer.incomingReferences
      · rw [acts.others slot different]
    rw [same]
    exact owns.own

end Host

namespace Keeps

variable {rules rules' : Ledger.Rules Nat} {start : Ledger.Books Nat} {begun : Heap} {host : Host}

/-- **A packet of the application is sent.** -/
theorem peerSend (keeps : Keeps rules start begun host []) {packet : Packet}
    (owns : host.Owns packet) (may : rules.acquires packet.address)
    (ungiven : ¬rules.hands packet.address) (index channelID : Nat) :
    Keeps rules start begun (host.peerSend index channelID packet).1 [] := by
  have sends := SendsFor.peerSend host index channelID packet
  have contained := keeps.contained.sendsFor sends
  have acts := sends.acts
  obtain ⟨holders, ledger, references⟩ := host.peerSend_takes index channelID packet
  by_cases connected : (host.peers index).state = .connected
  · have inside := keeps.contained.inside (by rw [connected]; decide)
    obtain ⟨others, received, held, held', heldIn, heldIn'⟩ :=
      Host.references_frame acts inside
    refine ⟨contained, ?_, keeps.still_idle acts fun outside => absurd inside
      (Nat.not_lt_of_le outside)⟩
    have booked := keeps.booked.take may owns.allocated owns.alive owns.own ungiven holders
      acts.mallocs ledger
    rw [sends.peer.incomingReferences, ← heldIn] at heldIn'
    rw [heldIn', held', references, add_assoc (Multiset.replicate ..), ← held, add_assoc]
    exact booked
  · have unsent : (host.peerSend index channelID packet).1 = host := by
      unfold Host.peerSend
      dsimp only
      rw [if_pos (.inl connected)]
    rw [unsent]
    exact keeps

/-- **A packet that the application receives.** -/
theorem peerReceive (keeps : Keeps rules start begun host []) {index channelID : Nat}
    {packet : Packet} (takes : (host.peerReceive index).2 = some (packet, channelID))
    (none : ∀ other, ¬rules.hands other)
    (hands : ∀ other, rules'.hands other ↔ other = packet.address)
    (acquires : rules'.acquires = rules.acquires) (discards : rules'.discards = rules.discards) :
    Keeps rules' start begun (host.peerReceive index).1 [] := by
  have acts := ActsOn.peerReceive host index
  obtain ⟨ledger, less, lessIn⟩ := Host.peerReceive_takes takes
  have inside : index < host.peerCount := by
    by_contra outside
    rw [keeps.idle index (Nat.le_of_not_lt outside)] at less
    exact Multiset.cons_ne_zero less.symm
  obtain ⟨others, received, held, held', heldIn, heldIn'⟩ := Host.references_frame acts inside
  have booked := keeps.booked
  rw [heldIn, lessIn, Multiset.cons_add, ← heldIn', held, less, Multiset.cons_add, ← held',
    Multiset.cons_add] at booked
  exact ⟨keeps.contained.peerReceive index,
    booked.handOver none hands acquires discards acts.mallocs ledger (within _ _),
    keeps.still_idle acts fun outside => absurd inside (Nat.not_lt_of_le outside)⟩

end Keeps

end Enet
