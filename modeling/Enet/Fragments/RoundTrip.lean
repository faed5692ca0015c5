import Enet.Fragments.Assembly
import Enet.Library.Counting
import Enet.Runs.Ranges

/-!
# The round trip of a packet in fragments

A packet that `enet_peer_send` cuts is put together again by the receiver, in
whatever order its fragments arrive and however often.
-/

set_option autoImplicit false

namespace Enet

open Library

/-- Whatever calls a host has answered, it sends within the ranges. -/
theorem Host.sendsOn_of_reachable {host : Host} {index channelID : Nat} {packet : Packet}
    (reachable : Host.Reachable host) (accepted : (host.peerSend index channelID packet).2 = 0) :
    host.SendsOn index channelID := by
  obtain ⟨channelCount, mtu, typed⟩ := Ranged.reachable reachable index
  have connected : (host.peers index).state = .connected := by
    by_contra other
    unfold peerSend at accepted
    rw [if_pos (.inl other)] at accepted
    cases accepted
  refine ⟨mtu ?_, channelCount, (typed channelID).reliable, (typed channelID).unreliable⟩
  rw [connected]
  rfl

/-! ## Deliveries -/

/-- A channel that is positioned just before a cut packet, and holds nothing. -/
structure Cut.Positioned (cut : Cut) (channel : Channel) : Prop where
  reliableNumber : channel.incomingReliableSequenceNumber = cut.reliableSequenceNumber
  unreliableNumber : cut.reliable = false →
    channel.incomingUnreliableSequenceNumber = cut.unreliableSequenceNumber
  empty : ∀ reliable, channel.incomingCommands reliable = []

/-- A receiver after some of the fragments have arrived, in any order and any
number of times. Between two of them everything may happen that leaves the
receiving side of the channel alone. -/
inductive Deliveries (cut : Cut) (fragments : List OutgoingCommand) (index : Nat) :
    Finset Nat → Host → Prop where
  | start {host : Host}
      (positioned : cut.Positioned ((host.peers index).channels cut.channelID)) :
      Deliveries cut fragments index ∅ host
  | between {arrived : Finset Nat} {host host' : Host}
      (before : Deliveries cut fragments index arrived host)
      (same : ((host.peers index).channels cut.channelID).SameIncoming
        ((host'.peers index).channels cut.channelID)) :
      Deliveries cut fragments index arrived host'
  | fragment {arrived : Finset Nat} {host : Host} {number : Nat} {fragment : OutgoingCommand}
      (before : Deliveries cut fragments index arrived host)
      (ready : Ready cut arrived host index) (listed : fragments[number]? = some fragment)
      (event : Option Event) (behind : List UInt8) :
      Deliveries cut fragments index (insert number arrived)
        (host.handleCommand event index fragment.command
          ((OutgoingScan.payload fragment).getD [] ++ behind)).1

theorem Assembles.sameIncoming {cut : Cut} {arrived : Finset Nat} {channel channel' : Channel}
    (assembles : Assembles cut arrived channel) (same : channel.SameIncoming channel') :
    Assembles cut arrived channel' := by
  have lists : ∀ reliable, channel'.incomingCommands reliable =
      channel.incomingCommands reliable := by
    intro reliable
    cases reliable with
    | true => exact same.incomingReliableCommands
    | false => exact same.incomingUnreliableCommands
  obtain ⟨reliableNumber, unreliableNumber, others, own⟩ := assembles
  refine ⟨?_, fun unreliable => ?_, ?_, ?_⟩
  · rw [same.incomingReliableSequenceNumber]
    exact reliableNumber
  · rw [same.incomingUnreliableSequenceNumber]
    exact unreliableNumber unreliable
  · rw [lists]
    exact others
  · rw [lists]
    exact own

namespace Cut

variable {cut : Cut} {fragments : List OutgoingCommand}

/-- A fragment has its place in the queue. -/
theorem isFragment_of_listed
    (all : List.Forall₂ cut.IsFragment (List.range cut.fragmentCount) fragments) {number : Nat}
    {fragment : OutgoingCommand} (listed : fragments[number]? = some fragment) :
    number < cut.fragmentCount ∧ cut.IsFragment number fragment := by
  obtain ⟨length, each⟩ := List.forall₂_iff_get.mp all
  rw [List.length_range] at length
  obtain ⟨within, rfl⟩ := List.getElem?_eq_some_iff.mp listed
  have inside : number < cut.fragmentCount := by omega
  have isFragment := each number (by rw [List.length_range]; exact inside) within
  rw [List.get_eq_getElem, List.getElem_range] at isFragment
  exact ⟨inside, isFragment⟩

/-- **The payloads of the fragments make up the packet.** -/
theorem flatMap_payload
    (all : List.Forall₂ cut.IsFragment (List.range cut.fragmentCount) fragments) :
    fragments.flatMap (fun fragment => (OutgoingScan.payload fragment).getD []) =
      cut.packet.data := by
  have same : fragments.flatMap (fun fragment => (OutgoingScan.payload fragment).getD []) =
      (List.range cut.fragmentCount).flatMap (pieceOf cut.packet.data cut.fragmentLength) := by
    generalize List.range cut.fragmentCount = numbers at all
    induction all with
    | nil => rfl
    | cons isFragment _ ih =>
        rw [List.flatMap_cons, List.flatMap_cons, ih, isFragment.payload]
        rfl
  rw [same]
  exact flatMap_pieces cut.packet.data cut.positive

end Cut

namespace Deliveries

variable {cut : Cut} {fragments : List OutgoingCommand} {index : Nat} {arrived : Finset Nat}
  {host : Host}

/-- What a delivered fragment does, where the packet was incomplete. -/
theorem follows (all : List.Forall₂ cut.IsFragment (List.range cut.fragmentCount) fragments)
    (assembles : Assembles cut arrived ((host.peers index).channels cut.channelID))
    (ready : Ready cut arrived host index) (missing : arrived.card < cut.fragmentCount)
    {number : Nat} {fragment : OutgoingCommand} (listed : fragments[number]? = some fragment)
    (event : Option Event) (behind : List UInt8) :
    Follows cut index (insert number arrived) host
      (host.handleCommand event index fragment.command
        ((OutgoingScan.payload fragment).getD [] ++ behind)).1 := by
  obtain ⟨inside, isFragment⟩ := Cut.isFragment_of_listed all listed
  rw [isFragment.command, isFragment.payload]
  exact Host.handleCommand_follows assembles ready event inside missing behind

/-- **While a fragment is missing, the channel holds those that arrived.** -/
theorem assembles (all : List.Forall₂ cut.IsFragment (List.range cut.fragmentCount) fragments)
    (deliveries : Deliveries cut fragments index arrived host)
    (missing : arrived.card < cut.fragmentCount) :
    Assembles cut arrived ((host.peers index).channels cut.channelID) := by
  induction deliveries with
  | start positioned =>
      exact ⟨positioned.reliableNumber, positioned.unreliableNumber, positioned.empty _,
        .inl ⟨positioned.empty _, rfl⟩⟩
  | between before same ih => exact (ih missing).sameIncoming same
  | @fragment arrived host number fragment before ready listed event behind ih =>
      have fewer := Finset.card_le_card (Finset.subset_insert number arrived)
      have holds := ih (by omega)
      have follows := follows all holds ready (by omega) listed event behind
      unfold Follows at follows
      rw [if_neg (by omega)] at follows
      exact follows.1

/-- Only numbers of fragments arrive. -/
theorem within (all : List.Forall₂ cut.IsFragment (List.range cut.fragmentCount) fragments)
    (deliveries : Deliveries cut fragments index arrived host) :
    arrived ⊆ Finset.range cut.fragmentCount := by
  induction deliveries with
  | start positioned => exact Finset.empty_subset _
  | between before same ih => exact ih
  | fragment before ready listed event behind ih =>
      obtain ⟨inside, -⟩ := Cut.isFragment_of_listed all listed
      exact Finset.insert_subset (Finset.mem_range.mpr inside) ih

end Deliveries

/-! ## The round trip -/

/-- **What is cut is put together again.** A packet that is longer than one
fragment and accepted by `enet_peer_send` is queued as fragments that make it up
and pass every test of a receiver that takes packets of its length. However they
are delivered to a channel positioned before the packet: a fragment that leaves
another one missing has nothing dispatched, and the one that was the last one
missing has exactly the packet dispatched, behind which the channel goes on. -/
theorem peerSend_roundTrip {sender : Host} {index channelID : Nat} {packet : Packet}
    (reachable : Host.Reachable sender)
    (long : sender.fragmentLength index < packet.dataLength)
    (accepted : (sender.peerSend index channelID packet).2 = 0) :
    ∃ cut fragments, sender.Cuts index channelID packet cut ∧
      ((sender.peerSend index channelID packet).1.peers index).outgoingQueue cut.reliable =
        (sender.peers index).outgoingQueue cut.reliable ++ fragments ∧
      List.Forall₂ cut.IsFragment (List.range cut.fragmentCount) fragments ∧
      fragments.flatMap (fun fragment => (OutgoingScan.payload fragment).getD []) =
        packet.data ∧
      (∀ number < cut.fragmentCount, ∀ maximumPacketSize, packet.dataLength ≤ maximumPacketSize →
        (cut.fields number).Valid maximumPacketSize) ∧
      ∀ (slot : Nat) (arrived : Finset Nat) (receiver : Host),
        Deliveries cut fragments slot arrived receiver →
        (∃ other < cut.fragmentCount, other ∉ arrived) → Ready cut arrived receiver slot →
        ∀ (number : Nat) (fragment : OutgoingCommand) (event : Option Event)
          (behind : List UInt8), fragments[number]? = some fragment →
          ((∃ other < cut.fragmentCount, other ∉ insert number arrived) →
            ((receiver.handleCommand event slot fragment.command
              ((OutgoingScan.payload fragment).getD [] ++ behind)).1.peers
                slot).dispatchedCommands = (receiver.peers slot).dispatchedCommands) ∧
          ((∀ other < cut.fragmentCount, other ∈ insert number arrived) →
            Delivers cut slot receiver
              (receiver.handleCommand event slot fragment.command
                ((OutgoingScan.payload fragment).getD [] ++ behind)).1) := by
  obtain ⟨cut, cuts, fragments, all, queued⟩ :=
    Host.peerSend_cut (Host.sendsOn_of_reachable reachable accepted) long accepted
  have packetOf := cuts.samePacket
  refine ⟨cut, fragments, cuts, queued, all, ?_, ?_, ?_⟩
  · rw [Cut.flatMap_payload all, packetOf]
  · intro number inside maximumPacketSize room
    exact cut.fields_valid inside (packetOf ▸ room)
  · intro slot arrived receiver deliveries missing ready number fragment event behind listed
    have within := deliveries.within all
    have incomplete := (card_lt_iff_exists_notMem within).mpr missing
    have assembles := deliveries.assembles all incomplete
    have follows := Deliveries.follows all assembles ready incomplete listed event behind
    have inserted := (deliveries.fragment ready listed event behind).within all
    have bound := Finset.card_le_card inserted
    rw [Finset.card_range] at bound
    unfold Follows at follows
    refine ⟨fun more => ?_, fun full => ?_⟩
    · have fewer := (card_lt_iff_exists_notMem inserted).mpr more
      rw [if_neg (by omega)] at follows
      exact follows.2
    · have complete : ¬(insert number arrived).card < cut.fragmentCount := by
        rw [card_lt_iff_exists_notMem inserted]
        rintro ⟨other, inside, absent⟩
        exact absent (full other inside)
      rw [if_pos (by omega)] at follows
      exact follows

/-- A reliable packet one byte longer than a fragment. -/
def longerPacket : Packet := ⟨1000, ⟨true, false, false, false⟩, List.replicate 1365 7⟩

/-- A packet of two fragments, of which the second arrives first. -/
theorem peerSend_roundTrip_two :
    ∃ (host : Host) (cut : Cut) (fragments : List OutgoingCommand) (last : OutgoingCommand),
      servedHost connectDatagrams 2 = some host ∧ host.Cuts 0 0 longerPacket cut ∧
      fragments[1]? = some last ∧
      cut.IsFragment 1 last ∧
      ((host.handleCommand none 0 last.command
        ((OutgoingScan.payload last).getD [])).1.peers 0).dispatchedCommands =
          (host.peers 0).dispatchedCommands := by
  have evaluated : (servedHost connectDatagrams 2).map (fun host =>
      ((host.peers 0).state, (host.peers 0).channelCount, (host.peers 0).totalWaitingData,
        host.fragmentLength 0, (host.peerSend 0 0 longerPacket).2)) =
      some (.connected, 1, 0, 1364, 0) := by
    decide +kernel
  have channels : (servedHost connectDatagrams 2).map (fun host =>
      ((host.peers 0).channels 0, host.heap.mallocSucceeds, host.maximumPacketSize,
        host.maximumWaitingData)) =
      some (Channel.empty, fun _ => true, 33554432, 33554432) := rfl
  obtain ⟨host, served, values⟩ := Option.map_eq_some_iff.mp evaluated
  rw [served, Option.map_some, Option.some.injEq] at channels
  simp only [Prod.mk.injEq] at values channels
  obtain ⟨state, channelCount, waiting, length, accepted⟩ := values
  obtain ⟨channel, memory, packetSize, waitingSize⟩ := channels
  have size : longerPacket.dataLength = 1365 := List.length_replicate
  obtain ⟨cut, fragments, cuts, -, all, -, -, delivers⟩ :=
    peerSend_roundTrip (servedHost_reachable served) (by rw [length, size]; decide) accepted
  have count : cut.fragmentCount = 2 := by
    rw [Cut.fragmentCount, cuts.samePacket, cuts.fragmentLength, length, size]
    rfl
  have second : 1 < fragments.length := by
    rw [← all.length_eq, List.length_range, count]
    decide
  have listed : fragments[1]? = some fragments[1] := List.getElem?_eq_getElem second
  have channelID := cuts.sameChannel
  have positioned : cut.Positioned ((host.peers 0).channels cut.channelID) := by
    have reliableNumber := cuts.reliableSequenceNumber
    have unreliableNumber := cuts.unreliableSequenceNumber
    rw [channelID, channel]
    rw [channel] at reliableNumber unreliableNumber
    refine ⟨reliableNumber.symm, fun _ => unreliableNumber.symm, fun reliable => ?_⟩
    cases reliable <;> rfl
  have ready : Ready cut ∅ host 0 :=
    { connected := state
      hasChannel := by rw [channelID, channelCount]; decide
      maximumPacketSize := by rw [cuts.samePacket, size, packetSize]; decide
      waiting := fun _ => by rw [waiting, waitingSize]; decide
      memory := fun _ => by rw [memory] }
  have arrives := (delivers 0 ∅ host (.start positioned) ⟨0, by omega, Finset.notMem_empty 0⟩ ready
    1 fragments[1] none [] listed).1 ⟨0, by omega, by decide⟩
  rw [List.append_nil] at arrives
  exact ⟨host, cut, fragments, fragments[1], served, cuts, listed,
    (Cut.isFragment_of_listed all listed).2, arrives⟩

end Enet
