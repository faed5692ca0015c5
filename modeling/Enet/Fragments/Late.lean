import Enet.Fragments.RoundTrip

/-!
# Fragments that arrive late

A further copy of a fragment whose packet was delivered long ago. Its handler
decides by the number of the first fragment of the packet whether it is old,
and that number may be many windows behind the fragment's own.
-/

set_option autoImplicit false

namespace Enet

open Library

/-- An old start number that the window test of a channel recognises, with both
numbers counted on past 16 bits. -/
def Recognised (start position : Nat) : Prop :=
  (position / peerReliableWindowSize - start / peerReliableWindowSize) % 16 < 10 ∧
    ((position / peerReliableWindowSize - start / peerReliableWindowSize) % 16 = 0 →
      u16 start ≤ u16 position)

/-- What is not recognised is in the window, and not the current number. -/
theorem not_recognised_iff {start position : Nat} (behind : start ≤ position) :
    ¬Recognised start position ↔
      Channel.inWindow (u16 position) (u16 start) = true ∧ u16 start ≠ u16 position := by
  rw [Channel.inWindow_old behind]
  unfold Recognised
  simp only [u16, peerReliableWindowSize]
  omega

/-- A packet of three windows or less is recognised as far as a command can lag. -/
theorem recognised_of_short {start number position : Nat} (first : start ≤ number)
    (short : number / peerReliableWindowSize ≤ start / peerReliableWindowSize + 3)
    (later : number ≤ position)
    (near : position / peerReliableWindowSize ≤ number / peerReliableWindowSize + 6) :
    Recognised start position := by
  unfold Recognised
  simp only [u16, peerReliableWindowSize] at *
  omega

namespace Host

variable {host : Host} {index : Nat} {cut : Cut} {number : Nat}

/-- A fragment of a packet whose start number is outside the windows changes nothing. -/
theorem handleCommand_outside (reliable : cut.reliable = true)
    (outside : Channel.inWindow
      ((host.peers index).channels cut.channelID).incomingReliableSequenceNumber
      cut.startSequenceNumber = false) (event : Option Event) (data : List UInt8) :
    (host.handleCommand event index (cut.command number) data).1 = host := by
  have kind : (cut.command number).command = .sendFragment (cut.fields number) := if_pos reliable
  have window : Channel.inWindow
      ((host.peers index).channels (cut.command number).channelID).incomingReliableSequenceNumber
      (cut.fields number).startSequenceNumber = false := outside
  unfold handleCommand
  rw [kind]
  dsimp only
  unfold handleSendFragment
  split
  · rfl
  · dsimp only
    rw [window]
    rfl

/-- A fragment's command that has no place is rejected. -/
theorem queueIncomingCommand_discard {command : Protocol} {dataLength fragmentCount : Nat}
    {flags : PacketFlags} (positive : 0 < fragmentCount)
    (discarded : ((host.peers index).channels command.channelID).place command = .discard) :
    host.queueIncomingCommand index command none dataLength flags fragmentCount =
      (host, .rejected) := by
  unfold queueIncomingCommand
  dsimp only
  rw [if_pos positive, discarded]
  split <;> rfl

/-- Nor does one whose start number is the current one, unless a command waits
under that number. -/
theorem handleCommand_current (reliable : cut.reliable = true)
    (current : ((host.peers index).channels cut.channelID).incomingReliableSequenceNumber =
      cut.startSequenceNumber)
    (alone : ∀ incoming ∈ ((host.peers index).channels cut.channelID).incomingReliableCommands,
      incoming.reliableSequenceNumber ≠ cut.startSequenceNumber)
    (inside : number < cut.fragmentCount) (event : Option Event) (data : List UInt8) :
    (host.handleCommand event index (cut.command number) data).1 = host := by
  have kind : (cut.command number).command = .sendFragment (cut.fields number) := if_pos reliable
  have discarded : ((host.peers index).channels cut.channelID).placeReliable
      cut.startSequenceNumber = .discard := by
    unfold Channel.placeReliable
    split
    · rfl
    · rw [if_pos current.symm]
  have positive : 0 < (cut.fields number).fragmentCount := Nat.zero_lt_of_lt inside
  unfold handleCommand
  rw [kind]
  dsimp only
  unfold handleSendFragment
  split
  · rfl
  · dsimp only
    split
    · rfl
    · split
      · rfl
      · split
        next incoming found =>
            obtain ⟨member, equal⟩ := Channel.search_found found
            exact absurd (Channel.eq_of_compareReliable equal) (alone incoming member)
        · have rejected : ∀ (flags : PacketFlags) (total : Nat), host.queueIncomingCommand index
              ⟨(cut.command number).command, (cut.command number).acknowledge,
                (cut.command number).unsequenced, (cut.command number).channelID,
                (cut.fields number).startSequenceNumber⟩ none total flags
              (cut.fields number).fragmentCount = (host, .rejected) := by
            intro flags total
            refine queueIncomingCommand_discard positive ?_
            unfold Channel.place
            dsimp only
            rw [kind]
            exact discarded
          rw [rejected]

/-- A queued command was allocated. -/
theorem queueIncomingCommand_allocates {host' : Host} {command : Protocol}
    {data : Option (List UInt8)} {dataLength fragmentCount address : Nat} {flags : PacketFlags}
    (queued : host.queueIncomingCommand index command data dataLength flags fragmentCount =
      (host', .command address)) : host.heap.nextAddress < host'.heap.nextAddress := by
  unfold queueIncomingCommand at queued
  dsimp only at queued
  split at queued
  · split at queued <;> cases queued
  · split at queued
    · split at queued <;> cases queued
    · split at queued
      · cases queued
      · split at queued
        · cases queued
        next heap incoming allocated =>
          have spec := allocateIncoming_spec allocated
          have fresh := spec.fresh
          have below := spec.below
          rw [Prod.mk.injEq] at queued
          obtain ⟨same, -⟩ := queued
          have grows := (ActsOn.installDispatched ((host.setHeap heap).setPeer index
            ((host.peers index).setDispatched (host.peers index).dispatchedCommands
              ((host.peers index).totalWaitingData + incoming.packet.dataLength))) index
            command.channelID (((host.peers index).channels command.channelID).insertIncoming
              incoming (((host.peers index).channels command.channelID).place
                command))).mallocs.nextAddress
          rw [same] at grows
          exact Nat.lt_of_lt_of_le (Nat.lt_of_le_of_lt fresh below) grows

/-- **An old fragment is taken for one of a new packet** where the window test lets
its start number through: a packet is allocated for it. -/
theorem handleCommand_taken (reliable : cut.reliable = true)
    (window : Channel.inWindow
      ((host.peers index).channels cut.channelID).incomingReliableSequenceNumber
      cut.startSequenceNumber = true)
    (other : ((host.peers index).channels cut.channelID).incomingReliableSequenceNumber ≠
      cut.startSequenceNumber)
    (alone : ∀ incoming ∈ ((host.peers index).channels cut.channelID).incomingReliableCommands,
      incoming.reliableSequenceNumber ≠ cut.startSequenceNumber)
    (ready : Ready cut ∅ host index) (inside : number < cut.fragmentCount)
    (event : Option Event) (behind : List UInt8) :
    host.heap.nextAddress < (host.handleCommand event index (cut.command number)
      (pieceOf cut.packet.data cut.fragmentLength number ++ behind)).1.heap.nextAddress := by
  have kind : (cut.command number).command = .sendFragment (cut.fields number) := if_pos reliable
  have valid := cut.fields_valid inside ready.maximumPacketSize
  obtain ⟨before, after, searched⟩ : ∃ before after,
      ((host.peers index).channels cut.channelID).searchReliable cut.startSequenceNumber =
        .place before after := by
    cases searched : ((host.peers index).channels cut.channelID).searchReliable
        cut.startSequenceNumber with
    | place before after => exact ⟨before, after, rfl⟩
    | found incoming =>
        obtain ⟨member, equal⟩ := Channel.search_found searched
        exact absurd (Channel.eq_of_compareReliable equal) (alone incoming member)
  have position : cut.numberOf 0 = cut.startSequenceNumber := by
    rw [Cut.numberOf, if_pos reliable, Cut.startSequenceNumber_reliable reliable, Nat.add_zero]
  have placed : ((host.peers index).channels (cut.opening number).channelID).place
      (cut.opening number) = .reliable before after := by
    have opening : (cut.opening number).command = .sendFragment (cut.fields number) := kind
    unfold Channel.place
    rw [opening]
    dsimp only
    unfold Channel.placeReliable
    rw [show (cut.opening number).reliableSequenceNumber = cut.numberOf 0 from rfl, position,
      show (cut.opening number).channelID = cut.channelID from rfl, window, searched]
    simp [other.symm]
  have count := cut.one_lt_fragmentCount
  obtain ⟨heap, incoming, allocated⟩ := Heap.allocateIncoming_of_memory ready.memory
    (cut.opening number) ⟨true, false, false, false⟩ (Nat.zero_lt_of_lt cut.long)
    (Nat.zero_lt_of_lt count) cut.count
  have queues := queueIncomingCommand_place ready.connected placed (by simp)
    (ready.waiting rfl) allocated
  generalize installDispatched _ _ _ _ = queued at queues
  have allocates := queueIncomingCommand_allocates queues
  have queues : host.queueIncomingCommand index
      ⟨(cut.command number).command, (cut.command number).acknowledge,
        (cut.command number).unsequenced, cut.channelID, cut.numberOf 0⟩ none
      (cut.fields number).totalLength ⟨true, false, false, false⟩
      (cut.fields number).fragmentCount = (queued, .command incoming.address) := queues
  have channelID : (cut.command number).channelID = cut.channelID := rfl
  have start : (cut.fields number).startSequenceNumber = cut.startSequenceNumber := rfl
  unfold handleCommand
  rw [kind]
  dsimp only
  unfold handleSendFragment
  rw [not_rejectsData ready inside behind, Bool.false_or,
    if_neg (by rw [decide_eq_true_eq]; exact Nat.not_le_of_lt valid.dataLength)]
  dsimp only
  rw [channelID, start, window, if_neg (by decide), if_neg valid.passes, searched]
  dsimp only
  rw [← position, queues]
  exact Nat.lt_of_lt_of_le allocates
    (ActsOn.addFragment queued index cut.channelID true incoming.address (cut.fields number)
      (pieceOf cut.packet.data cut.fragmentLength number ++ behind)).mallocs.nextAddress

end Host

/-- **When a late fragment is recognised as old.** For every reliable packet that is
longer than one fragment and accepted, and every position at or behind its last
fragment, with `base` the number before its first one, all counted on past 16
bits: a copy of a fragment leaves the receiver as it is if the start number is
recognised at that position, and a receiver that takes packets, with no command
waiting under the start number, stays as it is only then. -/
theorem lateFragment_unchanged_iff {sender : Host} {index channelID : Nat} {packet : Packet}
    (reachable : Host.Reachable sender) (flagged : packet.flags.reliable = true)
    (long : sender.fragmentLength index < packet.dataLength)
    (accepted : (sender.peerSend index channelID packet).2 = 0) :
    ∃ cut, sender.Cuts index channelID packet cut ∧
      ∀ (base position number : Nat), cut.reliableSequenceNumber = u16 base →
        base + cut.fragmentCount ≤ position → number < cut.fragmentCount →
        ∀ (receiver : Host) (slot : Nat) (event : Option Event) (behind : List UInt8),
          ((receiver.peers slot).channels channelID).incomingReliableSequenceNumber =
            u16 position →
          (Recognised (base + 1) position →
            (u16 (base + 1) = u16 position →
              ∀ incoming ∈ ((receiver.peers slot).channels channelID).incomingReliableCommands,
                incoming.reliableSequenceNumber ≠ u16 (base + 1)) →
            (receiver.handleCommand event slot (cut.command number)
              (pieceOf packet.data cut.fragmentLength number ++ behind)).1 = receiver) ∧
          (Ready cut ∅ receiver slot →
            (∀ incoming ∈ ((receiver.peers slot).channels channelID).incomingReliableCommands,
              incoming.reliableSequenceNumber ≠ u16 (base + 1)) →
            ((receiver.handleCommand event slot (cut.command number)
              (pieceOf packet.data cut.fragmentLength number ++ behind)).1 = receiver ↔
                Recognised (base + 1) position)) := by
  obtain ⟨cut, cuts, -⟩ :=
    Host.peerSend_cut (Host.sendsOn_of_reachable reachable accepted) long accepted
  refine ⟨cut, cuts, ?_⟩
  intro base position number start dispatched inside receiver slot event behind current
  have reliable : cut.reliable = true := by
    rw [cuts.reliable, Host.sendsUnreliableFragments, flagged]
    rfl
  have startNumber : cut.startSequenceNumber = u16 (base + 1) := by
    rw [Cut.startSequenceNumber_reliable reliable, start]
    exact Nat.mod_add_mod ..
  have here : ((receiver.peers slot).channels cut.channelID).incomingReliableSequenceNumber =
      u16 position := by
    rw [cuts.sameChannel]
    exact current
  have later : base + 1 ≤ position := by omega
  have keeps : Recognised (base + 1) position →
      (u16 (base + 1) = u16 position →
        ∀ incoming ∈ ((receiver.peers slot).channels channelID).incomingReliableCommands,
          incoming.reliableSequenceNumber ≠ u16 (base + 1)) →
      (receiver.handleCommand event slot (cut.command number)
        (pieceOf packet.data cut.fragmentLength number ++ behind)).1 = receiver := by
    intro recognised alone
    by_cases equal : u16 (base + 1) = u16 position
    · exact Host.handleCommand_current reliable (by rw [here, startNumber, equal])
        (by rw [cuts.sameChannel, startNumber]; exact alone equal) inside event _
    · refine Host.handleCommand_outside reliable ?_ event _
      rw [here, startNumber, ← Bool.not_eq_true]
      intro window
      exact (not_recognised_iff later).mpr ⟨window, equal⟩ recognised
  refine ⟨keeps, fun ready alone => ⟨fun unchanged => ?_, fun recognised =>
    keeps recognised fun _ => alone⟩⟩
  by_contra unrecognised
  obtain ⟨window, other⟩ := (not_recognised_iff later).mp unrecognised
  have taken := @Host.handleCommand_taken receiver slot cut number reliable
    (by rw [here, startNumber]; exact window) (by rw [here, startNumber]; exact other.symm)
    (by rw [cuts.sameChannel, startNumber]; exact alone) ready inside event behind
  rw [cuts.samePacket, unchanged] at taken
  exact Nat.lt_irrefl _ taken

/-- A packet of two fragments is recognised behind its second one. -/
theorem lateFragment_unchanged_iff_two :
    ∃ host cut, servedHost connectDatagrams 2 = some host ∧ host.Cuts 0 0 longerPacket cut ∧
      ∀ (receiver : Host) (behind : List UInt8),
        ((receiver.peers 0).channels 0).incomingReliableSequenceNumber = 2 →
        (receiver.handleCommand none 0 (cut.command 0)
          (pieceOf longerPacket.data cut.fragmentLength 0 ++ behind)).1 = receiver := by
  have evaluated : (servedHost connectDatagrams 2).map (fun host =>
      (host.fragmentLength 0, (host.peerSend 0 0 longerPacket).2,
        ((host.peers 0).channels 0).outgoingReliableSequenceNumber)) =
      some (1364, 0, 0) := by
    decide +kernel
  obtain ⟨host, served, values⟩ := Option.map_eq_some_iff.mp evaluated
  simp only [Prod.mk.injEq] at values
  obtain ⟨length, accepted, number⟩ := values
  have size : longerPacket.dataLength = 1365 := List.length_replicate
  obtain ⟨cut, cuts, late⟩ := lateFragment_unchanged_iff (servedHost_reachable served) rfl
    (by rw [length, size]; decide) accepted
  have count : cut.fragmentCount = 2 := by
    rw [Cut.fragmentCount, cuts.samePacket, cuts.fragmentLength, length, size]
    rfl
  refine ⟨host, cut, served, cuts, fun receiver behind current => ?_⟩
  exact (late 0 2 0 (by rw [cuts.reliableSequenceNumber, number]) (by omega) (by omega) receiver 0
    none behind current).1 ⟨by decide, by decide⟩ fun equal => by cases equal

/-- A reliable packet of 16384 fragments. -/
def spanningPacket : Packet := ⟨1000, ⟨true, false, false, false⟩, List.replicate 22347776 0⟩

/-- A host whose channel is behind the reliable command with a number. -/
def Host.positioned (host : Host) (index channelID number : Nat) : Host :=
  host.setPeer index
    ((host.peers index).setChannel channelID
      { Channel.empty with incomingReliableSequenceNumber := number })

/-- **A late fragment is taken for one of a new packet**: the packet starts in
window 0 and its last fragment, number 16384, is in window 4, which is six windows
behind the receiver. -/
theorem lateFragment_changes :
    ∃ host cut, servedHost connectDatagrams 2 = some host ∧
      (host.peerSend 0 0 spanningPacket).2 = 0 ∧ host.Cuts 0 0 spanningPacket cut ∧
      cut.fragmentCount = 16384 ∧ cut.numberOf 0 = 1 ∧ cut.numberOf 16383 = 16384 ∧
      40960 / peerReliableWindowSize ≤ 16384 / peerReliableWindowSize + 6 ∧
      ((host.positioned 0 0 40960).peers 0).state = .connected ∧
      ((host.positioned 0 0 40960).handleCommand none 0 (cut.command 16383)
        (pieceOf spanningPacket.data cut.fragmentLength 16383)).1 ≠ host.positioned 0 0 40960 := by
  have evaluated : (servedHost connectDatagrams 2).map (fun host =>
      ((host.peers 0).state, (host.peers 0).channelCount, (host.peers 0).totalWaitingData,
        host.fragmentLength 0,
        ((host.peers 0).channels 0).outgoingReliableSequenceNumber)) =
      some (.connected, 1, 0, 1364, 0) := by
    decide +kernel
  have limits : (servedHost connectDatagrams 2).map (fun host =>
      (host.heap.mallocSucceeds, host.maximumPacketSize, host.maximumWaitingData)) =
      some (fun _ => true, 33554432, 33554432) := rfl
  obtain ⟨host, served, values⟩ := Option.map_eq_some_iff.mp evaluated
  rw [served, Option.map_some, Option.some.injEq] at limits
  simp only [Prod.mk.injEq] at values limits
  obtain ⟨state, channelCount, waiting, length, number⟩ := values
  obtain ⟨memory, packetSize, waitingSize⟩ := limits
  have size : spanningPacket.dataLength = 22347776 := List.length_replicate
  have accepted : (host.peerSend 0 0 spanningPacket).2 = 0 := by
    refine Host.peerSend_of_memory state (by rw [channelCount]; decide)
      (by rw [size, packetSize]; decide) (by rw [length, size]; decide) (by rw [length]; decide)
      (by rw [size]; decide) ?_ fun _ => by rw [memory]
    rw [length, size]
    decide
  obtain ⟨cut, cuts, -⟩ := Host.peerSend_cut
    (Host.sendsOn_of_reachable (servedHost_reachable served) accepted)
    (by rw [length, size]; decide) accepted
  have count : cut.fragmentCount = 16384 := by
    rw [Cut.fragmentCount, cuts.samePacket, cuts.fragmentLength, length, size]
    rfl
  have reliable : cut.reliable = true := cuts.reliable
  have start : cut.startSequenceNumber = 1 := by
    rw [Cut.startSequenceNumber_reliable reliable, cuts.reliableSequenceNumber, number]
  have channel : ((host.positioned 0 0 40960).peers 0).channels cut.channelID =
      { Channel.empty with incomingReliableSequenceNumber := 40960 } := by
    rw [cuts.sameChannel, Host.positioned, Host.setPeer_self, Peer.setChannel_channels,
      Function.update_self]
  have ready : Ready cut ∅ (host.positioned 0 0 40960) 0 :=
    { connected := state
      hasChannel := by
        rw [cuts.sameChannel]
        exact channelCount ▸ Nat.zero_lt_one
      maximumPacketSize := by
        rw [cuts.samePacket, size]
        exact packetSize ▸ (by decide : 22347776 ≤ 33554432)
      waiting := fun _ => by
        change (host.peers 0).totalWaitingData < host.maximumWaitingData
        rw [waiting, waitingSize]
        decide
      memory := fun _ => by
        rw [show (host.positioned 0 0 40960).heap = host.heap from rfl, memory] }
  have taken := @Host.handleCommand_taken (host.positioned 0 0 40960) 0 cut 16383 reliable
    (by rw [channel, start]; decide) (by rw [channel, start]; decide)
    (by rw [channel]; intro incoming member; cases member) ready (by omega) none []
  rw [List.append_nil, cuts.samePacket] at taken
  have numberOf : ∀ piece, cut.numberOf piece = u16 (1 + piece) := by
    intro piece
    rw [Cut.numberOf, if_pos reliable, cuts.reliableSequenceNumber, number, Nat.zero_add]
  refine ⟨host, cut, served, accepted, cuts, count, numberOf 0, numberOf 16383, by decide, state,
    fun same => ?_⟩
  rw [same] at taken
  exact Nat.lt_irrefl _ taken

end Enet
