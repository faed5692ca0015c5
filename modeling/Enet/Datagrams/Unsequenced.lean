import Enet.Library.BlockWindow
import Enet.Channels.Conserved
import Enet.Runs.Incoming
import Enet.Runs.Received

/-!
# Unsequenced packets arrive at most once

The groups of unsequenced packets are numbered by the sender, in a 16-bit register
that wraps around, and told apart by the receiver with one bit for each group of the
current block of 1024. A run of a peer is any mixture of arrivals and of steps that
leave its two registers alone: copies arrive in any order, some never, some often,
as long as none is half the range of the register away from the block.
-/

set_option autoImplicit false

namespace Enet

open Library

/-! ## The numbers of the sender -/

/-- The group of an unsequenced command. -/
def Protocol.unsequencedGroup (command : Protocol) : Nat :=
  match command.command with
  | .sendUnsequenced group _ => group
  | _ => 0

/-- Whether a command is that of an unsequenced packet. -/
def Protocol.IsUnsequenced (command : Protocol) : Prop :=
  ∃ group dataLength, command.command = .sendUnsequenced group dataLength

/-- The unsequenced commands that a peer has set up, in order. Whatever leaves the
register alone may happen in between. -/
inductive Numbers : Peer → (sent : List Protocol) → Prop
  | fresh {peer : Peer} (zero : peer.outgoingUnsequencedGroup = 0) : Numbers peer []
  | sends {peer : Peer} {sent : List Protocol} {queued : OutgoingCommand} (totalQueued : Nat)
      (outgoing : OutgoingCommand) (numbers : Numbers peer sent)
      (kind : outgoing.command.IsUnsequenced) (channel : outgoing.command.channelID ≠ 0xFF)
      (plain : outgoing.command.acknowledge = false)
      (flagged : outgoing.command.unsequenced = true)
      (queues : (peer.setupOutgoingCommand totalQueued outgoing).outgoingCommands =
        peer.outgoingCommands ++ [queued]) :
      Numbers (peer.setupOutgoingCommand totalQueued outgoing) (sent ++ [queued.command])
  | other {peer peer' : Peer} {sent : List Protocol} (numbers : Numbers peer sent)
      (same : peer'.outgoingUnsequencedGroup = peer.outgoingUnsequencedGroup) :
      Numbers peer' sent

theorem stampCommand_unsequenced {command : Protocol} {group dataLength : Nat}
    (kind : command.command = .sendUnsequenced group dataLength)
    (reliableSequenceNumber unreliableSequenceNumber unsequencedGroup : Nat) :
    (Peer.stampCommand command reliableSequenceNumber unreliableSequenceNumber
      unsequencedGroup).command = .sendUnsequenced unsequencedGroup dataLength := by
  unfold Peer.stampCommand
  rw [kind]

/-- What setting up an unsequenced command stores. -/
theorem setupOutgoingCommand_unsequenced {peer : Peer} {totalQueued : Nat}
    {outgoing queued : OutgoingCommand} (kind : outgoing.command.IsUnsequenced)
    (channel : outgoing.command.channelID ≠ 0xFF)
    (plain : outgoing.command.acknowledge = false) (flagged : outgoing.command.unsequenced = true)
    (queues : (peer.setupOutgoingCommand totalQueued outgoing).outgoingCommands =
      peer.outgoingCommands ++ [queued]) :
    (peer.setupOutgoingCommand totalQueued outgoing).outgoingUnsequencedGroup =
        u16 (peer.outgoingUnsequencedGroup + 1) ∧
      queued.command.IsUnsequenced ∧
      queued.command.unsequencedGroup = u16 (peer.outgoingUnsequencedGroup + 1) := by
  obtain ⟨group, dataLength, kind⟩ := kind
  have numbered : (peer.countOutgoingData outgoing).numberOutgoingCommand outgoing =
      ({ peer.countOutgoingData outgoing with
          outgoingUnsequencedGroup := u16 (peer.outgoingUnsequencedGroup + 1) },
        { outgoing with reliableSequenceNumber := 0, unreliableSequenceNumber := 0 }) := by
    unfold Peer.numberOutgoingCommand
    rw [if_neg channel, plain, flagged]
    rfl
  unfold Peer.setupOutgoingCommand Peer.enqueueOutgoing at queues ⊢
  rw [numbered] at queues ⊢
  have plain : (Peer.stampOutgoing
      { outgoing with reliableSequenceNumber := 0, unreliableSequenceNumber := 0 } totalQueued
      (u16 (peer.outgoingUnsequencedGroup + 1))).command.acknowledge = false := plain
  dsimp only at queues ⊢
  rw [plain, Bool.false_and, if_neg Bool.false_ne_true] at queues ⊢
  have same : queued = _ := (List.singleton_inj.mp (List.append_cancel_left queues)).symm
  have stamped : queued.command.command =
      .sendUnsequenced (u16 (peer.outgoingUnsequencedGroup + 1)) dataLength := by
    rw [same]
    exact stampCommand_unsequenced kind ..
  refine ⟨rfl, ⟨_, _, stamped⟩, ?_⟩
  unfold Protocol.unsequencedGroup
  rw [stamped]

/-- **The groups are the numbers of the packets, wrapped around.** -/
theorem Numbers.group {peer : Peer} {sent : List Protocol} (numbers : Numbers peer sent) :
    peer.outgoingUnsequencedGroup = u16 sent.length ∧
      ∀ number command, sent[number]? = some command →
        command.IsUnsequenced ∧ command.unsequencedGroup = u16 (number + 1) := by
  induction numbers with
  | fresh zero => exact ⟨zero, fun number command found => by simp at found⟩
  | sends totalQueued outgoing numbers kind channel plain flagged queues ih =>
      obtain ⟨group, commands⟩ := ih
      obtain ⟨stored, unsequenced, stamped⟩ :=
        setupOutgoingCommand_unsequenced kind channel plain flagged queues
      rw [group] at stored stamped
      refine ⟨?_, fun number command found => ?_⟩
      · rw [stored, List.length_append]
        unfold u16
        simp
      · rw [List.getElem?_append] at found
        split at found
        · exact commands number command found
        next behind =>
            rw [List.getElem?_singleton] at found
            split at found
            next here =>
                simp only [Option.some.injEq] at found
                subst found
                refine ⟨unsequenced, ?_⟩
                rw [stamped]
                unfold u16
                omega
            · cases found
  | other numbers same ih => exact ⟨same.trans ih.1, ih.2⟩

/-! ## What is queued -/

/-- The received commands of a channel, waiting or dispatched. -/
def Host.receivedCommands (host : Host) (index channelID : Nat) : Multiset IncomingCommand :=
  ((host.peers index).channels channelID).commands + ↑(host.peers index).dispatchedCommands

/-- How many of them carry a command at an address. -/
def Host.copies (host : Host) (index : Nat) (command : Protocol) (address : Nat) : Nat :=
  (host.receivedCommands index command.channelID).countP fun incoming =>
    incoming.address = address ∧ incoming.command = command

/-- A command has been queued: one more of the received commands carries it. -/
def Queues (index : Nat) (command : Protocol) (host host' : Host) : Prop :=
  ∃ address, host.copies index command address < host'.copies index command address

/-- A connected peer takes the data, and has the space and the memory for it. -/
structure Host.Admits (host : Host) (index : Nat) (command : Protocol) (data : List UInt8) :
    Prop where
  connected : (host.peers index).state = .connected
  accepts : host.rejectsData index command data = false
  space : (host.peers index).totalWaitingData < host.maximumWaitingData
  memory : (Host.allocateIncoming host.heap command (some (data.take command.command.dataLength))
    command.command.dataLength ⟨false, true, false, false⟩ 0).2.isSome = true

theorem not_queues_of_received {index : Nat} {command : Protocol} {host host' : Host}
    (same : host'.receivedCommands index command.channelID =
      host.receivedCommands index command.channelID) : ¬ Queues index command host host' := by
  rintro ⟨address, more⟩
  unfold Host.copies at more
  rw [same] at more
  exact absurd more (lt_irrefl _)

namespace Host

variable {host : Host} {index : Nat} {command : Protocol} {data : List UInt8}

/-- **An inserted command is queued**: the dispatch that follows does not remove it. -/
theorem queues_installDispatched (host : Host) (index : Nat) {incoming : IncomingCommand}
    (kind : command.IsUnsequenced) (carries : incoming.command = command) (total : Nat)
    (heap : Heap) :
    let peer := host.peers index
    let channel := peer.channels command.channelID
    Queues index command host
      (((host.setHeap heap).setPeer index
          (peer.setDispatched peer.dispatchedCommands total)).installDispatched index
        command.channelID (channel.insertIncoming incoming (channel.place command))) := by
  intro peer channel
  obtain ⟨group, dataLength, kind⟩ := kind
  have place : channel.place command = .unreliable [] channel.incomingUnreliableCommands := by
    unfold Channel.place
    rw [kind]
  refine ⟨incoming.address, ?_⟩
  have conserved := channel.insertIncoming_conserves incoming command (by rw [place]; nofun)
  rw [place] at conserved ⊢
  have kept : (channel.insertIncoming incoming
      (.unreliable [] channel.incomingUnreliableCommands)).removed.countP
        (fun other => other.address = incoming.address ∧ other.command = command) = 0 := by
    unfold Channel.insertIncoming Channel.dispatchUnreliable
    rw [List.countP_eq_zero]
    intro other member
    have away := (List.mem_filter.mp member).2
    simp only [Option.some.injEq, Bool.not_eq_true', decide_eq_false_iff_not] at away
    exact fun both => away (of_decide_eq_true both).1
  generalize channel.insertIncoming incoming
    (.unreliable [] channel.incomingUnreliableCommands) = dispatched at conserved kept ⊢
  have count := congrArg (Multiset.countP fun other : IncomingCommand =>
    other.address = incoming.address ∧ other.command = command) conserved
  unfold Channel.Dispatched.commands at count
  rw [Multiset.countP_cons_of_pos _ ⟨rfl, carries⟩, Multiset.countP_add, Multiset.countP_add,
    Multiset.coe_countP, Multiset.coe_countP, kept] at count
  have received : (((host.setHeap heap).setPeer index
      (peer.setDispatched peer.dispatchedCommands total)).installDispatched index
        command.channelID dispatched).receivedCommands index command.channelID =
      dispatched.channel.commands + (↑peer.dispatchedCommands + ↑dispatched.moved) := by
    obtain ⟨flag, same⟩ := installDispatched_peer ((host.setHeap heap).setPeer index
      (peer.setDispatched peer.dispatchedCommands total)) index command.channelID dispatched
    unfold receivedCommands
    rw [same, setPeer_self]
    change (((peer.setDispatched _ total).setChannel command.channelID
      dispatched.channel).channels command.channelID).commands + _ = _
    rw [Peer.setChannel_channels, Function.update_self, Multiset.coe_add]
    rfl
  unfold copies
  rw [received]
  unfold receivedCommands
  simp only [Multiset.countP_add, Multiset.coe_countP, channel, peer] at count ⊢
  omega

/-! ## The registers of the receiver -/

end Host

/-- The registers of a peer are those of a window of numbers without a bound. -/
structure Windowed (peer : Peer) (window : BlockWindow) : Prop where
  group : peer.incomingUnsequencedGroup = 1024 * window.block % 65536
  marked : ∀ place < 1024, peer.unsequencedWindow place = window.marked place

/-- A number that is less than half the range of the register away from a block. -/
structure Near (block number : Nat) : Prop where
  behind : 1024 * block < number + 32768
  ahead : number < 1024 * block + 32768

namespace Host

variable {host : Host} {index number : Nat} {command : Protocol} {data : List UInt8}
  {window : BlockWindow}

/-- The start of the block of a group, as the handler computes it. -/
theorem start_of_near (near : Near window.block number) (current : window.block ≤ number / 1024) :
    let unsequencedGroup := unwrapGroup (u16 number) (1024 * window.block % 65536)
    unsequencedGroup < 1024 * window.block % 65536 + 32768 ∧
      u16 unsequencedGroup - u16 number % 1024 = 1024 * (number / 1024) % 65536 := by
  obtain ⟨behind, ahead⟩ := near
  unfold unwrapGroup u16
  dsimp only
  split
  · omega
  · omega

theorem far_of_behind (near : Near window.block number) (behind : number / 1024 < window.block) :
    1024 * window.block % 65536 + 32768 ≤
      unwrapGroup (u16 number) (1024 * window.block % 65536) := by
  obtain ⟨behind, ahead⟩ := near
  unfold unwrapGroup u16
  split
  · omega
  · omega

theorem start_eq_iff (near : Near window.block number) (current : window.block ≤ number / 1024) :
    1024 * (number / 1024) % 65536 = 1024 * window.block % 65536 ↔
      number / 1024 = window.block := by
  obtain ⟨behind, ahead⟩ := near
  omega

/-- Queueing a command leaves the registers alone. -/
theorem queueIncomingCommand_tracks (tracks : Windowed (host.peers index) window)
    (command : Protocol) (data : Option (List UInt8)) (dataLength : Nat) (flags : PacketFlags)
    (fragmentCount : Nat) :
    Windowed ((host.queueIncomingCommand index command data dataLength flags
      fragmentCount).1.peers index) window := by
  rcases host.queueIncomingCommand_cases index command data dataLength flags fragmentCount with
    same | ⟨heap, -, same⟩ | ⟨heap, incoming, -, -, -, same⟩
  · rw [same]
    exact tracks
  · rw [same]
    exact tracks
  · obtain ⟨flag, leaves⟩ := installDispatched_peer ((host.setHeap heap).setPeer index
      ((host.peers index).setDispatched (host.peers index).dispatchedCommands
        ((host.peers index).totalWaitingData + incoming.packet.dataLength))) index
      command.channelID (((host.peers index).channels command.channelID).insertIncoming incoming
        (((host.peers index).channels command.channelID).place command))
    rw [same, leaves, setPeer_self]
    exact ⟨tracks.group, tracks.marked⟩

theorem moveUnsequencedWindow_tracks (tracks : Windowed (host.peers index) window)
    (near : Near window.block number) (current : window.block ≤ number / 1024) :
    Windowed ((host.moveUnsequencedWindow index (1024 * (number / 1024) % 65536)).peers index)
      (window.move 1024 number) := by
  unfold moveUnsequencedWindow BlockWindow.move
  dsimp only
  rw [tracks.group]
  by_cases same : number / 1024 = window.block
  · rw [if_pos ((start_eq_iff near current).mpr same), if_pos same]
    exact tracks
  · rw [if_neg fun equal => same ((start_eq_iff near current).mp equal), if_neg same, setPeer_self]
    exact ⟨rfl, fun _ _ => rfl⟩

theorem markUnsequenced_tracks (tracks : Windowed (host.peers index) (window.move 1024 number)) :
    Windowed ((host.markUnsequenced index (number % 1024)).peers index)
      (window.mark 1024 number) := by
  unfold markUnsequenced
  rw [setPeer_self]
  refine ⟨?_, fun place within => ?_⟩
  · change (host.peers index).incomingUnsequencedGroup = _
    rw [tracks.group, BlockWindow.move_block]
    rfl
  · change Function.update (host.peers index).unsequencedWindow _ _ _ =
      Function.update (window.move 1024 number).marked _ _ _
    by_cases same : place = number % 1024
    · rw [same, Function.update_self, Function.update_self]
    · rw [Function.update_of_ne same, Function.update_of_ne same]
      exact tracks.marked place within

/-! ## The handler -/

/-- What the window drops, the handler drops. -/
theorem handleSendUnsequenced_drops (tracks : Windowed (host.peers index) window)
    (near : Near window.block number) (drops : window.Drops 1024 number) :
    (host.handleSendUnsequenced index command (u16 number) data).1 = host := by
  unfold handleSendUnsequenced
  dsimp only [peerUnsequencedWindowSize, peerFreeUnsequencedWindows]
  rw [tracks.group]
  split
  · rfl
  · rcases drops with behind | ⟨same, marked⟩
    · rw [if_pos (far_of_behind near behind)]
    · split
      · rfl
      · obtain ⟨-, start⟩ := start_of_near near (Nat.le_of_eq same.symm)
        have place : u16 number % 1024 = number % 1024 := by
          unfold u16
          omega
        rw [start, place, tracks.marked _ (Nat.mod_lt _ (by decide)), marked, same,
          if_pos ⟨rfl, rfl⟩]

/-- What the window does not drop, the handler queues at the block of its number. -/
theorem handleSendUnsequenced_takes (tracks : Windowed (host.peers index) window)
    (near : Near window.block number) (new : ¬ window.Drops 1024 number)
    (accepts : host.rejectsData index command data = false) :
    host.handleSendUnsequenced index command (u16 number) data =
      match (host.moveUnsequencedWindow index (1024 * (number / 1024) % 65536)).queueIncomingCommand
          index command (some (data.take command.command.dataLength)) command.command.dataLength
          ⟨false, true, false, false⟩ 0 with
      | (host, .rejected) => (host, true)
      | (host, _) => (host.markUnsequenced index (number % 1024), false) := by
  have current : window.block ≤ number / 1024 := by
    unfold BlockWindow.Drops at new
    omega
  obtain ⟨within, start⟩ := start_of_near near current
  have place : u16 number % 1024 = number % 1024 := by
    unfold u16
    omega
  unfold handleSendUnsequenced
  dsimp only [peerUnsequencedWindowSize, peerFreeUnsequencedWindows]
  have fresh : ¬ (1024 * (number / 1024) % 65536 = 1024 * window.block % 65536 ∧
      (host.peers index).unsequencedWindow (number % 1024) = true) := by
    rintro ⟨same, marked⟩
    rw [tracks.marked _ (Nat.mod_lt _ (by decide))] at marked
    exact new (.inr ⟨(start_eq_iff near current).mp same, marked⟩)
  rewrite [accepts, if_neg Bool.false_ne_true, tracks.group, if_neg (Nat.not_le.mpr within), start,
    place, if_neg fresh]
  rfl

/-- What queueing the command of an unsequenced packet returns: it is refused, or put
aside by a peer that disconnects later, or queued. -/
theorem queueIncomingCommand_unsequenced (host : Host) (index : Nat)
    (kind : command.IsUnsequenced) (dataLength : Nat) (data : List UInt8) (flags : PacketFlags) :
    let queued := host.queueIncomingCommand index command (some data) dataLength flags 0
    (queued.2 = .rejected ∧ ¬ Queues index command host queued.1 ∧
        ¬ ((host.peers index).state = .connected ∧
          (host.peers index).totalWaitingData < host.maximumWaitingData ∧
          (allocateIncoming host.heap command (some data) dataLength flags 0).2.isSome = true)) ∨
      (queued.2 = .dummy ∧ ¬ Queues index command host queued.1 ∧
        (host.peers index).state = .disconnectLater) ∨
      ((∃ address, queued.2 = .command address) ∧ Queues index command host queued.1) := by
  have place : ((host.peers index).channels command.channelID).place command =
      .unreliable []
        ((host.peers index).channels command.channelID).incomingUnreliableCommands := by
    obtain ⟨group, length, same⟩ := kind
    unfold Channel.place
    rw [same]
  unfold queueIncomingCommand
  dsimp only
  split
  next later => exact .inr (.inl ⟨rfl, not_queues_of_received rfl, later⟩)
  next state =>
      rw [place]
      dsimp only
      split
      next full =>
          refine .inl ⟨rfl, not_queues_of_received rfl, fun admits => ?_⟩
          exact absurd admits.2.1 (Nat.not_lt.mpr full)
      · split
        next heap allocated =>
            refine .inl ⟨rfl, not_queues_of_received rfl, fun admits => ?_⟩
            rw [allocated] at admits
            exact absurd admits.2.2 (by simp)
        next heap incoming allocated =>
            refine .inr (.inr ⟨⟨_, rfl⟩, ?_⟩)
            have queues := queues_installDispatched host index kind
              (allocateIncoming_spec allocated).received ((host.peers index).totalWaitingData +
                incoming.packet.dataLength) heap
            dsimp only at queues
            rw [place] at queues
            exact queues

/-- Moving and marking the window leaves the received commands alone. -/
theorem moveUnsequencedWindow_receivedCommands (host : Host) (index start channelID : Nat) :
    (host.moveUnsequencedWindow index start).receivedCommands index channelID =
      host.receivedCommands index channelID := by
  unfold moveUnsequencedWindow
  dsimp only
  split
  · rfl
  · unfold receivedCommands
    rw [setPeer_self]
    rfl

theorem markUnsequenced_receivedCommands (host : Host) (index place channelID : Nat) :
    (host.markUnsequenced index place).receivedCommands index channelID =
      host.receivedCommands index channelID := by
  unfold markUnsequenced receivedCommands
  rw [setPeer_self]
  rfl

theorem queues_iff {host' : Host} {before after : Host}
    (entry : before.receivedCommands index command.channelID =
      host.receivedCommands index command.channelID)
    (exit : after.receivedCommands index command.channelID =
      host'.receivedCommands index command.channelID) :
    Queues index command before after ↔ Queues index command host host' := by
  unfold Queues copies
  rw [entry, exit]

theorem moveUnsequencedWindow_admits (host : Host) (index start : Nat) :
    let moved := host.moveUnsequencedWindow index start
    (moved.peers index).state = (host.peers index).state ∧
      (moved.peers index).totalWaitingData = (host.peers index).totalWaitingData ∧
      moved.maximumWaitingData = host.maximumWaitingData ∧ moved.heap = host.heap := by
  unfold moveUnsequencedWindow
  dsimp only
  split
  · exact ⟨rfl, rfl, rfl, rfl⟩
  · rw [setPeer_self]
    exact ⟨rfl, rfl, rfl, rfl⟩

/-- **What an arrival does**: the handler drops it, or refuses it once the window has
moved, or takes it, and then marks it. -/
theorem handleSendUnsequenced_cases (kind : command.IsUnsequenced)
    (tracks : Windowed (host.peers index) window) (near : Near window.block number)
    (data : List UInt8) :
    let after := (host.handleSendUnsequenced index command (u16 number) data).1
    (after = host ∧ (host.rejectsData index command data = true ∨ window.Drops 1024 number)) ∨
      ¬ window.Drops 1024 number ∧
        (Windowed (after.peers index) (window.move 1024 number) ∧
            ¬ Queues index command host after ∧ ¬ host.Admits index command data ∨
          Windowed (after.peers index) (window.mark 1024 number) ∧
            ((host.peers index).state ≠ .disconnectLater → Queues index command host after)) := by
  intro after
  by_cases drops : window.Drops 1024 number
  · exact .inl ⟨handleSendUnsequenced_drops tracks near drops, .inr drops⟩
  · cases accepts : host.rejectsData index command data with
    | true =>
        refine .inl ⟨?_, .inl rfl⟩
        simp only [after]
        unfold handleSendUnsequenced
        rw [accepts, if_pos rfl]
    | false =>
        refine .inr ⟨drops, ?_⟩
        have current : window.block ≤ number / 1024 := by
          unfold BlockWindow.Drops at drops
          omega
        have moved := moveUnsequencedWindow_tracks tracks near current
        obtain ⟨state, waiting, maximum, heap⟩ :=
          host.moveUnsequencedWindow_admits index (1024 * (number / 1024) % 65536)
        have received := host.moveUnsequencedWindow_receivedCommands index
          (1024 * (number / 1024) % 65536) command.channelID
        have queued := queueIncomingCommand_unsequenced
          (host.moveUnsequencedWindow index (1024 * (number / 1024) % 65536)) index kind
          command.command.dataLength (data.take command.command.dataLength)
          ⟨false, true, false, false⟩
        have tracked := queueIncomingCommand_tracks moved command
          (some (data.take command.command.dataLength)) command.command.dataLength
          ⟨false, true, false, false⟩ 0
        have handled := congrArg Prod.fst
          (handleSendUnsequenced_takes tracks near drops accepts)
        dsimp only at queued
        rw [state, waiting, maximum, heap] at queued
        change after = _ at handled
        generalize (host.moveUnsequencedWindow index _).queueIncomingCommand index command _ _ _ _ =
          result at queued tracked handled
        obtain ⟨host', outcome⟩ := result
        dsimp only at queued tracked
        have queues_eq : ∀ after', after'.receivedCommands index command.channelID =
            host'.receivedCommands index command.channelID →
            (Queues index command host after' ↔ Queues index command
              (host.moveUnsequencedWindow index (1024 * (number / 1024) % 65536)) host') :=
          fun after' same => queues_iff received.symm same
        rcases queued with ⟨rfl, none, full⟩ | ⟨rfl, none, later⟩ | ⟨⟨address, rfl⟩, queues⟩
        · rw [handled]
          refine .inl ⟨tracked, fun queues => none ((queues_eq host' rfl).mp queues),
            fun admits => full ⟨admits.connected, admits.space, admits.memory⟩⟩
        · rw [handled]
          exact .inr ⟨markUnsequenced_tracks tracked, fun state => absurd later state⟩
        · rw [handled]
          exact .inr ⟨markUnsequenced_tracks tracked, fun _ => (queues_eq _
            (markUnsequenced_receivedCommands host' index _ _)).mpr queues⟩

end Host

/-! ## Runs of a receiver -/

/-- The block of the registers once a number has arrived. -/
def blockAfter (index : Nat) (host host' : Host) (block number : Nat) : Nat :=
  if (host'.peers index).incomingUnsequencedGroup = (host.peers index).incomingUnsequencedGroup then
    block
  else number / 1024

/-- The runs of a peer that receives copies of unsequenced commands, the `number`th of
them with the number `number + 1`, none too far from the current block; with that
block, the commands that have arrived and those that have been queued. -/
inductive UnsequencedRun (index : Nat) (sent : List Protocol) :
    Host → (block : Nat) → (arrived queued : List Nat) → Prop
  | start {host : Host} (group : (host.peers index).incomingUnsequencedGroup = 0)
      (window : ∀ place, (host.peers index).unsequencedWindow place = false) :
      UnsequencedRun index sent host 0 [] []
  | arrives {host : Host} {block : Nat} {arrived queued queued' : List Nat} (number : Nat)
      (command : Protocol) (data : List UInt8)
      (run : UnsequencedRun index sent host block arrived queued)
      (copy : sent[number]? = some command) (near : Near block (number + 1))
      (counts : Queues index command host (host.handleCommand none index command data).1 ∧
          queued' = number :: queued ∨
        ¬ Queues index command host (host.handleCommand none index command data).1 ∧
          queued' = queued) :
      UnsequencedRun index sent (host.handleCommand none index command data).1
        (blockAfter index host (host.handleCommand none index command data).1 block (number + 1))
        (number :: arrived) queued'
  | other {host host' : Host} {block : Nat} {arrived queued : List Nat}
      (run : UnsequencedRun index sent host block arrived queued)
      (group : (host'.peers index).incomingUnsequencedGroup =
        (host.peers index).incomingUnsequencedGroup)
      (window : (host'.peers index).unsequencedWindow = (host.peers index).unsequencedWindow) :
      UnsequencedRun index sent host' block arrived queued

/-- The switch hands an unsequenced command to its handler. -/
theorem Host.handleCommand_unsequenced {command : Protocol} (kind : command.IsUnsequenced)
    (host : Host) (index : Nat) (data : List UInt8) :
    (host.handleCommand none index command data).1 =
      (host.handleSendUnsequenced index command command.unsequencedGroup data).1 := by
  obtain ⟨group, dataLength, same⟩ := kind
  unfold handleCommand Protocol.unsequencedGroup
  rw [same]

/-- The block of the registers is the block of the window. -/
theorem blockAfter_eq {index number : Nat} {host host' : Host} {window window' : BlockWindow}
    (tracks : Windowed (host.peers index) window) (tracks' : Windowed (host'.peers index) window')
    (near : Near window.block number)
    (moves : window'.block = window.block ∨
      window'.block = number / 1024 ∧ window.block ≤ number / 1024) :
    blockAfter index host host' window.block number = window'.block := by
  unfold blockAfter
  rw [tracks.group, tracks'.group]
  rcases moves with stays | ⟨moved, current⟩
  · rw [stays, if_pos rfl]
  · rw [moved]
    split
    next same => exact ((Host.start_eq_iff near current).mp same).symm
    · rfl

/-- **The registers of every run are those of a window**, which takes whatever is queued. -/
theorem UnsequencedRun.tracks {index : Nat} {sent : List Protocol} {sender : Peer}
    (numbers : Numbers sender sent) {host : Host} {block : Nat} {arrived queued : List Nat}
    (run : UnsequencedRun index sent host block arrived queued) :
    ∃ window taken, Windowed (host.peers index) window ∧ window.block = block ∧
      BlockWindow.Run 1024 window taken ∧ (queued.map (· + 1)).Sublist taken ∧
      ∀ number ∈ taken, ∃ position ∈ arrived, number = position + 1 := by
  induction run with
  | start group window =>
      exact ⟨.start, [], ⟨group, fun place _ => window place⟩, rfl, .start, .slnil,
        fun _ none => (List.not_mem_nil none).elim⟩
  | @arrives host block arrived queued queued' number command data run copy near counts ih =>
      obtain ⟨window, taken, tracks, rfl, windows, sublist, origin⟩ := ih
      obtain ⟨kind, group⟩ := numbers.group.2 number command copy
      have handled := host.handleCommand_unsequenced kind index data
      rw [group] at handled
      have earlier : ∀ other ∈ taken, ∃ position ∈ number :: arrived, other = position + 1 := by
        intro other member
        obtain ⟨position, before, same⟩ := origin other member
        exact ⟨position, List.mem_cons_of_mem number before, same⟩
      rw [handled] at counts ⊢
      have cases := Host.handleSendUnsequenced_cases kind tracks near data
      dsimp only at cases
      generalize (host.handleSendUnsequenced index command (u16 (number + 1)) data).1 = host' at *
      rcases cases with ⟨rfl, -⟩ | ⟨new, ⟨moved, none, -⟩ | ⟨marked, -⟩⟩
      · refine ⟨window, taken, tracks, (blockAfter_eq tracks tracks near (.inl rfl)).symm, windows,
          ?_, earlier⟩
        rcases counts with ⟨queues, -⟩ | ⟨-, rfl⟩
        · exact absurd queues (not_queues_of_received rfl)
        · exact sublist
      · have current : window.block ≤ (number + 1) / 1024 := by
          unfold BlockWindow.Drops at new
          omega
        refine ⟨_, taken, moved, (blockAfter_eq tracks moved near
          (.inr ⟨window.move_block 1024 _, current⟩)).symm, windows.refuses _ new, ?_, earlier⟩
        rcases counts with ⟨queues, -⟩ | ⟨-, rfl⟩
        · exact absurd queues none
        · exact sublist
      · have current : window.block ≤ (number + 1) / 1024 := by
          unfold BlockWindow.Drops at new
          omega
        refine ⟨_, (number + 1) :: taken, marked, (blockAfter_eq tracks marked near
          (.inr ⟨rfl, current⟩)).symm, windows.takes _ new, ?_, ?_⟩
        · rcases counts with ⟨-, rfl⟩ | ⟨-, rfl⟩
          · exact sublist.cons_cons _
          · exact sublist.cons _
        · intro other member
          rcases List.mem_cons.mp member with rfl | member
          · exact ⟨number, List.mem_cons_self, rfl⟩
          · exact earlier other member
  | other run group window ih =>
      obtain ⟨reached, taken, tracks, block, rest⟩ := ih
      exact ⟨reached, taken, ⟨group.trans tracks.group, fun place within => by
        rw [window, tracks.marked place within]⟩, block, rest⟩

/-- **Unsequenced packets are queued at most once**, and a first copy of the current
block or a later one is, by a connected peer that takes the data and has the space. -/
theorem unsequenced_queued_once {index : Nat} {sent : List Protocol} {sender : Peer}
    (numbers : Numbers sender sent) {host : Host} {block : Nat} {arrived queued : List Nat}
    (run : UnsequencedRun index sent host block arrived queued) :
    queued.Nodup ∧
      ∀ number command data, sent[number]? = some command → number ∉ arrived →
        block ≤ (number + 1) / 1024 → Near block (number + 1) →
        host.Admits index command data →
        Queues index command host (host.handleCommand none index command data).1 := by
  obtain ⟨window, taken, tracks, rfl, windows, sublist, origin⟩ := run.tracks numbers
  have sound := windows.sound
  refine ⟨(sublist.nodup sound.distinct).of_map _, ?_⟩
  intro number command data copy first current near admits
  obtain ⟨kind, group⟩ := numbers.group.2 number command copy
  rw [host.handleCommand_unsequenced kind index data, group]
  have new : ¬ window.Drops 1024 (number + 1) := by
    intro drops
    obtain ⟨position, before, same⟩ :=
      origin _ (sound.mem_of_drops (by decide) drops current)
    rw [Nat.succ.inj same] at first
    exact first before
  rcases Host.handleSendUnsequenced_cases kind tracks near data with
    ⟨-, refused | drops⟩ | ⟨-, ⟨-, -, full⟩ | ⟨-, queues⟩⟩
  · rw [admits.accepts] at refused
    cases refused
  · exact absurd drops new
  · exact absurd admits full
  · exact queues (by rw [admits.connected]; decide)

/-- A host with one peer, in a given state, whose registers are those of a new connection. -/
def receivingHost (state : PeerState) : Host :=
  { Host.create .ample (.delivering (fun _ => 0) []) 0 1 1 0 0 with
    peers := fun index =>
      { ((Host.clearedPeer index).resetFields hostDefaultMtu).resetQueues with
        state := state
        channelsAllocated := 1
        channelCount := 1 } }

/-- The copies of an unsequenced command of a peer, with a packet of one byte. -/
def numberedCopy (number : Nat) : Protocol :=
  ⟨.sendUnsequenced (u16 (number + 1)) 1, false, true, 0, 0⟩

/-- The command before it is set up. -/
def unsequencedOutgoing : OutgoingCommand where
  address := 1
  reliableSequenceNumber := 0
  unreliableSequenceNumber := 0
  sentTime := 0
  roundTripTimeout := 0
  queueTime := 0
  fragmentOffset := 0
  fragmentLength := 1
  sendAttempts := 0
  command := ⟨.sendUnsequenced 0 1, false, true, 0, 0⟩
  packet := some ⟨2, ⟨false, true, false, false⟩, [65]⟩

/-- A peer sets up any number of them, one after the other. -/
theorem numberedCopies_numbers (count : Nat) :
    ∃ sender, Numbers sender ((List.range count).map numberedCopy) := by
  induction count with
  | zero => exact ⟨_, .fresh (rfl : (Host.clearedPeer 0).outgoingUnsequencedGroup = 0)⟩
  | succ count ih =>
      obtain ⟨sender, numbers⟩ := ih
      have group : sender.outgoingUnsequencedGroup = u16 count := by
        rw [numbers.group.1, List.length_map, List.length_range]
      have same : numberedCopy count = Peer.stampCommand unsequencedOutgoing.command 0 0
          (u16 (sender.outgoingUnsequencedGroup + 1)) := by
        have wraps : u16 (u16 count + 1) = u16 (count + 1) := by
          unfold u16
          omega
        rw [group, wraps]
        rfl
      rw [List.range_succ, List.map_append, List.map_singleton, same]
      exact ⟨_, .sends 1 unsequencedOutgoing numbers ⟨_, _, rfl⟩ (by decide) rfl rfl rfl⟩

theorem receivingHost_run (state : PeerState) (sent : List Protocol) :
    UnsequencedRun 0 sent (receivingHost state) 0 [] [] :=
  .start rfl fun _ => rfl

/-- A connected peer once copies have arrived, newest first. -/
def copiedHost : (numbers : List Nat) → Host
  | [] => receivingHost .connected
  | number :: earlier => ((copiedHost earlier).handleCommand none 0 (numberedCopy number) [65]).1

/-- A copy that is queued: one more of the received commands at an address carries it. -/
theorem UnsequencedRun.takesCopy {sent : List Protocol} {block : Nat} {arrived queued : List Nat}
    (run : UnsequencedRun 0 sent (copiedHost queued) block arrived queued)
    (number address block' : Nat) (copy : sent[number]? = some (numberedCopy number))
    (near : Near block (number + 1))
    (queues : (copiedHost queued).copies 0 (numberedCopy number) address <
      (copiedHost (number :: queued)).copies 0 (numberedCopy number) address)
    (moves : blockAfter 0 (copiedHost queued) (copiedHost (number :: queued)) block (number + 1) =
      block') :
    UnsequencedRun 0 sent (copiedHost (number :: queued)) block' (number :: arrived)
      (number :: queued) := by
  rw [← moves]
  exact .arrives number (numberedCopy number) [65] run copy near (.inl ⟨⟨address, queues⟩, rfl⟩)

/-- A copy behind the block, or one that is marked, is dropped. -/
theorem UnsequencedRun.dropsCopy {sent : List Protocol} {sender : Peer}
    (numbers : Numbers sender sent) {block : Nat} {arrived queued : List Nat}
    (run : UnsequencedRun 0 sent (copiedHost queued) block arrived queued) (number : Nat)
    (copy : sent[number]? = some (numberedCopy number)) (near : Near block (number + 1))
    (marked : (number + 1) / 1024 < block ∨ (number + 1) / 1024 = block ∧
      ((copiedHost queued).peers 0).unsequencedWindow ((number + 1) % 1024) = true) :
    UnsequencedRun 0 sent (copiedHost queued) block (number :: arrived) queued := by
  obtain ⟨window, taken, tracks, rfl, -⟩ := run.tracks numbers
  obtain ⟨kind, group⟩ := numbers.group.2 number _ copy
  rw [tracks.marked _ (Nat.mod_lt _ (by decide))] at marked
  have drops : ((copiedHost queued).handleCommand none 0 (numberedCopy number) [65]).1 =
      copiedHost queued := by
    rw [Host.handleCommand_unsequenced kind, group]
    exact Host.handleSendUnsequenced_drops tracks near marked
  have after := UnsequencedRun.arrives number (numberedCopy number) [65] run copy near
    (.inr ⟨not_queues_of_received (by rw [drops]), rfl⟩)
  rw [drops] at after
  exact (if_pos rfl : blockAfter 0 (copiedHost queued) (copiedHost queued) window.block
    (number + 1) = window.block) ▸ after

/-- Copies arrive as the register of the sender wraps around. That of group 1 comes again
at once, that of group 2 behind the next block, and that of the last packet, the group of
which is 1 again, comes twice. A first copy of the packet behind it is queued. -/
theorem unsequenced_queued_once_wrapping :
    UnsequencedRun 0 ((List.range 65538).map numberedCopy)
        (copiedHost [65536, 65000, 33000, 1023, 1, 0]) 64
        [65536, 65536, 65000, 33000, 1, 1023, 1, 0, 0] [65536, 65000, 33000, 1023, 1, 0] ∧
      [65536, 65000, 33000, 1023, 1, 0].Nodup ∧
      Queues 0 (numberedCopy 65537) (copiedHost [65536, 65000, 33000, 1023, 1, 0])
        ((copiedHost [65536, 65000, 33000, 1023, 1, 0]).handleCommand none 0
          (numberedCopy 65537) [65]).1 := by
  have copy : ∀ number < 65538,
      ((List.range 65538).map numberedCopy)[number]? = some (numberedCopy number) := by
    intro number below
    rw [List.getElem?_map, List.getElem?_range below]
    rfl
  obtain ⟨sender, numbers⟩ := numberedCopies_numbers 65538
  have start : UnsequencedRun 0 ((List.range 65538).map numberedCopy) (copiedHost []) 0 [] [] :=
    receivingHost_run .connected _
  have first := start.takesCopy 0 2 0 (copy 0 (by decide)) ⟨by decide, by decide⟩
    (by decide +kernel) (by decide +kernel)
  have again := first.dropsCopy numbers 0 (copy 0 (by decide)) ⟨by decide, by decide⟩
    (by decide +kernel)
  have second := again.takesCopy 1 5 0 (copy 1 (by decide)) ⟨by decide, by decide⟩
    (by decide +kernel) (by decide +kernel)
  have moved := second.takesCopy 1023 8 1 (copy 1023 (by decide)) ⟨by decide, by decide⟩
    (by decide +kernel) (by decide +kernel)
  have late := moved.dropsCopy numbers 1 (copy 1 (by decide)) ⟨by decide, by decide⟩
    (by decide +kernel)
  have middle := late.takesCopy 33000 11 32 (copy 33000 (by decide)) ⟨by decide, by decide⟩
    (by decide +kernel) (by decide +kernel)
  have ahead := middle.takesCopy 65000 14 63 (copy 65000 (by decide)) ⟨by decide, by decide⟩
    (by decide +kernel) (by decide +kernel)
  have wrapped := ahead.takesCopy 65536 17 64 (copy 65536 (by decide)) ⟨by decide, by decide⟩
    (by decide +kernel) (by decide +kernel)
  have run := wrapped.dropsCopy numbers 65536 (copy 65536 (by decide)) ⟨by decide, by decide⟩
    (by decide +kernel)
  obtain ⟨once, queues⟩ := unsequenced_queued_once numbers run
  exact ⟨run, once, queues 65537 _ [65] (copy 65537 (by decide)) (by decide) (by decide)
    ⟨by decide, by decide⟩
    ⟨by decide +kernel, by decide +kernel, by decide +kernel, by decide +kernel⟩⟩

/-- The first unsequenced command of a peer. -/
def firstCopy : Protocol := ⟨.sendUnsequenced 1 1, false, true, 0, 0⟩

/-- A peer that disconnects later puts the first copy aside, though it has the space. -/
theorem unsequenced_disconnectLater_not_queued :
    ∃ sender host, Numbers sender [firstCopy] ∧ UnsequencedRun 0 [firstCopy] host 0 [] [] ∧
      Near 0 1 ∧ host.rejectsData 0 firstCopy [65] = false ∧
      (host.peers 0).totalWaitingData < host.maximumWaitingData ∧
      (host.handleCommand none 0 firstCopy [65]).2.2 = false ∧
      ¬ Queues 0 firstCopy host (host.handleCommand none 0 firstCopy [65]).1 := by
  obtain ⟨sender, numbers⟩ := numberedCopies_numbers 1
  exact ⟨sender, receivingHost .disconnectLater, numbers, receivingHost_run _ _,
    ⟨by decide, by decide⟩, by decide, by decide, by decide, not_queues_of_received rfl⟩

end Enet
