import Enet.Runs.Fitting

/-!
# What a command says of its data

A command names the length of the data behind it, and the data is a piece of its
packet. `enet_peer_send` sets both when it makes a command, and no later step
touches either.
-/

set_option autoImplicit false

namespace Enet

/-! ## One command -/

/-- A command names the length of the piece of a packet that it carries. -/
structure OutgoingCommand.Carries (outgoing : OutgoingCommand) : Prop where
  bare : outgoing.packet = none → u16 outgoing.command.command.dataLength = 0
  length : outgoing.packet.isSome = true →
    u16 outgoing.command.command.dataLength = outgoing.fragmentLength
  inside : ∀ packet, outgoing.packet = some packet →
    outgoing.fragmentOffset + outgoing.fragmentLength ≤ packet.dataLength

/-- The length that a command names stays as it is numbered. -/
theorem Peer.setupCommand_dataLength (peer : Peer) (totalQueued : Nat)
    (outgoing : OutgoingCommand) :
    (peer.setupCommand totalQueued outgoing).command.command.dataLength =
      outgoing.command.command.dataLength := by
  have stamps : ∀ (command : Protocol) (number unreliableNumber group : Nat),
      (stampCommand command number unreliableNumber group).command.dataLength =
        command.command.dataLength := by
    intro command number unreliableNumber group
    unfold stampCommand
    cases command.command <;> rfl
  have numbers : ((peer.countOutgoingData outgoing).numberOutgoingCommand
      outgoing).2.command = outgoing.command := by
    unfold numberOutgoingCommand
    split
    · rfl
    · split
      · rfl
      · split <;> rfl
  unfold setupCommand stampOutgoing
  dsimp only
  rw [stamps, numbers]

namespace OutgoingCommand.Carries

variable {outgoing stamped : OutgoingCommand}

theorem of_bare (packet : outgoing.packet = none)
    (none : outgoing.command.command.dataLength = 0) : outgoing.Carries := by
  refine ⟨fun _ => ?_, fun carried => ?_, fun held same => ?_⟩
  · rw [none]
  · rw [packet] at carried
    cases carried
  · rw [packet] at same
    cases same

/-- A command made for a piece of a packet. -/
theorem of_piece {packet : Packet} {length : Nat} (carried : outgoing.packet = some packet)
    (named : outgoing.command.command.dataLength = u16 length)
    (short : outgoing.fragmentLength = u16 length)
    (inside : outgoing.fragmentOffset + length ≤ packet.dataLength) : outgoing.Carries := by
  refine ⟨fun none => ?_, fun _ => ?_, fun held same => ?_⟩
  · rw [none] at carried
    cases carried
  · rw [named, short, u16, u16, Nat.mod_mod]
  · cases carried.symm.trans same
    have less : u16 length ≤ length := Nat.mod_le ..
    rw [short]
    omega

theorem setupCommand (carries : outgoing.Carries) (peer : Peer) (totalQueued : Nat) :
    (peer.setupCommand totalQueued outgoing).Carries := by
  have stamps := peer.setupCommand_stamps totalQueued outgoing
  obtain ⟨bare, length, inside⟩ := carries
  refine ⟨?_, ?_, ?_⟩
  · rw [stamps.packet, peer.setupCommand_dataLength]
    exact bare
  · rw [stamps.packet, peer.setupCommand_dataLength, stamps.fragmentLength]
    exact length
  · rw [stamps.packet, stamps.fragmentOffset, stamps.fragmentLength]
    exact inside

theorem core (carries : outgoing.Carries) : outgoing.core.Carries :=
  ⟨carries.bare, carries.length, carries.inside⟩

theorem of_core (carries : outgoing.core.Carries) : outgoing.Carries :=
  ⟨carries.bare, carries.length, carries.inside⟩

end OutgoingCommand.Carries

/-! ## One peer -/

/-- Every command of a peer names the length of its data. -/
def Peer.Carrying (peer : Peer) : Prop := ∀ outgoing ∈ peer.pending, outgoing.Carries

namespace Peer.Carrying

variable {peer peer' : Peer}

theorem of_pending (carrying : peer.Carrying) (less : peer'.pending ≤ peer.pending) :
    peer'.Carrying :=
  fun outgoing member => carrying outgoing (Multiset.mem_of_le less member)

theorem of_none (none : peer.pending = 0) : peer.Carrying := by
  intro outgoing member
  rw [none] at member
  exact absurd member (Multiset.notMem_zero outgoing)

theorem setupOutgoingCommand (carrying : peer.Carrying) (totalQueued : Nat)
    {outgoing : OutgoingCommand} (carries : outgoing.Carries) :
    (peer.setupOutgoingCommand totalQueued outgoing).Carrying := by
  intro core member
  rw [peer.setupOutgoingCommand_pending totalQueued outgoing, Multiset.mem_add] at member
  rcases member with new | old
  · rw [Multiset.mem_singleton.mp new]
    exact (carries.setupCommand peer totalQueued).core
  · exact carrying core old

end Peer.Carrying

/-! ## All peers -/

/-- Every command of every peer names the length of its data. -/
def Carrying (host : Host) : Prop := ∀ index, (host.peers index).Carrying

namespace Carrying

variable {host host' : Host} {index : Nat}

theorem acts (carrying : Carrying host) (acts : ActsOn index host host')
    (own : (host'.peers index).Carrying) : Carrying host' := by
  intro other
  rcases eq_or_ne other index with same | different
  · rw [same]
    exact own
  · rw [acts.others other different]
    exact carrying other

theorem setPeer (carrying : Carrying host) {peer : Peer} (own : peer.Carrying) :
    Carrying (host.setPeer index peer) := by
  refine carrying.acts (.setPeer host index peer) ?_
  rw [Host.setPeer_self]
  exact own

/-- A change of a peer that leaves its queues. -/
theorem keep (carrying : Carrying host) {peer : Peer}
    (pending : peer.pending = (host.peers index).pending) : Carrying (host.setPeer index peer) :=
  carrying.setPeer ((carrying index).of_pending pending.le)

theorem setupOutgoingCommand (carrying : Carrying host) {outgoing : OutgoingCommand}
    (carries : outgoing.Carries) : Carrying (host.setupOutgoingCommand index outgoing) := by
  refine carrying.acts (.setupOutgoingCommand host index outgoing) ?_
  rw [Host.setupOutgoingCommand, Host.setPeer_self]
  exact (carrying index).setupOutgoingCommand _ carries

/-- A command of the connection carries no packet and names no data. -/
theorem queueOutgoingCommand (carrying : Carrying host) {command : Protocol}
    (bare : command.command.dataLength = 0) :
    Carrying (host.queueOutgoingCommand index command none 0 0).1 := by
  unfold Host.queueOutgoingCommand
  split
  · exact carrying
  next heap address _ =>
      exact @setupOutgoingCommand (host.setHeap heap) index carrying _ (.of_bare rfl bare)

/-- **An edit keeps what the commands say of their data.** -/
theorem edit (edit : Edit index host host') (carrying : Carrying host) : Carrying host' := by
  cases edit with
  | quiet quiet =>
      exact fun other => (carrying other).of_pending (quiet.peers other).pending.le
  | malloc => exact carrying
  | observe observation about fresh => exact carrying
  | schedule =>
      exact carrying.acts (.scheduleDispatch host index)
        ((carrying index).of_pending (ReceivesFor.scheduleDispatch host index).peer.pending.le)
  | unschedule =>
      exact @keep (host.setDispatchQueue (host.dispatchQueue.remove (.peer index))) index carrying
        _ rfl
  | changeState state used stays may =>
      refine carrying.acts (.changeState host index state) ?_
      rw [Host.changeState_peer]
      exact carrying index
  | eventData data => exact carrying.keep rfl
  | resetQueues =>
      refine carrying.acts (.resetQueues host index) ?_
      rw [Host.resetQueues_peer]
      exact .of_none (Peer.pending_eq_zero rfl rfl rfl)
  | reset =>
      refine carrying.acts (.peerReset host index) ?_
      obtain ⟨mtu, same⟩ := Host.peerReset_peer host index
      rw [same]
      exact .of_none (Peer.pending_eq_zero rfl rfl rfl)
  | clearChannels free => exact carrying.keep rfl
  | connecting address channelCount connectID slot free locally => exact carrying.keep rfl
  | accepted fields slot free channels admits => exact carrying.keep rfl
  | verified fields waits => exact carrying.keep rfl
  | bandwidth incomingBandwidth outgoingBandwidth =>
      unfold Host.handleBandwidthLimit
      dsimp only
      split
      · exact carrying
      · exact @keep (host.setBandwidthLimitedPeers _ _) index carrying _ rfl
  | queue command control bare => exact carrying.queueOutgoingCommand bare
  | removeSent number channelID =>
      have sends := SendsFor.removeSentReliableCommand host index number channelID
      refine carrying.acts sends.acts ((carrying index).of_pending ?_)
      rw [host.removeSentReliableCommand_pending index number channelID]
      exact Multiset.le_add_left ..
  | scanTimeouts => exact carrying.keep (Peer.checkTimeouts_pending ..)
  | receive step heard =>
      have receives := step.receivesFor
      exact carrying.acts receives.acts ((carrying index).of_pending receives.peer.pending.le)
  | acknowledge acknowledgement => exact carrying.keep rfl
  | acknowledged rest => exact carrying.keep rfl

/-! ## Packets -/

theorem foldl_setupOutgoingCommand {fragments : List OutgoingCommand} : ∀ {host : Host},
    Carrying host → (∀ fragment ∈ fragments, fragment.Carries) →
    Carrying (fragments.foldl (fun host fragment => host.setupOutgoingCommand index fragment)
      host) := by
  induction fragments with
  | nil => intro host carrying _; exact carrying
  | cons fragment rest ih =>
      intro host carrying carry
      exact ih (carrying.setupOutgoingCommand (carry fragment List.mem_cons_self))
        fun other member => carry other (List.mem_cons_of_mem fragment member)

/-- A fragment names the length of its piece. -/
theorem makeFragment_carries (channel : Channel) (channelID : Nat) (packet : Packet)
    (fragmentCount address number : Nat) {offset length : Nat}
    (inside : offset + length ≤ packet.dataLength) :
    (Host.makeFragment channel channelID packet fragmentCount address number offset
      length).Carries := by
  refine @OutgoingCommand.Carries.of_piece _ packet length rfl ?_ rfl inside
  unfold Host.makeFragment
  dsimp only
  split <;> rfl

theorem sendCommand_dataLength (channel : Channel) (channelID : Nat) (packet : Packet) :
    (Host.sendCommand channel channelID packet).command.dataLength = u16 packet.dataLength := by
  unfold Host.sendCommand
  split
  · rfl
  · split <;> rfl

/-- **A packet is sent in commands that name the length of their pieces.** -/
theorem peerSend (carrying : Carrying host) (index channelID : Nat) (packet : Packet) :
    Carrying (host.peerSend index channelID packet).1 := by
  unfold Host.peerSend
  dsimp only
  split
  · exact carrying
  · split
    · unfold Host.sendFragments
      dsimp only
      split
      · exact carrying
      · split
        · exact carrying
        next made =>
            have carry := Fitting.makeFragments_forall
              (fun address number offset length _ inside => makeFragment_carries
                ((host.peers index).channels channelID) channelID packet _ address number inside)
              (le_refl (host.fragmentLength index)) (by simp) made
            exact @foldl_setupOutgoingCommand index _ (host.setHeap _) carrying carry
    · have queues : Carrying (host.queueOutgoingCommand index
          (Host.sendCommand ((host.peers index).channels channelID) channelID packet)
          (some packet) 0 packet.dataLength).1 := by
        unfold Host.queueOutgoingCommand
        split
        · exact carrying
        next heap address _ =>
            refine @setupOutgoingCommand (host.setHeap (heap.acquire packet)) index carrying _ ?_
            exact .of_piece rfl (sendCommand_dataLength ..) rfl (Nat.zero_add _).le
      split
      next queued => rw [queued] at queues; exact queues
      next queued => rw [queued] at queues; exact queues

theorem maintained : Maintained fun host _ => Carrying host where
  edit := edit
  scan := by
    intro host index sentUnreliable carrying
    exact @setPeer ((host.setHeap (host.scanOutgoing index sentUnreliable).heap).setDatagram
      (host.scanOutgoing index sentUnreliable).datagram) index carrying _
        ((carrying index).of_pending (Peer.checkOutgoingCommands_pending_le ..))
  free := fun _ _ carrying => carrying
  take := by
    intro host index carrying
    have receives := ReceivesFor.peerReceive host index
    exact carrying.acts receives.acts ((carrying index).of_pending receives.peer.pending.le)
  packet := fun _ index channelID packet carrying => carrying.peerSend index channelID packet
  discard := fun _ _ _ carrying => carrying
  configure := fun _ _ _ _ _ _ _ _ carrying => carrying

theorem sendRun {before after : Sending} (run : SendRun before after)
    (carrying : Carrying before.1) : Carrying after.1 :=
  Library.runs_keep (fun sending : Sending => Carrying sending.1)
    (fun step holds => Library.runs_keep (fun sending : Sending => Carrying sending.1)
      maintained.work (Works.sendStep step) holds) run carrying

/-- **Every command names the length of its data wherever calls pass through.** -/
theorem visited {activity : Activity} (visited : Visited activity) : Carrying activity.1 :=
  maintained.visited (fun _ _ _ _ _ _ _ _ => .of_none (Peer.pending_eq_zero rfl rfl rfl)) visited

end Carrying

end Enet
