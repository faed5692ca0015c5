import Enet.Runs.Commands
import Enet.Runs.Ranges

/-!
# Commands that fit

Whatever an application sends is cut so that each of its commands fits into an
empty datagram of the mtu of its peer. The mtu of a peer changes only while
none of its commands carries a packet.
-/

set_option autoImplicit false

namespace Enet

open Relation

/-! ## One command -/

/-- A command without a packet carries no data, and one with a packet fits into an
empty datagram. A datagram has room for a fragment of a packet from an mtu of 32
bytes on. -/
structure OutgoingCommand.Fits (mtu : Nat) (outgoing : OutgoingCommand) : Prop where
  bare : outgoing.packet = none → outgoing.fragmentLength = 0
  short : outgoing.fragmentLength < 65536
  bounded : outgoing.packet.isSome = true → mtu ≤ protocolMaximumMtu
  room : outgoing.packet.isSome = true → 32 ≤ mtu →
    4 + outgoing.command.size + outgoing.fragmentLength ≤ mtu

namespace OutgoingCommand.Fits

variable {mtu mtu' : Nat} {outgoing stamped : OutgoingCommand}

theorem of_bare (packet : outgoing.packet = none) (length : outgoing.fragmentLength = 0) :
    outgoing.Fits mtu := by
  refine ⟨fun _ => length, by omega, fun carried => ?_, fun carried => ?_⟩
  · rw [packet] at carried
    cases carried
  · rw [packet] at carried
    cases carried

theorem congr (fits : outgoing.Fits mtu) (packet : outgoing.packet = none) :
    outgoing.Fits mtu' := of_bare packet (fits.bare packet)

theorem stamps (fits : outgoing.Fits mtu) (stamps : Peer.Stamps outgoing stamped) :
    stamped.Fits mtu := by
  obtain ⟨bare, short, bounded, room⟩ := fits
  refine ⟨?_, ?_, ?_, ?_⟩
  · rw [stamps.packet, stamps.fragmentLength]
    exact bare
  · rw [stamps.fragmentLength]
    exact short
  · rw [stamps.packet]
    exact bounded
  · rw [stamps.packet, stamps.size, stamps.fragmentLength]
    exact room

theorem core (fits : outgoing.Fits mtu) : outgoing.core.Fits mtu :=
  ⟨fits.bare, fits.short, fits.bounded, fits.room⟩

theorem of_core (fits : outgoing.core.Fits mtu) : outgoing.Fits mtu :=
  ⟨fits.bare, fits.short, fits.bounded, fits.room⟩

/-- A command of a packet that is no longer than what `enet_peer_send` puts in one. -/
theorem of_length (bounded : mtu ≤ protocolMaximumMtu) {length : Nat}
    (short : outgoing.fragmentLength = u16 length) (small : outgoing.command.size ≤ 24)
    (fits : 32 ≤ mtu → length + 28 ≤ mtu) (carried : outgoing.packet.isSome = true) :
    outgoing.Fits mtu := by
  have le : u16 length ≤ length := Nat.mod_le ..
  refine ⟨fun none => ?_, ?_, fun _ => bounded, fun _ wide => ?_⟩
  · rw [none] at carried
    cases carried
  · rw [short]
    exact Nat.mod_lt _ (by decide)
  · have narrow := fits wide
    rw [short]
    omega

end OutgoingCommand.Fits

/-! ## One peer -/

/-- Every command of a peer fits, and none carries a packet before the mtu is settled. -/
structure Peer.Fitting (peer : Peer) : Prop where
  commands : ∀ outgoing ∈ peer.pending, outgoing.Fits peer.mtu
  unsettled : peer.state = .disconnected ∨ peer.state = .connecting →
    ∀ outgoing ∈ peer.pending, outgoing.packet = none

namespace Peer.Fitting

variable {peer peer' : Peer}

theorem of_pending (fitting : peer.Fitting) (less : peer'.pending ≤ peer.pending)
    (mtu : peer'.mtu = peer.mtu) (state : peer'.state = peer.state) : peer'.Fitting := by
  refine ⟨fun outgoing member => ?_, fun early outgoing member => ?_⟩
  · rw [mtu]
    exact fitting.commands outgoing (Multiset.mem_of_le less member)
  · rw [state] at early
    exact fitting.unsettled early outgoing (Multiset.mem_of_le less member)

theorem of_none (none : peer.pending = 0) : peer.Fitting := by
  refine ⟨fun outgoing member => ?_, fun _ outgoing member => ?_⟩
  · rw [none] at member
    exact absurd member (Multiset.notMem_zero outgoing)
  · rw [none] at member
    exact absurd member (Multiset.notMem_zero outgoing)

/-- A change of the mtu while no command carries a packet. -/
theorem of_unsettled (fitting : peer.Fitting)
    (early : peer.state = .disconnected ∨ peer.state = .connecting)
    (same : peer'.pending = peer.pending) : peer'.Fitting := by
  refine ⟨fun outgoing member => ?_, fun _ outgoing member => ?_⟩
  · rw [same] at member
    exact (fitting.commands outgoing member).congr (fitting.unsettled early outgoing member)
  · rw [same] at member
    exact fitting.unsettled early outgoing member

/-- A command of a queue. -/
theorem queued (fitting : peer.Fitting) {outgoing : OutgoingCommand}
    (member : outgoing ∈ peer.outgoingCommands ++ peer.outgoingSendReliableCommands ++
      peer.sentReliableCommands) : outgoing.Fits peer.mtu := by
  refine (fitting.commands outgoing.core ?_).of_core
  have listed := core_mem_cores member
  rw [cores_append, cores_append] at listed
  exact listed

theorem setupOutgoingCommand (fitting : peer.Fitting) (totalQueued : Nat)
    {outgoing : OutgoingCommand} (fits : outgoing.Fits peer.mtu)
    (settled : peer.state = .disconnected ∨ peer.state = .connecting → outgoing.packet = none) :
    (peer.setupOutgoingCommand totalQueued outgoing).Fitting := by
  have sending := SendingOnly.setupOutgoingCommand peer totalQueued outgoing
  have stamps := peer.setupCommand_stamps totalQueued outgoing
  have pending := peer.setupOutgoingCommand_pending totalQueued outgoing
  have new : ∀ core ∈ (peer.setupOutgoingCommand totalQueued outgoing).pending,
      core = (peer.setupCommand totalQueued outgoing).core ∨ core ∈ peer.pending := by
    intro core member
    rw [pending, Multiset.mem_add] at member
    exact member.imp_left Multiset.mem_singleton.mp
  refine ⟨fun core member => ?_, fun early core member => ?_⟩
  · rw [sending.mtu]
    rcases new core member with same | old
    · rw [same]
      exact (fits.stamps stamps).core
    · exact fitting.commands core old
  · rw [sending.state] at early
    rcases new core member with same | old
    · rw [same]
      exact stamps.packet.trans (settled early)
    · exact fitting.unsettled early core old

end Peer.Fitting

/-! ## The loop that fills a datagram -/

/-- The loop takes commands out of the queues and adds none. -/
theorem OutgoingScan.run_pending_le (serviceTime fuel : Nat) : ∀ scan : OutgoingScan,
    (run serviceTime fuel scan).pending ≤ scan.pending := by
  induction fuel with
  | zero => intro scan; exact le_refl _
  | succ fuel ih =>
      intro scan
      unfold run
      split
      · exact le_refl _
      next reliable outgoing found =>
          have stepped := step_pending_le serviceTime found
          dsimp only
          split
          · exact (ih _).trans stepped
          · exact stepped

theorem Peer.checkOutgoingCommands_pending_le (peer : Peer) (heap : Heap) (datagram : Datagram)
    (sentUnreliable : List OutgoingCommand) (serviceTime : Nat) :
    (peer.checkOutgoingCommands heap datagram sentUnreliable serviceTime).finish.pending ≤
      peer.pending :=
  OutgoingScan.run_pending_le serviceTime _ _

/-! ## All peers -/

/-- Every peer is within its ranges, and its commands fit. -/
structure Fitting (host : Host) : Prop where
  ranged : Ranged host
  peers : ∀ index, (host.peers index).Fitting

namespace Fitting

variable {host host' : Host} {index : Nat}

theorem acts (fitting : Fitting host) (acts : ActsOn index host host') (ranged : Ranged host')
    (own : (host'.peers index).Fitting) : Fitting host' := by
  refine ⟨ranged, fun other => ?_⟩
  rcases eq_or_ne other index with same | different
  · rw [same]
    exact own
  · rw [acts.others other different]
    exact fitting.peers other

theorem setPeer (fitting : Fitting host) {peer : Peer} (ranged : Ranged (host.setPeer index peer))
    (own : peer.Fitting) : Fitting (host.setPeer index peer) := by
  refine fitting.acts (.setPeer host index peer) ranged ?_
  rw [Host.setPeer_self]
  exact own

/-- A change of a peer that leaves its queues, mtu and state. -/
theorem keep (fitting : Fitting host) {peer : Peer} (ranged : Ranged (host.setPeer index peer))
    (pending : peer.pending = (host.peers index).pending)
    (mtu : peer.mtu = (host.peers index).mtu)
    (state : peer.state = (host.peers index).state) : Fitting (host.setPeer index peer) :=
  fitting.setPeer ranged ((fitting.peers index).of_pending pending.le mtu state)

theorem setupOutgoingCommand (fitting : Fitting host) {outgoing : OutgoingCommand}
    (fits : outgoing.Fits (host.peers index).mtu)
    (settled : (host.peers index).state = .disconnected ∨
      (host.peers index).state = .connecting → outgoing.packet = none) :
    Fitting (host.setupOutgoingCommand index outgoing) := by
  refine fitting.acts (.setupOutgoingCommand host index outgoing)
    (fitting.ranged.sendsFor (.setupOutgoingCommand host index outgoing)) ?_
  rw [Host.setupOutgoingCommand, Host.setPeer_self]
  exact (fitting.peers index).setupOutgoingCommand _ fits settled

/-- A command of the connection carries no packet. -/
theorem queueOutgoingCommand (fitting : Fitting host) (command : Protocol) :
    Fitting (host.queueOutgoingCommand index command none 0 0).1 := by
  unfold Host.queueOutgoingCommand
  split
  · exact ⟨fitting.ranged, fitting.peers⟩
  next heap address _ =>
      exact @setupOutgoingCommand (host.setHeap heap) index ⟨fitting.ranged, fitting.peers⟩ _
        (.of_bare rfl rfl) fun _ => rfl

/-- **An edit keeps the commands that fit.** -/
theorem edit (edit : Edit index host host') (fitting : Fitting host) : Fitting host' := by
  have ranged := Ranged.edit edit fitting.ranged
  cases edit with
  | quiet quiet =>
      refine ⟨ranged, fun other => (fitting.peers other).of_pending ?_ ?_ ?_⟩
      · exact (quiet.peers other).pending.le
      · exact (quiet.peers other).mtu
      · exact (quiet.peers other).state
  | malloc => exact ⟨ranged, fitting.peers⟩
  | observe observation about fresh => exact ⟨ranged, fitting.peers⟩
  | schedule =>
      refine fitting.acts (.scheduleDispatch host index) ranged ?_
      have receiving := (ReceivesFor.scheduleDispatch host index).peer
      exact (fitting.peers index).of_pending receiving.pending.le receiving.mtu receiving.state
  | unschedule =>
      exact @keep (host.setDispatchQueue (host.dispatchQueue.remove (.peer index))) index
        ⟨fitting.ranged, fitting.peers⟩ _ ranged rfl rfl rfl
  | changeState state used stays may =>
      refine fitting.acts (.changeState host index state) ranged ?_
      rw [Host.changeState_peer]
      refine ⟨(fitting.peers index).commands, fun early => ?_⟩
      exact early.elim (fun free => absurd free stays.1) fun waits => absurd waits stays.2
  | eventData data => exact fitting.keep ranged rfl rfl rfl
  | resetQueues =>
      refine fitting.acts (.resetQueues host index) ranged ?_
      rw [Host.resetQueues_peer]
      exact .of_none (Peer.pending_eq_zero rfl rfl rfl)
  | reset =>
      refine fitting.acts (.peerReset host index) ranged ?_
      obtain ⟨mtu, same⟩ := Host.peerReset_peer host index
      rw [same]
      exact .of_none (Peer.pending_eq_zero rfl rfl rfl)
  | clearChannels free => exact fitting.keep ranged rfl rfl rfl
  | connecting address channelCount connectID slot free locally =>
      exact fitting.setPeer ranged ((fitting.peers index).of_unsettled (.inl free) rfl)
  | accepted fields slot free channels admits =>
      exact fitting.setPeer ranged ((fitting.peers index).of_unsettled (.inl free) rfl)
  | verified fields waits =>
      exact fitting.setPeer ranged ((fitting.peers index).of_unsettled (.inr waits) rfl)
  | bandwidth incomingBandwidth outgoingBandwidth =>
      revert ranged
      unfold Host.handleBandwidthLimit
      dsimp only
      split
      · exact fun _ => fitting
      · intro ranged
        exact @keep (host.setBandwidthLimitedPeers _ _) index ⟨fitting.ranged, fitting.peers⟩ _
          ranged rfl rfl rfl
  | queue command control bare => exact fitting.queueOutgoingCommand command
  | removeSent number channelID =>
      have sends := SendsFor.removeSentReliableCommand host index number channelID
      refine fitting.acts sends.acts ranged ?_
      refine (fitting.peers index).of_pending ?_ sends.peer.mtu sends.peer.state
      rw [host.removeSentReliableCommand_pending index number channelID]
      exact Multiset.le_add_left ..
  | scanTimeouts =>
      have sending := Peer.SendingOnly.checkTimeouts (host.peers index) host.serviceTime
      exact fitting.keep ranged (Peer.checkTimeouts_pending ..) sending.mtu sending.state
  | receive step heard =>
      have receives := step.receivesFor
      refine fitting.acts receives.acts ranged ?_
      exact (fitting.peers index).of_pending receives.peer.pending.le receives.peer.mtu
        receives.peer.state
  | acknowledge acknowledgement => exact fitting.keep ranged rfl rfl rfl
  | acknowledged rest => exact fitting.keep ranged rfl rfl rfl

/-! ## Packets -/

/-- A command of a packet as `enet_peer_send` makes it. -/
theorem fits_of_length (ranged : Ranged host) (connected : (host.peers index).state = .connected)
    {outgoing : OutgoingCommand} {length : Nat} (short : outgoing.fragmentLength = u16 length)
    (fits : length ≤ host.fragmentLength index) (small : outgoing.command.size ≤ 24)
    (carried : outgoing.packet.isSome = true) : outgoing.Fits (host.peers index).mtu := by
  have bounded := (ranged index).mtu (by rw [connected]; rfl)
  refine .of_length bounded short small (fun wide => ?_) carried
  unfold Host.fragmentLength sub64 at fits
  simp only [protocolMaximumMtu] at bounded
  dsimp only at fits
  grind

/-- What holds of the commands that are made for pieces of a packet, up to a length, holds of
all of them. -/
theorem makeFragments_forall {Property : OutgoingCommand → Prop} {limit : Nat} {packet : Packet}
    {make : Nat → Nat → Nat → Nat → OutgoingCommand}
    (holds : ∀ address number offset length, length ≤ limit →
      offset + length ≤ packet.dataLength → Property (make address number offset length))
    {fuel : Nat} {heap' : Heap}
    {made : List OutgoingCommand} : ∀ {heap : Heap} {length number offset : Nat}
      {fragments : List OutgoingCommand}, length ≤ limit →
      (∀ fragment ∈ fragments, Property fragment) →
      Host.makeFragments packet make fuel heap length number offset fragments =
        (heap', some made) →
      ∀ fragment ∈ made, Property fragment := by
  induction fuel with
  | zero => intro heap length number offset fragments within before makes; cases makes
  | succ fuel ih =>
      intro heap length number offset fragments within before makes
      unfold Host.makeFragments at makes
      split at makes
      · dsimp only at makes
        have shorter : (if packet.dataLength - offset < length then packet.dataLength - offset
            else length) ≤ limit := by
          split <;> omega
        have inside : offset + (if packet.dataLength - offset < length then
            packet.dataLength - offset else length) ≤ packet.dataLength := by
          split <;> omega
        split at makes
        · cases makes
        · refine ih shorter ?_ makes
          intro fragment member
          rcases List.mem_append.mp member with old | new
          · exact before fragment old
          · rw [List.mem_singleton.mp new]
            exact holds _ _ _ _ shorter inside
      · cases makes
        exact before

theorem foldl_setupOutgoingCommand {fragments : List OutgoingCommand} : ∀ {host : Host},
    Fitting host → (host.peers index).state = .connected →
    (∀ fragment ∈ fragments, fragment.Fits (host.peers index).mtu) →
    Fitting (fragments.foldl (fun host fragment => host.setupOutgoingCommand index fragment)
      host) := by
  induction fragments with
  | nil => intro host fitting _ _; exact fitting
  | cons fragment rest ih =>
      intro host fitting connected fits
      have sending := Host.setupOutgoingCommand_sendingOnly host index fragment
      refine @ih (host.setupOutgoingCommand index fragment) ?_ ?_ ?_
      · refine fitting.setupOutgoingCommand (fits fragment List.mem_cons_self) fun early => ?_
        rw [connected] at early
        rcases early with free | waits
        · cases free
        · cases waits
      · rw [sending.state]
        exact connected
      · rw [sending.mtu]
        exact fun other member => fits other (List.mem_cons_of_mem fragment member)

theorem makeFragment_size (channel : Channel) (channelID : Nat) (packet : Packet)
    (fragmentCount address number offset length : Nat) :
    (Host.makeFragment channel channelID packet fragmentCount address number offset
      length).command.size ≤ 24 := by
  unfold Host.makeFragment Protocol.size
  dsimp only
  split <;> exact le_refl 24

theorem sendCommand_size (channel : Channel) (channelID : Nat) (packet : Packet) :
    (Host.sendCommand channel channelID packet).size ≤ 24 := by
  unfold Host.sendCommand Protocol.size
  split
  · exact (by decide : 8 ≤ 24)
  · split
    · exact (by decide : 6 ≤ 24)
    · exact (by decide : 8 ≤ 24)

/-- **A packet is sent in commands that fit.** -/
theorem peerSend (fitting : Fitting host) (index channelID : Nat) (packet : Packet) :
    Fitting (host.peerSend index channelID packet).1 := by
  unfold Host.peerSend
  dsimp only
  split
  · exact fitting
  next may =>
      have connected : (host.peers index).state = .connected :=
        not_not.mp (not_or.mp may).1
      split
      · unfold Host.sendFragments
        dsimp only
        split
        · exact fitting
        · split
          · exact ⟨fitting.ranged, fitting.peers⟩
          next made =>
              have fits := makeFragments_forall (fun address number offset length within _ =>
                fits_of_length fitting.ranged connected rfl within (makeFragment_size ..) rfl)
                (le_refl (host.fragmentLength index)) (by simp) made
              exact foldl_setupOutgoingCommand ⟨fitting.ranged, fitting.peers⟩ connected fits
      next short =>
          have queues : Fitting (host.queueOutgoingCommand index
              (Host.sendCommand ((host.peers index).channels channelID) channelID packet)
              (some packet) 0 packet.dataLength).1 := by
            unfold Host.queueOutgoingCommand
            split
            · exact ⟨fitting.ranged, fitting.peers⟩
            next heap address _ =>
                refine @setupOutgoingCommand (host.setHeap (heap.acquire packet)) index
                  ⟨fitting.ranged, fitting.peers⟩ _ ?_ fun early => ?_
                · exact fits_of_length fitting.ranged connected rfl (Nat.not_lt.mp short)
                    (sendCommand_size ..) rfl
                · rcases early with free | waits
                  · cases connected.symm.trans free
                  · cases connected.symm.trans waits
          split
          next queued => rw [queued] at queues; exact queues
          next queued => rw [queued] at queues; exact queues

theorem edits (fitting : Fitting host) (edits : Edits index host host') : Fitting host' :=
  Library.runs_keep Fitting edit edits fitting

theorem maintained : Maintained fun host _ => Fitting host where
  edit := edit
  scan := by
    intro host index sentUnreliable fitting
    have scanned : Fitting ((host.setHeap (host.scanOutgoing index sentUnreliable).heap).setDatagram
        (host.scanOutgoing index sentUnreliable).datagram) := ⟨fitting.ranged, fitting.peers⟩
    have sending := Peer.SendingOnly.checkOutgoingCommands (host.peers index) host.heap
      host.datagram sentUnreliable host.serviceTime
    refine scanned.setPeer (Ranged.maintained.scan host index sentUnreliable fitting.ranged) ?_
    exact (fitting.peers index).of_pending (Peer.checkOutgoingCommands_pending_le ..) sending.mtu
      sending.state
  free := fun _ _ fitting => ⟨fitting.ranged, fitting.peers⟩
  take := by
    intro host index fitting
    have receives := ReceivesFor.peerReceive host index
    refine fitting.acts receives.acts (Ranged.maintained.take host index fitting.ranged) ?_
    exact (fitting.peers index).of_pending receives.peer.pending.le receives.peer.mtu
      receives.peer.state
  packet := fun _ index channelID packet fitting => fitting.peerSend index channelID packet
  discard := fun _ _ _ fitting => ⟨fitting.ranged, fitting.peers⟩
  configure := fun _ _ _ _ _ _ _ _ fitting => ⟨fitting.ranged, fitting.peers⟩

theorem sendRun {before after : Sending} (run : SendRun before after)
    (fitting : Fitting before.1) : Fitting after.1 :=
  Library.runs_keep (fun sending : Sending => Fitting sending.1)
    (fun step holds => Library.runs_keep (fun sending : Sending => Fitting sending.1)
      maintained.work (Works.sendStep step) holds) run fitting

/-- **Every command fits wherever calls pass through.** -/
theorem visited {activity : Activity} (visited : Visited activity) : Fitting activity.1 :=
  maintained.visited (fun _ _ _ _ _ _ _ => ⟨Ranged.create _ _ _ _ _ _ _, fun _ =>
    .of_none (Peer.pending_eq_zero rfl rfl rfl)⟩) visited

end Fitting

end Enet
