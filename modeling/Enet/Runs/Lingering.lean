import Enet.Datagrams.Packing
import Enet.Runs.Awaiting
import Enet.Runs.Events

/-!
# Peers that disconnect later

`enet_peer_disconnect_later` leaves a peer with outgoing commands in the state
`DISCONNECT_LATER`. The commands that it then has leave its queues one by one, and
four places look whether all are gone: the call itself, an acknowledgement, the end
of the loop that fills a datagram, and the end of its transmission.

A run is cut into pieces here, each of which says whether it disturbs a peer: by a
reset, a timeout that gives it up, a DISCONNECT command from the remote host, or a
disconnection by the application.
-/

set_option autoImplicit false

namespace Enet

open Relation

/-! ## Pieces of a run -/

/-- One piece of a run, and whether it resets a peer, gives it up, handles a
DISCONNECT command for it, or disconnects it on behalf of the application. -/
inductive Piece (index : Nat) : Bool → Sending → Sending → Prop where
  | send {before after : Sending} (step : SendStep before after) : Piece index false before after
  | command (host : Host) (event : Option Event) (other : Nat) (sentTime : Option Nat)
      (command : Protocol) (data : List UInt8) (current : Current event other) :
      Piece index (decide (other = index) && command.command.isDisconnect) (host, [])
        ((host.commandStep event other sentTime command data).1, [])
  | accept (host : Host) (event : Option Event) (fields : Connect)
      (fresh : Host.isStored event = false) :
      Piece index false (host, []) ((host.handleConnect fields).1, [])
  | timeouts (host : Host) (event : Option Event) (other : Nat)
      (fresh : Host.isStored event = false) :
      Piece index (decide (other = index) && (host.checkTimeouts other event).2.2) (host, [])
        ((host.checkTimeouts other event).1, [])
  | dispatch (host : Host) (event : Event) (other : Nat)
      (first : host.dispatchQueue.next .sentinel = .peer other)
      (fresh : Host.isStored (some event) = false) :
      Piece index false (host, []) ((host.dispatchTurn other event).1, [])
  | connect (host : Host) (address : Address) (channelCount data : Nat) :
      Piece index false (host, []) ((host.hostConnect address channelCount data).1, [])
  | packet (host : Host) (other channelID : Nat) (packet : Packet) :
      Piece index false (host, []) ((host.peerSend other channelID packet).1, [])
  | receive (host : Host) (other : Nat) :
      Piece index false (host, []) ((host.peerReceive other).1, [])
  | reset (host : Host) (other : Nat) :
      Piece index (decide (other = index)) (host, []) (host.peerReset other, [])
  | startDisconnect (host : Host) (other data : Nat)
      (connected : (host.peers other).state.isConnected = true) :
      Piece index (decide (other = index)) (host, []) (host.startDisconnect other data, [])
  | disconnectLater (host : Host) (other data : Nat)
      (connected : (host.peers other).state.isConnected = true) :
      Piece index false (host, [])
        (host.setPeer other (((host.peers other).setState .disconnectLater).setEventData data), [])
  | disconnectDrained (host : Host) (other data : Nat)
      (connected : (host.peers other).state.isConnected = true)
      (drained : (host.peers other).hasOutgoingCommands = false) :
      Piece index false (host, []) (host.startDisconnect other data, [])
  | abandons (host : Host) (other data : Nat) :
      Piece index (decide (other = index)) (host, [])
        (((host.resetQueues other).queueOutgoingCommand other
          (Host.disconnectCommand data) none 0 0).1, [])
  | discard (host : Host) (packet : Packet)
      (unreferenced : host.heap.referenceCount packet.address = 0) :
      Piece index false (host, []) (host.setHeap (host.heap.destroy packet), [])
  | configure (host : Host) (mtu duplicatePeers maximumPacketSize maximumWaitingData : Nat)
      (checksum : Option (List UInt8 → Nat)) (compressor : Option Compressor) :
      Piece index false (host, [])
        (host.configure mtu duplicatePeers maximumPacketSize maximumWaitingData checksum
          compressor, [])

/-- Pieces in sequence, whether or not they disturb a peer. -/
abbrev Pieces (index : Nat) : Sending → Sending → Prop :=
  ReflTransGen fun before after => ∃ disturbs, Piece index disturbs before after

/-- What `enet_peer_disconnect_later` does to a connected peer. -/
theorem peerDisconnectLater_connected {fuel : Nat} {host host' : Host} {index data : Nat}
    (connected : (host.peers index).state.isConnected = true)
    (called : host.peerDisconnectLater fuel index data = some host') :
    (host.peers index).hasOutgoingCommands = true ∧ host' =
        host.setPeer index (((host.peers index).setState .disconnectLater).setEventData data) ∨
      (host.peers index).hasOutgoingCommands = false ∧ host' = host.startDisconnect index data := by
  unfold Host.peerDisconnectLater at called
  dsimp only at called
  rw [connected, Bool.true_and] at called
  cases queued : (host.peers index).hasOutgoingCommands with
  | true =>
      rw [queued, if_pos rfl] at called
      exact .inl ⟨rfl, (Option.some.inj called).symm⟩
  | false =>
      rw [queued, if_neg Bool.false_ne_true] at called
      unfold Host.peerDisconnect at called
      dsimp only at called
      rw [if_neg, if_pos connected] at called
      · exact .inr ⟨rfl, (Option.some.inj called).symm⟩
      · intro closing
        rcases closing with same | same | same | same <;>
          (rw [same] at connected; cases connected)

/-- **A step of a call is a sequence of pieces.** -/
theorem Step.pieces {before after : Activity} (step : Step before after) (index : Nat) :
    Pieces index (before.1, []) (after.1, []) := by
  have sends : ∀ {before after : Sending}, SendRun before after → Pieces index before after :=
    fun run => Library.runs_relate (Pieces index) (fun _ => .refl) (fun first => first.trans)
      (fun step => .single ⟨_, .send step⟩) run
  cases step with
  | send event sent => exact sends sent
  | command host event other sentTime command data current =>
      exact .single ⟨_, .command host event other sentTime command data current⟩
  | accept host event fields fresh => exact .single ⟨_, .accept host event fields fresh⟩
  | timeouts host event other fresh => exact .single ⟨_, .timeouts host event other fresh⟩
  | dispatch host event other first fresh =>
      exact .single ⟨_, .dispatch host event other first fresh⟩
  | connect host address channelCount data =>
      exact .single ⟨_, .connect host address channelCount data⟩
  | packet host other channelID packet => exact .single ⟨_, .packet host other channelID packet⟩
  | receive host other => exact .single ⟨_, .receive host other⟩
  | reset host other => exact .single ⟨_, .reset host other⟩
  | startDisconnect host other data connected =>
      exact .single ⟨_, .startDisconnect host other data connected⟩
  | disconnectLater host other data connected =>
      exact .single ⟨_, .disconnectLater host other data connected⟩
  | abandon host other data sent =>
      exact ((ReflTransGen.single ⟨_, .abandons host other data⟩).trans (sends sent)).tail
        ⟨_, .reset _ other⟩
  | discard host packet unreferenced => exact .single ⟨_, .discard host packet unreferenced⟩
  | configure host mtu duplicatePeers maximumPacketSize maximumWaitingData checksum compressor =>
      exact .single ⟨_, .configure host ..⟩

/-- **A call is a sequence of pieces.** -/
theorem call_pieces {fuel : Nat} {host host' : Host} (call : Host.Call) {event : Option Event}
    {value : Int} (returns : call.run fuel host = some (host', event, value)) (index : Nat) :
    Pieces index (host, []) (host', []) :=
  Library.runs_relate
    (fun before after : Activity => Pieces index (before.1, []) (after.1, []))
    (fun _ => .refl) (fun first => first.trans) (fun step => Step.pieces step index)
    (call_run call returns)

/-- **What is maintained is kept by every piece.** -/
theorem MaintainedUnder.piece {Invariant : Host → List OutgoingCommand → Prop}
    (maintained : Maintained Invariant) {index : Nat} {disturbs : Bool} {before after : Sending}
    (piece : Piece index disturbs before after) (holds : Invariant before.1 before.2) :
    Invariant after.1 after.2 := by
  cases piece with
  | send step =>
      exact Library.runs_keep (fun sending : Sending => Invariant sending.1 sending.2)
        maintained.work (Works.sendStep step) holds
  | command host event other sentTime command data current =>
      exact maintained.step (.command host event other sentTime command data current) holds
  | accept host event fields fresh => exact maintained.step (.accept host event fields fresh) holds
  | timeouts host event other fresh =>
      exact maintained.step (.timeouts host event other fresh) holds
  | dispatch host event other first fresh =>
      exact maintained.step (.dispatch host event other first fresh) holds
  | connect host address channelCount data =>
      exact maintained.step (.connect host address channelCount data) holds
  | packet host other channelID packet =>
      exact maintained.step (.packet host other channelID packet trivial) holds
  | receive host other => exact maintained.step (.receive host other trivial) holds
  | reset host other => exact maintained.step (.reset host other) holds
  | startDisconnect host other data connected =>
      exact maintained.step (.startDisconnect host other data connected) holds
  | disconnectLater host other data connected =>
      exact maintained.step (.disconnectLater host other data connected) holds
  | disconnectDrained host other data connected drained =>
      exact maintained.step (.startDisconnect host other data connected) holds
  | abandons host other data =>
      exact maintained.edit (@Edit.queue other _ (Host.disconnectCommand data) rfl rfl)
        (maintained.edit (@Edit.resetQueues other host) holds)
  | discard host packet unreferenced =>
      exact maintained.step (.discard host packet unreferenced trivial) holds
  | configure host mtu duplicatePeers maximumPacketSize maximumWaitingData checksum compressor =>
      exact maintained.step (.configure host mtu duplicatePeers maximumPacketSize
        maximumWaitingData checksum compressor trivial) holds

/-! ## What leaves in the loop that fills a datagram -/

namespace OutgoingScan

/-- How a command leaves the queues in the loop: it is placed in the datagram, or the
throttle drops it. -/
inductive Departs (serviceTime : Nat) (origin finish : OutgoingScan) (outgoing : OutgoingCommand) :
    Prop where
  | placed (unreliable : outgoing.command.acknowledge = false)
      (part : ⟨outgoing.command, payload outgoing⟩ ∈ finish.datagram.parts)
  | throttled (scan scan' : OutgoingScan) (first : OutgoingCommand)
      (dropped : List OutgoingCommand) (reached : ReflTransGen (Turn serviceTime) origin scan)
      (turn : Turn serviceTime scan scan') (throttles : scan.Throttles scan' first dropped)
      (taken : outgoing ∈ cores (first :: dropped))

/-- A turn that ends the loop takes nothing out of the queues. -/
theorem step_pending_of_end {scan : OutgoingScan} {serviceTime : Nat} {reliable : Bool}
    {outgoing : OutgoingCommand} (ends : (scan.step serviceTime reliable outgoing).2 = false) :
    (scan.step serviceTime reliable outgoing).1.pending = scan.pending := by
  unfold step at ends ⊢
  split at ends
  next acknowledge =>
      rw [if_pos acknowledge]
      split at ends
      · cases ends
      next open' =>
          rw [if_neg open']
          split at ends
          · cases ends
          next unblocked =>
              rw [if_neg unblocked]
              split at ends
              · cases ends
              next allowed =>
                  rw [if_neg allowed]
                  split at ends
                  next full =>
                      rw [if_pos full]
                      rfl
                  · cases ends
  next unreliable =>
      rw [if_neg unreliable]
      split at ends
      next full =>
          rw [if_pos full]
          rfl
      · cases ends

/-- The loop only adds parts to the datagram. -/
theorem run_parts (serviceTime fuel : Nat) : ∀ scan : OutgoingScan,
    ∃ parts, (run serviceTime fuel scan).datagram.parts = scan.datagram.parts ++ parts := by
  induction fuel with
  | zero => intro scan; exact ⟨[], (List.append_nil _).symm⟩
  | succ fuel ih =>
      intro scan
      unfold run
      split
      · exact ⟨[], (List.append_nil _).symm⟩
      next reliable outgoing found =>
          have steps : ∃ parts, (scan.step serviceTime reliable outgoing).1.datagram.parts =
              scan.datagram.parts ++ parts := by
            rcases step_pending serviceTime found with ⟨-, grows⟩ | places | ⟨dropped, throttles⟩
            · exact grows
            · exact ⟨_, places.part⟩
            · exact ⟨[], throttles.parts.trans (List.append_nil _).symm⟩
          dsimp only
          split
          · obtain ⟨first, grows⟩ := steps
            obtain ⟨rest, more⟩ := ih (scan.step serviceTime reliable outgoing).1
            exact ⟨first ++ rest, by rw [more, grows, List.append_assoc]⟩
          · exact steps

/-- **What the loop takes out of the queues** is placed in the datagram or dropped by
the throttle. -/
theorem run_departs {serviceTime : Nat} {origin : OutgoingScan} (fuel : Nat) :
    ∀ {scan : OutgoingScan}, ReflTransGen (Turn serviceTime) origin scan →
      ∃ left, scan.pending = left + (run serviceTime fuel scan).pending ∧
        ∀ outgoing ∈ left, Departs serviceTime origin (run serviceTime fuel scan) outgoing := by
  induction fuel with
  | zero =>
      intro scan _
      exact ⟨0, (zero_add _).symm, fun outgoing member => absurd member (Multiset.notMem_zero _)⟩
  | succ fuel ih =>
      intro scan reached
      unfold run
      split
      · exact ⟨0, (zero_add _).symm, fun outgoing member => absurd member (Multiset.notMem_zero _)⟩
      next reliable outgoing found =>
          dsimp only
          split
          next continues =>
              have turn : Turn serviceTime scan (scan.step serviceTime reliable outgoing).1 :=
                ⟨reliable, outgoing, found, Prod.ext rfl continues⟩
              obtain ⟨left, pending, departs⟩ := ih (reached.tail turn)
              rcases step_pending serviceTime found with ⟨same, -⟩ | places | ⟨dropped, throttles⟩
              · exact ⟨left, same ▸ pending, departs⟩
              · refine ⟨cores [outgoing] + left, ?_, fun other member => ?_⟩
                · rw [places.leaves, pending, add_assoc]
                · rcases Multiset.mem_add.mp member with here | later
                  · rw [Multiset.mem_singleton.mp here]
                    refine .placed places.unreliable ?_
                    obtain ⟨parts, more⟩ := run_parts serviceTime fuel
                      (scan.step serviceTime reliable outgoing).1
                    rw [more, places.part]
                    exact List.mem_append_left _ (List.mem_append_right _
                      (List.mem_singleton_self _))
                  · exact departs other later
              · refine ⟨cores (outgoing :: dropped) + left, ?_, fun other member => ?_⟩
                · rw [throttles.leaves, pending, add_assoc]
                · rcases Multiset.mem_add.mp member with here | later
                  · exact .throttled scan _ outgoing dropped reached turn throttles here
                  · exact departs other later
          next ends =>
              exact ⟨0, by rw [step_pending_of_end (by simpa using ends), zero_add],
                fun outgoing member => absurd member (Multiset.notMem_zero _)⟩

end OutgoingScan

/-! ## What a piece does to a peer that disconnects later -/

/-- The commands in the queues of a peer. -/
abbrev queued (index : Nat) (sending : Sending) : Multiset OutgoingCommand :=
  (sending.1.peers index).pending

/-- How a command leaves the queues of a peer in a piece: it is acknowledged, it is
placed in the datagram of the peer, or the throttle drops it. -/
inductive Leaves (index : Nat) (before after : Sending) (outgoing : OutgoingCommand) : Prop where
  | acknowledged (event : Option Event) (sentTime : Option Nat) (command : Protocol)
      (data : List UInt8) (number time : Nat)
      (received : command.command = .acknowledge number time)
      (handled : after.1 = (before.1.commandStep event index sentTime command data).1)
      (named : outgoing.reliableSequenceNumber = number ∧
        outgoing.command.channelID = command.channelID)
      (reliable : outgoing.command.acknowledge = true)
  | placed (filled : after.1 = (before.1.checkOutgoingCommands index before.2).1)
      (unreliable : outgoing.command.acknowledge = false)
      (part : ⟨outgoing.command, OutgoingScan.payload outgoing⟩ ∈ after.1.datagram.parts)
  | throttled (filled : after.1 = (before.1.checkOutgoingCommands index before.2).1)
      (scan scan' : OutgoingScan) (first : OutgoingCommand) (dropped : List OutgoingCommand)
      (reached : ReflTransGen (OutgoingScan.Turn before.1.serviceTime)
        (.start (before.1.peers index) before.1.heap before.1.datagram before.2) scan)
      (turn : OutgoingScan.Turn before.1.serviceTime scan scan')
      (throttles : scan.Throttles scan' first dropped) (taken : outgoing ∈ cores (first :: dropped))

/-- A peer that waits for its commands, and owes no acknowledgement of a DISCONNECT. -/
structure Peer.Lingers (peer : Peer) : Prop where
  state : peer.state = .disconnectLater
  unowed : ¬peer.AcknowledgesDisconnect

/-- A piece after which the peer still waits, with the commands that left it. -/
structure Stays (index : Nat) (before after : Sending) (left : Multiset OutgoingCommand) :
    Prop where
  lingers : (after.1.peers index).Lingers
  conserved : queued index before ≤ left + queued index after
  leaves : ∀ outgoing ∈ left, Leaves index before after outgoing
  fresh : ∀ outgoing ∈ queued index after, outgoing ∈ queued index before ∨
    outgoing.command.command.isDisconnect = false

/-- A piece that queues the DISCONNECT command and moves the peer to `DISCONNECTING`.
The three queues of the peer are empty where it does, and so is the list of the
unreliable commands in the datagram. -/
structure Ends (index : Nat) (before after : Sending) (left : Multiset OutgoingCommand) : Prop where
  conserved : queued index before = left
  leaves : ∀ outgoing ∈ left, Leaves index before after outgoing
  drained : ∃ (host : Host) (data : Nat), (host.peers index).state = .disconnectLater ∧
    (host.peers index).outgoingCommands = [] ∧
    (host.peers index).outgoingSendReliableCommands = [] ∧
    (host.peers index).sentReliableCommands = [] ∧ after.2 = [] ∧
    (after.1 = host.startDisconnect index data ∨ ∃ command sentTime,
      after.1 = ((host.startDisconnect index data).acknowledgeStage index command sentTime).1)

theorem Peer.hasOutgoingCommands_eq_false {peer : Peer}
    (none : peer.hasOutgoingCommands = false) :
    peer.outgoingCommands = [] ∧ peer.outgoingSendReliableCommands = [] ∧
      peer.sentReliableCommands = [] := by
  unfold hasOutgoingCommands at none
  simpa [and_assoc] using none

namespace Peer.Lingers

variable {peer peer' : Peer}

theorem of_same (lingers : peer.Lingers) (state : peer'.state = peer.state)
    (acknowledgements : peer'.acknowledgements = peer.acknowledgements) : peer'.Lingers := by
  refine ⟨state.trans lingers.state, ?_⟩
  unfold AcknowledgesDisconnect
  rw [acknowledgements]
  exact lingers.unowed

theorem not_free (lingers : peer.Lingers) : peer.state ≠ .disconnected := by
  rw [lingers.state]
  exact fun free => by cases free

end Peer.Lingers

namespace Stays

variable {index : Nat} {before after : Sending} {host host' : Host}

/-- A piece that leaves the queues of the peer. -/
theorem of_queued (lingers : (after.1.peers index).Lingers)
    (same : (after.1.peers index).pending = (before.1.peers index).pending) :
    Stays index before after 0 := by
  refine ⟨lingers, ?_, fun outgoing member => absurd member (Multiset.notMem_zero _), ?_⟩
  · rw [zero_add]
    exact same.ge
  · intro outgoing member
    unfold queued at member ⊢
    rw [same] at member
    exact .inl member

/-- A piece that leaves the peer. -/
theorem of_peer (lingers : (before.1.peers index).Lingers)
    (same : after.1.peers index = before.1.peers index) : Stays index before after 0 :=
  of_queued (same ▸ lingers) (congrArg Peer.pending same)

theorem of_alike (lingers : (before.1.peers index).Lingers)
    (alike : (before.1.peers index).Alike (after.1.peers index)) : Stays index before after 0 :=
  of_queued (lingers.of_same alike.state alike.acknowledgements) alike.pending

theorem of_receiving (lingers : (before.1.peers index).Lingers)
    (receiving : (before.1.peers index).ReceivingOnly (after.1.peers index)) :
    Stays index before after 0 :=
  of_queued (lingers.of_same receiving.state receiving.acknowledgements) receiving.pending

/-- What is done for another peer. -/
theorem other {different : Nat} (lingers : (host.peers index).Lingers)
    (acts : ActsOn different host host') (elsewhere : index ≠ different)
    (sentUnreliable sentUnreliable' : List OutgoingCommand) :
    Stays index (host, sentUnreliable) (host', sentUnreliable') 0 := by
  have same : host'.peers index = host.peers index := acts.others index elsewhere
  exact @of_peer index (host, sentUnreliable) (host', sentUnreliable') lingers same

end Stays

/-! ## Sending -/

theorem sendAcknowledgements_lingers (index : Nat) (acknowledgements : List Acknowledgement) :
    ∀ {host : Host}, (host.peers index).Lingers →
      (∀ acknowledgement ∈ acknowledgements,
        acknowledgement.command.command.isDisconnect = false) →
      ((Host.sendAcknowledgements index acknowledgements host).peers index).Lingers ∧
        ((Host.sendAcknowledgements index acknowledgements host).peers index).pending =
          (host.peers index).pending := by
  induction acknowledgements with
  | nil => intro host lingers _; exact ⟨lingers, rfl⟩
  | cons acknowledgement rest ih =>
      intro host lingers plain
      unfold Host.sendAcknowledgements
      dsimp only
      split
      · rw [Host.setPeer_self]
        exact ⟨lingers.of_same rfl rfl, rfl⟩
      · have others : ∀ left ∈ rest, left.command.command.isDisconnect = false :=
          fun left member => plain left (List.mem_cons_of_mem _ member)
        have first := plain acknowledgement List.mem_cons_self
        split
        next disconnects =>
            rw [disconnects] at first
            cases first
        · refine And.imp id (fun same => same.trans ?_) (ih ?_ others)
          · rw [Host.setPeer_self]
            refine ⟨lingers.state, fun owed => ?_⟩
            obtain ⟨left, member, disconnect⟩ := owed
            rw [others left member] at disconnect
            cases disconnect
          · rw [Host.setPeer_self]
            rfl

theorem startDatagram_stays {host : Host} {index : Nat} (lingers : (host.peers index).Lingers) :
    Stays index (host, []) (host.startDatagram index, []) 0 := by
  generalize started : (host.setDatagram Datagram.start).setPeer index
    ((host.peers index).setContinueSending false) = empty
  have continues : empty.peers index = (host.peers index).setContinueSending false := by
    rw [← started, Host.setPeer_self]
  have plain : ∀ acknowledgement ∈ (empty.peers index).acknowledgements,
      acknowledgement.command.command.isDisconnect = false := by
    intro acknowledgement member
    rw [continues] at member
    cases disconnects : acknowledgement.command.command.isDisconnect with
    | false => rfl
    | true => exact absurd ⟨acknowledgement, member, disconnects⟩ lingers.unowed
  obtain ⟨keeps, pending⟩ := sendAcknowledgements_lingers index _
    (by rw [continues]; exact lingers.of_same rfl rfl) plain
  unfold Host.startDatagram
  rw [started]
  exact .of_queued keeps (pending.trans (by rw [continues]; rfl))

theorem stampCommand_isDisconnect (command : Protocol) (number unreliableNumber group : Nat) :
    (Peer.stampCommand command number unreliableNumber group).command.isDisconnect =
      command.command.isDisconnect := by
  unfold Peer.stampCommand
  cases command.command <;> rfl

theorem setupCommand_isDisconnect (peer : Peer) (totalQueued : Nat) (outgoing : OutgoingCommand) :
    (peer.setupCommand totalQueued outgoing).command.command.isDisconnect =
      outgoing.command.command.isDisconnect := by
  have numbers : ∀ peer : Peer, (peer.numberOutgoingCommand outgoing).2.command =
      outgoing.command := by
    intro peer
    unfold Peer.numberOutgoingCommand
    split
    · rfl
    · split
      · rfl
      · split <;> rfl
  unfold Peer.setupCommand Peer.stampOutgoing
  dsimp only
  rw [stampCommand_isDisconnect, numbers]

/-- A command that keeps the connection up is added to the queues. -/
theorem queue_stays {host : Host} {index : Nat} (lingers : (host.peers index).Lingers)
    (sentUnreliable : List OutgoingCommand) {command : Protocol}
    (maintenance : command.isMaintenance) :
    Stays index (host, sentUnreliable)
      ((host.queueOutgoingCommand index command none 0 0).1, sentUnreliable) 0 := by
  have sends := host.queueOutgoingCommand_sendingOnly index command none 0 0
  have plain : command.command.isDisconnect = false := by
    obtain ⟨-, -, kind⟩ := maintenance
    cases same : command.command <;> first | rfl | (rw [same] at kind; exact kind.elim)
  refine ⟨lingers.of_same sends.state sends.acknowledgements, ?_,
    fun outgoing member => absurd member (Multiset.notMem_zero _), ?_⟩
  · rw [zero_add]
    unfold queued Host.queueOutgoingCommand
    split
    · exact le_refl _
    · dsimp only
      rw [Host.setupOutgoingCommand, Host.setPeer_self, Peer.setupOutgoingCommand_pending]
      exact Multiset.le_add_left ..
  · intro outgoing
    unfold queued Host.queueOutgoingCommand
    split
    · exact .inl
    · dsimp only
      rw [Host.setupOutgoingCommand, Host.setPeer_self, Peer.setupOutgoingCommand_pending]
      intro member
      rcases Multiset.mem_add.mp member with new | old
      · rw [Multiset.mem_singleton.mp new]
        exact .inr ((setupCommand_isDisconnect ..).trans plain)
      · exact .inl old

theorem checkOutgoingCommands_datagram (host : Host) (index : Nat)
    (sentUnreliable : List OutgoingCommand) :
    (host.checkOutgoingCommands index sentUnreliable).1.datagram =
      (host.scanOutgoing index sentUnreliable).datagram := by
  unfold Host.checkOutgoingCommands
  dsimp only
  split
  · rw [Host.startDisconnect_datagram]
    rfl
  · rfl

/-- What leaves the queues in a check of the outgoing commands. -/
theorem checkOutgoingCommands_leaves (host : Host) (index : Nat)
    (sentUnreliable : List OutgoingCommand) :
    ∃ left, (host.peers index).pending =
        left + (host.scanOutgoing index sentUnreliable).finish.pending ∧
      ∀ outgoing ∈ left, Leaves index (host, sentUnreliable)
        ((host.checkOutgoingCommands index sentUnreliable).1,
          (host.checkOutgoingCommands index sentUnreliable).2.1) outgoing := by
  obtain ⟨left, pending, departs⟩ := OutgoingScan.run_departs
    ((host.peers index).outgoingCommands.length +
      (host.peers index).outgoingSendReliableCommands.length)
    (ReflTransGen.refl (a := OutgoingScan.start (host.peers index) host.heap host.datagram
      sentUnreliable) (r := OutgoingScan.Turn host.serviceTime))
  refine ⟨left, pending, fun outgoing member => ?_⟩
  rcases departs outgoing member with ⟨unreliable, part⟩ |
    ⟨scan, scan', first, dropped, reached, turn, throttles, taken⟩
  · refine .placed rfl unreliable ?_
    rw [checkOutgoingCommands_datagram]
    exact part
  · exact .throttled rfl scan scan' first dropped reached turn throttles taken

theorem Peer.pending_of_drained {peer : Peer} (none : peer.hasOutgoingCommands = false) :
    peer.pending = 0 := by
  obtain ⟨outgoing, reliable, sent⟩ := hasOutgoingCommands_eq_false none
  exact pending_eq_zero outgoing reliable sent

/-- **The check of the outgoing commands**: what leaves the queues is placed in the
datagram or dropped, and the peer moves on where nothing is left. -/
theorem checkOutgoingCommands_lingers {host : Host} {index : Nat}
    (lingers : (host.peers index).Lingers) (sentUnreliable : List OutgoingCommand) :
    ∃ left,
      Stays index (host, sentUnreliable) ((host.checkOutgoingCommands index sentUnreliable).1,
          (host.checkOutgoingCommands index sentUnreliable).2.1) left ∨
        Ends index (host, sentUnreliable) ((host.checkOutgoingCommands index sentUnreliable).1,
          (host.checkOutgoingCommands index sentUnreliable).2.1) left := by
  have sends : (host.peers index).SendingOnly (host.scanOutgoing index sentUnreliable).finish :=
    .checkOutgoingCommands (host.peers index) host.heap host.datagram sentUnreliable
      host.serviceTime
  obtain ⟨left, pending, leaves⟩ := checkOutgoingCommands_leaves host index sentUnreliable
  have installed : (host.installScan index (host.scanOutgoing index sentUnreliable)).peers index =
      (host.scanOutgoing index sentUnreliable).finish := Host.setPeer_self ..
  have checks : (host.checkOutgoingCommands index sentUnreliable).1 =
      if (host.scanOutgoing index sentUnreliable).finish.state = .disconnectLater ∧
          !(host.scanOutgoing index sentUnreliable).finish.hasOutgoingCommands ∧
          (host.scanOutgoing index sentUnreliable).sentUnreliable.isEmpty then
        (host.installScan index (host.scanOutgoing index sentUnreliable)).startDisconnect index
          (host.scanOutgoing index sentUnreliable).finish.eventData
      else host.installScan index (host.scanOutgoing index sentUnreliable) := rfl
  refine ⟨left, ?_⟩
  split at checks
  next ends =>
      obtain ⟨state, none, sent⟩ := ends
      have none : (host.scanOutgoing index sentUnreliable).finish.hasOutgoingCommands = false := by
        simpa using none
      obtain ⟨outgoing, reliable, transit⟩ := Peer.hasOutgoingCommands_eq_false none
      refine .inr ⟨?_, leaves, _, _, ?_, ?_, ?_, ?_, List.isEmpty_iff.mp sent, .inl checks⟩
      · rw [Peer.pending_of_drained none, add_zero] at pending
        exact pending
      · rw [installed]
        exact state
      · rw [installed]
        exact outgoing
      · rw [installed]
        exact reliable
      · rw [installed]
        exact transit
  next =>
      have same : (host.checkOutgoingCommands index sentUnreliable).1.peers index =
          (host.scanOutgoing index sentUnreliable).finish := by
        rw [checks, installed]
      refine .inl ⟨?_, ?_, leaves, ?_⟩
      · dsimp only
        rw [same]
        exact lingers.of_same sends.state sends.acknowledgements
      · unfold queued
        rw [same]
        exact pending.le
      · intro outgoing member
        unfold queued at member ⊢
        rw [same] at member
        refine .inl ?_
        dsimp only
        rw [pending]
        exact Multiset.mem_add.mpr (.inr member)

/-- **The end of a transmission**: the peer moves on where nothing is left. -/
theorem removeSentUnreliableCommands_lingers {host : Host} {index : Nat}
    (lingers : (host.peers index).Lingers) (sentUnreliable : List OutgoingCommand) :
    Stays index (host, sentUnreliable)
        (host.removeSentUnreliableCommands index sentUnreliable, []) 0 ∨
      Ends index (host, sentUnreliable)
        (host.removeSentUnreliableCommands index sentUnreliable, []) 0 := by
  unfold Host.removeSentUnreliableCommands
  split
  · exact .inl (.of_peer lingers rfl)
  · dsimp only
    split
    next ends =>
        have none : (host.peers index).hasOutgoingCommands = false := by simpa using ends.2
        obtain ⟨outgoing, reliable, transit⟩ := Peer.hasOutgoingCommands_eq_false none
        refine .inr ⟨Peer.pending_of_drained none,
          fun outgoing member => absurd member (Multiset.notMem_zero _), _, _, ?_, ?_, ?_, ?_, rfl,
          .inl rfl⟩
        · exact lingers.state
        · exact outgoing
        · exact reliable
        · exact transit
    · exact .inl (.of_peer lingers rfl)

/-- **A step that sends.** -/
theorem SendStep.lingers {before after : Sending} {index : Nat} (step : SendStep before after)
    (lingers : (before.1.peers index).Lingers) :
    ∃ left, Stays index before after left ∨ Ends index before after left := by
  have elsewhere : ∀ {other : Nat}, ActsOn other before.1 after.1 → index ≠ other →
      ∃ left, Stays index before after left ∨ Ends index before after left :=
    fun acts different => ⟨0, .inl (.other lingers acts different before.2 after.2)⟩
  cases step with
  | quiet sentUnreliable quiet => exact ⟨0, .inl (.of_alike lingers (quiet.peers index))⟩
  | startDatagram host other used =>
      rcases eq_or_ne index other with rfl | different
      · exact ⟨0, .inl (startDatagram_stays lingers)⟩
      · exact elsewhere (.startDatagram host other) different
  | queue host sentUnreliable other command maintenance =>
      rcases eq_or_ne index other with rfl | different
      · exact ⟨0, .inl (queue_stays lingers sentUnreliable maintenance)⟩
      · exact elsewhere (.queueOutgoingCommand ..) different
  | checkOutgoing host sentUnreliable other =>
      rcases eq_or_ne index other with rfl | different
      · exact checkOutgoingCommands_lingers lingers sentUnreliable
      · exact elsewhere (.checkOutgoingCommands ..) different
  | removeSent host sentUnreliable other =>
      rcases eq_or_ne index other with rfl | different
      · exact ⟨0, removeSentUnreliableCommands_lingers lingers sentUnreliable⟩
      · exact elsewhere (.removeSentUnreliableCommands ..) different

/-! ## Receiving -/

theorem removeSentReliableCommand_taken (peer : Peer) (number channelID : Nat) :
    (peer.removeSentReliableCommand number channelID).2 =
      (peer.takeSentReliableCommand number channelID).2 := by
  unfold Peer.removeSentReliableCommand
  dsimp only
  split
  next none => exact none.symm
  next outgoing some => exact some.symm

/-- What a received command does to a peer that waits: it takes out what it
acknowledges, and the peer moves on where nothing is left. -/
inductive Answers (index : Nat) (command : Protocol) (host : Host) : Host → Prop where
  | stays {host' : Host} (removed : Option OutgoingCommand)
      (names : ∀ outgoing ∈ removed, ∃ number time,
        command.command = .acknowledge number time ∧ outgoing.reliableSequenceNumber = number ∧
          outgoing.command.channelID = command.channelID ∧ outgoing.command.acknowledge = true)
      (conserved : (host.peers index).pending =
        cores removed.toList + (host'.peers index).pending)
      (lingers : (host'.peers index).Lingers) : Answers index command host host'
  | ends (drained : Host) (data : Nat) (removed : Option OutgoingCommand)
      (names : ∀ outgoing ∈ removed, ∃ number time,
        command.command = .acknowledge number time ∧ outgoing.reliableSequenceNumber = number ∧
          outgoing.command.channelID = command.channelID ∧ outgoing.command.acknowledge = true)
      (conserved : (host.peers index).pending = cores removed.toList)
      (state : (drained.peers index).state = .disconnectLater)
      (none : (drained.peers index).hasOutgoingCommands = false) :
      Answers index command host (drained.startDisconnect index data)

namespace Answers

variable {host host' : Host} {index : Nat} {command : Protocol}

/-- A command that leaves the queues. -/
theorem of_same (lingers : (host'.peers index).Lingers)
    (same : (host'.peers index).pending = (host.peers index).pending) :
    Answers index command host host' :=
  .stays none (fun _ member => by cases member) (by rw [same]; exact (zero_add _).symm) lingers

theorem handleAcknowledge (lingers : (host.peers index).Lingers)
    (awaiting : (host.peers index).Awaiting) (event : Option Event) {received sentTime : Nat}
    (kind : command.command = .acknowledge received sentTime) :
    Answers index command host
      (host.handleAcknowledge event index command.channelID received sentTime).1 := by
  unfold Host.handleAcknowledge
  dsimp only
  split
  · exact of_same lingers rfl
  · split
    · exact of_same lingers rfl
    · have alike := Peer.Alike.updateRoundTripTime (host.peers index) host.serviceTime
        (max (timeDifference host.serviceTime
          (Host.receivedSentTime host.serviceTime sentTime)) 1)
      generalize updated : host.setPeer index ((host.peers index).updateRoundTripTime
        host.serviceTime _) = timed
      have times : (host.peers index).Alike (timed.peers index) := by
        rw [← updated, Host.setPeer_self]
        exact alike
      have sends := (SendsFor.removeSentReliableCommand timed index received
        command.channelID).peer
      have pending := timed.removeSentReliableCommand_pending index received command.channelID
      rw [times.pending] at pending
      have names : ∀ outgoing ∈ ((timed.peers index).removeSentReliableCommand received
          command.channelID).2, ∃ number time, command.command = .acknowledge number time ∧
            outgoing.reliableSequenceNumber = number ∧
              outgoing.command.channelID = command.channelID ∧
                outgoing.command.acknowledge = true := by
        intro outgoing taken
        rw [removeSentReliableCommand_taken] at taken
        exact ⟨received, sentTime, kind,
          (awaiting.of_same times.sentReliableCommands).names taken⟩
      have waits : ((timed.removeSentReliableCommand index received
          command.channelID).1.peers index).Lingers :=
        lingers.of_same (sends.state.trans times.state)
          (sends.acknowledgements.trans times.acknowledgements)
      unfold Host.settleAcknowledge
      rw [waits.state]
      dsimp only
      split
      · exact .stays _ names pending waits
      next drained =>
          have none := Bool.not_eq_true _ ▸ drained
          refine .ends _ _ _ names ?_ waits.state none
          rw [Peer.pending_of_drained none, add_zero] at pending
          exact pending

theorem handleCommand (lingers : (host.peers index).Lingers)
    (awaiting : (host.peers index).Awaiting) (event : Option Event) (data : List UInt8)
    (plain : command.command.isDisconnect = false) :
    Answers index command host (host.handleCommand event index command data).1 := by
  by_cases carries : command.command.isData = true
  · have receives := (ReceiveRun.handleCommand host event index command data
      false carries).1.receivesFor.peer
    exact of_same (lingers.of_same receives.state receives.acknowledgements) receives.pending
  · unfold Host.handleCommand
    dsimp only
    split
    next kind => exact handleAcknowledge lingers awaiting event kind
    · exact of_same lingers rfl
    · unfold Host.handleVerifyConnect
      dsimp only
      rw [if_pos (by rw [lingers.state]; decide)]
      exact of_same lingers rfl
    next kind => rw [kind] at plain; cases plain
    · exact of_same lingers rfl
    case h_10 =>
      unfold Host.handleBandwidthLimit
      dsimp only
      split
      · exact of_same lingers rfl
      · refine of_same ?_ ?_
        · rw [Host.setPeer_self]
          exact lingers.of_same rfl rfl
        · rw [Host.setPeer_self]
          rfl
    case h_11 =>
      unfold Host.handleThrottleConfigure
      dsimp only
      split
      · exact of_same lingers rfl
      · refine of_same ?_ ?_
        · rw [Host.setPeer_self]
          exact lingers.of_same rfl rfl
        · rw [Host.setPeer_self]
          rfl
    all_goals
      rename_i kind
      rw [kind] at carries
      exact absurd rfl carries

end Answers

/-- **A received command other than DISCONNECT.** -/
theorem commandStep_lingers {host : Host} {index : Nat} (lingers : (host.peers index).Lingers)
    (awaiting : (host.peers index).Awaiting) (event : Option Event) (sentTime : Option Nat)
    {command : Protocol} (data : List UInt8) (plain : command.command.isDisconnect = false) :
    ∃ left,
      Stays index (host, []) ((host.commandStep event index sentTime command data).1, []) left ∨
        Ends index (host, []) ((host.commandStep event index sentTime command data).1, [])
          left := by
  have leaves : ∀ removed : Option OutgoingCommand,
      (∀ outgoing ∈ removed, ∃ number time, command.command = .acknowledge number time ∧
        outgoing.reliableSequenceNumber = number ∧
          outgoing.command.channelID = command.channelID ∧
            outgoing.command.acknowledge = true) →
      ∀ outgoing ∈ cores removed.toList, Leaves index (host, [])
        ((host.commandStep event index sentTime command data).1, []) outgoing := by
    intro removed names outgoing member
    obtain ⟨whole, taken, rfl⟩ := mem_cores member
    obtain ⟨number, time, received, named, channel, reliable⟩ :=
      names whole (Option.mem_toList.mp taken)
    exact .acknowledged event sentTime command data number time received rfl ⟨named, channel⟩
      reliable
  have answers := @Answers.handleCommand (host.hear index command data sentTime.isSome) index
    command lingers awaiting event data plain
  have result : ∀ handled, handled =
      (host.hear index command data sentTime.isSome).handleCommand event index command data →
      (host.commandStep event index sentTime command data).1 = handled.1 ∨
        (host.commandStep event index sentTime command data).1 =
          (handled.1.acknowledgeStage index command sentTime).1 := by
    intro handled same
    unfold Host.commandStep
    dsimp only
    rw [← same]
    split
    · exact .inl rfl
    · exact .inr rfl
  replace result := result _ rfl
  generalize (host.hear index command data sentTime.isSome).handleCommand event index command data =
    handled at answers result
  obtain ⟨middle, event', failed⟩ := handled
  generalize (host.commandStep event index sentTime command data).1 = after at leaves result ⊢
  cases answers with
  | stays removed names conserved waits =>
      -- the acknowledgement of the command leaves the queues
      have keeps : (after.peers index).Lingers ∧
          (after.peers index).pending = (middle.peers index).pending := by
        rcases result with same | staged
        · rw [same]
          exact ⟨waits, rfl⟩
        · have acknowledges := Acknowledges.acknowledgeStage middle index command sentTime
          rw [← staged] at acknowledges
          cases acknowledges with
          | kept mallocs => exact ⟨waits, rfl⟩
          | queued time mallocs allowed =>
              rw [Host.setPeer_self]
              refine ⟨⟨waits.state, fun owed => ?_⟩, rfl⟩
              obtain ⟨acknowledgement, member, disconnect⟩ := owed
              rcases List.mem_append.mp member with old | new
              · exact waits.unowed ⟨acknowledgement, old, disconnect⟩
              · rw [List.mem_singleton.mp new, plain] at disconnect
                cases disconnect
      have conserved : (host.peers index).pending =
          cores removed.toList + (after.peers index).pending := by
        rw [keeps.2]
        exact conserved
      refine ⟨cores removed.toList, .inl ⟨keeps.1, conserved.le, leaves removed names, ?_⟩⟩
      intro outgoing member
      refine .inl ?_
      show outgoing ∈ (host.peers index).pending
      rw [conserved]
      exact Multiset.mem_add.mpr (.inr member)
  | ends drained data' removed names conserved state none =>
      obtain ⟨outgoing, reliable, transit⟩ := Peer.hasOutgoingCommands_eq_false none
      refine ⟨cores removed.toList, .inr ⟨conserved, leaves removed names, drained, data', state,
        outgoing, reliable, transit, rfl, ?_⟩⟩
      rcases result with same | staged
      · exact .inl same
      · exact .inr ⟨command, sentTime, staged⟩

/-! ## Runs -/

theorem checkTimeouts_stays {host : Host} {index : Nat} (lingers : (host.peers index).Lingers)
    (event : Option Event) (kept : (host.checkTimeouts index event).2.2 = false) :
    Stays index (host, []) ((host.checkTimeouts index event).1, []) 0 := by
  have sends := Peer.SendingOnly.checkTimeouts (host.peers index) host.serviceTime
  have pending := (host.peers index).checkTimeouts_pending host.serviceTime
  unfold Host.checkTimeouts at kept ⊢
  dsimp only at kept ⊢
  split
  next given =>
      rw [if_pos given] at kept
      cases kept
  · refine .of_queued ?_ ?_
    · dsimp only
      rw [Host.setPeer_self]
      exact lingers.of_same sends.state sends.acknowledgements
    · dsimp only
      rw [Host.setPeer_self]
      exact pending

theorem dispatchTurn_stays {host : Host} {index : Nat} (lingers : (host.peers index).Lingers)
    (event : Event) : Stays index (host, []) ((host.dispatchTurn index event).1, []) 0 := by
  unfold Host.dispatchTurn
  dsimp only
  generalize taken : (host.setDispatchQueue (host.dispatchQueue.remove (.peer index))).setPeer index
    _ = popped
  have kept : popped.peers index = (host.peers index).setNeedsDispatch false := by
    rw [← taken, Host.setPeer_self]
    rfl
  have receiving : (host.peers index).ReceivingOnly (popped.peers index) := by
    rw [kept]
    exact .setNeedsDispatch _ _
  have state : (((host.setDispatchQueue (host.dispatchQueue.remove (.peer index))).peers
      index).setNeedsDispatch false).state = .disconnectLater := lingers.state
  split
  next other => cases other.symm.trans state
  next other => cases other.symm.trans state
  next other => cases other.symm.trans state
  next other => cases other.symm.trans state
  · exact .of_receiving lingers receiving

/-- **A piece that does not disturb a peer that waits.** -/
theorem Piece.lingers {index : Nat} {disturbs : Bool} {before after : Sending}
    (piece : Piece index disturbs before after) (undisturbed : disturbs = false)
    (lingers : (before.1.peers index).Lingers) (awaiting : Awaiting before.1) :
    ∃ left, Stays index before after left ∨ Ends index before after left := by
  have elsewhere : ∀ {other : Nat}, ActsOn other before.1 after.1 → index ≠ other →
      ∃ left, Stays index before after left ∨ Ends index before after left :=
    fun acts different => ⟨0, .inl (.other lingers acts different before.2 after.2)⟩
  have taken : ∀ {slot : Nat}, (before.1).freePeer = some slot → index ≠ slot := by
    intro slot free same
    exact lingers.not_free (same ▸ Host.freePeer_disconnected free)
  have unrelated : ∀ {other : Nat}, decide (other = index) = false → index ≠ other :=
    fun differs same => of_decide_eq_false differs same.symm
  cases piece with
  | send step => exact SendStep.lingers step lingers
  | command host event other sentTime command data current =>
      rcases eq_or_ne index other with rfl | different
      · rw [decide_eq_true rfl, Bool.true_and] at undisturbed
        exact commandStep_lingers lingers (awaiting index) event sentTime data undisturbed
      · exact elsewhere (.commandStep ..) different
  | accept host event fields fresh =>
      cases free : host.freePeer with
      | none =>
          refine ⟨0, .inl (.of_peer lingers ?_)⟩
          unfold Host.handleConnect
          rw [free]
          split <;> rfl
      | some slot => exact elsewhere (.handleConnect fields free) (taken free)
  | timeouts host event other fresh =>
      rcases eq_or_ne index other with rfl | different
      · rw [decide_eq_true rfl, Bool.true_and] at undisturbed
        exact ⟨0, .inl (checkTimeouts_stays lingers event undisturbed)⟩
      · exact elsewhere (.checkTimeouts ..) different
  | dispatch host event other first fresh =>
      rcases eq_or_ne index other with rfl | different
      · exact ⟨0, .inl (dispatchTurn_stays lingers event)⟩
      · exact elsewhere (.dispatchTurn ..) different
  | connect host address channelCount data =>
      cases free : host.freePeer with
      | none =>
          refine ⟨0, .inl (.of_peer lingers ?_)⟩
          unfold Host.hostConnect
          rw [free]
      | some slot => exact elsewhere (.hostConnect address channelCount data free) (taken free)
  | packet host other channelID packet =>
      rcases eq_or_ne index other with rfl | different
      · -- a packet is taken from a connected peer only
        refine ⟨0, .inl (.of_peer lingers ?_)⟩
        unfold Host.peerSend
        dsimp only
        rw [if_pos (.inl (by rw [lingers.state]; decide))]
      · exact elsewhere (.peerSend ..) different
  | receive host other =>
      rcases eq_or_ne index other with rfl | different
      · exact ⟨0, .inl (.of_receiving lingers (ReceivesFor.peerReceive host index).peer)⟩
      · exact elsewhere (.peerReceive ..) different
  | reset host other => exact elsewhere (.peerReset ..) (unrelated undisturbed)
  | startDisconnect host other data connected =>
      exact elsewhere (.startDisconnect ..) (unrelated undisturbed)
  | disconnectLater host other data connected =>
      rcases eq_or_ne index other with rfl | different
      · refine ⟨0, .inl (.of_queued ?_ ?_)⟩
        · dsimp only
          rw [Host.setPeer_self]
          exact ⟨rfl, lingers.unowed⟩
        · dsimp only
          rw [Host.setPeer_self]
          rfl
      · exact elsewhere (.setPeer ..) different
  | disconnectDrained host other data connected drained =>
      rcases eq_or_ne index other with rfl | different
      · obtain ⟨outgoing, reliable, transit⟩ := Peer.hasOutgoingCommands_eq_false drained
        exact ⟨0, .inr ⟨Peer.pending_of_drained drained,
          fun outgoing member => absurd member (Multiset.notMem_zero _), host, data, lingers.state,
          outgoing, reliable, transit, rfl, .inl rfl⟩⟩
      · exact elsewhere (.startDisconnect ..) different
  | abandons host other data =>
      exact elsewhere ((ActsOn.resetQueues host other).trans
        (.queueOutgoingCommand _ other (Host.disconnectCommand data) none 0 0))
        (unrelated undisturbed)
  | discard host packet unreferenced => exact ⟨0, .inl (.of_peer lingers rfl)⟩
  | configure host => exact ⟨0, .inl (.of_peer lingers rfl)⟩

/-- A run in which a peer waits, with the commands that leave its queues. -/
inductive Waits (index : Nat) (start : Sending) : Multiset OutgoingCommand → Sending → Prop where
  | refl : Waits index start 0 start
  | tail {before after : Sending} {departed left : Multiset OutgoingCommand}
      (waits : Waits index start departed before) (piece : Piece index false before after)
      (stays : Stays index before after left) : Waits index start (departed + left) after

namespace Waits

variable {index : Nat} {start finish : Sending} {departed : Multiset OutgoingCommand}

theorem run (waits : Waits index start departed finish) :
    ReflTransGen (Piece index false) start finish := by
  induction waits with
  | refl => exact .refl
  | tail waits piece stays ih => exact ih.tail piece

theorem lingers (waits : Waits index start departed finish)
    (lingers : (start.1.peers index).Lingers) : (finish.1.peers index).Lingers := by
  cases waits with
  | refl => exact lingers
  | tail waits piece stays => exact stays.lingers

/-- **No command is lost**: it is still queued, or among those that left. -/
theorem conserved (waits : Waits index start departed finish) :
    queued index start ≤ departed + queued index finish := by
  induction waits with
  | refl => exact (zero_add _).ge
  | @tail before after departed left waits piece stays ih =>
      calc queued index start ≤ departed + queued index before := ih
        _ ≤ departed + (left + queued index after) := by
            exact add_le_add_right stays.conserved departed
        _ = departed + left + queued index after := (add_assoc ..).symm

/-- **No DISCONNECT command is queued** while the peer waits. -/
theorem fresh (waits : Waits index start departed finish) :
    ∀ outgoing ∈ queued index finish, outgoing ∈ queued index start ∨
      outgoing.command.command.isDisconnect = false := by
  induction waits with
  | refl => exact fun outgoing member => .inl member
  | tail waits piece stays ih =>
      intro outgoing member
      rcases stays.fresh outgoing member with old | plain
      · exact ih outgoing old
      · exact .inr plain

end Waits

/-- A run that leaves a peer undisturbed, until the peer moves on. -/
theorem waits_of_run {index : Nat} {start finish : Sending}
    (run : ReflTransGen (Piece index false) start finish)
    (lingers : (start.1.peers index).Lingers) (awaiting : Awaiting start.1) :
    (∃ departed, Waits index start departed finish) ∨
      ∃ departed left before after, Waits index start departed before ∧
        Piece index false before after ∧ Ends index before after left ∧
        ReflTransGen (Piece index false) after finish := by
  induction run with
  | refl => exact .inl ⟨0, .refl⟩
  | @tail before after run piece ih =>
      rcases ih with ⟨departed, waits⟩ | ⟨departed, left, first, second, waits, moves, ends, rest⟩
      · have still : Awaiting before.1 := Library.runs_keep (fun sending : Sending =>
          Awaiting sending.1) (fun piece holds => Awaiting.maintained.piece piece holds) run
          awaiting
        obtain ⟨left, stays | ends⟩ := piece.lingers rfl (waits.lingers lingers) still
        · exact .inl ⟨departed + left, waits.tail piece stays⟩
        · exact .inr ⟨departed, left, before, after, waits, piece, ends, .refl⟩
      · exact .inr ⟨departed, left, first, second, waits, moves, ends, rest.tail piece⟩

/-! ## The datagram of a turn -/

/-- What the checks of a turn place in the datagram of a peer is passed to the socket:
the second check only adds to it, and a datagram that is not empty is sent. -/
structure Host.TurnTransmits (host : Host) (index : Nat) : Prop where
  kept : (host.checkWaitingCommands index).1.datagram.parts <+:
    (host.fillDatagram index).1.datagram.parts
  sent : ∀ event, (host.fillDatagram index).1.datagram.parts ≠ [] →
    ∃ address, (host.sendFilled event index).1.world.sent =
      host.world.sent ++ [(address, (host.fillDatagram index).1.sentBytes index)]

theorem checkOutgoingCommands_world (host : Host) (index : Nat)
    (sentUnreliable : List OutgoingCommand) :
    (host.checkOutgoingCommands index sentUnreliable).1.world = host.world := by
  unfold Host.checkOutgoingCommands
  dsimp only
  split
  · exact Host.startDisconnect_world ..
  · rfl

theorem peerPing_world (host : Host) (index : Nat) : (host.peerPing index).world = host.world := by
  unfold Host.peerPing
  split
  · unfold Host.queueOutgoingCommand
    split <;> rfl
  · rfl

theorem fillDatagram_world (host : Host) (index : Nat) :
    (host.fillDatagram index).1.world = host.world := by
  have checks : (host.checkWaitingCommands index).1.world = host.world := by
    unfold Host.checkWaitingCommands
    dsimp only
    split
    · rfl
    · exact checkOutgoingCommands_world ..
  unfold Host.fillDatagram
  dsimp only
  split
  · rw [checkOutgoingCommands_world, peerPing_world, checks]
  · exact checks

theorem checkOutgoingCommands_parts (host : Host) (index : Nat)
    (sentUnreliable : List OutgoingCommand) :
    host.datagram.parts <+: (host.checkOutgoingCommands index sentUnreliable).1.datagram.parts := by
  rw [checkOutgoingCommands_datagram]
  obtain ⟨parts, grows⟩ := OutgoingScan.run_parts host.serviceTime
    ((host.peers index).outgoingCommands.length +
      (host.peers index).outgoingSendReliableCommands.length)
    (.start (host.peers index) host.heap host.datagram sentUnreliable)
  exact ⟨parts, grows.symm⟩

/-- **The datagram of a turn is transmitted** with all that was placed in it. -/
theorem Host.turnTransmits (host : Host) (index : Nat) : host.TurnTransmits index where
  kept := by
    unfold fillDatagram
    dsimp only
    split
    · have grows := checkOutgoingCommands_parts ((host.checkWaitingCommands index).1.peerPing index)
        index (host.checkWaitingCommands index).2.1
      rw [peerPing_datagram] at grows
      exact grows
    · exact List.prefix_refl _
  sent := by
    intro event placed
    have used : (host.fillDatagram index).1.datagram.commandCount ≠ 0 :=
      fun empty => placed (List.eq_nil_of_length_eq_zero empty)
    obtain ⟨address, sent⟩ := sendDatagram_sent (host.fillDatagram index).1 index
      (host.fillDatagram index).2
    refine ⟨address, ?_⟩
    rw [fillDatagram_world] at sent
    unfold sendFilled
    dsimp only
    rw [if_neg used]
    split
    next passed => rw [passed] at sent; exact sent
    next failed => rw [failed] at sent; exact sent

/-! ## Disconnecting later -/

/-- What becomes of the commands of a peer behind a call of
`enet_peer_disconnect_later`. Either none is queued, and the call disconnects the peer;
or the peer waits, and to the end of the run, or to the piece in which it moves on,
every command is still queued or has left as it may. -/
structure LosesNothing (index data : Nat) (host later : Host) (finish : Sending) : Prop where
  outcome :
    ((host.peers index).outgoingCommands = [] ∧
        (host.peers index).outgoingSendReliableCommands = [] ∧
        (host.peers index).sentReliableCommands = [] ∧ later = host.startDisconnect index data) ∨
      (later.peers index).state = .disconnectLater ∧
        ((∃ departed, Waits index (later, []) departed finish ∧
            (host.peers index).pending ≤ departed + queued index finish) ∨
          ∃ departed left before after, Waits index (later, []) departed before ∧
            Piece index false before after ∧ Ends index before after left ∧
            (host.peers index).pending ≤ departed + left ∧
            ReflTransGen (Piece index false) after finish)
  transmits : ∀ host : Host, host.TurnTransmits index

/-- **Disconnecting later loses nothing.** A command that is queued when
`enet_peer_disconnect_later` is called on a connected peer leaves the queues of the
peer only acknowledged, placed in a datagram that is passed to the socket, or dropped
by the throttle, in every run that does not disturb the peer; and the DISCONNECT
command is queued, and the peer disconnects, only where all its queues and the list of
the unreliable commands in the datagram are empty. -/
theorem disconnectLater_losesNothing {fuel : Nat} {host later : Host} {index data : Nat}
    {finish : Sending} (reachable : Host.Reachable host)
    (connected : (host.peers index).state.isConnected = true)
    (called : host.peerDisconnectLater fuel index data = some later)
    (run : ReflTransGen (Piece index false) (later, []) finish) :
    LosesNothing index data host later finish := by
  refine ⟨?_, fun host => host.turnTransmits index⟩
  rcases peerDisconnectLater_connected connected called with ⟨-, same⟩ | ⟨drained, same⟩
  · have peer : later.peers index =
        ((host.peers index).setState .disconnectLater).setEventData data := by
      rw [same, Host.setPeer_self]
    have lingers : (later.peers index).Lingers := by
      rw [peer]
      exact ⟨rfl, (@Visited.of_reachable host none reachable rfl).unowed connected⟩
    have awaiting : Awaiting later := by
      rw [same]
      exact (Awaiting.visited (@Visited.of_reachable host none reachable rfl)).keep rfl
    have pending : queued index (later, []) = (host.peers index).pending := by
      unfold queued
      rw [peer]
      rfl
    refine .inr ⟨lingers.state, ?_⟩
    rcases waits_of_run run lingers awaiting with ⟨departed, waits⟩ |
      ⟨departed, left, before, after, waits, piece, ends, rest⟩
    · exact .inl ⟨departed, waits, pending ▸ waits.conserved⟩
    · refine .inr ⟨departed, left, before, after, waits, piece, ends, ?_, rest⟩
      have conserved := waits.conserved
      rw [ends.conserved, pending] at conserved
      exact conserved
  · obtain ⟨outgoing, reliable, sent⟩ := Peer.hasOutgoingCommands_eq_false drained
    exact .inl ⟨outgoing, reliable, sent, same⟩

/-- A reliable packet of one byte. -/
def lastPacket : Packet := ⟨1000, ⟨true, false, false, false⟩, [1]⟩

/-- A host whose only peer has a reliable packet queued. -/
def lastingHost : Option Host :=
  (servedHost connectDatagrams 2).bind fun host => calledHost host [.send 0 0 lastPacket]

/-- The packet outlasts the call and the check that transmits it. -/
theorem lastingHost_losesNothing :
    ∃ host later, lastingHost = some host ∧ host.peerDisconnectLater 5 0 7 = some later ∧
      (later.peers 0).state = .disconnectLater ∧
      LosesNothing 0 7 host later ((later.checkOutgoingCommands 0 []).1,
        (later.checkOutgoingCommands 0 []).2.1) := by
  have evaluated : lastingHost.bind (fun host => (host.peerDisconnectLater 5 0 7).map fun later =>
      ((host.peers 0).state.isConnected, (later.peers 0).state)) =
        some (true, .disconnectLater) := by
    decide +kernel
  obtain ⟨host, served, calls⟩ := Option.bind_eq_some_iff.mp evaluated
  obtain ⟨later, called, states⟩ := Option.map_eq_some_iff.mp calls
  obtain ⟨connected, waits⟩ := Prod.mk.inj states
  obtain ⟨before, serves, sends⟩ := Option.bind_eq_some_iff.mp served
  have reachable := calledHost_reachable (servedHost_reachable serves) sends
  exact ⟨host, later, served, called, waits, disconnectLater_losesNothing reachable connected
    called (.single (.send (.checkOutgoing later [] 0)))⟩

end Enet
