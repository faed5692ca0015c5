import Enet.Runs.Handlers

/-!
# The steps of a run

Every call of the application is a sequence of steps, each of which is one
function of the library for one peer: a received command with its
acknowledgement, the acknowledgements of a datagram, the check of the timeouts,
the check of the outgoing commands, a turn of the dispatch loop, and so on.
What an invariant needs from a call is what it needs from each of these.

A step that stores an event finds none stored, except that the rest of a
datagram is still handled once one of its commands has stored one. The steps
that send form a relation of their own: disconnecting a peer that is not
connected sends for all peers before the peer is reset, and the peer is in no
regular state meanwhile.
-/

set_option autoImplicit false

namespace Enet

open Relation

/-! ## Free slots -/

/-- The states before a connection is up. -/
def PeerState.isEarly : PeerState → Bool
  | disconnected | connecting | acknowledgingConnect | connectionPending
  | connectionSucceeded => true
  | _ => false

theorem PeerState.isEarly_of_isConnected {state : PeerState}
    (connected : state.isConnected = true) :
    state.isEarly = false := by
  cases state <;> first | rfl | cases connected

theorem Host.freePeer_disconnected {host : Host} {index : Nat}
    (free : host.freePeer = some index) : (host.peers index).state = .disconnected := by
  have found := List.find?_some free
  exact of_decide_eq_true found

theorem Host.freePeer_lt {host : Host} {index : Nat} (free : host.freePeer = some index) :
    index < host.peerCount :=
  List.mem_range.mp (List.mem_of_find?_eq_some free)

/-- A free slot taken by a new connection: the channels are new, and the queues
and the count are those of the slot. -/
structure Peer.TakenBy (peer peer' : Peer) : Prop where
  unconnected : peer'.state.isConnected = false
  needsDispatch : peer'.needsDispatch = peer.needsDispatch
  total : peer'.totalWaitingData = peer.totalWaitingData
  dispatched : peer'.dispatchedCommands = peer.dispatchedCommands
  acknowledgements : peer'.acknowledgements = peer.acknowledgements
  outgoingCommands : peer'.outgoingCommands = peer.outgoingCommands
  outgoingSendReliableCommands :
    peer'.outgoingSendReliableCommands = peer.outgoingSendReliableCommands
  sentReliableCommands : peer'.sentReliableCommands = peer.sentReliableCommands
  channels : ∀ channelID, peer'.channels channelID = Channel.empty

theorem Host.connectingPeer_takes (host : Host) (peer : Peer) (address : Address)
    (channelCount connectID : Nat) :
    peer.TakenBy (host.connectingPeer peer address channelCount connectID) := by
  constructor <;> first | rfl | exact fun _ => rfl

theorem Host.acceptedPeer_takes (host : Host) (peer : Peer) (fields : Connect) :
    peer.TakenBy (host.acceptedPeer peer fields) := by
  constructor <;> first | rfl | exact fun _ => rfl

/-! ## Sending -/

/-- The commands that keep a connection up: they change no peer's state. -/
def Protocol.isMaintenance (command : Protocol) : Prop :=
  command.acknowledge = true ∧ command.channelID = 0xFF ∧
    match command.command with
    | .ping | .bandwidthLimit .. | .throttleConfigure .. => True
    | _ => False

/-- Such a command carries no data. -/
theorem Protocol.isMaintenance_bare {command : Protocol} (maintenance : command.isMaintenance) :
    command.command.dataLength = 0 := by
  obtain ⟨-, -, kind⟩ := maintenance
  cases same : command.command with
  | ping => rfl
  | bandwidthLimit => rfl
  | throttleConfigure => rfl
  | _ => rw [same] at kind; exact kind.elim

/-- The unreliable commands sent so far are in the datagram. -/
def Datagram.Holds (datagram : Datagram) (sentUnreliable : List OutgoingCommand) : Prop :=
  sentUnreliable.length ≤ datagram.commandCount

theorem Datagram.Holds.push {datagram : Datagram} {sentUnreliable : List OutgoingCommand}
    (holds : datagram.Holds sentUnreliable) (part : Part) (size : Nat) :
    (datagram.push part size).commandCount = datagram.commandCount + 1 ∧
      (datagram.push part size).Holds sentUnreliable := by
  have grows : (datagram.push part size).commandCount = datagram.commandCount + 1 :=
    List.length_append
  refine ⟨grows, ?_⟩
  unfold Datagram.Holds at holds ⊢
  omega

namespace OutgoingScan

variable {scan : OutgoingScan}

/-- The unreliable commands sent so far are in the datagram. -/
abbrev Holds (scan : OutgoingScan) : Prop := scan.datagram.Holds scan.sentUnreliable

theorem Holds.unlink (holds : scan.Holds) (reliable : Bool) : (scan.unlink reliable).Holds := by
  cases reliable <;> exact holds

theorem Holds.pass (holds : scan.Holds) (reliable : Bool) : (scan.pass reliable).Holds := by
  cases reliable <;> exact holds

theorem Holds.transmitUnreliable (holds : scan.Holds) (reliable : Bool)
    (outgoing : OutgoingCommand) : (scan.transmitUnreliable reliable outgoing).Holds := by
  obtain ⟨grows, pushed⟩ := (holds.unlink reliable).push ⟨outgoing.command, payload outgoing⟩
    (outgoing.command.size + if outgoing.packet.isSome then outgoing.fragmentLength else 0)
  have before := holds.unlink reliable
  unfold OutgoingScan.transmitUnreliable
  dsimp only
  split
  · unfold Holds Datagram.Holds at before ⊢
    rw [show (((scan.unlink reliable).emit outgoing).addSentUnreliable
      outgoing).datagram.commandCount = (scan.unlink reliable).datagram.commandCount + 1 from grows]
    rw [show (((scan.unlink reliable).emit outgoing).addSentUnreliable
      outgoing).sentUnreliable = (scan.unlink reliable).sentUnreliable ++ [outgoing] from rfl]
    rw [List.length_append, List.length_singleton]
    omega
  · exact pushed

theorem Holds.step (holds : scan.Holds) (serviceTime : Nat) (reliable : Bool)
    (outgoing : OutgoingCommand) : (scan.step serviceTime reliable outgoing).1.Holds := by
  have passes := holds.pass reliable
  unfold OutgoingScan.step
  split
  · split
    · exact passes
    · split
      · exact passes
      · split
        · exact passes
        · split
          · exact holds
          · have unlinks : (scan.forbidPing.unlink reliable).Holds :=
              @Holds.unlink scan.forbidPing holds reliable
            exact (@Datagram.Holds.push { scan.forbidPing.unlink reliable |>.datagram with
              sentTime := true } _ unlinks _ _).2
  · split
    · exact holds
    · have counted : (scan.setPeer (scan.peer.setThrottleCounter
          (throttleCounter scan.peer outgoing))).Holds := holds
      unfold OutgoingScan.sendUnreliable
      dsimp only
      split
      · exact counted.unlink reliable
      · exact counted.transmitUnreliable reliable outgoing

theorem Holds.run (serviceTime fuel : Nat) : ∀ scan : OutgoingScan, scan.Holds →
    (run serviceTime fuel scan).Holds := by
  induction fuel with
  | zero => intro scan holds; exact holds
  | succ fuel ih =>
      intro scan holds
      unfold OutgoingScan.run
      split
      · exact holds
      next reliable outgoing _ =>
          have steps := holds.step serviceTime reliable outgoing
          dsimp only
          split
          · exact ih _ steps
          · exact steps

end OutgoingScan

theorem Host.queueOutgoingCommand_datagram (host : Host) (index : Nat) (command : Protocol)
    (packet : Option Packet) (offset length : Nat) :
    (host.queueOutgoingCommand index command packet offset length).1.datagram =
      host.datagram := by
  unfold queueOutgoingCommand
  split <;> rfl

theorem Host.peerPing_datagram (host : Host) (index : Nat) :
    (host.peerPing index).datagram = host.datagram := by
  unfold peerPing
  split
  · exact queueOutgoingCommand_datagram ..
  · rfl

theorem Host.onDisconnect_datagram (host : Host) (index : Nat) :
    (host.onDisconnect index).datagram = host.datagram := by
  unfold onDisconnect
  dsimp only
  split <;> rfl

theorem Host.startDisconnect_datagram (host : Host) (index data : Nat) :
    (host.startDisconnect index data).datagram = host.datagram := by
  unfold startDisconnect
  dsimp only
  rw [setPeer_datagram, onDisconnect_datagram, queueOutgoingCommand_datagram]
  unfold resetQueues
  dsimp only
  split <;> rfl

theorem Host.checkOutgoingCommands_holds {host : Host} {sentUnreliable : List OutgoingCommand}
    (holds : host.datagram.Holds sentUnreliable) (index : Nat) :
    (host.checkOutgoingCommands index sentUnreliable).1.datagram.Holds
      (host.checkOutgoingCommands index sentUnreliable).2.1 := by
  have scans := OutgoingScan.Holds.run host.serviceTime
    ((host.peers index).outgoingCommands.length +
      (host.peers index).outgoingSendReliableCommands.length)
    (.start (host.peers index) host.heap host.datagram sentUnreliable) holds
  unfold checkOutgoingCommands
  dsimp only
  split
  · rw [startDisconnect_datagram]
    exact scans
  · exact scans

/-- A datagram that stays empty holds no unreliable command. -/
theorem Host.fillDatagram_sentUnreliable {host : Host} {index : Nat}
    (empty : (host.fillDatagram index).1.datagram.commandCount = 0) :
    (host.fillDatagram index).2 = [] := by
  have checks : (host.checkWaitingCommands index).1.datagram.Holds
      (host.checkWaitingCommands index).2.1 := by
    unfold checkWaitingCommands
    dsimp only
    split
    · exact Nat.zero_le _
    · exact checkOutgoingCommands_holds (Nat.zero_le _) index
  have pings : ((host.checkWaitingCommands index).1.peerPing index).datagram.Holds
      (host.checkWaitingCommands index).2.1 := by
    unfold peerPing
    split
    · rw [queueOutgoingCommand_datagram]
      exact checks
    · exact checks
  have holds : (host.fillDatagram index).1.datagram.Holds (host.fillDatagram index).2 := by
    unfold fillDatagram
    dsimp only
    split
    · exact checkOutgoingCommands_holds pings index
    · exact checks
  rw [Datagram.Holds, empty] at holds
  exact List.eq_nil_of_length_eq_zero (Nat.le_zero.mp holds)

/-- A host that sends, with the unreliable commands in the datagram of a peer. -/
abbrev Sending : Type := Host × List OutgoingCommand

/-- A step of `enet_protocol_send_outgoing_commands` that checks no timeouts. -/
inductive SendStep : Sending → Sending → Prop where
  | quiet {host host' : Host} (sentUnreliable : List OutgoingCommand) (quiet : Quiet host host') :
      SendStep (host, sentUnreliable) (host', sentUnreliable)
  | startDatagram (host : Host) (index : Nat) (used : (host.peers index).state ≠ .disconnected) :
      SendStep (host, []) (host.startDatagram index, [])
  | queue (host : Host) (sentUnreliable : List OutgoingCommand) (index : Nat) (command : Protocol)
      (maintenance : command.isMaintenance) :
      SendStep (host, sentUnreliable)
        ((host.queueOutgoingCommand index command none 0 0).1, sentUnreliable)
  | checkOutgoing (host : Host) (sentUnreliable : List OutgoingCommand) (index : Nat) :
      SendStep (host, sentUnreliable)
        ((host.checkOutgoingCommands index sentUnreliable).1,
          (host.checkOutgoingCommands index sentUnreliable).2.1)
  | removeSent (host : Host) (sentUnreliable : List OutgoingCommand) (index : Nat) :
      SendStep (host, sentUnreliable)
        (host.removeSentUnreliableCommands index sentUnreliable, [])

/-- Steps that send, in sequence. -/
abbrev SendRun : Sending → Sending → Prop := ReflTransGen SendStep

/-- Steps that send whole datagrams. -/
abbrev Sends (host host' : Host) : Prop := SendRun (host, []) (host', [])

namespace SendRun

theorem of_quiet {host host' : Host} {sentUnreliable : List OutgoingCommand}
    (quiet : Quiet host host') : SendRun (host, sentUnreliable) (host', sentUnreliable) :=
  .single (.quiet sentUnreliable quiet)

theorem peerPing (host : Host) (sentUnreliable : List OutgoingCommand) (index : Nat) :
    SendRun (host, sentUnreliable) (host.peerPing index, sentUnreliable) := by
  unfold Host.peerPing
  split
  · exact .single (.queue host sentUnreliable index _ ⟨rfl, rfl, trivial⟩)
  · exact .refl

theorem checkWaitingCommands (host : Host) (index : Nat) :
    SendRun (host, [])
      ((host.checkWaitingCommands index).1, (host.checkWaitingCommands index).2.1) := by
  unfold Host.checkWaitingCommands
  dsimp only
  split
  · exact .refl
  · exact .single (.checkOutgoing host [] index)

theorem fillDatagram (host : Host) (index : Nat) :
    SendRun (host, []) ((host.fillDatagram index).1, (host.fillDatagram index).2) := by
  have checks := checkWaitingCommands host index
  unfold Host.fillDatagram
  dsimp only
  split
  · exact (checks.trans (peerPing _ _ index)).tail (.checkOutgoing _ _ index)
  · exact checks

theorem sendDatagram (host : Host) (index : Nat) (sentUnreliable : List OutgoingCommand) :
    SendRun (host, sentUnreliable) ((host.sendDatagram index sentUnreliable).1, []) := by
  have losses : Quiet host (host.setPeer index ((host.peers index).updatePacketLoss
      host.serviceTime)) := .setPeer host (.packetLoss _ _)
  have passes : ∀ (before : Host) address bytes, Quiet before (before.pass address bytes) :=
    fun _ _ _ => .of_same rfl rfl rfl rfl rfl rfl rfl rfl
  have counts : ∀ (before : Host) length, Quiet before (before.countSent length) :=
    fun _ _ => .of_same rfl rfl rfl rfl rfl rfl rfl rfl
  unfold Host.sendDatagram
  dsimp only
  split
  · refine ReflTransGen.tail ?_ (.removeSent _ sentUnreliable index)
    exact of_quiet (losses.trans ((passes _ _ _).trans (.setPeer _ (.lastSendTime _ _))))
  · refine ReflTransGen.tail (ReflTransGen.tail ?_ (.removeSent _ sentUnreliable index))
      (.quiet _ (counts _ _))
    exact of_quiet (losses.trans ((passes _ _ _).trans (.setPeer _ (.lastSendTime _ _))))

end SendRun

/-! ## All steps -/

/-- A host inside a call, with what `event` points to. -/
abbrev Activity : Type := Host × Option Event

/-- What is stored in `*event`, if anything is, is an event of this peer. -/
def Current (event : Option Event) (index : Nat) : Prop :=
  Host.isStored event = true → event.bind Event.peer = some index

theorem Current.of_fresh {event : Option Event} (fresh : Host.isStored event = false)
    (index : Nat) : Current event index := by
  intro stored
  rw [fresh] at stored
  exact absurd stored (by decide)

/-- What an application asks of a host about a packet of its own, or for one. -/
inductive Request where
  | send (packet : Packet)
  | receive (peer : Nat)
  /-- Store settings. -/
  | configure (mtu duplicatePeers maximumPacketSize maximumWaitingData : Nat)

/-- One step of a call, by an application that asks what it may. -/
inductive StepUnder (May : Host → Request → Prop) : Activity → Activity → Prop where
  | send {host host' : Host} (event : Option Event) (sends : Sends host host') :
      StepUnder May (host, event) (host', event)
  | command (host : Host) (event : Option Event) (index : Nat) (sentTime : Option Nat)
      (command : Protocol) (data : List UInt8) (current : Current event index) :
      StepUnder May (host, event)
        ((host.commandStep event index sentTime command data).1,
          (host.commandStep event index sentTime command data).2.1)
  | accept (host : Host) (event : Option Event) (fields : Connect)
      (fresh : Host.isStored event = false) :
      StepUnder May (host, event) ((host.handleConnect fields).1, event)
  | timeouts (host : Host) (event : Option Event) (index : Nat)
      (fresh : Host.isStored event = false) :
      StepUnder May (host, event)
        ((host.checkTimeouts index event).1, (host.checkTimeouts index event).2.1)
  | dispatch (host : Host) (event : Event) (index : Nat)
      (first : host.dispatchQueue.next .sentinel = .peer index)
      (fresh : Host.isStored (some event) = false) :
      StepUnder May (host, some event)
        ((host.dispatchTurn index event).1, some (host.dispatchTurn index event).2.1)
  | connect (host : Host) (address : Address) (channelCount data : Nat) :
      StepUnder May (host, none) ((host.hostConnect address channelCount data).1, none)
  | packet (host : Host) (index channelID : Nat) (packet : Packet)
      (may : May host (.send packet)) :
      StepUnder May (host, none) ((host.peerSend index channelID packet).1, none)
  | receive (host : Host) (index : Nat) (may : May host (.receive index)) :
      StepUnder May (host, none) ((host.peerReceive index).1, none)
  | reset (host : Host) (index : Nat) : StepUnder May (host, none) (host.peerReset index, none)
  | startDisconnect (host : Host) (index data : Nat)
      (connected : (host.peers index).state.isConnected = true) :
      StepUnder May (host, none) (host.startDisconnect index data, none)
  | disconnectLater (host : Host) (index data : Nat)
      (connected : (host.peers index).state.isConnected = true) :
      StepUnder May (host, none)
        (host.setPeer index (((host.peers index).setState .disconnectLater).setEventData data),
          none)
  | abandon (host : Host) {host' : Host} (index data : Nat)
      (sends : Sends ((host.resetQueues index).queueOutgoingCommand index
        (Host.disconnectCommand data) none 0 0).1 host') :
      StepUnder May (host, none) (host'.peerReset index, none)
  | discard (host : Host) (packet : Packet)
      (unreferenced : host.heap.referenceCount packet.address = 0)
      (may : May host (.send packet)) :
      StepUnder May (host, none) (host.setHeap (host.heap.destroy packet), none)
  | configure (host : Host) (mtu duplicatePeers maximumPacketSize maximumWaitingData : Nat)
      (checksum : Option (List UInt8 → Nat)) (compressor : Option Compressor)
      (may : May host (.configure mtu duplicatePeers maximumPacketSize maximumWaitingData)) :
      StepUnder May (host, none)
        (host.configure mtu duplicatePeers maximumPacketSize maximumWaitingData checksum
          compressor, none)

/-- One step of a call. -/
abbrev Step : Activity → Activity → Prop := StepUnder fun _ _ => True

/-- Steps in sequence, by an application that asks what it may. -/
abbrev RunUnder (May : Host → Request → Prop) : Activity → Activity → Prop :=
  ReflTransGen (StepUnder May)

/-- Steps in sequence. -/
abbrev Run : Activity → Activity → Prop := RunUnder fun _ _ => True

theorem Sends.run {May : Host → Request → Prop} {host host' : Host} (sends : Sends host host')
    (event : Option Event) : RunUnder May (host, event) (host', event) :=
  .single (.send event sends)

theorem Quiet.run {May : Host → Request → Prop} {host host' : Host} (quiet : Quiet host host')
    (event : Option Event) : RunUnder May (host, event) (host', event) :=
  Sends.run (.of_quiet quiet) event

/-! ## What only grows -/

/-- The history only grows, and the allocator stays as it is. -/
structure Extends (host host' : Host) : Prop where
  history : ∃ seen, host'.history = host.history ++ seen
  mallocs : host.heap.Grows host'.heap

namespace Extends

variable {host host' host'' : Host}

theorem refl (host : Host) : Extends host host := ⟨⟨[], (List.append_nil _).symm⟩, .refl _⟩

theorem trans (first : Extends host host') (second : Extends host' host'') :
    Extends host host'' := by
  obtain ⟨seen, history⟩ := first.history
  obtain ⟨more, history'⟩ := second.history
  refine ⟨⟨seen ++ more, ?_⟩, first.mallocs.trans second.mallocs⟩
  rw [history', history, List.append_assoc]

theorem of_acts {index : Nat} (acts : ActsOn index host host') : Extends host host' := by
  obtain ⟨seen, history, -⟩ := acts.history
  exact ⟨⟨seen, history⟩, acts.mallocs⟩

theorem of_quiet (quiet : Quiet host host') : Extends host host' :=
  ⟨⟨[], quiet.history.trans (List.append_nil _).symm⟩, quiet.mallocs⟩

theorem sendStep {before after : Sending} (step : SendStep before after) :
    Extends before.1 after.1 := by
  cases step with
  | quiet sentUnreliable quiet => exact of_quiet quiet
  | startDatagram host index used => exact of_acts (.startDatagram host index)
  | queue host sentUnreliable index command maintenance => exact of_acts (.queueOutgoingCommand ..)
  | checkOutgoing host sentUnreliable index => exact of_acts (.checkOutgoingCommands ..)
  | removeSent host sentUnreliable index => exact of_acts (.removeSentUnreliableCommands ..)

theorem sendRun {before after : Sending} (run : SendRun before after) :
    Extends before.1 after.1 :=
  Library.runs_relate (fun before after => Extends before.1 after.1) (fun _ => refl _)
    (fun first => first.trans) sendStep run

/-- **Every step extends the history**, and none replaces the allocator. -/
theorem step {before after : Activity} (step : Step before after) :
    Extends before.1 after.1 := by
  cases step with
  | send event sends => exact sendRun sends
  | command host event index sentTime command data current => exact of_acts (.commandStep ..)
  | accept host event fields fresh =>
      cases free : host.freePeer with
      | none =>
          dsimp only
          unfold Host.handleConnect
          rw [free]
          split <;> exact refl host
      | some slot => exact of_acts (.handleConnect fields free)
  | timeouts host event index fresh => exact of_acts (.checkTimeouts ..)
  | dispatch host event index first fresh => exact of_acts (.dispatchTurn ..)
  | connect host address channelCount data =>
      cases free : host.freePeer with
      | none =>
          dsimp only
          unfold Host.hostConnect
          rw [free]
          exact refl host
      | some slot => exact of_acts (.hostConnect address channelCount data free)
  | packet host index channelID packet => exact of_acts (.peerSend ..)
  | receive host index => exact of_acts (.peerReceive ..)
  | reset host index => exact of_acts (.peerReset ..)
  | startDisconnect host index data connected => exact of_acts (.startDisconnect ..)
  | disconnectLater host index data connected => exact of_acts (.setPeer ..)
  | abandon host index data sends =>
      exact ((of_acts ((ActsOn.resetQueues host index).trans (.queueOutgoingCommand ..))).trans
        (sendRun sends)).trans (of_acts (.peerReset ..))
  | discard host packet unreferenced =>
      exact ⟨⟨[], (List.append_nil _).symm⟩, host.heap.destroy_grows packet⟩
  | configure host => exact ⟨⟨[], (List.append_nil _).symm⟩, .refl _⟩

end Extends

end Enet
