import Enet.Library.Runs
import Enet.Runs.Quiet

/-!
# The two sides of a peer

Numbering, queueing, transmitting, retransmitting and acknowledging commands
change the sending side of a peer only: the connection and what has been
received stay as they are. What the data handlers and the application's
receives do to a peer is as far from what it sends.
-/

set_option autoImplicit false

namespace Enet

/-- Two channels with the same receiving side. -/
structure Channel.SameIncoming (channel channel' : Channel) : Prop where
  incomingReliableSequenceNumber :
    channel'.incomingReliableSequenceNumber = channel.incomingReliableSequenceNumber
  incomingUnreliableSequenceNumber :
    channel'.incomingUnreliableSequenceNumber = channel.incomingUnreliableSequenceNumber
  incomingReliableCommands :
    channel'.incomingReliableCommands = channel.incomingReliableCommands
  incomingUnreliableCommands :
    channel'.incomingUnreliableCommands = channel.incomingUnreliableCommands

theorem Channel.SameIncoming.refl (channel : Channel) : channel.SameIncoming channel :=
  ⟨rfl, rfl, rfl, rfl⟩

/-- The numbers that a channel sends are those of a 16-bit register. -/
structure Channel.SendsTyped (channel : Channel) : Prop where
  reliable : channel.outgoingReliableSequenceNumber < 65536
  unreliable : channel.outgoingUnreliableSequenceNumber < 65536

/-- Two peers that differ in their sending side only. -/
structure Peer.SendingOnly (peer peer' : Peer) : Prop where
  state : peer'.state = peer.state
  needsDispatch : peer'.needsDispatch = peer.needsDispatch
  dispatchedCommands : peer'.dispatchedCommands = peer.dispatchedCommands
  totalWaitingData : peer'.totalWaitingData = peer.totalWaitingData
  eventData : peer'.eventData = peer.eventData
  connectID : peer'.connectID = peer.connectID
  incomingPeerID : peer'.incomingPeerID = peer.incomingPeerID
  outgoingPeerID : peer'.outgoingPeerID = peer.outgoingPeerID
  incomingSessionID : peer'.incomingSessionID = peer.incomingSessionID
  outgoingSessionID : peer'.outgoingSessionID = peer.outgoingSessionID
  channelsAllocated : peer'.channelsAllocated = peer.channelsAllocated
  channelCount : peer'.channelCount = peer.channelCount
  acknowledgements : peer'.acknowledgements = peer.acknowledgements
  incomingBandwidth : peer'.incomingBandwidth = peer.incomingBandwidth
  mtu : peer'.mtu = peer.mtu
  channels : ∀ channelID, (peer.channels channelID).SameIncoming (peer'.channels channelID)
  typed : ∀ channelID, (peer.channels channelID).SendsTyped → (peer'.channels channelID).SendsTyped

namespace Peer.SendingOnly

theorem refl (peer : Peer) : peer.SendingOnly peer := by
  constructor <;> first | rfl | exact fun _ => .refl _ | exact fun _ typed => typed

theorem trans {peer peer' peer'' : Peer} (first : peer.SendingOnly peer')
    (second : peer'.SendingOnly peer'') : peer.SendingOnly peer'' := by
  constructor
  · exact second.state.trans first.state
  · exact second.needsDispatch.trans first.needsDispatch
  · exact second.dispatchedCommands.trans first.dispatchedCommands
  · exact second.totalWaitingData.trans first.totalWaitingData
  · exact second.eventData.trans first.eventData
  · exact second.connectID.trans first.connectID
  · exact second.incomingPeerID.trans first.incomingPeerID
  · exact second.outgoingPeerID.trans first.outgoingPeerID
  · exact second.incomingSessionID.trans first.incomingSessionID
  · exact second.outgoingSessionID.trans first.outgoingSessionID
  · exact second.channelsAllocated.trans first.channelsAllocated
  · exact second.channelCount.trans first.channelCount
  · exact second.acknowledgements.trans first.acknowledgements
  · exact second.incomingBandwidth.trans first.incomingBandwidth
  · exact second.mtu.trans first.mtu
  · intro channelID
    have one := first.channels channelID
    have two := second.channels channelID
    exact ⟨two.1.trans one.1, two.2.trans one.2, two.3.trans one.3, two.4.trans one.4⟩
  · exact fun channelID typed => second.typed channelID (first.typed channelID typed)

/-- Statistics, timers and settings are on neither side. -/
theorem of_alike {peer peer' : Peer} (alike : peer.Alike peer') : peer.SendingOnly peer' := by
  constructor
  · exact alike.state
  · exact alike.needsDispatch
  · exact alike.dispatchedCommands
  · exact alike.totalWaitingData
  · exact alike.eventData
  · exact alike.connectID
  · exact alike.incomingPeerID
  · exact alike.outgoingPeerID
  · exact alike.incomingSessionID
  · exact alike.outgoingSessionID
  · exact alike.channelsAllocated
  · exact alike.channelCount
  · exact alike.acknowledgements
  · exact alike.incomingBandwidth
  · exact alike.mtu
  · intro channelID
    rw [alike.channels]
    exact .refl _
  · intro channelID typed
    rw [alike.channels]
    exact typed

/-- Neither is the count of the data in transit. -/
theorem of_landed {peer peer' : Peer} {count : Nat}
    (alike : (peer.setDataInTransit count).Alike (peer'.setDataInTransit count)) :
    peer.SendingOnly peer' := by
  have sending := of_alike alike
  exact ⟨sending.state, sending.needsDispatch, sending.dispatchedCommands,
    sending.totalWaitingData, sending.eventData, sending.connectID, sending.incomingPeerID,
    sending.outgoingPeerID, sending.incomingSessionID, sending.outgoingSessionID,
    sending.channelsAllocated, sending.channelCount, sending.acknowledgements,
    sending.incomingBandwidth, sending.mtu, sending.channels, sending.typed⟩

theorem setChannel (peer : Peer) {channelID : Nat} {channel : Channel}
    (same : (peer.channels channelID).SameIncoming channel)
    (typed : (peer.channels channelID).SendsTyped → channel.SendsTyped) :
    peer.SendingOnly (peer.setChannel channelID channel) := by
  constructor <;> try rfl
  · intro other
    by_cases equal : other = channelID
    · rw [equal, Peer.setChannel_channels, Function.update_self]
      exact same
    · rw [Peer.setChannel_channels, Function.update_of_ne equal]
      exact .refl _
  · intro other
    by_cases equal : other = channelID
    · rw [equal, Peer.setChannel_channels, Function.update_self]
      exact typed
    · rw [Peer.setChannel_channels, Function.update_of_ne equal]
      exact id

/-! ## Queueing -/

theorem numberOutgoingCommand (peer : Peer) (outgoing : OutgoingCommand) :
    peer.SendingOnly (peer.numberOutgoingCommand outgoing).1 := by
  unfold Peer.numberOutgoingCommand
  split
  · constructor <;> first | rfl | exact fun _ => .refl _ | exact fun _ typed => typed
  · split
    · exact setChannel peer ⟨rfl, rfl, rfl, rfl⟩
        fun typed => ⟨Nat.mod_lt _ (by decide), Nat.zero_lt_succ _⟩
    · split
      · constructor <;> first | rfl | exact fun _ => .refl _ | exact fun _ typed => typed
      · refine setChannel peer ⟨rfl, rfl, rfl, rfl⟩ fun typed => ⟨typed.reliable, ?_⟩
        dsimp only
        split
        · exact Nat.mod_lt _ (by decide)
        · exact typed.unreliable

theorem setOutgoing (peer : Peer) (commands reliable : List OutgoingCommand) :
    peer.SendingOnly (peer.setOutgoing commands reliable) := by
  constructor <;> first | rfl | exact fun _ => .refl _ | exact fun _ typed => typed

theorem setSentReliable (peer : Peer) (commands : List OutgoingCommand) :
    peer.SendingOnly (peer.setSentReliable commands) := by
  constructor <;> first | rfl | exact fun _ => .refl _ | exact fun _ typed => typed

theorem enqueueOutgoing (peer : Peer) (outgoing : OutgoingCommand) :
    peer.SendingOnly (peer.enqueueOutgoing outgoing) := by
  unfold Peer.enqueueOutgoing
  split
  · exact setOutgoing ..
  · exact setOutgoing ..

theorem setupOutgoingCommand (peer : Peer) (totalQueued : Nat) (outgoing : OutgoingCommand) :
    peer.SendingOnly (peer.setupOutgoingCommand totalQueued outgoing) :=
  ((of_alike (.countOutgoingData peer outgoing)).trans (numberOutgoingCommand _ outgoing)).trans
    (enqueueOutgoing _ _)

/-! ## Acknowledgements -/

theorem takeSentReliableCommand (peer : Peer) (number channelID : Nat) :
    peer.SendingOnly (peer.takeSentReliableCommand number channelID).1 := by
  unfold Peer.takeSentReliableCommand
  split
  · exact setSentReliable ..
  · split
    · exact setOutgoing ..
    · split
      · exact setOutgoing ..
      · exact refl peer

theorem closeCommandWindow (peer : Peer) (number channelID : Nat) :
    peer.SendingOnly (peer.closeCommandWindow number channelID) := by
  unfold Peer.closeCommandWindow
  split
  · refine setChannel peer ?_ fun typed => ?_
    · unfold Peer.closeWindow
      dsimp only
      split
      · exact ⟨rfl, rfl, rfl, rfl⟩
      · exact .refl _
    · unfold Peer.closeWindow
      dsimp only
      split
      · exact ⟨typed.reliable, typed.unreliable⟩
      · exact typed
  · exact refl peer

theorem removeSentReliableCommand (peer : Peer) (number channelID : Nat) :
    peer.SendingOnly (peer.removeSentReliableCommand number channelID).1 := by
  unfold Peer.removeSentReliableCommand
  dsimp only
  split
  · exact refl peer
  · exact (((takeSentReliableCommand peer number channelID).trans
      (closeCommandWindow ..)).trans (of_landed (.landReliableData _ _ _ 0))).trans
      (of_alike (.scheduleTimeout _))

/-! ## Timeouts -/

theorem checkTimeouts (peer : Peer) (serviceTime : Nat) :
    peer.SendingOnly (peer.checkTimeouts serviceTime).1 :=
  ((of_landed (.scanTimeouts serviceTime 0 peer.sentReliableCommands ⟨peer, [], [], []⟩)).trans
    (setSentReliable _ _)).trans (setOutgoing _ _ _)

/-! ## Transmission -/

theorem openCommandWindow (scan : OutgoingScan) (outgoing : OutgoingCommand) :
    scan.peer.SendingOnly (scan.openCommandWindow outgoing) := by
  unfold OutgoingScan.openCommandWindow
  split
  · exact setChannel _ ⟨rfl, rfl, rfl, rfl⟩ fun typed => ⟨typed.reliable, typed.unreliable⟩
  · exact refl _

theorem addSentReliable (peer : Peer) (serviceTime : Nat) (outgoing : OutgoingCommand) :
    peer.SendingOnly (OutgoingScan.addSentReliable peer serviceTime outgoing) := by
  constructor <;> first | rfl | exact fun _ => .refl _ | exact fun _ typed => typed

end Peer.SendingOnly

namespace OutgoingScan

@[simp] theorem unlink_peer (scan : OutgoingScan) (reliable : Bool) :
    (scan.unlink reliable).peer = scan.peer := by
  cases reliable <;> rfl

@[simp] theorem pass_peer (scan : OutgoingScan) (reliable : Bool) :
    (scan.pass reliable).peer = scan.peer := by
  cases reliable <;> rfl

@[simp] theorem dropThrottled_peer (scan : OutgoingScan) (reliable : Bool)
    (outgoing : OutgoingCommand) : (scan.dropThrottled reliable outgoing).peer = scan.peer :=
  scan.unlink_peer reliable

@[simp] theorem transmitUnreliable_peer (scan : OutgoingScan) (reliable : Bool)
    (outgoing : OutgoingCommand) :
    (scan.transmitUnreliable reliable outgoing).peer = scan.peer.countPacketSent := by
  have unlinks := congrArg Peer.countPacketSent (scan.unlink_peer reliable)
  unfold transmitUnreliable
  dsimp only
  split
  · exact unlinks
  · exact unlinks

theorem sendUnreliable_sendingOnly (scan : OutgoingScan) (reliable : Bool)
    (outgoing : OutgoingCommand) :
    scan.peer.SendingOnly (scan.sendUnreliable reliable outgoing).peer := by
  have counts := Peer.SendingOnly.of_alike (.setThrottleCounter scan.peer
    (throttleCounter scan.peer outgoing))
  unfold sendUnreliable
  dsimp only
  split
  · rw [dropThrottled_peer]
    exact counts
  · rw [transmitUnreliable_peer]
    exact counts.trans (.of_alike (.countPacketSent _))

theorem step_sendingOnly (scan : OutgoingScan) (serviceTime : Nat) (reliable : Bool)
    (outgoing : OutgoingCommand) :
    scan.peer.SendingOnly (scan.step serviceTime reliable outgoing).1.peer := by
  have passes : scan.peer.SendingOnly (scan.pass reliable).peer := by
    rw [pass_peer]
    exact .refl _
  have stops : scan.peer.SendingOnly scan.stopFull.peer :=
    .of_alike (.setContinueSending _ _)
  unfold step
  split
  · split
    · exact passes
    · split
      · exact passes
      · split
        · exact passes
        · split
          · exact stops
          · exact ((Peer.SendingOnly.openCommandWindow scan.forbidPing outgoing).trans
              (.addSentReliable _ serviceTime _)).trans (.of_alike (.countPacketSent _))
  · split
    · exact stops
    · exact sendUnreliable_sendingOnly scan reliable outgoing

theorem run_sendingOnly (serviceTime fuel : Nat) : ∀ scan : OutgoingScan,
    scan.peer.SendingOnly (run serviceTime fuel scan).peer := by
  induction fuel with
  | zero => intro scan; exact .refl _
  | succ fuel ih =>
      intro scan
      unfold run
      split
      · exact .refl _
      next reliable outgoing _ =>
          have steps := scan.step_sendingOnly serviceTime reliable outgoing
          dsimp only
          split
          · exact steps.trans (ih _)
          · exact steps

end OutgoingScan

/-- **Checking the outgoing commands changes the sending side of the peer only.** -/
theorem Peer.SendingOnly.checkOutgoingCommands (peer : Peer) (heap : Heap) (datagram : Datagram)
    (sentUnreliable : List OutgoingCommand) (serviceTime : Nat) :
    peer.SendingOnly
      (peer.checkOutgoingCommands heap datagram sentUnreliable serviceTime).finish :=
  (OutgoingScan.run_sendingOnly serviceTime _
    (OutgoingScan.start peer heap datagram sentUnreliable)).trans (.setOutgoing _ _ _)

/-! ## The host's part -/

namespace Host

@[simp] theorem setupOutgoingCommand_dispatchQueue (host : Host) (index : Nat)
    (outgoing : OutgoingCommand) :
    (host.setupOutgoingCommand index outgoing).dispatchQueue = host.dispatchQueue := rfl

@[simp] theorem setupOutgoingCommand_history (host : Host) (index : Nat)
    (outgoing : OutgoingCommand) :
    (host.setupOutgoingCommand index outgoing).history = host.history := rfl

@[simp] theorem queueOutgoingCommand_dispatchQueue (host : Host) (index : Nat)
    (command : Protocol) (packet : Option Packet) (offset length : Nat) :
    (host.queueOutgoingCommand index command packet offset length).1.dispatchQueue =
      host.dispatchQueue := by
  unfold queueOutgoingCommand
  split <;> rfl

@[simp] theorem queueOutgoingCommand_history (host : Host) (index : Nat)
    (command : Protocol) (packet : Option Packet) (offset length : Nat) :
    (host.queueOutgoingCommand index command packet offset length).1.history = host.history := by
  unfold queueOutgoingCommand
  split <;> rfl

theorem setupOutgoingCommand_sendingOnly (host : Host) (index : Nat)
    (outgoing : OutgoingCommand) :
    (host.peers index).SendingOnly ((host.setupOutgoingCommand index outgoing).peers index) := by
  rw [setupOutgoingCommand, setPeer_self]
  exact .setupOutgoingCommand ..

theorem queueOutgoingCommand_sendingOnly (host : Host) (index : Nat)
    (command : Protocol) (packet : Option Packet) (offset length : Nat) :
    (host.peers index).SendingOnly
      ((host.queueOutgoingCommand index command packet offset length).1.peers index) := by
  unfold queueOutgoingCommand
  split
  · exact .refl _
  · exact setupOutgoingCommand_sendingOnly (host.setHeap _) index _

end Host

/-- The host changed only in the sending side of one peer, and in its own counts
and memory. -/
structure SendsFor (index : Nat) (host host' : Host) : Prop where
  acts : ActsOn index host host'
  history : host'.history = host.history
  dispatchQueue : host'.dispatchQueue = host.dispatchQueue
  peer : (host.peers index).SendingOnly (host'.peers index)

namespace SendsFor

variable {index : Nat} {host host' host'' : Host}

theorem refl (index : Nat) (host : Host) : SendsFor index host host :=
  ⟨.refl index host, rfl, rfl, .refl _⟩

theorem trans (first : SendsFor index host host') (second : SendsFor index host' host'') :
    SendsFor index host host'' :=
  ⟨first.acts.trans second.acts, second.history.trans first.history,
    second.dispatchQueue.trans first.dispatchQueue, first.peer.trans second.peer⟩

theorem of_same (peers : host'.peers = host.peers) (history : host'.history = host.history)
    (dispatchQueue : host'.dispatchQueue = host.dispatchQueue)
    (mallocs : host.heap.Grows host'.heap)
    (peerCount : host'.peerCount = host.peerCount) : SendsFor index host host' :=
  ⟨.of_same peers history mallocs peerCount, history, dispatchQueue, by rw [peers]; exact .refl _⟩

theorem setPeer (host : Host) {index : Nat} {peer : Peer}
    (sending : (host.peers index).SendingOnly peer) :
    SendsFor index host (host.setPeer index peer) :=
  ⟨.setPeer host index peer, rfl, rfl, by rw [Host.setPeer_self]; exact sending⟩

theorem setHeap (index : Nat) (host : Host) {heap : Heap}
    (mallocs : host.heap.Grows heap) :
    SendsFor index host (host.setHeap heap) :=
  of_same rfl rfl rfl mallocs rfl

theorem recalculate (index : Nat) (host : Host) : SendsFor index host host.recalculate :=
  of_same rfl rfl rfl (.refl _) rfl

theorem onConnect (index : Nat) (host : Host) (connecting : Nat) :
    SendsFor index host (host.onConnect connecting) := by
  unfold Host.onConnect
  dsimp only
  split
  · exact refl index host
  · exact of_same rfl rfl rfl (.refl _) rfl

theorem onDisconnect (index : Nat) (host : Host) (disconnecting : Nat) :
    SendsFor index host (host.onDisconnect disconnecting) := by
  unfold Host.onDisconnect
  dsimp only
  split
  · exact of_same rfl rfl rfl (.refl _) rfl
  · exact refl index host

theorem queueOutgoingCommand (host : Host) (index : Nat) (command : Protocol)
    (packet : Option Packet) (offset length : Nat) :
    SendsFor index host (host.queueOutgoingCommand index command packet offset length).1 :=
  ⟨.queueOutgoingCommand .., Host.queueOutgoingCommand_history ..,
    Host.queueOutgoingCommand_dispatchQueue .., Host.queueOutgoingCommand_sendingOnly ..⟩

theorem setupOutgoingCommand (host : Host) (index : Nat) (outgoing : OutgoingCommand) :
    SendsFor index host (host.setupOutgoingCommand index outgoing) :=
  ⟨.setupOutgoingCommand .., rfl, rfl, Host.setupOutgoingCommand_sendingOnly ..⟩

theorem foldl_setupOutgoingCommand (index : Nat) (fragments : List OutgoingCommand) :
    ∀ host : Host, SendsFor index host
      (fragments.foldl (fun host fragment => host.setupOutgoingCommand index fragment) host) := by
  induction fragments with
  | nil => exact .refl index
  | cons fragment fragments ih =>
      intro host
      exact (setupOutgoingCommand host index fragment).trans (ih _)

theorem sendFragments (host : Host) (index channelID : Nat) (packet : Packet) :
    SendsFor index host (host.sendFragments index channelID packet).1 := by
  unfold Host.sendFragments
  dsimp only
  split
  · exact .refl index host
  · split
    next made => exact .setHeap index host (grows_of_makeFragments made)
    next fragments made =>
        refine SendsFor.trans (.setHeap index host ?_) (foldl_setupOutgoingCommand index _ _)
        exact (grows_of_makeFragments made).trans
          (Heap.foldl_grows _ (fun heap _ => heap.acquire_grows packet) _ _)

theorem peerSend (host : Host) (index channelID : Nat) (packet : Packet) :
    SendsFor index host (host.peerSend index channelID packet).1 := by
  have queues := queueOutgoingCommand host index
    (Host.sendCommand ((host.peers index).channels channelID) channelID packet) (some packet) 0
    packet.dataLength
  unfold Host.peerSend
  dsimp only
  split
  · exact .refl index host
  · split
    · exact sendFragments host index channelID packet
    · split
      next queued => rw [queued] at queues; exact queues
      next queued => rw [queued] at queues; exact queues

theorem removeSentReliableCommand (host : Host) (index reliableSequenceNumber channelID : Nat) :
    SendsFor index host
      (host.removeSentReliableCommand index reliableSequenceNumber channelID).1 := by
  have removes := Peer.SendingOnly.removeSentReliableCommand (host.peers index)
    reliableSequenceNumber channelID
  unfold Host.removeSentReliableCommand
  split
  · exact .refl index host
  next removed =>
      rw [removed] at removes
      exact (setHeap index host (Heap.removeOutgoing_grows ..)).trans (.setPeer _ removes)

end SendsFor

/-! ## Acknowledgements of received commands -/

namespace Command

/-- Whether a command is a DISCONNECT command. -/
def isDisconnect : Command → Bool
  | disconnect _ => true
  | _ => false

end Command

/-- An acknowledgement of a DISCONNECT command waits to be sent. -/
def Peer.AcknowledgesDisconnect (peer : Peer) : Prop :=
  ∃ acknowledgement ∈ peer.acknowledgements, acknowledgement.command.command.isDisconnect = true

/-- Whether a command handled in this state of the peer is acknowledged. -/
def PeerState.acknowledges (state : PeerState) (command : Protocol) : Bool :=
  match state with
  | .disconnecting | .acknowledgingConnect | .disconnected | .zombie => false
  | .acknowledgingDisconnect => command.command.isDisconnect
  | _ => true

/-- What the acknowledgement stage does for a command: nothing to the peer, or
one more acknowledgement. -/
inductive Acknowledges (index : Nat) (command : Protocol) (host : Host) : Host → Prop where
  | kept {heap : Heap} (mallocs : host.heap.Grows heap) :
      Acknowledges index command host (host.setHeap heap)
  | queued {heap : Heap} (sentTime : Nat)
      (mallocs : host.heap.Grows heap)
      (allowed : (host.peers index).state.acknowledges command = true) :
      Acknowledges index command host
        ((host.setHeap heap).setPeer index
          ((host.peers index).addAcknowledgement ⟨sentTime, command⟩))

namespace Acknowledges

variable {index : Nat} {command : Protocol} {host host' : Host}

theorem refl (index : Nat) (command : Protocol) (host : Host) :
    Acknowledges index command host host :=
  @kept index command host host.heap (.refl _)

theorem queueAcknowledgement (sentTime : Nat)
    (allowed : (host.peers index).state.acknowledges command = true) :
    Acknowledges index command host (host.queueAcknowledgement index command sentTime).1 := by
  unfold Host.queueAcknowledgement
  dsimp only
  split
  · exact refl index command host
  · split
    next made => exact .kept (Heap.grows_of_malloc made)
    next made => exact .queued sentTime (Heap.grows_of_malloc made) allowed

/-- **The acknowledgement stage**, for any command in any state. -/
theorem acknowledgeStage (host : Host) (index : Nat) (command : Protocol)
    (sentTime : Option Nat) :
    Acknowledges index command host (host.acknowledgeStage index command sentTime).1 := by
  unfold Host.acknowledgeStage
  split
  · split
    · exact refl index command host
    · unfold Host.acknowledgeCommand
      split
      next state => exact refl index command host
      next state => exact refl index command host
      next state => exact refl index command host
      next state => exact refl index command host
      next state =>
          split
          next same => exact queueAcknowledgement _ (by rw [state]; simp [PeerState.acknowledges,
            Command.isDisconnect, same])
          · exact refl index command host
      next first second third fourth fifth =>
          refine queueAcknowledgement _ ?_
          unfold PeerState.acknowledges
          split <;> simp_all
  · exact refl index command host

theorem acts (acknowledges : Acknowledges index command host host') : ActsOn index host host' := by
  cases acknowledges with
  | kept mallocs => exact .setHeap index host mallocs
  | queued sentTime mallocs allowed =>
      exact (ActsOn.setHeap index host mallocs).trans (.setPeer _ index _)

end Acknowledges

/-! ## The receiving side -/

/-- Two channels with the same sending side. -/
structure Channel.SameOutgoing (channel channel' : Channel) : Prop where
  outgoingReliableSequenceNumber :
    channel'.outgoingReliableSequenceNumber = channel.outgoingReliableSequenceNumber
  outgoingUnreliableSequenceNumber :
    channel'.outgoingUnreliableSequenceNumber = channel.outgoingUnreliableSequenceNumber
  usedReliableWindows : channel'.usedReliableWindows = channel.usedReliableWindows
  reliableWindows : channel'.reliableWindows = channel.reliableWindows

namespace Channel.SameOutgoing

theorem refl (channel : Channel) : channel.SameOutgoing channel := ⟨rfl, rfl, rfl, rfl⟩

theorem trans {channel channel' channel'' : Channel} (first : channel.SameOutgoing channel')
    (second : channel'.SameOutgoing channel'') : channel.SameOutgoing channel'' :=
  ⟨second.1.trans first.1, second.2.trans first.2, second.3.trans first.3,
    second.4.trans first.4⟩

theorem dispatchUnreliable (channel : Channel) (queuedCommand : Option Nat) :
    channel.SameOutgoing (channel.dispatchUnreliable queuedCommand).channel :=
  ⟨rfl, rfl, rfl, rfl⟩

theorem dispatchReliable (channel : Channel) (queuedCommand : Option Nat) :
    channel.SameOutgoing (channel.dispatchReliable queuedCommand).channel := by
  unfold Channel.dispatchReliable
  dsimp only
  split
  · exact refl channel
  · split <;> exact ⟨rfl, rfl, rfl, rfl⟩

theorem insertIncoming (channel : Channel) (command : IncomingCommand) (placement : Placement) :
    channel.SameOutgoing (channel.insertIncoming command placement).channel := by
  cases placement with
  | discard => exact refl channel
  | reliable before after =>
      refine trans ?_ (dispatchReliable _ _)
      exact ⟨rfl, rfl, rfl, rfl⟩
  | unreliable before after =>
      refine trans ?_ (dispatchUnreliable _ _)
      exact ⟨rfl, rfl, rfl, rfl⟩

end Channel.SameOutgoing

/-- Two peers that differ in their receiving side only. -/
structure Peer.ReceivingOnly (peer peer' : Peer) : Prop where
  state : peer'.state = peer.state
  eventData : peer'.eventData = peer.eventData
  acknowledgements : peer'.acknowledgements = peer.acknowledgements
  sentReliableCommands : peer'.sentReliableCommands = peer.sentReliableCommands
  outgoingSendReliableCommands :
    peer'.outgoingSendReliableCommands = peer.outgoingSendReliableCommands
  outgoingCommands : peer'.outgoingCommands = peer.outgoingCommands
  channelsAllocated : peer'.channelsAllocated = peer.channelsAllocated
  channelCount : peer'.channelCount = peer.channelCount
  incomingBandwidth : peer'.incomingBandwidth = peer.incomingBandwidth
  mtu : peer'.mtu = peer.mtu
  reliableDataInTransit : peer'.reliableDataInTransit = peer.reliableDataInTransit
  nextTimeout : peer'.nextTimeout = peer.nextTimeout
  channels : ∀ channelID, (peer.channels channelID).SameOutgoing (peer'.channels channelID)

namespace Peer.ReceivingOnly

theorem refl (peer : Peer) : peer.ReceivingOnly peer := by
  constructor <;> first | rfl | exact fun _ => .refl _

theorem trans {peer peer' peer'' : Peer} (first : peer.ReceivingOnly peer')
    (second : peer'.ReceivingOnly peer'') : peer.ReceivingOnly peer'' := by
  constructor
  · exact second.state.trans first.state
  · exact second.eventData.trans first.eventData
  · exact second.acknowledgements.trans first.acknowledgements
  · exact second.sentReliableCommands.trans first.sentReliableCommands
  · exact second.outgoingSendReliableCommands.trans first.outgoingSendReliableCommands
  · exact second.outgoingCommands.trans first.outgoingCommands
  · exact second.channelsAllocated.trans first.channelsAllocated
  · exact second.channelCount.trans first.channelCount
  · exact second.incomingBandwidth.trans first.incomingBandwidth
  · exact second.mtu.trans first.mtu
  · exact second.reliableDataInTransit.trans first.reliableDataInTransit
  · exact second.nextTimeout.trans first.nextTimeout
  · exact fun channelID => (first.channels channelID).trans (second.channels channelID)

theorem setNeedsDispatch (peer : Peer) (flag : Bool) :
    peer.ReceivingOnly (peer.setNeedsDispatch flag) := by
  constructor <;> first | rfl | exact fun _ => .refl _

theorem setDispatched (peer : Peer) (commands : List IncomingCommand) (total : Nat) :
    peer.ReceivingOnly (peer.setDispatched commands total) := by
  constructor <;> first | rfl | exact fun _ => .refl _

theorem setUnsequencedWindow (peer : Peer) (group : Nat) (window : Nat → Bool) :
    peer.ReceivingOnly (peer.setUnsequencedWindow group window) := by
  constructor <;> first | rfl | exact fun _ => .refl _

theorem setChannel (peer : Peer) {channelID : Nat} {channel : Channel}
    (same : (peer.channels channelID).SameOutgoing channel) :
    peer.ReceivingOnly (peer.setChannel channelID channel) := by
  constructor <;> try rfl
  intro other
  by_cases equal : other = channelID
  · rw [equal, Peer.setChannel_channels, Function.update_self]
    exact same
  · rw [Peer.setChannel_channels, Function.update_of_ne equal]
    exact .refl _

end Peer.ReceivingOnly

/-- The host changed only in the receiving side of one peer, and in its memory.
What was seen is how dispatches were entered. -/
structure ReceivesFor (index : Nat) (host host' : Host) : Prop where
  acts : ActsOn index host host'
  history : ∃ entered : List Dispatching,
    host'.history = host.history ++ entered.map (Observation.dispatching index)
  peer : (host.peers index).ReceivingOnly (host'.peers index)

namespace ReceivesFor

variable {index : Nat} {host host' host'' : Host}

theorem refl (index : Nat) (host : Host) : ReceivesFor index host host :=
  ⟨.refl index host, ⟨[], by simp⟩, .refl _⟩

theorem trans (first : ReceivesFor index host host') (second : ReceivesFor index host' host'') :
    ReceivesFor index host host'' := by
  obtain ⟨entered, history⟩ := first.history
  obtain ⟨more, history'⟩ := second.history
  refine ⟨first.acts.trans second.acts, ⟨entered ++ more, ?_⟩, first.peer.trans second.peer⟩
  rw [history', history, List.map_append, List.append_assoc]

theorem setPeer (host : Host) {index : Nat} {peer : Peer}
    (receiving : (host.peers index).ReceivingOnly peer) :
    ReceivesFor index host (host.setPeer index peer) :=
  ⟨.setPeer host index peer, ⟨[], by simp⟩, by rw [Host.setPeer_self]; exact receiving⟩

theorem setHeap (index : Nat) (host : Host) {heap : Heap}
    (mallocs : host.heap.Grows heap) :
    ReceivesFor index host (host.setHeap heap) :=
  ⟨.setHeap index host mallocs, ⟨[], by simp⟩, .refl _⟩

theorem scheduleDispatch (host : Host) (index : Nat) :
    ReceivesFor index host (host.scheduleDispatch index) := by
  refine ⟨.scheduleDispatch host index, ⟨[], ?_⟩, ?_⟩
  · unfold Host.scheduleDispatch
    split <;> simp
  · unfold Host.scheduleDispatch
    split
    · exact .refl _
    · rw [Host.setPeer_self]
      exact .setNeedsDispatch _ _

theorem removeDispatched (host : Host) (index : Nat) (dispatched : Channel.Dispatched) :
    ReceivesFor index host (host.removeDispatched index dispatched) := by
  refine ⟨⟨fun _ _ => rfl, ⟨_, rfl, ?_⟩, ?_, rfl⟩, ⟨dispatched.entered, rfl⟩, .refl _⟩
  · intro observation member
    obtain ⟨entered, -, rfl⟩ := List.mem_map.mp member
    rfl
  · exact Heap.foldl_grows _ Heap.removeIncoming_grows _ _

theorem installDispatched (host : Host) (index channelID : Nat)
    {dispatched : Channel.Dispatched}
    (same : ((host.peers index).channels channelID).SameOutgoing dispatched.channel) :
    ReceivesFor index host (host.installDispatched index channelID dispatched) := by
  have installs := (removeDispatched host index dispatched).trans
    (setPeer _ ((Peer.ReceivingOnly.setChannel _ same).trans (.setDispatched _
      ((host.peers index).dispatchedCommands ++ dispatched.moved)
      (host.peers index).totalWaitingData)))
  unfold Host.installDispatched
  dsimp only
  split
  · exact installs
  · exact installs.trans (scheduleDispatch _ index)

theorem queueIncomingCommand (host : Host) (index : Nat) (command : Protocol)
    (data : Option (List UInt8)) (dataLength : Nat) (flags : PacketFlags) (fragmentCount : Nat) :
    ReceivesFor index host
      (host.queueIncomingCommand index command data dataLength flags fragmentCount).1 := by
  have allocates := allocateIncoming_grows host.heap command data dataLength flags
    fragmentCount
  unfold Host.queueIncomingCommand
  dsimp only
  split
  · exact refl index host
  · split
    · exact refl index host
    · split
      · exact refl index host
      · split
        next allocated => rw [allocated] at allocates; exact setHeap index host allocates
        next allocated =>
            rw [allocated] at allocates
            refine ((setHeap index host allocates).trans (setPeer _ (.setDispatched _ _ _))).trans
              (installDispatched _ index _ ?_)
            rw [Host.setPeer_self]
            exact .insertIncoming _ _ _

theorem peerReceive (host : Host) (index : Nat) :
    ReceivesFor index host (host.peerReceive index).1 := by
  unfold Host.peerReceive
  dsimp only
  split
  · exact refl index host
  · refine (setHeap index host ?_).trans (setPeer _ (.setDispatched _ _ _))
    exact (Heap.unreference_grows _ _).trans (Heap.free_grows _ _)

theorem addFragment (host : Host) (index channelID : Nat) (reliable : Bool) (address : Nat)
    (fields : SendFragment) (data : List UInt8) :
    ReceivesFor index host (host.addFragment index channelID reliable address fields data) := by
  have writes : ∀ incoming, ReceivesFor index host
      (host.setStartCommand index channelID reliable incoming) := by
    intro incoming
    refine setPeer host (.setChannel _ ?_)
    cases reliable <;> exact ⟨rfl, rfl, rfl, rfl⟩
  unfold Host.addFragment
  split
  · exact refl index host
  · split
    · exact refl index host
    · dsimp only
      split
      · split
        · exact (writes _).trans (installDispatched _ index _ (.dispatchReliable _ _))
        · exact (writes _).trans (installDispatched _ index _ (.dispatchUnreliable _ _))
      · exact writes _

end ReceivesFor

end Enet
