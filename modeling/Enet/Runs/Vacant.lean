import Enet.Runs.Received

/-!
# Free slots

A slot that is free has no channels: the array is gone and its length is zero.
The store of a null pointer there, where an allocation fails, writes what the
slot holds already.
-/

set_option autoImplicit false

namespace Enet

/-! ## Channels out of use -/

/-- A peer keeps its number of channels, and those beyond it are untouched. -/
structure Peer.LeavesUnused (peer peer' : Peer) : Prop where
  state : peer'.state = peer.state
  allocated : peer'.channelsAllocated = peer.channelsAllocated
  count : peer'.channelCount = peer.channelCount
  channels : ∀ channelID, peer.channelCount ≤ channelID →
    peer'.channels channelID = peer.channels channelID

namespace Peer.LeavesUnused

variable {peer peer' peer'' : Peer}

theorem refl (peer : Peer) : peer.LeavesUnused peer := ⟨rfl, rfl, rfl, fun _ _ => rfl⟩

theorem trans (first : peer.LeavesUnused peer') (second : peer'.LeavesUnused peer'') :
    peer.LeavesUnused peer'' := by
  refine ⟨second.state.trans first.state, second.allocated.trans first.allocated,
    second.count.trans first.count, fun channelID unused => ?_⟩
  rw [second.channels channelID (first.count ▸ unused)]
  exact first.channels channelID unused

theorem of_alike (alike : peer.Alike peer') : peer.LeavesUnused peer' :=
  ⟨alike.state, alike.channelsAllocated, alike.channelCount, fun _ _ => by rw [alike.channels]⟩

theorem of_landed {count : Nat}
    (alike : (peer.setDataInTransit count).Alike (peer'.setDataInTransit count)) :
    peer.LeavesUnused peer' :=
  ⟨alike.state, alike.channelsAllocated, alike.channelCount, fun channelID _ =>
    congrFun alike.channels channelID⟩

theorem setChannel (peer : Peer) {channelID : Nat} (used : channelID < peer.channelCount)
    (channel : Channel) : peer.LeavesUnused (peer.setChannel channelID channel) := by
  refine ⟨rfl, rfl, rfl, fun other unused => ?_⟩
  rw [setChannel_channels, Function.update_of_ne (by omega)]

theorem setOutgoing (peer : Peer) (commands reliable : List OutgoingCommand) :
    peer.LeavesUnused (peer.setOutgoing commands reliable) := ⟨rfl, rfl, rfl, fun _ _ => rfl⟩

theorem setSentReliable (peer : Peer) (commands : List OutgoingCommand) :
    peer.LeavesUnused (peer.setSentReliable commands) := ⟨rfl, rfl, rfl, fun _ _ => rfl⟩

/-- A command of the connection takes no number of a channel. -/
theorem setupOutgoingCommand (peer : Peer) (totalQueued : Nat) {outgoing : OutgoingCommand}
    (control : outgoing.command.channelID = 0xFF) :
    peer.LeavesUnused (peer.setupOutgoingCommand totalQueued outgoing) := by
  unfold Peer.setupOutgoingCommand Peer.numberOutgoingCommand Peer.enqueueOutgoing
  dsimp only
  rw [if_pos control]
  split <;> exact ⟨rfl, rfl, rfl, fun _ _ => rfl⟩

theorem takeSentReliableCommand (peer : Peer) (number channelID : Nat) :
    peer.LeavesUnused (peer.takeSentReliableCommand number channelID).1 := by
  unfold Peer.takeSentReliableCommand
  split
  · exact setSentReliable ..
  · split
    · exact setOutgoing ..
    · split
      · exact setOutgoing ..
      · exact refl peer

theorem closeCommandWindow (peer : Peer) (number channelID : Nat) :
    peer.LeavesUnused (peer.closeCommandWindow number channelID) := by
  unfold Peer.closeCommandWindow
  split
  next used => exact setChannel peer used _
  · exact refl peer

theorem removeSentReliableCommand (peer : Peer) (number channelID : Nat) :
    peer.LeavesUnused (peer.removeSentReliableCommand number channelID).1 := by
  unfold Peer.removeSentReliableCommand
  dsimp only
  split
  · exact refl peer
  · exact (((takeSentReliableCommand peer number channelID).trans
      (closeCommandWindow ..)).trans (of_landed (.landReliableData _ _ _ 0))).trans
      (of_alike (.scheduleTimeout _))

theorem checkTimeouts (peer : Peer) (serviceTime : Nat) :
    peer.LeavesUnused (peer.checkTimeouts serviceTime).1 :=
  ((of_landed (.scanTimeouts serviceTime 0 peer.sentReliableCommands ⟨peer, [], [], []⟩)).trans
    (setSentReliable _ _)).trans (setOutgoing _ _ _)

theorem openCommandWindow (scan : OutgoingScan) (outgoing : OutgoingCommand) :
    scan.peer.LeavesUnused (scan.openCommandWindow outgoing) := by
  unfold OutgoingScan.openCommandWindow
  split
  next opens =>
      unfold OutgoingScan.hasChannel at opens
      simp only [Bool.and_eq_true, decide_eq_true_eq] at opens
      exact setChannel _ opens.1 _
  · exact refl _

end Peer.LeavesUnused

namespace OutgoingScan

theorem step_leavesUnused (scan : OutgoingScan) (serviceTime : Nat) (reliable : Bool)
    (outgoing : OutgoingCommand) :
    scan.peer.LeavesUnused (scan.step serviceTime reliable outgoing).1.peer := by
  have passes : scan.peer.LeavesUnused (scan.pass reliable).peer := by
    rw [pass_peer]
    exact .refl _
  have stops : scan.peer.LeavesUnused scan.stopFull.peer := .of_alike (.setContinueSending _ _)
  have counts : scan.peer.LeavesUnused
      (scan.peer.setThrottleCounter (throttleCounter scan.peer outgoing)) :=
    .of_alike (.setThrottleCounter _ _)
  unfold step
  split
  · split
    · exact passes
    · split
      · exact passes
      · split
        · exact passes
        · split
          · exact stops
          · exact (Peer.LeavesUnused.openCommandWindow scan.forbidPing outgoing).trans
              ⟨rfl, rfl, rfl, fun _ _ => rfl⟩
  · split
    · exact stops
    · unfold sendUnreliable
      dsimp only
      split
      · rw [dropThrottled_peer]
        exact counts
      · rw [transmitUnreliable_peer]
        exact counts.trans (.of_alike (.countPacketSent _))

theorem run_leavesUnused (serviceTime fuel : Nat) : ∀ scan : OutgoingScan,
    scan.peer.LeavesUnused (run serviceTime fuel scan).peer := by
  induction fuel with
  | zero => intro scan; exact .refl _
  | succ fuel ih =>
      intro scan
      unfold run
      split
      · exact .refl _
      next reliable outgoing _ =>
          have steps := scan.step_leavesUnused serviceTime reliable outgoing
          dsimp only
          split
          · exact steps.trans (ih _)
          · exact steps

end OutgoingScan

/-! ## Slots -/

/-- A slot that is free has no channels. -/
structure Peer.Unopened (peer : Peer) : Prop where
  channels : peer.channels = fun _ => Channel.empty
  allocated : peer.channelsAllocated = 0
  count : peer.channelCount = 0

/-- Every free slot has no channels. -/
def Vacant (host : Host) : Prop :=
  ∀ index, (host.peers index).state = .disconnected → (host.peers index).Unopened

/-- The null pointer is stored where it is. -/
theorem Peer.Unopened.clearChannels {peer : Peer} (unopened : peer.Unopened) :
    peer.clearChannels = peer := by
  unfold Peer.clearChannels
  rw [← unopened.channels, ← unopened.allocated]

theorem Peer.Unopened.leavesUnused {peer peer' : Peer} (unopened : peer.Unopened)
    (leaves : peer.LeavesUnused peer') : peer'.Unopened := by
  refine ⟨?_, leaves.allocated.trans unopened.allocated, leaves.count.trans unopened.count⟩
  rw [← unopened.channels]
  exact funext fun channelID => leaves.channels channelID (by rw [unopened.count]; omega)

namespace Vacant

variable {host host' : Host} {index : Nat}

theorem acts (vacant : Vacant host) (acts : ActsOn index host host')
    (own : (host'.peers index).state = .disconnected → (host'.peers index).Unopened) :
    Vacant host' := by
  intro other
  rcases eq_or_ne other index with same | different
  · rw [same]
    exact own
  · rw [acts.others other different]
    exact vacant other

theorem leaves (vacant : Vacant host) (acts : ActsOn index host host')
    (leaves : (host.peers index).LeavesUnused (host'.peers index)) : Vacant host' :=
  vacant.acts acts fun free =>
    (vacant index (leaves.state.symm.trans free)).leavesUnused leaves

theorem setPeer (vacant : Vacant host) {peer : Peer}
    (own : peer.state = .disconnected → peer.Unopened) : Vacant (host.setPeer index peer) := by
  refine vacant.acts (.setPeer host index peer) ?_
  rw [Host.setPeer_self]
  exact own

/-- A change of one peer that leaves its state and its channels. -/
theorem keep (vacant : Vacant host) {peer : Peer}
    (leaves : (host.peers index).LeavesUnused peer) : Vacant (host.setPeer index peer) :=
  vacant.setPeer fun free => (vacant index (leaves.state.symm.trans free)).leavesUnused leaves

theorem quiet (vacant : Vacant host) (quiet : Quiet host host') : Vacant host' :=
  fun other free => (vacant other ((quiet.peers other).state.symm.trans free)).leavesUnused
    (.of_alike (quiet.peers other))

theorem queueOutgoingCommand (vacant : Vacant host) {command : Protocol}
    (control : command.channelID = 0xFF) :
    Vacant (host.queueOutgoingCommand index command none 0 0).1 := by
  unfold Host.queueOutgoingCommand
  split
  · exact vacant
  next heap address allocated =>
      exact @keep (host.setHeap heap).countQueued index vacant _ (.setupOutgoingCommand _ _ control)

theorem removeSentReliableCommand (vacant : Vacant host) (number channelID : Nat) :
    Vacant (host.removeSentReliableCommand index number channelID).1 := by
  have removes := Peer.LeavesUnused.removeSentReliableCommand (host.peers index) number channelID
  unfold Host.removeSentReliableCommand
  split
  · exact vacant
  next peer outgoing removed =>
      rw [removed] at removes
      exact @keep (host.setHeap (host.heap.removeOutgoing outgoing)) index vacant _ removes

theorem peerReceive (vacant : Vacant host) (index : Nat) :
    Vacant (host.peerReceive index).1 := by
  unfold Host.peerReceive
  dsimp only
  split
  · exact vacant
  next command rest _ =>
      exact @keep (host.setHeap ((host.heap.unreference command.packet).free command.address)) index
        vacant _ ⟨rfl, rfl, rfl, fun _ _ => rfl⟩

theorem peerSend (vacant : Vacant host) (index channelID : Nat) (packet : Packet) :
    Vacant (host.peerSend index channelID packet).1 := by
  have sends : SendsFor index host (host.peerSend index channelID packet).1 := .peerSend ..
  refine vacant.acts sends.acts fun free => ?_
  rw [sends.peer.state] at free
  have refused : host.peerSend index channelID packet = (host, -1) := by
    unfold Host.peerSend
    dsimp only
    rw [if_pos (.inl (by rw [free]; decide))]
  rw [refused]
  exact vacant index free

/-- **An edit leaves no channels to a free slot.** -/
theorem edit (edit : Edit index host host') (vacant : Vacant host) : Vacant host' := by
  cases edit with
  | quiet quiet => exact vacant.quiet quiet
  | malloc => exact vacant
  | observe observation about fresh => exact vacant
  | schedule =>
      refine vacant.leaves (.scheduleDispatch host index) ?_
      rw [Host.scheduleDispatch_peer]
      exact ⟨rfl, rfl, rfl, fun _ _ => rfl⟩
  | unschedule =>
      exact @keep (host.setDispatchQueue (host.dispatchQueue.remove (.peer index))) index vacant _
        ⟨rfl, rfl, rfl, fun _ _ => rfl⟩
  | changeState state used stays may =>
      refine vacant.acts (.changeState host index state) ?_
      rw [Host.changeState_peer]
      exact fun free => absurd free stays.1
  | eventData data => exact vacant.keep ⟨rfl, rfl, rfl, fun _ _ => rfl⟩
  | resetQueues =>
      refine vacant.acts (.resetQueues host index) ?_
      rw [Host.resetQueues_peer]
      exact fun _ => ⟨rfl, rfl, rfl⟩
  | reset =>
      obtain ⟨mtu, same⟩ := Host.peerReset_peer host index
      refine vacant.acts (.peerReset host index) ?_
      rw [same]
      exact fun _ => ⟨rfl, rfl, rfl⟩
  | clearChannels free =>
      exact vacant.setPeer fun _ => ⟨rfl, rfl, (vacant index free).count⟩
  | connecting address channelCount connectID slot free locally =>
      exact vacant.setPeer fun unused => by cases unused
  | accepted fields slot free channels admits => exact vacant.setPeer fun unused => by cases unused
  | verified fields waits =>
      refine vacant.setPeer fun unused => ?_
      rw [show (Host.verifiedPeer (host.peers index) fields).state = .connecting from waits]
        at unused
      cases unused
  | bandwidth incomingBandwidth outgoingBandwidth =>
      unfold Host.handleBandwidthLimit
      dsimp only
      split
      · exact vacant
      · exact @keep (host.setBandwidthLimitedPeers _ _) index vacant _
          ⟨rfl, rfl, rfl, fun _ _ => rfl⟩
  | queue command control bare => exact vacant.queueOutgoingCommand control
  | removeSent number channelID => exact vacant.removeSentReliableCommand number channelID
  | scanTimeouts => exact vacant.keep (.checkTimeouts _ _)
  | receive step heard =>
      have receives := step.receivesFor
      refine vacant.acts receives.acts fun free => ?_
      rw [receives.peer.state] at free
      rcases step.channels with same | ⟨channelID, takes, others⟩
      · exact (vacant index free).leavesUnused ⟨receives.peer.state,
          receives.peer.channelsAllocated, receives.peer.channelCount, fun _ _ => by rw [same]⟩
      · have connected := takes.connected
        rw [free] at connected
        cases connected
  | acknowledge acknowledgement => exact vacant.keep ⟨rfl, rfl, rfl, fun _ _ => rfl⟩
  | acknowledged rest => exact vacant.keep ⟨rfl, rfl, rfl, fun _ _ => rfl⟩

theorem maintained : Maintained fun host _ => Vacant host where
  edit := edit
  scan := by
    intro host index sentUnreliable vacant
    have scanned : Vacant ((host.setHeap (host.scanOutgoing index sentUnreliable).heap).setDatagram
        (host.scanOutgoing index sentUnreliable).datagram) := vacant
    exact scanned.keep ((OutgoingScan.run_leavesUnused host.serviceTime _
      (.start (host.peers index) host.heap host.datagram sentUnreliable)).trans
      (.setOutgoing _ _ _))
  free := fun _ _ vacant => vacant
  take := fun _ index vacant => vacant.peerReceive index
  packet := fun _ index channelID packet vacant => vacant.peerSend index channelID packet
  discard := fun _ _ _ vacant => vacant
  configure := fun _ _ _ _ _ _ _ _ vacant => vacant

/-- **No free slot has channels, wherever calls pass through.** -/
theorem visited {activity : Activity} (visited : Visited activity) : Vacant activity.1 :=
  maintained.visited (fun _ _ _ _ _ _ _ _ _ => ⟨rfl, rfl, rfl⟩) visited

end Vacant

end Enet
