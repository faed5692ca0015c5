import Enet.Runs.Rules

/-!
# What changes the settings of a peer

The address of a peer, its mtu, its window and its measurements of the line are
set up with a connection. Queues, acknowledgements and received commands leave
them alone, so an edit changes them in one of six ways.
-/

set_option autoImplicit false

namespace Enet

/-- What a connection is set up with, and the measurements of the line. -/
structure Settings where
  address : Address
  connectID : Nat
  mtu : Nat
  windowSize : Nat
  roundTripTime : Nat
  roundTripTimeVariance : Nat
  packetThrottle : Nat
  packetThrottleLimit : Nat

namespace Peer

/-- The settings of a peer. -/
def settings (peer : Peer) : Settings where
  address := peer.address
  connectID := peer.connectID
  mtu := peer.mtu
  windowSize := peer.windowSize
  roundTripTime := peer.roundTripTime
  roundTripTimeVariance := peer.roundTripTimeVariance
  packetThrottle := peer.packetThrottle
  packetThrottleLimit := peer.packetThrottleLimit

/-! ## Queues -/

@[simp] theorem setOutgoing_settings (peer : Peer) (commands reliable : List OutgoingCommand) :
    (peer.setOutgoing commands reliable).settings = peer.settings := rfl

@[simp] theorem setSentReliable_settings (peer : Peer) (commands : List OutgoingCommand) :
    (peer.setSentReliable commands).settings = peer.settings := rfl

@[simp] theorem setChannel_settings (peer : Peer) (channelID : Nat) (channel : Channel) :
    (peer.setChannel channelID channel).settings = peer.settings := rfl

@[simp] theorem setDispatched_settings (peer : Peer) (commands : List IncomingCommand)
    (total : Nat) : (peer.setDispatched commands total).settings = peer.settings := rfl

@[simp] theorem setNeedsDispatch_settings (peer : Peer) (flag : Bool) :
    (peer.setNeedsDispatch flag).settings = peer.settings := rfl

@[simp] theorem setUnsequencedWindow_settings (peer : Peer) (group : Nat) (window : Nat → Bool) :
    (peer.setUnsequencedWindow group window).settings = peer.settings := rfl

@[simp] theorem setState_settings (peer : Peer) (state : PeerState) :
    (peer.setState state).settings = peer.settings := rfl

@[simp] theorem setEventData_settings (peer : Peer) (data : Nat) :
    (peer.setEventData data).settings = peer.settings := rfl

@[simp] theorem resetQueues_settings (peer : Peer) : peer.resetQueues.settings = peer.settings :=
  rfl

@[simp] theorem clearChannels_settings (peer : Peer) :
    peer.clearChannels.settings = peer.settings := rfl

@[simp] theorem addAcknowledgement_settings (peer : Peer) (acknowledgement : Acknowledgement) :
    (peer.addAcknowledgement acknowledgement).settings = peer.settings := rfl

@[simp] theorem setAcknowledgements_settings (peer : Peer) (rest : List Acknowledgement) :
    (peer.setAcknowledgements rest).settings = peer.settings := rfl

@[simp] theorem numberOutgoingCommand_settings (peer : Peer) (outgoing : OutgoingCommand) :
    (peer.numberOutgoingCommand outgoing).1.settings = peer.settings := by
  unfold numberOutgoingCommand
  split
  · rfl
  · split
    · rfl
    · split <;> rfl

@[simp] theorem setupOutgoingCommand_settings (peer : Peer) (totalQueued : Nat)
    (outgoing : OutgoingCommand) :
    (peer.setupOutgoingCommand totalQueued outgoing).settings = peer.settings := by
  unfold setupOutgoingCommand enqueueOutgoing
  dsimp only
  split <;> exact numberOutgoingCommand_settings (peer.countOutgoingData outgoing) outgoing

@[simp] theorem takeSentReliableCommand_settings (peer : Peer) (number channelID : Nat) :
    (peer.takeSentReliableCommand number channelID).1.settings = peer.settings := by
  unfold takeSentReliableCommand
  split
  · rfl
  · split
    · rfl
    · split <;> rfl

@[simp] theorem closeCommandWindow_settings (peer : Peer) (number channelID : Nat) :
    (peer.closeCommandWindow number channelID).settings = peer.settings := by
  unfold closeCommandWindow
  split <;> rfl

@[simp] theorem landReliableData_settings (peer : Peer) (outgoing : OutgoingCommand)
    (wasSent : Bool) : (peer.landReliableData outgoing wasSent).settings = peer.settings := by
  unfold landReliableData
  split <;> rfl

@[simp] theorem scheduleTimeout_settings (peer : Peer) :
    peer.scheduleTimeout.settings = peer.settings := by
  unfold scheduleTimeout
  split <;> rfl

@[simp] theorem removeSentReliableCommand_settings (peer : Peer) (number channelID : Nat) :
    (peer.removeSentReliableCommand number channelID).1.settings = peer.settings := by
  unfold removeSentReliableCommand
  dsimp only
  split
  · rfl
  · simp

/-! ## Timeouts -/

@[simp] theorem noteTimeout_settings (peer : Peer) (outgoing : OutgoingCommand) :
    (peer.noteTimeout outgoing).settings = peer.settings := by
  unfold noteTimeout
  split <;> rfl

@[simp] theorem scheduleNext_settings (peer : Peer) (passed rest : List OutgoingCommand) :
    (peer.scheduleNext passed rest).settings = peer.settings := by
  unfold scheduleNext
  split <;> rfl

theorem scanTimeouts_settings (serviceTime : Nat) (commands : List OutgoingCommand) :
    ∀ scan : TimeoutScan,
      (scanTimeouts serviceTime scan commands).1.peer.settings = scan.peer.settings := by
  induction commands with
  | nil => intro scan; rfl
  | cons outgoing rest ih =>
      intro scan
      unfold scanTimeouts
      split
      · exact ih (scan.pass outgoing)
      · dsimp only
        split
        · exact noteTimeout_settings scan.peer outgoing
        · refine (ih _).trans ?_
          have back : ∀ peer, (scan.putBack peer outgoing).peer = peer := by
            intro peer
            unfold TimeoutScan.putBack
            split <;> rfl
          rw [back, scheduleNext_settings]
          exact noteTimeout_settings scan.peer outgoing

@[simp] theorem checkTimeouts_settings (peer : Peer) (serviceTime : Nat) :
    (peer.checkTimeouts serviceTime).1.settings = peer.settings :=
  scanTimeouts_settings serviceTime peer.sentReliableCommands ⟨peer, [], [], []⟩

/-! ## Round-trip times -/

/-- The throttle is the only setting that it moves. -/
theorem throttle_settings (peer : Peer) (rtt : Nat) :
    (peer.throttle rtt).settings =
      { peer.settings with packetThrottle := (peer.throttle rtt).packetThrottle } := by
  unfold throttle
  split
  · rfl
  · split
    · rfl
    · split <;> rfl

theorem averageRoundTripTime_settings (peer : Peer) (sample : Nat) :
    (peer.averageRoundTripTime sample).settings =
      { peer.settings with
        roundTripTime := (peer.averageRoundTripTime sample).roundTripTime
        roundTripTimeVariance := (peer.averageRoundTripTime sample).roundTripTimeVariance
        packetThrottle := (peer.averageRoundTripTime sample).packetThrottle } := by
  have throttled := throttle_settings peer sample
  unfold averageRoundTripTime
  split
  · generalize peer.throttle sample = paced at throttled
    unfold settings at throttled ⊢
    dsimp only
    split
    · injection throttled
      simp_all
    · injection throttled
      simp_all
  · rfl

theorem updateRoundTripTime_settings (peer : Peer) (serviceTime sample : Nat) :
    (peer.updateRoundTripTime serviceTime sample).settings =
      (peer.averageRoundTripTime sample).settings := by
  unfold updateRoundTripTime trackRoundTripTime
  dsimp only
  split <;> rfl

theorem updatePacketLoss_settings (peer : Peer) (serviceTime : Nat) :
    (peer.updatePacketLoss serviceTime).settings = peer.settings := by
  unfold updatePacketLoss
  split
  · rfl
  · split <;> rfl

end Peer

/-! ## Transmission -/

namespace OutgoingScan

theorem step_settings (scan : OutgoingScan) (serviceTime : Nat) (reliable : Bool)
    (outgoing : OutgoingCommand) :
    (scan.step serviceTime reliable outgoing).1.peer.settings = scan.peer.settings := by
  have opens : (scan.forbidPing.openCommandWindow outgoing).settings = scan.peer.settings := by
    unfold openCommandWindow
    split <;> rfl
  have passes : (scan.pass reliable).peer.settings = scan.peer.settings := by rw [pass_peer]
  unfold step
  split
  · split
    · exact passes
    · split
      · exact passes
      · split
        · exact passes
        · split
          · rfl
          · exact opens
  · split
    · rfl
    · unfold sendUnreliable
      dsimp only
      split
      · rw [dropThrottled_peer]
        rfl
      · rw [transmitUnreliable_peer]
        rfl

theorem run_settings (serviceTime fuel : Nat) : ∀ scan : OutgoingScan,
    (run serviceTime fuel scan).peer.settings = scan.peer.settings := by
  induction fuel with
  | zero => intro scan; rfl
  | succ fuel ih =>
      intro scan
      unfold run
      split
      · rfl
      next reliable outgoing _ =>
          have steps := scan.step_settings serviceTime reliable outgoing
          dsimp only
          split
          · exact (ih _).trans steps
          · exact steps

end OutgoingScan

@[simp] theorem Peer.checkOutgoingCommands_settings (peer : Peer) (heap : Heap)
    (datagram : Datagram) (sentUnreliable : List OutgoingCommand) (serviceTime : Nat) :
    (peer.checkOutgoingCommands heap datagram sentUnreliable serviceTime).finish.settings =
      peer.settings :=
  OutgoingScan.run_settings serviceTime _ (.start peer heap datagram sentUnreliable)

/-! ## Hosts -/

/-- What a host serves its peers by: the address it received from, its time, and its
checksum. -/
def Host.surroundings (host : Host) : Address × Nat × Option (List UInt8 → Nat) :=
  (host.receivedAddress, host.serviceTime, host.checksum)

/-- A host whose settings, and those of its peers, are the same. -/
structure SameSettings (host host' : Host) : Prop where
  peers : ∀ index, (host'.peers index).settings = (host.peers index).settings
  settings : host'.settings = host.settings
  surroundings : host'.surroundings = host.surroundings

namespace SameSettings

variable {host host' host'' : Host} {index : Nat}

theorem receivedAddress (same : SameSettings host host') :
    host'.receivedAddress = host.receivedAddress := congrArg Prod.fst same.surroundings

theorem serviceTime (same : SameSettings host host') : host'.serviceTime = host.serviceTime :=
  congrArg (fun surroundings => surroundings.2.1) same.surroundings

theorem checksum (same : SameSettings host host') : host'.checksum = host.checksum :=
  congrArg (fun surroundings => surroundings.2.2) same.surroundings

theorem mtu (same : SameSettings host host') (index : Nat) :
    (host'.peers index).mtu = (host.peers index).mtu := congrArg Settings.mtu (same.peers index)

theorem refl (host : Host) : SameSettings host host := ⟨fun _ => rfl, rfl, rfl⟩

theorem trans (first : SameSettings host host') (second : SameSettings host' host'') :
    SameSettings host host'' :=
  ⟨fun index => (second.peers index).trans (first.peers index),
    second.settings.trans first.settings, second.surroundings.trans first.surroundings⟩

theorem of_same (peers : host'.peers = host.peers) (settings : host'.settings = host.settings)
    (surroundings : host'.surroundings = host.surroundings) : SameSettings host host' :=
  ⟨fun index => by rw [peers], settings, surroundings⟩

/-- A change of one peer, and of fields that are no settings. -/
theorem of_setPeer {peer : Peer} (same : peer.settings = (host.peers index).settings)
    (peers : host'.peers = Function.update host.peers index peer)
    (settings : host'.settings = host.settings)
    (surroundings : host'.surroundings = host.surroundings) : SameSettings host host' := by
  refine ⟨fun other => ?_, settings, surroundings⟩
  rw [peers]
  by_cases equal : other = index
  · rw [equal, Function.update_self, same]
  · rw [Function.update_of_ne equal]

theorem setPeer (host : Host) {index : Nat} {peer : Peer}
    (same : peer.settings = (host.peers index).settings) :
    SameSettings host (host.setPeer index peer) := of_setPeer same rfl rfl rfl

theorem setHeap (host : Host) (heap : Heap) : SameSettings host (host.setHeap heap) :=
  of_same rfl rfl rfl

end SameSettings

/-- A host in which neither a setting nor the count of a connection changed: what the
functions that queue, receive and reset leave as it is. -/
structure SameFrame (host host' : Host) : Prop extends SameSettings host host' where
  counts : host'.counts = host.counts

namespace SameFrame

variable {host host' host'' : Host} {index : Nat}

theorem refl (host : Host) : SameFrame host host := ⟨.refl host, rfl⟩

theorem trans (first : SameFrame host host') (second : SameFrame host' host'') :
    SameFrame host host'' :=
  ⟨first.toSameSettings.trans second.toSameSettings, second.counts.trans first.counts⟩

theorem of_setPeer {peer : Peer} (same : peer.settings = (host.peers index).settings)
    (peers : host'.peers = Function.update host.peers index peer)
    (settings : host'.settings = host.settings)
    (surroundings : host'.surroundings = host.surroundings)
    (counts : host'.counts = host.counts) : SameFrame host host' :=
  ⟨.of_setPeer same peers settings surroundings, counts⟩

theorem setPeer (host : Host) {index : Nat} {peer : Peer}
    (same : peer.settings = (host.peers index).settings) :
    SameFrame host (host.setPeer index peer) := ⟨.setPeer host same, rfl⟩

theorem setHeap (host : Host) (heap : Heap) : SameFrame host (host.setHeap heap) :=
  ⟨.setHeap host heap, rfl⟩

/-! ## Queues -/

theorem queueOutgoingCommand (host : Host) (index : Nat) (command : Protocol)
    (packet : Option Packet) (offset length : Nat) :
    SameFrame host (host.queueOutgoingCommand index command packet offset length).1 := by
  unfold Host.queueOutgoingCommand
  split
  · exact setHeap host _
  · exact of_setPeer (Peer.setupOutgoingCommand_settings (host.peers index) _ _) rfl rfl rfl rfl

theorem foldl_setupOutgoingCommand (index : Nat) (fragments : List OutgoingCommand) :
    ∀ host : Host, SameFrame host
      (fragments.foldl (fun host fragment => host.setupOutgoingCommand index fragment) host) := by
  induction fragments with
  | nil => exact refl
  | cons fragment fragments ih =>
      intro host
      have sets : SameFrame host (host.setupOutgoingCommand index fragment) :=
        of_setPeer (Peer.setupOutgoingCommand_settings (host.peers index) _ fragment) rfl rfl
          rfl rfl
      exact sets.trans (ih _)

theorem peerSend (host : Host) (index channelID : Nat) (packet : Packet) :
    SameFrame host (host.peerSend index channelID packet).1 := by
  have queues := queueOutgoingCommand host index
    (Host.sendCommand ((host.peers index).channels channelID) channelID packet) (some packet) 0
    packet.dataLength
  unfold Host.peerSend
  dsimp only
  split
  · exact refl host
  · split
    · unfold Host.sendFragments
      dsimp only
      split
      · exact refl host
      · split
        · exact setHeap host _
        · exact (setHeap host _).trans (foldl_setupOutgoingCommand index _ _)
    · split
      next queued => rw [queued] at queues; exact queues
      next queued => rw [queued] at queues; exact queues

theorem removeSentReliableCommand (host : Host) (index number channelID : Nat) :
    SameFrame host (host.removeSentReliableCommand index number channelID).1 := by
  have removes := Peer.removeSentReliableCommand_settings (host.peers index) number channelID
  unfold Host.removeSentReliableCommand
  split
  · exact refl host
  next removed =>
      rw [removed] at removes
      exact of_setPeer removes rfl rfl rfl rfl

/-! ## Received commands -/

theorem scheduleDispatch (host : Host) (index : Nat) :
    SameFrame host (host.scheduleDispatch index) := by
  unfold Host.scheduleDispatch
  split
  · exact refl host
  · exact of_setPeer (Peer.setNeedsDispatch_settings (host.peers index) true) rfl rfl rfl rfl

theorem installDispatched (host : Host) (index channelID : Nat)
    (dispatched : Channel.Dispatched) :
    SameFrame host (host.installDispatched index channelID dispatched) := by
  have installs : SameFrame host ((host.removeDispatched index dispatched).setPeer
      index (((host.peers index).setChannel channelID dispatched.channel).setDispatched
        ((host.peers index).dispatchedCommands ++ dispatched.moved)
        (host.peers index).totalWaitingData)) :=
    of_setPeer ((Peer.setDispatched_settings _ _ _).trans
      (Peer.setChannel_settings (host.peers index) _ _)) rfl rfl rfl rfl
  unfold Host.installDispatched
  dsimp only
  split
  · exact installs
  · exact installs.trans (scheduleDispatch _ index)

theorem receiveStep {available : List UInt8} {received : Heard}
    (step : ReceiveStep index available received host host') : SameFrame host host' := by
  cases step with
  | queue command data dataLength flags fragmentCount takes payload small few counted =>
      unfold Host.queueIncomingCommand
      dsimp only
      split
      · exact refl host
      · split
        · exact refl host
        · split
          · exact refl host
          · split
            · exact setHeap host _
            next heap incoming _ =>
                have counts : SameFrame host ((host.setHeap heap).setPeer index
                    ((host.peers index).setDispatched (host.peers index).dispatchedCommands
                      ((host.peers index).totalWaitingData + incoming.packet.dataLength))) :=
                  of_setPeer (Peer.setDispatched_settings (host.peers index) _ _) rfl rfl rfl rfl
                exact counts.trans (installDispatched ..)
  | fragment channelID reliable address fields takes fits payload holds =>
      have writes : ∀ incoming, SameFrame host
          (host.setStartCommand index channelID reliable incoming) :=
        fun _ => setPeer host (Peer.setChannel_settings _ _ _)
      unfold Host.addFragment
      split
      · exact refl host
      · split
        · exact refl host
        · dsimp only
          split
          · split
            · exact (writes _).trans (installDispatched ..)
            · exact (writes _).trans (installDispatched ..)
          · exact writes _
  | window group window => exact setPeer host (Peer.setUnsequencedWindow_settings _ _ _)

theorem peerReceive (host : Host) (index : Nat) : SameFrame host (host.peerReceive index).1 := by
  unfold Host.peerReceive
  dsimp only
  split
  · exact refl host
  · exact of_setPeer (Peer.setDispatched_settings (host.peers index) _ _) rfl rfl rfl rfl

theorem resetQueues (host : Host) (index : Nat) : SameFrame host (host.resetQueues index) := by
  have resets := Peer.resetQueues_settings (host.peers index)
  unfold Host.resetQueues
  dsimp only
  split
  · exact of_setPeer resets rfl rfl rfl rfl
  · exact of_setPeer resets rfl rfl rfl rfl

end SameFrame

namespace SameSettings

variable {host host' host'' : Host} {index : Nat}

/-! ## States -/

theorem onDisconnect (host : Host) (index : Nat) : SameSettings host (host.onDisconnect index) := by
  unfold Host.onDisconnect
  dsimp only
  split
  · exact of_same rfl rfl rfl
  · exact refl host

theorem changeState (host : Host) (index : Nat) (state : PeerState) :
    SameSettings host (host.changeState index state) := by
  have connects : SameSettings host (host.onConnect index) := by
    unfold Host.onConnect
    dsimp only
    split
    · exact refl host
    · exact of_same rfl rfl rfl
  unfold Host.changeState
  dsimp only
  split
  · exact connects.trans (setPeer _ (Peer.setState_settings _ _))
  · exact (onDisconnect host index).trans (setPeer _ (Peer.setState_settings _ _))

/-- A reset of a peer is the only change that a reset makes. -/
theorem peerReset (host : Host) (index : Nat) :
    ∃ before : Host, SameSettings host before ∧
      SameSettings (before.setPeer index ((before.peers index).resetFields before.mtu))
        (host.peerReset index) :=
  ⟨(host.observe (.reset index (host.peers index))).onDisconnect index,
    (of_same rfl rfl rfl : SameSettings host (host.observe _)).trans (onDisconnect _ index),
    (SameFrame.resetQueues _ index).toSameSettings⟩

/-! ## Sending -/

theorem dispatchState (host : Host) (index : Nat) (state : PeerState) :
    SameSettings host (host.dispatchState index state) :=
  (changeState host index state).trans (SameFrame.scheduleDispatch _ index).toSameSettings

theorem startDisconnect (host : Host) (index data : Nat) :
    SameSettings host (host.startDisconnect index data) := by
  have states : ∀ before : Host, SameSettings before
      (before.setPeer index ((before.peers index).setState .disconnecting)) :=
    fun before => setPeer before (Peer.setState_settings _ _)
  unfold Host.startDisconnect
  dsimp only
  refine trans ?_ (states _)
  exact (((SameFrame.resetQueues host index).trans
    (.queueOutgoingCommand ..)).toSameSettings).trans (onDisconnect _ index)

theorem sendAcknowledgements (index : Nat) (acknowledgements : List Acknowledgement) :
    ∀ host : Host, SameSettings host (Host.sendAcknowledgements index acknowledgements host) := by
  induction acknowledgements with
  | nil => exact refl
  | cons acknowledgement rest ih =>
      intro host
      unfold Host.sendAcknowledgements
      dsimp only
      split
      · exact setPeer host rfl
      · have pushes : ∀ datagram, SameSettings host (host.setDatagram datagram) :=
          fun _ => of_same rfl rfl rfl
        refine trans ?_ (ih _)
        split
        · exact ((pushes _).trans (dispatchState _ index .zombie)).trans (setPeer _ rfl)
        · exact (pushes _).trans (setPeer _ rfl)

theorem startDatagram (host : Host) (index : Nat) :
    SameSettings host (host.startDatagram index) := by
  have empties : SameSettings host ((host.setDatagram Datagram.start).setPeer index
      ((host.peers index).setContinueSending false)) :=
    @of_setPeer host _ index ((host.peers index).setContinueSending false) rfl rfl rfl rfl
  exact empties.trans (sendAcknowledgements index _ _)

/-- The loop over the outgoing commands adjusts no settings. -/
theorem installScan (host : Host) (index : Nat) (sentUnreliable : List OutgoingCommand) :
    SameSettings host (host.installScan index (host.scanOutgoing index sentUnreliable)) :=
  of_setPeer (Peer.checkOutgoingCommands_settings (host.peers index) host.heap host.datagram
    sentUnreliable host.serviceTime) rfl rfl rfl

theorem checkOutgoingCommands (host : Host) (index : Nat)
    (sentUnreliable : List OutgoingCommand) :
    SameSettings host (host.checkOutgoingCommands index sentUnreliable).1 := by
  have installs := installScan host index sentUnreliable
  unfold Host.checkOutgoingCommands
  dsimp only
  split
  · exact installs.trans (startDisconnect _ index _)
  · exact installs

theorem peerPing (host : Host) (index : Nat) : SameSettings host (host.peerPing index) := by
  unfold Host.peerPing
  split
  · exact (SameFrame.queueOutgoingCommand ..).toSameSettings
  · exact refl host

theorem checkWaitingCommands (host : Host) (index : Nat) :
    SameSettings host (host.checkWaitingCommands index).1 := by
  unfold Host.checkWaitingCommands
  dsimp only
  split
  · exact refl host
  · exact checkOutgoingCommands host index []

theorem fillDatagram (host : Host) (index : Nat) :
    SameSettings host (host.fillDatagram index).1 := by
  have checks := checkWaitingCommands host index
  unfold Host.fillDatagram
  dsimp only
  split
  · exact (checks.trans (peerPing _ index)).trans (checkOutgoingCommands _ index _)
  · exact checks

theorem removeSentUnreliableCommands (host : Host) (index : Nat)
    (sentUnreliable : List OutgoingCommand) :
    SameSettings host (host.removeSentUnreliableCommands index sentUnreliable) := by
  unfold Host.removeSentUnreliableCommands
  split
  · exact refl host
  · dsimp only
    split
    · exact (setHeap host _).trans (startDisconnect _ index _)
    · exact setHeap host _

theorem sendDatagram (host : Host) (index : Nat) (sentUnreliable : List OutgoingCommand) :
    SameSettings host (host.sendDatagram index sentUnreliable).1 := by
  have losses : SameSettings host (host.setPeer index
      ((host.peers index).updatePacketLoss host.serviceTime)) :=
    setPeer host (Peer.updatePacketLoss_settings _ _)
  have passes : ∀ (before : Host) address bytes time, SameSettings before
      ((before.pass address bytes).setPeer index ((before.peers index).setLastSendTime time)) :=
    fun before _ _ time =>
      @of_setPeer before _ index ((before.peers index).setLastSendTime time) rfl rfl rfl rfl
  unfold Host.sendDatagram
  dsimp only
  split
  · exact (losses.trans (passes _ _ _ _)).trans (removeSentUnreliableCommands ..)
  · exact ((losses.trans (passes _ _ _ _)).trans (removeSentUnreliableCommands ..)).trans
      (of_same rfl rfl rfl)

end SameSettings

/-- A check of the timeouts that does not give the peer up moves its commands. -/
theorem Host.checkDueTimeouts_cases {host : Host} {event : Option Event} {checkForTimeouts : Bool}
    {index : Nat} (stays : (host.checkDueTimeouts event checkForTimeouts index).2.2 = false) :
    (host.checkDueTimeouts event checkForTimeouts index).1 = host ∨
      (host.checkDueTimeouts event checkForTimeouts index).1 =
        host.setPeer index ((host.peers index).checkTimeouts host.serviceTime).1 := by
  unfold Host.checkDueTimeouts Host.checkTimeouts at stays ⊢
  dsimp only at stays ⊢
  split
  next due =>
      rw [if_pos due] at stays
      split
      next given =>
          rw [if_pos given] at stays
          cases stays
      · exact .inr rfl
  · exact .inl rfl

/-- Such a check changes no settings. -/
theorem SameSettings.checkDueTimeouts {host : Host} {event : Option Event}
    {checkForTimeouts : Bool} {index : Nat}
    (stays : (host.checkDueTimeouts event checkForTimeouts index).2.2 = false) :
    SameSettings host (host.checkDueTimeouts event checkForTimeouts index).1 := by
  rcases Host.checkDueTimeouts_cases stays with same | same
  · rw [same]
    exact refl host
  · rw [same]
    exact setPeer host (Peer.checkTimeouts_settings _ _)

/-! ## Edits -/

/-- What an edit may do with the settings of a peer. -/
inductive Peer.Adjusts (host : Host) (peer : Peer) : Peer → Prop where
  | kept {peer' : Peer} (same : peer'.settings = peer.settings) : Adjusts host peer peer'
  | moved {peer' : Peer} (moves : peer.Moves peer') : Adjusts host peer peer'
  | reset {peer' : Peer} (same : peer'.settings = (peer.resetFields host.mtu).settings) :
      Adjusts host peer peer'
  | connecting (address : Address) (channelCount connectID : Nat) :
      Adjusts host peer (host.connectingPeer peer address channelCount connectID)
  | accepted (fields : Connect) : Adjusts host peer (host.acceptedPeer peer fields)
  | verified (fields : VerifyConnect) : Adjusts host peer (Host.verifiedPeer peer fields)
  | bandwidth (incomingBandwidth outgoingBandwidth : Nat) :
      Adjusts host peer (peer.setBandwidth incomingBandwidth outgoingBandwidth
        (Peer.negotiateWindowSize host.outgoingBandwidth incomingBandwidth))

/-- A host whose peers an edit adjusts. -/
structure Adjusted (host host' : Host) : Prop where
  peers : ∀ index, (host.peers index).Adjusts host (host'.peers index)
  settings : host'.settings = host.settings
  receivedAddress :
    host'.receivedAddress = host.receivedAddress ∨ host.MayReceiveFrom host'.receivedAddress

namespace Adjusted

variable {host host' : Host} {index : Nat}

theorem of_same (same : SameSettings host host') : Adjusted host host' :=
  ⟨fun index => .kept (same.peers index), same.settings, .inl same.receivedAddress⟩

theorem of_frame (same : SameFrame host host') : Adjusted host host' :=
  of_same same.toSameSettings

/-- One peer is adjusted, and the others are not. -/
theorem of_setPeer {peer : Peer} (adjusts : (host.peers index).Adjusts host peer)
    (peers : host'.peers = Function.update host.peers index peer)
    (settings : host'.settings = host.settings)
    (receivedAddress : host'.receivedAddress = host.receivedAddress) : Adjusted host host' := by
  refine ⟨fun other => ?_, settings, .inl receivedAddress⟩
  rw [peers]
  by_cases equal : other = index
  · rw [equal, Function.update_self]
    exact adjusts
  · rw [Function.update_of_ne equal]
    exact .kept rfl

theorem peerReset (host : Host) (index : Nat) : Adjusted host (host.peerReset index) := by
  obtain ⟨before, same, after⟩ := SameSettings.peerReset host index
  refine ⟨fun other => ?_, after.settings.trans same.settings,
    .inl (after.receivedAddress.trans same.receivedAddress)⟩
  by_cases equal : other = index
  · refine .reset ?_
    have mtu : before.mtu = host.mtu := congrArg Prod.fst same.settings
    have address : (before.peers index).address = (host.peers index).address :=
      congrArg Settings.address (same.peers index)
    rw [equal, after.peers index, Host.setPeer_self, mtu]
    unfold Peer.settings
    rw [show ((before.peers index).resetFields host.mtu).address =
      ((host.peers index).resetFields host.mtu).address from address]
    rfl
  · refine .kept ?_
    rw [after.peers other, Host.setPeer_of_ne _ _ equal, same.peers other]

/-- **An edit adjusts the settings of its peer in one way, or in none.** -/
theorem edit (edit : Edit index host host') : Adjusted host host' := by
  cases edit with
  | quiet quiet =>
      exact ⟨fun other => .moved (quiet.moves other), quiet.settings, quiet.receivedAddress⟩
  | malloc => exact of_same (.of_same rfl rfl rfl)
  | observe observation about fresh => exact of_same (.of_same rfl rfl rfl)
  | schedule => exact of_frame (.scheduleDispatch host index)
  | unschedule =>
      exact of_same (.of_setPeer (Peer.setNeedsDispatch_settings (host.peers index) _) rfl rfl rfl)
  | changeState state used stays may => exact of_same (.changeState host index state)
  | eventData data => exact of_same (.setPeer host (Peer.setEventData_settings _ _))
  | resetQueues => exact of_frame (.resetQueues host index)
  | reset => exact peerReset host index
  | clearChannels free => exact of_same (.setPeer host (Peer.clearChannels_settings _))
  | connecting address channelCount connectID slot free locally =>
      exact of_setPeer (.connecting address _ connectID) rfl rfl rfl
  | accepted fields slot free channels admits => exact of_setPeer (.accepted fields) rfl rfl rfl
  | verified fields waits => exact of_setPeer (.verified fields) rfl rfl rfl
  | bandwidth incomingBandwidth outgoingBandwidth =>
      unfold Host.handleBandwidthLimit
      dsimp only
      split
      · exact of_same (.refl host)
      · exact of_setPeer (.bandwidth incomingBandwidth outgoingBandwidth) rfl rfl rfl
  | queue command control bare => exact of_frame (.queueOutgoingCommand ..)
  | removeSent number channelID => exact of_frame (.removeSentReliableCommand ..)
  | scanTimeouts => exact of_same (.setPeer host (Peer.checkTimeouts_settings _ _))
  | receive step heard => exact of_frame (.receiveStep step)
  | acknowledge acknowledgement =>
      exact of_same (.setPeer host (Peer.addAcknowledgement_settings _ _))
  | acknowledged rest => exact of_same (.setPeer host (Peer.setAcknowledgements_settings _ _))

/-- **What every adjustment of the settings keeps is maintained.** -/
theorem maintained {May : Host → Request → Prop} {Invariant : Host → Prop}
    (adjusts : ∀ {host host'}, Adjusted host host' → Invariant host → Invariant host')
    (configures : ∀ (host : Host) (mtu duplicatePeers maximumPacketSize maximumWaitingData : Nat)
      (checksum : Option (List UInt8 → Nat)) (compressor : Option Compressor),
      May host (.configure mtu duplicatePeers maximumPacketSize maximumWaitingData) →
        Invariant host → Invariant (host.configure mtu duplicatePeers maximumPacketSize
          maximumWaitingData checksum compressor)) :
    MaintainedUnder May fun host _ => Invariant host where
  edit := fun step holds => adjusts (edit step) holds
  scan := fun host index sentUnreliable holds =>
    adjusts (of_same (.installScan host index sentUnreliable)) holds
  free := fun _ _ holds => adjusts (of_same (.setHeap _ _)) holds
  take := fun host index holds => adjusts (of_frame (.peerReceive host index)) holds
  packet := fun host index channelID packet holds =>
    adjusts (of_frame (.peerSend host index channelID packet)) holds
  discard := fun _ _ _ holds => adjusts (of_same (.setHeap _ _)) holds
  configure := configures

end Adjusted

end Enet
