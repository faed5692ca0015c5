import Mathlib.Data.Finset.Card
import Enet.Failures.Connecting
import Enet.Runs.Settings

/-!
# Connections accepted from the network

One scan of `enet_protocol_handle_connect` looks for a free slot, for the same
connection and for other connections of the sender. What it lets in stays apart
from the others until it is gone: a connection keeps its address and number, and
no slot comes to hold one in another way.
-/

set_option autoImplicit false

namespace Enet

open Relation

/-! ## Accepted connections -/

/-- What the connections of the network are told apart by. -/
def Peer.identity (peer : Peer) : Address × Nat := (peer.address, peer.connectID)

theorem Peer.identity_of_settings {peer peer' : Peer} (same : peer'.settings = peer.settings) :
    peer'.identity = peer.identity :=
  congrArg (fun settings : Settings => (settings.address, settings.connectID)) same

namespace Host

/-- A slot holds a connection that was accepted from the network. -/
def HoldsAccepted (host : Host) (index : Nat) : Prop :=
  host.isAccepted index = true ∧ (host.peers index).state ≠ .disconnected

/-- The slots that hold the connections accepted from one IP address. -/
def acceptedFrom (host : Host) (source : Nat) : Finset Nat :=
  (Finset.range host.peerCount).filter fun index =>
    host.isAccepted index = true ∧ (host.peers index).state ≠ .disconnected ∧
      (host.peers index).address.host = source

theorem mem_acceptedFrom {host : Host} {source index : Nat} :
    index ∈ host.acceptedFrom source ↔ index < host.peerCount ∧ host.HoldsAccepted index ∧
      (host.peers index).address.host = source := by
  unfold acceptedFrom HoldsAccepted
  rw [Finset.mem_filter, Finset.mem_range]
  exact and_congr_right fun _ => and_assoc.symm

/-- No datagram comes from the broadcast address. -/
def HearsHosts (host : Host) : Prop :=
  ∀ address, host.MayReceiveFrom address → address.host ≠ hostBroadcast

theorem isAccepted_of_history {host host' : Host} (same : host'.history = host.history)
    (index : Nat) : host'.isAccepted index = host.isAccepted index := by
  unfold isAccepted
  rw [same]

theorem isAccepted_of_seen {host host' : Host} {index : Nat} {seen : List Observation}
    (history : host'.history = host.history ++ seen)
    (plain : ∀ observation ∈ seen, ∀ accepted, observation.accepts index accepted = accepted) :
    host'.isAccepted index = host.isAccepted index := by
  unfold isAccepted
  rw [history, List.foldl_append]
  generalize host.history.foldl _ false = accepted
  clear history
  induction seen generalizing accepted with
  | nil => rfl
  | cons observation seen ih =>
      rw [List.foldl_cons, plain observation List.mem_cons_self]
      exact ih (fun other member => plain other (List.mem_cons_of_mem _ member)) accepted

/-- What is seen of one peer does not tell how another slot was taken. -/
theorem isAccepted_others {host host' : Host} {index other : Nat}
    (acts : ActsOn index host host') (different : other ≠ index) :
    host'.isAccepted other = host.isAccepted other := by
  obtain ⟨seen, history, about⟩ := acts.history
  refine isAccepted_of_seen history fun observation member accepted => ?_
  have peer := about observation member
  cases observation with
  | started index' locally => exact if_neg fun same => different (same.symm.trans peer)
  | _ => rfl

end Host

/-! ## Connections that stay -/

/-- Every accepted connection was there before, as it is. -/
structure Retains (host host' : Host) : Prop where
  kept : ∀ index, host'.HoldsAccepted index → host.HoldsAccepted index ∧
    ((host.peers index).address.host ≠ hostBroadcast →
      (host'.peers index).identity = (host.peers index).identity) ∧
    ((host'.peers index).state = .connecting → (host.peers index).state = .connecting)
  peerCount : host'.peerCount = host.peerCount

namespace Retains

variable {host host' host'' : Host} {index : Nat}

theorem of_same (peers : host'.peers = host.peers) (history : host'.history = host.history)
    (peerCount : host'.peerCount = host.peerCount) : Retains host host' := by
  refine ⟨fun index holds => ?_, peerCount⟩
  unfold Host.HoldsAccepted at holds ⊢
  rw [Host.isAccepted_of_history history, peers] at holds
  rw [peers]
  exact ⟨holds, fun _ => rfl, id⟩

theorem trans (first : Retains host host') (second : Retains host' host'') :
    Retains host host'' := by
  refine ⟨fun index holds => ?_, second.peerCount.trans first.peerCount⟩
  obtain ⟨holds', identity', connecting'⟩ := second.kept index holds
  obtain ⟨before, identity, connecting⟩ := first.kept index holds'
  refine ⟨before, fun named => ?_, fun connects => connecting (connecting' connects)⟩
  have address : (host'.peers index).address = (host.peers index).address :=
    congrArg Prod.fst (identity named)
  exact (identity' (by rw [address]; exact named)).trans (identity named)

/-- A change of one slot. -/
theorem of_acts (acts : ActsOn index host host')
    (own : host'.HoldsAccepted index → host.HoldsAccepted index ∧
      (host'.peers index).identity = (host.peers index).identity ∧
      ((host'.peers index).state = .connecting → (host.peers index).state = .connecting)) :
    Retains host host' := by
  refine ⟨fun other holds => ?_, acts.peerCount⟩
  rcases eq_or_ne other index with same | different
  · rw [same] at holds ⊢
    obtain ⟨before, identity, connecting⟩ := own holds
    exact ⟨before, fun _ => identity, connecting⟩
  · have peer := acts.others other different
    unfold Host.HoldsAccepted at holds ⊢
    rw [Host.isAccepted_others acts different, peer] at holds
    rw [peer]
    exact ⟨holds, fun _ => rfl, id⟩

/-- A change that leaves the settings and the state of its slot. -/
theorem keep (acts : ActsOn index host host')
    (accepted : host'.isAccepted index = host.isAccepted index)
    (state : (host'.peers index).state = (host.peers index).state)
    (settings : (host'.peers index).settings = (host.peers index).settings) :
    Retains host host' := by
  refine of_acts acts fun holds => ?_
  unfold Host.HoldsAccepted at holds ⊢
  rw [accepted, state] at holds
  rw [state]
  exact ⟨holds, Peer.identity_of_settings settings, id⟩

theorem setPeer (host : Host) {index : Nat} {peer : Peer}
    (state : peer.state = (host.peers index).state)
    (settings : peer.settings = (host.peers index).settings) :
    Retains host (host.setPeer index peer) := by
  refine keep (.setPeer host index peer) (Host.isAccepted_of_history rfl index) ?_ ?_
  · rw [Host.setPeer_self, state]
  · rw [Host.setPeer_self, settings]

/-- A slot that is free, or was not taken from the network, afterwards. -/
theorem leave (acts : ActsOn index host host') (left : ¬host'.HoldsAccepted index) :
    Retains host host' :=
  of_acts acts fun holds => absurd holds left

theorem sendsFor (sends : SendsFor index host host') (same : SameFrame host host') :
    Retains host host' :=
  keep sends.acts (Host.isAccepted_of_history sends.history index) sends.peer.state
    (same.peers index)

theorem receivesFor (receives : ReceivesFor index host host') (same : SameFrame host host') :
    Retains host host' := by
  obtain ⟨removed, history⟩ := receives.history
  refine keep receives.acts (Host.isAccepted_of_seen history fun observation member _ => ?_)
    receives.peer.state (same.peers index)
  obtain ⟨command, -, named⟩ := List.mem_map.mp member
  rw [← named]
  rfl

theorem quiet (quiet : Quiet host host') : Retains host host' := by
  refine ⟨fun index holds => ?_, quiet.peerCount⟩
  have state := (quiet.peers index).state
  have still : ∀ {peer peer' : Peer}, peer.Moves peer' → peer.address.host ≠ hostBroadcast →
      peer'.address = peer.address := by
    intro peer peer' moves named
    induction moves with
    | refl => rfl
    | tail _ move ih =>
        refine Eq.trans ?_ ih
        cases move with
        | received address length known =>
            rcases known with same | broadcast
            · exact same
            · rw [ih] at broadcast
              exact absurd broadcast named
        | roundTripTime serviceTime roundTripTime =>
            exact congrArg Settings.address
              ((Peer.updateRoundTripTime_settings ..).trans (Peer.averageRoundTripTime_settings ..))
        | packetLoss serviceTime =>
            unfold Peer.updatePacketLoss
            split
            · rfl
            · split <;> rfl
        | _ => rfl
  unfold Host.HoldsAccepted at holds ⊢
  rw [Host.isAccepted_of_history quiet.history, state] at holds
  rw [state]
  refine ⟨holds, fun named => ?_, id⟩
  exact Prod.ext (still (quiet.moves index) named) (quiet.peers index).connectID

end Retains

/-- **An edit accepts the connection that the scan lets in, or none.** -/
theorem Edit.retains {index : Nat} {host host' : Host} (edit : Edit index host host') :
    Retains host host' ∨
      ∃ fields : Connect, index < host.peerCount ∧ host.AdmitsConnect fields.connectID ∧
        host' = host.setPeer index (host.acceptedPeer (host.peers index) fields) := by
  cases edit with
  | quiet quiet => exact .inl (.quiet quiet)
  | malloc => exact .inl (.of_same rfl rfl rfl)
  | observe observation about fresh =>
      left
      by_cases starts : ∃ locally, observation = .started index locally
      · obtain ⟨locally, same⟩ := starts
        exact .leave (.observe host index about) fun holds => holds.2 (fresh locally same)
      · refine .keep (.observe host index about) ?_ rfl rfl
        rw [Host.observe_isAccepted]
        cases observation with
        | started peer locally =>
            have about : peer = index := about
            exact absurd ⟨locally, by rw [about]⟩ starts
        | _ => rfl
  | schedule =>
      exact .inl (.receivesFor (.scheduleDispatch host index) (.scheduleDispatch host index))
  | unschedule =>
      refine .inl (.keep (.of_setPeer rfl rfl (.refl _) rfl)
        (Host.isAccepted_of_history rfl index) ?_ ?_)
      · rw [Host.unscheduleDispatch, Host.setPeer_self]
        rfl
      · rw [Host.unscheduleDispatch, Host.setPeer_self]
        rfl
  | changeState state used stays may =>
      refine .inl (.of_acts (.changeState host index state) fun holds => ?_)
      have peer := Host.changeState_peer host index state
      refine ⟨⟨?_, used⟩, Peer.identity_of_settings ((SameSettings.changeState host index
        state).peers index), fun connecting => ?_⟩
      · rw [← Host.isAccepted_of_history (Host.changeState_history host index state)]
        exact holds.1
      · rw [peer] at connecting
        exact absurd connecting stays.2
  | eventData data => exact .inl (.setPeer host rfl rfl)
  | resetQueues =>
      refine .inl (.keep (.resetQueues host index)
        (Host.isAccepted_of_history (Host.resetQueues_history host index) index) ?_
        ((SameFrame.resetQueues host index).peers index))
      rw [Host.resetQueues_peer]
      rfl
  | reset =>
      obtain ⟨mtu, same⟩ := Host.peerReset_peer host index
      refine .inl (.leave (.peerReset host index) fun holds => holds.2 ?_)
      rw [same]
      rfl
  | clearChannels free => exact .inl (.setPeer host rfl rfl)
  | connecting address channelCount connectID slot free locally =>
      refine .inl (.leave (.setPeer host index _) fun holds => ?_)
      have before : host.isAccepted index = true := holds.1
      rw [locally] at before
      cases before
  | accepted fields slot free channels admits => exact .inr ⟨fields, slot, admits, rfl⟩
  | verified fields waits =>
      refine .inl (.of_acts (.setPeer host index _) fun holds => ?_)
      refine ⟨⟨holds.1, by rw [waits]; decide⟩, ?_, fun _ => waits⟩
      rw [Host.setPeer_self]
      rfl
  | bandwidth incomingBandwidth outgoingBandwidth =>
      unfold Host.handleBandwidthLimit
      dsimp only
      split
      · exact .inl (.of_same rfl rfl rfl)
      · refine .inl (.of_acts (.of_setPeer rfl rfl (.refl _) rfl) fun holds => ?_)
        unfold Host.HoldsAccepted at holds
        rw [Host.setPeer_self] at holds ⊢
        exact ⟨holds, rfl, id⟩
  | queue command control bare =>
      exact .inl (.sendsFor (.queueOutgoingCommand ..) (.queueOutgoingCommand ..))
  | removeSent number channelID =>
      exact .inl (.sendsFor (.removeSentReliableCommand ..) (.removeSentReliableCommand ..))
  | scanTimeouts =>
      exact .inl (.sendsFor
        (.setPeer host (Peer.SendingOnly.checkTimeouts (host.peers index) host.serviceTime))
        (.setPeer host (Peer.checkTimeouts_settings _ _)))
  | receive step heard => exact .inl (.receivesFor step.receivesFor (.receiveStep step))
  | acknowledge acknowledgement =>
      exact .inl (.setPeer host rfl (Peer.addAcknowledgement_settings _ _))
  | acknowledged rest => exact .inl (.setPeer host rfl (Peer.setAcknowledgements_settings _ _))

/-! ## The table -/

/-- The connections accepted from the network are told apart, and each has an
address of its own. -/
structure Registered (host : Host) : Prop where
  inside : ∀ index, host.HoldsAccepted index → index < host.peerCount
  answers : ∀ index, host.HoldsAccepted index → (host.peers index).state ≠ .connecting
  named : ∀ index, host.HoldsAccepted index → (host.peers index).address.host ≠ hostBroadcast
  unique : ∀ index other, host.HoldsAccepted index → host.HoldsAccepted other →
    (host.peers index).identity = (host.peers other).identity → index = other
  received : host.receivedAddress.host ≠ hostBroadcast

namespace Registered

variable {host host' : Host} {index : Nat}

theorem retains (registered : Registered host) (retains : Retains host host')
    (received : host'.receivedAddress.host ≠ hostBroadcast) : Registered host' := by
  have identity : ∀ index, host'.HoldsAccepted index →
      (host'.peers index).identity = (host.peers index).identity := fun index holds =>
    (retains.kept index holds).2.1 (registered.named index (retains.kept index holds).1)
  refine ⟨fun index holds => ?_, fun index holds connecting => ?_, fun index holds => ?_,
    fun index other holds also same => ?_, received⟩
  · rw [retains.peerCount]
    exact registered.inside index (retains.kept index holds).1
  · obtain ⟨before, -, still⟩ := retains.kept index holds
    exact registered.answers index before (still connecting)
  · have same : (host'.peers index).address = (host.peers index).address :=
      congrArg Prod.fst (identity index holds)
    rw [same]
    exact registered.named index (retains.kept index holds).1
  · rw [identity index holds, identity other also] at same
    exact registered.unique index other (retains.kept index holds).1 (retains.kept other also).1
      same

/-- What an accepted connection was, or that it is the one let in. -/
theorem holds_accepted {fields : Connect} {other : Nat}
    (holds : (host.setPeer index (host.acceptedPeer (host.peers index) fields)).HoldsAccepted
      other) : other = index ∨
      host.HoldsAccepted other ∧
        (host.setPeer index (host.acceptedPeer (host.peers index) fields)).peers other =
          host.peers other := by
  rcases eq_or_ne other index with same | different
  · exact .inl same
  · right
    have peer := Host.setPeer_of_ne host (host.acceptedPeer (host.peers index) fields) different
    unfold Host.HoldsAccepted at holds ⊢
    rw [peer] at holds
    exact ⟨holds, peer⟩

/-- A connection that the scan would have found is not let in again. -/
theorem distinct (registered : Registered host) {fields : Connect}
    (admits : host.AdmitsConnect fields.connectID) {other : Nat}
    (holds : host.HoldsAccepted other) :
    (host.peers other).identity ≠ (host.receivedAddress, fields.connectID) := by
  intro same
  have unique := admits.unique other (registered.inside other holds)
  have address : (host.peers other).address = host.receivedAddress := congrArg Prod.fst same
  have connectID : (host.peers other).connectID = fields.connectID := congrArg Prod.snd same
  unfold Host.isSameConnection Host.isDuplicate at unique
  dsimp only at unique
  rw [address, connectID] at unique
  simp [holds.2, registered.answers other holds] at unique

theorem accepted (registered : Registered host) {fields : Connect} (slot : index < host.peerCount)
    (admits : host.AdmitsConnect fields.connectID) :
    Registered (host.setPeer index (host.acceptedPeer (host.peers index) fields)) := by
  have own : (host.setPeer index (host.acceptedPeer (host.peers index) fields)).peers index =
      host.acceptedPeer (host.peers index) fields := Host.setPeer_self ..
  refine ⟨fun other holds => ?_, fun other holds => ?_, fun other holds => ?_,
    fun first second holds also same => ?_, registered.received⟩
  · rcases holds_accepted holds with same | ⟨before, -⟩
    · rw [same]
      exact slot
    · exact registered.inside other before
  · rcases holds_accepted holds with same | ⟨before, peer⟩
    · rw [same, own]
      exact (by decide : PeerState.acknowledgingConnect ≠ .connecting)
    · rw [peer]
      exact registered.answers other before
  · rcases holds_accepted holds with same | ⟨before, peer⟩
    · rw [same, own]
      exact registered.received
    · rw [peer]
      exact registered.named other before
  · rcases holds_accepted holds with new | ⟨before, peer⟩
    · rcases holds_accepted also with new' | ⟨before', peer'⟩
      · rw [new, new']
      · rw [new, own, peer'] at same
        exact absurd same.symm (registered.distinct admits before')
    · rcases holds_accepted also with new' | ⟨before', peer'⟩
      · rw [new', own, peer] at same
        exact absurd same (registered.distinct admits before)
      · rw [peer, peer'] at same
        exact registered.unique first second before before' same

end Registered

/-! ## The number of connections of one sender -/

/-- No IP address has more accepted connections than the host allows. -/
def WithinDuplicates (host : Host) : Prop :=
  ∀ source, (host.acceptedFrom source).card ≤ host.duplicatePeers

namespace WithinDuplicates

variable {host host' : Host} {index : Nat}

theorem retains (within : WithinDuplicates host) (registered : Registered host)
    (retains : Retains host host') (settings : host'.settings = host.settings) :
    WithinDuplicates host' := by
  intro source
  have limit : host'.duplicatePeers = host.duplicatePeers :=
    congrArg (fun settings => settings.2.1) settings
  rw [limit]
  refine Nat.le_trans (Finset.card_le_card fun other member => ?_) (within source)
  obtain ⟨inside, holds, named⟩ := Host.mem_acceptedFrom.mp member
  obtain ⟨before, identity, -⟩ := retains.kept other holds
  have address : (host'.peers other).address = (host.peers other).address :=
    congrArg Prod.fst (identity (registered.named other before))
  rw [retains.peerCount] at inside
  rw [address] at named
  exact Host.mem_acceptedFrom.mpr ⟨inside, before, named⟩

/-- Every accepted connection of the sender was counted by the scan. -/
theorem acceptedFrom_le (registered : Registered host) :
    (host.acceptedFrom host.receivedAddress.host).card ≤
      ((List.range host.peerCount).filter host.isDuplicate).length := by
  have counted : ((List.range host.peerCount).filter host.isDuplicate).length =
      ((Finset.range host.peerCount).filter fun index => host.isDuplicate index = true).card := by
    refine congrArg List.length (List.filter_congr fun index _ => ?_)
    simp
  rw [counted]
  refine Finset.card_le_card fun other member => ?_
  obtain ⟨inside, holds, named⟩ := Host.mem_acceptedFrom.mp member
  rw [Finset.mem_filter, Finset.mem_range]
  refine ⟨inside, ?_⟩
  unfold Host.isDuplicate
  simp [holds.2, registered.answers other holds, named]

theorem accepted (within : WithinDuplicates host) (registered : Registered host)
    {fields : Connect} (admits : host.AdmitsConnect fields.connectID) :
    WithinDuplicates (host.setPeer index (host.acceptedPeer (host.peers index) fields)) := by
  intro source
  have inserts : (host.setPeer index (host.acceptedPeer (host.peers index) fields)).acceptedFrom
      source ⊆ insert index (host.acceptedFrom source) := by
    intro other member
    obtain ⟨inside, holds, named⟩ := Host.mem_acceptedFrom.mp member
    rcases Registered.holds_accepted holds with same | ⟨before, peer⟩
    · exact Finset.mem_insert.mpr (.inl same)
    · rw [peer] at named
      exact Finset.mem_insert_of_mem (Host.mem_acceptedFrom.mpr ⟨inside, before, named⟩)
  by_cases sender : source = host.receivedAddress.host
  · have counted := acceptedFrom_le registered
    have room := admits.room
    have grows := (Finset.card_le_card inserts).trans (Finset.card_insert_le ..)
    rw [sender] at grows ⊢
    exact Nat.le_trans grows (Nat.le_trans (Nat.succ_le_succ counted) room)
  · refine Nat.le_trans (Finset.card_le_card fun other member => ?_) (within source)
    rcases Finset.mem_insert.mp (inserts member) with same | before
    · obtain ⟨-, -, named⟩ := Host.mem_acceptedFrom.mp member
      rw [same, Host.setPeer_self] at named
      exact absurd named.symm sender
    · exact before

end WithinDuplicates

/-! ## Runs -/

theorem Host.HearsHosts.congr {host host' : Host} (hears : host'.HearsHosts)
    (settings : host'.settings = host.settings) : host.HearsHosts := by
  have same : host.settings = host'.settings := settings.symm
  exact fun address may => hears address (may.congr same)

theorem Host.HearsHosts.maintained : Maintained fun host _ => host.HearsHosts :=
  Adjusted.maintained (fun adjusted hears => hears.congr adjusted.settings.symm)
    fun _ _ _ _ _ _ _ _ hears => hears

/-- **What holds whatever stays, and whatever the scan lets in, is maintained.** -/
theorem Retains.maintained {May : Host → Request → Prop} {Invariant : Host → Prop}
    (retains : ∀ {host host'}, Retains host host' → Adjusted host host' → Invariant host →
      Invariant host')
    (accepts : ∀ {host : Host} {index : Nat} {fields : Connect}, index < host.peerCount →
      host.AdmitsConnect fields.connectID → Invariant host →
        Invariant (host.setPeer index (host.acceptedPeer (host.peers index) fields)))
    (configures : ∀ (host : Host) (mtu duplicatePeers maximumPacketSize maximumWaitingData : Nat)
      (checksum : Option (List UInt8 → Nat)) (compressor : Option Compressor),
      May host (.configure mtu duplicatePeers maximumPacketSize maximumWaitingData) →
        Invariant host → Invariant (host.configure mtu duplicatePeers maximumPacketSize
          maximumWaitingData checksum compressor)) :
    MaintainedUnder May fun host _ => Invariant host where
  edit := by
    intro index host host' sentUnreliable edit holds
    rcases edit.retains with stays | ⟨fields, slot, admits, same⟩
    · exact retains stays (.edit edit) holds
    · rw [same]
      exact accepts slot admits holds
  scan := by
    intro host index sentUnreliable holds
    have fills : Retains host
        ((host.setHeap (host.scanOutgoing index sentUnreliable).heap).setDatagram
          (host.scanOutgoing index sentUnreliable).datagram) := .of_same rfl rfl rfl
    refine retains (fills.trans (.setPeer _ ?_ ?_))
      (.of_same (SameSettings.installScan host index sentUnreliable)) holds
    · exact (Peer.SendingOnly.checkOutgoingCommands (host.peers index) host.heap host.datagram
        sentUnreliable host.serviceTime).state
    · exact Peer.checkOutgoingCommands_settings ..
  free := fun host sentUnreliable holds =>
    @retains host (host.freeSent sentUnreliable) (.of_same rfl rfl rfl)
      (.of_same (.setHeap host _)) holds
  take := fun host index holds => retains
    (.receivesFor (.peerReceive host index) (.peerReceive host index))
    (.of_frame (.peerReceive host index)) holds
  packet := fun host index channelID packet holds => retains
    (.sendsFor (.peerSend host index channelID packet) (.peerSend host index channelID packet))
    (.of_frame (.peerSend host index channelID packet)) holds
  discard := fun host packet _ holds =>
    @retains host (host.setHeap (host.heap.destroy packet)) (.of_same rfl rfl rfl)
      (.of_same (.setHeap host _)) holds
  configure := configures

/-- A host that hears from hosts tells its accepted connections apart. -/
def Host.KeepsTable (host : Host) : Prop := host.HearsHosts → Registered host

namespace Host.KeepsTable

variable {host host' : Host}

theorem retains (keeps : host.KeepsTable) (retains : Retains host host')
    (adjusted : Adjusted host host') : host'.KeepsTable := by
  intro hears
  have before := hears.congr adjusted.settings
  refine (keeps before).retains retains ?_
  rcases adjusted.receivedAddress with same | heard
  · rw [same]
    exact (keeps before).received
  · exact before _ heard

theorem maintained : Maintained fun host _ => host.KeepsTable :=
  Retains.maintained (fun stays adjusted keeps => keeps.retains stays adjusted)
    (fun slot admits keeps hears => (keeps hears).accepted slot admits)
    (fun _ _ _ _ _ _ _ _ keeps hears =>
      ⟨(keeps hears).inside, (keeps hears).answers, (keeps hears).named, (keeps hears).unique,
        (keeps hears).received⟩)

theorem visited {activity : Activity} (visited : Visited activity) : activity.1.KeepsTable :=
  maintained.visited (fun _ _ _ _ _ _ _ _ => by
    refine ⟨fun _ holds => ?_, fun _ holds => ?_, fun _ holds => ?_, fun _ _ holds => ?_, ?_⟩
    · cases holds.1
    · cases holds.1
    · cases holds.1
    · cases holds.1
    · exact (by decide : hostAny ≠ hostBroadcast)) visited

end Host.KeepsTable

/-- What an application may ask that leaves `duplicatePeers` alone. -/
def KeepsDuplicatePeers (host : Host) : Request → Prop
  | .configure _ duplicatePeers _ _ => duplicatePeers = host.duplicatePeers
  | _ => True

theorem WithinDuplicates.maintained : MaintainedUnder KeepsDuplicatePeers fun host _ =>
    host.HearsHosts → Registered host ∧ WithinDuplicates host := by
  refine Retains.maintained ?_ ?_ ?_
  · intro host host' stays adjusted keeps hears
    have before := keeps (hears.congr adjusted.settings)
    exact ⟨Host.KeepsTable.retains (fun hears => (keeps hears).1) stays adjusted hears,
      before.2.retains before.1 stays adjusted.settings⟩
  · intro host index fields slot admits keeps hears
    obtain ⟨registered, within⟩ := keeps hears
    exact ⟨registered.accepted slot admits, within.accepted registered admits⟩
  · intro host mtu duplicatePeers maximumPacketSize maximumWaitingData checksum compressor same
      keeps hears
    obtain ⟨registered, within⟩ := keeps hears
    refine ⟨⟨registered.inside, registered.answers, registered.named, registered.unique,
      registered.received⟩, fun source => ?_⟩
    exact (within source).trans_eq same.symm

/-! ## The table over a run -/

/-- A CONNECT command that is refused leaves every peer unchanged: one that the scan
or the allocator turns down, and one that arrives for a connection. -/
structure Host.RefusesCleanly (host : Host) : Prop where
  turnedDown : ∀ fields, (host.handleConnect fields).2 = none →
    (host.handleConnect fields).1.peers = host.peers
  misplaced : ∀ (event : Option Event) (index : Nat) (command : Protocol) (fields : Connect)
    (data : List UInt8), command.command = .connect fields →
      host.handleCommand event index command data = (host, event, true)

theorem Host.refusesCleanly {host : Host} (vacant : Vacant host) : host.RefusesCleanly := by
  refine ⟨fun fields refused => ?_, fun event index command fields data connects => ?_⟩
  · cases accepts : host.acceptsConnect fields with
    | false => rw [handleConnect_refused accepts]
    | true =>
        obtain ⟨index, free, same⟩ := handleConnect_accepted accepts
        have cleared := (vacant index (freePeer_disconnected free)).clearChannels
        cases allocated : host.heap.malloc with
        | mk heap address =>
            rw [allocated] at same
            cases address with
            | none =>
                rw [same]
                dsimp only
                rw [cleared]
                exact Function.update_eq_self index host.peers
            | some address =>
                rw [same] at refused
                cases refused
  · unfold handleCommand
    rw [connects]

/-- The connections that a host has accepted, and those that it refuses. -/
structure Host.TableUnique (host : Host) : Prop where
  unique : ∀ index other, host.HoldsAccepted index → host.HoldsAccepted other →
    (host.peers index).identity = (host.peers other).identity → index = other
  bounded : WithinDuplicates host
  refuses : host.RefusesCleanly

/-- **The connections accepted from the network are told apart by their addresses and
numbers, and no sender has more of them than allowed.** -/
theorem connections_unique (start : Host) (activity : Activity)
    (reachable : Host.Reachable start) (hears : start.HearsHosts)
    (within : WithinDuplicates start)
    (passes : PassesUnder KeepsDuplicatePeers start activity) : activity.1.TableUnique := by
  have lasting : Lasting KeepsDuplicatePeers := fun _ _ _ _ _ => trivial
  have started : Visited (start, none) := .of_reachable reachable rfl
  have still : activity.1.HearsHosts :=
    Host.HearsHosts.maintained.under.passes lasting passes hears
  obtain ⟨registered, bounded⟩ := WithinDuplicates.maintained.passes lasting passes
    (fun hears => ⟨Host.KeepsTable.visited started hears, within⟩) still
  exact ⟨registered.unique, bounded,
    Host.refusesCleanly (Vacant.maintained.under.passes lasting passes (Vacant.visited started))⟩

/-- A CONNECT command, a copy of it, and one from another port of the same host. -/
def replayedDatagrams : List (Address × List UInt8) :=
  let bytes := [0x0F, 0xFF] ++ connectRequest.encode
  [(⟨7, 9⟩, bytes), (⟨7, 9⟩, bytes), (⟨7, 10⟩, bytes)]

/-- A host with two slots that allows one connection from each sender. -/
def replayedHost : Host :=
  (Host.create .ample (.delivering (fun _ => 1) replayedDatagrams) 0 2 1 0 0).configure 1392 1
    1024 1024 none none

theorem connections_unique_replayed :
    ∃ host, calledHost replayedHost [.service none 0, .service none 0] = some host ∧
      (host.peers 0).state = .acknowledgingConnect ∧ (host.peers 1).state = .disconnected ∧
      host.TableUnique := by
  have evaluated : (calledHost replayedHost [.service none 0, .service none 0]).map (fun host =>
      ((host.peers 0).state, (host.peers 1).state)) =
        some (.acknowledgingConnect, .disconnected) := by decide +kernel
  obtain ⟨host, called, states⟩ := Option.map_eq_some_iff.mp evaluated
  obtain ⟨first, second⟩ := Prod.mk.inj states
  have reachable : Host.Reachable replayedHost :=
    .call 1 (.configure 1392 1 1024 1024 none none) (.create ..) rfl
  have hears : replayedHost.HearsHosts := by
    rintro address ⟨call, bytes, received⟩
    have found : replayedDatagrams[call]? = some (address, bytes) := by
      unfold replayedHost Host.configure World.delivering at received
      dsimp only [Host.create] at received
      split at received
      · cases received
        assumption
      · cases received
    have listed : ∀ datagram ∈ replayedDatagrams, datagram.1.host ≠ hostBroadcast := by decide
    exact listed _ (List.mem_of_getElem? found)
  have within : WithinDuplicates replayedHost := by
    intro source
    have nobody : replayedHost.acceptedFrom source = ∅ :=
      Finset.filter_false_of_mem fun index _ accepted => by cases accepted.1
    rw [nobody]
    exact Nat.zero_le _
  have calls : CallsUnder KeepsDuplicatePeers replayedHost host :=
    calledHost_calls .refl (by simp [Host.Call.Asks]) called
  exact ⟨host, called, first, second, connections_unique replayedHost (host, none) reachable hears
    within ⟨host, none, calls, rfl, .refl⟩⟩

end Enet
