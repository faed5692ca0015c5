import Enet.Library.Runs
import Enet.Runs.Frame

/-!
# Changes that no invariant sees

Statistics, timers and settings of the peers, and the counts of the host. A
change of these alone is quiet; the invariants of the runs need nothing else
from it.
-/

set_option autoImplicit false

namespace Enet

open Relation

/-! ## Quiet changes -/

/-- Two peers that differ in statistics, timers and settings only. -/
structure Peer.Alike (peer peer' : Peer) : Prop where
  state : peer'.state = peer.state
  needsDispatch : peer'.needsDispatch = peer.needsDispatch
  acknowledgements : peer'.acknowledgements = peer.acknowledgements
  sentReliableCommands : peer'.sentReliableCommands = peer.sentReliableCommands
  outgoingSendReliableCommands :
    peer'.outgoingSendReliableCommands = peer.outgoingSendReliableCommands
  outgoingCommands : peer'.outgoingCommands = peer.outgoingCommands
  dispatchedCommands : peer'.dispatchedCommands = peer.dispatchedCommands
  channels : peer'.channels = peer.channels
  channelsAllocated : peer'.channelsAllocated = peer.channelsAllocated
  channelCount : peer'.channelCount = peer.channelCount
  connectID : peer'.connectID = peer.connectID
  incomingPeerID : peer'.incomingPeerID = peer.incomingPeerID
  outgoingPeerID : peer'.outgoingPeerID = peer.outgoingPeerID
  incomingSessionID : peer'.incomingSessionID = peer.incomingSessionID
  outgoingSessionID : peer'.outgoingSessionID = peer.outgoingSessionID
  eventData : peer'.eventData = peer.eventData
  totalWaitingData : peer'.totalWaitingData = peer.totalWaitingData
  outgoingReliableSequenceNumber :
    peer'.outgoingReliableSequenceNumber = peer.outgoingReliableSequenceNumber
  incomingBandwidth : peer'.incomingBandwidth = peer.incomingBandwidth
  mtu : peer'.mtu = peer.mtu
  reliableDataInTransit : peer'.reliableDataInTransit = peer.reliableDataInTransit

/-- `peer->reliableDataInTransit = count`. -/
def Peer.setDataInTransit (peer : Peer) (count : Nat) : Peer :=
  { peer with reliableDataInTransit := count }

namespace Peer.Alike

theorem refl (peer : Peer) : peer.Alike peer := by constructor <;> rfl

theorem trans {peer peer' peer'' : Peer} (first : peer.Alike peer')
    (second : peer'.Alike peer'') : peer.Alike peer'' := by
  constructor
  · exact second.state.trans first.state
  · exact second.needsDispatch.trans first.needsDispatch
  · exact second.acknowledgements.trans first.acknowledgements
  · exact second.sentReliableCommands.trans first.sentReliableCommands
  · exact second.outgoingSendReliableCommands.trans first.outgoingSendReliableCommands
  · exact second.outgoingCommands.trans first.outgoingCommands
  · exact second.dispatchedCommands.trans first.dispatchedCommands
  · exact second.channels.trans first.channels
  · exact second.channelsAllocated.trans first.channelsAllocated
  · exact second.channelCount.trans first.channelCount
  · exact second.connectID.trans first.connectID
  · exact second.incomingPeerID.trans first.incomingPeerID
  · exact second.outgoingPeerID.trans first.outgoingPeerID
  · exact second.incomingSessionID.trans first.incomingSessionID
  · exact second.outgoingSessionID.trans first.outgoingSessionID
  · exact second.eventData.trans first.eventData
  · exact second.totalWaitingData.trans first.totalWaitingData
  · exact second.outgoingReliableSequenceNumber.trans first.outgoingReliableSequenceNumber
  · exact second.incomingBandwidth.trans first.incomingBandwidth
  · exact second.mtu.trans first.mtu
  · exact second.reliableDataInTransit.trans first.reliableDataInTransit

theorem setContinueSending (peer : Peer) (flag : Bool) :
    peer.Alike (peer.setContinueSending flag) := by
  constructor <;> rfl

theorem setLastSendTime (peer : Peer) (time : Nat) : peer.Alike (peer.setLastSendTime time) := by
  constructor <;> rfl

theorem setThrottle (peer : Peer) (interval acceleration deceleration : Nat) :
    peer.Alike (peer.setThrottle interval acceleration deceleration) := by
  constructor <;> rfl

theorem setPingInterval (peer : Peer) (interval : Nat) :
    peer.Alike (peer.setPingInterval interval) := by
  constructor <;> rfl

theorem setTimeout (peer : Peer) (limit minimum maximum : Nat) :
    peer.Alike (peer.setTimeout limit minimum maximum) := by
  constructor <;> rfl

theorem noteReceived (peer : Peer) (address : Address) (length : Nat) :
    peer.Alike (peer.noteReceived address length) := by
  constructor <;> rfl

theorem limitThrottle (peer : Peer) (limit : Nat) :
    peer.Alike (Host.limitThrottle peer limit) := by
  constructor <;> rfl

theorem setOutgoingEpoch (peer : Peer) (time : Nat) :
    peer.Alike (peer.setOutgoingEpoch time) := by
  constructor <;> rfl

theorem setIncomingEpoch (peer : Peer) (time : Nat) :
    peer.Alike (peer.setIncomingEpoch time) := by
  constructor <;> rfl

theorem updatePacketLoss (peer : Peer) (serviceTime : Nat) :
    peer.Alike (peer.updatePacketLoss serviceTime) := by
  unfold Peer.updatePacketLoss
  split
  · constructor <;> rfl
  · split
    · constructor <;> rfl
    · exact refl peer

theorem setNextTimeout (peer : Peer) (time : Nat) : peer.Alike (peer.setNextTimeout time) := by
  constructor <;> rfl

theorem countPacketSent (peer : Peer) : peer.Alike peer.countPacketSent := by
  constructor <;> rfl

theorem setThrottleCounter (peer : Peer) (counter : Nat) :
    peer.Alike (peer.setThrottleCounter counter) := by
  constructor <;> rfl

/-! ## Round-trip times and timeouts -/

theorem throttle (peer : Peer) (rtt : Nat) : peer.Alike (peer.throttle rtt) := by
  unfold Peer.throttle
  split
  · constructor <;> rfl
  · split
    · constructor <;> rfl
    · split
      · constructor <;> rfl
      · exact refl peer

theorem averageRoundTripTime (peer : Peer) (roundTripTime : Nat) :
    peer.Alike (peer.averageRoundTripTime roundTripTime) := by
  unfold Peer.averageRoundTripTime
  split
  · refine (throttle peer roundTripTime).trans ?_
    dsimp only
    split
    · constructor <;> rfl
    · constructor <;> rfl
  · constructor <;> rfl

theorem trackRoundTripTime (peer : Peer) (serviceTime : Nat) :
    peer.Alike (peer.trackRoundTripTime serviceTime) := by
  unfold Peer.trackRoundTripTime
  dsimp only
  split
  · constructor <;> rfl
  · constructor <;> rfl

theorem updateRoundTripTime (peer : Peer) (serviceTime roundTripTime : Nat) :
    peer.Alike (peer.updateRoundTripTime serviceTime roundTripTime) := by
  refine ((averageRoundTripTime peer roundTripTime).trans
    (trackRoundTripTime _ serviceTime)).trans ?_
  constructor <;> rfl

theorem scheduleTimeout (peer : Peer) : peer.Alike peer.scheduleTimeout := by
  unfold Peer.scheduleTimeout
  split
  · exact refl peer
  · exact setNextTimeout ..

theorem noteTimeout (peer : Peer) (outgoing : OutgoingCommand) :
    peer.Alike (peer.noteTimeout outgoing) := by
  unfold Peer.noteTimeout
  split
  · constructor <;> rfl
  · exact refl peer

/-- Peers that are alike stay so with the same count of the data in transit. -/
theorem setDataInTransit {peer peer' : Peer} (alike : peer.Alike peer') (count : Nat) :
    (peer.setDataInTransit count).Alike (peer'.setDataInTransit count) := by
  obtain ⟨⟩ := alike
  constructor <;> first | rfl | assumption

theorem requeue (peer : Peer) (outgoing : OutgoingCommand) (count : Nat) :
    (peer.setDataInTransit count).Alike ((peer.requeue outgoing).setDataInTransit count) := by
  constructor <;> rfl

theorem scheduleNext (peer : Peer) (passed rest : List OutgoingCommand) :
    peer.Alike (peer.scheduleNext passed rest) := by
  unfold Peer.scheduleNext
  split
  · exact setNextTimeout ..
  · exact refl peer

/-- A scan of the timeouts changes the count of the data in transit besides. -/
theorem scanTimeouts (serviceTime : Nat) (count : Nat) (commands : List OutgoingCommand) :
    ∀ scan : Peer.TimeoutScan, (scan.peer.setDataInTransit count).Alike
      ((Peer.scanTimeouts serviceTime scan commands).1.peer.setDataInTransit count) := by
  induction commands with
  | nil => intro scan; exact .refl _
  | cons outgoing rest ih =>
      intro scan
      unfold Peer.scanTimeouts
      split
      · exact ih (scan.pass outgoing)
      · dsimp only
        split
        · exact (noteTimeout ..).setDataInTransit count
        · refine Peer.Alike.trans ?_ (ih _)
          have back : ∀ peer, (scan.putBack peer outgoing).peer = peer := by
            intro peer
            unfold Peer.TimeoutScan.putBack
            split <;> rfl
          rw [back]
          exact (((Peer.Alike.noteTimeout ..).setDataInTransit count).trans
            (.requeue _ outgoing count)).trans ((scheduleNext ..).setDataInTransit count)

/-- So does the end of the transit of a command. -/
theorem landReliableData (peer : Peer) (outgoing : OutgoingCommand) (wasSent : Bool)
    (count : Nat) :
    (peer.setDataInTransit count).Alike
      ((peer.landReliableData outgoing wasSent).setDataInTransit count) := by
  unfold Peer.landReliableData
  split
  · constructor <;> rfl
  · exact refl _

theorem countOutgoingData (peer : Peer) (outgoing : OutgoingCommand) :
    peer.Alike (peer.countOutgoingData outgoing) := by
  constructor <;> rfl

end Peer.Alike

/-! ## Moves -/

/-- One change of the statistics, timers or settings of a peer. -/
inductive Peer.Move : Peer → Peer → Prop where
  | continueSending (peer : Peer) (flag : Bool) : Move peer (peer.setContinueSending flag)
  | lastSendTime (peer : Peer) (time : Nat) : Move peer (peer.setLastSendTime time)
  | throttleConfigure (peer : Peer) (interval acceleration deceleration : Nat) :
      Move peer (peer.setThrottle interval acceleration deceleration)
  | pingInterval (peer : Peer) (interval : Nat) : Move peer (peer.setPingInterval interval)
  | timeout (peer : Peer) (limit minimum maximum : Nat) :
      Move peer (peer.setTimeout limit minimum maximum)
  | received (peer : Peer) (address : Address) (length : Nat)
      (known : address = peer.address ∨ peer.address.host = hostBroadcast) :
      Move peer (peer.noteReceived address length)
  | limitThrottle (peer : Peer) (limit : Nat) (bounded : limit ≤ peerPacketThrottleScale) :
      Move peer (Host.limitThrottle peer limit)
  | outgoingEpoch (peer : Peer) (time : Nat) : Move peer (peer.setOutgoingEpoch time)
  | incomingEpoch (peer : Peer) (time : Nat) : Move peer (peer.setIncomingEpoch time)
  | packetLoss (peer : Peer) (serviceTime : Nat) : Move peer (peer.updatePacketLoss serviceTime)
  | roundTripTime (peer : Peer) (serviceTime roundTripTime : Nat) (positive : 0 < roundTripTime)
      (bounded : roundTripTime < timeOverflow) :
      Move peer (peer.updateRoundTripTime serviceTime roundTripTime)

/-- Such changes, in sequence. -/
abbrev Peer.Moves : Peer → Peer → Prop := ReflTransGen Peer.Move

theorem Peer.Move.alike {peer peer' : Peer} (move : peer.Move peer') : peer.Alike peer' := by
  cases move with
  | continueSending flag => exact .setContinueSending _ _
  | lastSendTime time => exact .setLastSendTime _ _
  | throttleConfigure interval acceleration deceleration => exact .setThrottle _ _ _ _
  | pingInterval interval => exact .setPingInterval _ _
  | timeout limit minimum maximum => exact .setTimeout _ _ _ _
  | received address length known => exact .noteReceived _ _ _
  | limitThrottle limit bounded => exact .limitThrottle _ _
  | outgoingEpoch time => exact .setOutgoingEpoch _ _
  | incomingEpoch time => exact .setIncomingEpoch _ _
  | packetLoss serviceTime => exact .updatePacketLoss _ _
  | roundTripTime serviceTime roundTripTime positive bounded => exact .updateRoundTripTime _ _ _

theorem Peer.Moves.alike {peer peer' : Peer} (moves : peer.Moves peer') : peer.Alike peer' :=
  Library.runs_relate Peer.Alike Peer.Alike.refl (fun first => first.trans) Peer.Move.alike moves

/-- The settings of a host that the library only reads, with the datagrams that
the host is yet to read. -/
def Host.settings (host : Host) : Nat × Nat × Nat × Nat × (Nat → ReceiveResult) :=
  (host.mtu, host.duplicatePeers, host.maximumPacketSize, host.maximumWaitingData,
    host.world.receive)

/-- The source of a datagram that the host is yet to read. -/
def Host.MayReceiveFrom (host : Host) (address : Address) : Prop :=
  ∃ call bytes, host.world.receive call = .datagram address bytes

/-- The counts of connected peers, and whether one was ever decremented at zero. -/
def Host.counts (host : Host) : Nat × Nat × Bool :=
  (host.connectedPeers, host.bandwidthLimitedPeers, host.decrementedAtZero)

/-- A change of the host that no invariant of its peers sees. -/
structure Quiet (host host' : Host) : Prop where
  peers : ∀ index, (host.peers index).Alike (host'.peers index)
  dispatchQueue : host'.dispatchQueue = host.dispatchQueue
  history : host'.history = host.history
  heap : host'.heap = host.heap
  peerCount : host'.peerCount = host.peerCount
  counts : host'.counts = host.counts
  moves : ∀ index, (host.peers index).Moves (host'.peers index)
  settings : host'.settings = host.settings
  receivedAddress :
    host'.receivedAddress = host.receivedAddress ∨ host.MayReceiveFrom host'.receivedAddress

theorem Host.MayReceiveFrom.congr {host host' : Host} {address : Address}
    (settings : host'.settings = host.settings) (may : host'.MayReceiveFrom address) :
    host.MayReceiveFrom address := by
  have same : host'.world.receive = host.world.receive :=
    congrArg (fun settings => settings.2.2.2.2) settings
  obtain ⟨call, bytes, received⟩ := may
  exact ⟨call, bytes, by rw [← same]; exact received⟩

namespace Quiet

theorem refl (host : Host) : Quiet host host :=
  ⟨fun index => .refl (host.peers index), rfl, rfl, rfl, rfl, rfl, fun _ => .refl, rfl, .inl rfl⟩

theorem trans {host host' host'' : Host} (first : Quiet host host')
    (second : Quiet host' host'') : Quiet host host'' where
  peers := fun index => (first.peers index).trans (second.peers index)
  dispatchQueue := second.dispatchQueue.trans first.dispatchQueue
  history := second.history.trans first.history
  heap := second.heap.trans first.heap
  peerCount := second.peerCount.trans first.peerCount
  counts := second.counts.trans first.counts
  moves := fun index => (first.moves index).trans (second.moves index)
  settings := second.settings.trans first.settings
  receivedAddress := by
    rcases second.receivedAddress with same | received
    · rw [same]
      exact first.receivedAddress
    · exact .inr (received.congr first.settings)

theorem mallocs {host host' : Host} (quiet : Quiet host host') :
    host.heap.Grows host'.heap := by
  rw [quiet.heap]
  exact .refl _

/-- A change of fields that no invariant of the peers sees. -/
theorem of_same {host host' : Host} (peers : host'.peers = host.peers)
    (dispatchQueue : host'.dispatchQueue = host.dispatchQueue)
    (history : host'.history = host.history) (heap : host'.heap = host.heap)
    (peerCount : host'.peerCount = host.peerCount) (counts : host'.counts = host.counts)
    (settings : host'.settings = host.settings)
    (receivedAddress : host'.receivedAddress = host.receivedAddress) :
    Quiet host host' :=
  ⟨fun index => by rw [peers]; exact .refl _, dispatchQueue, history, heap, peerCount, counts,
    fun index => by rw [peers], settings, .inl receivedAddress⟩

/-- Moves of the peers. -/
theorem setPeers (host : Host) {peers : Nat → Peer}
    (moves : ∀ index, (host.peers index).Moves (peers index)) : Quiet host (host.setPeers peers) :=
  ⟨fun index => (moves index).alike, rfl, rfl, rfl, rfl, rfl, moves, rfl, .inl rfl⟩

/-- Moves of one peer. -/
theorem moves_setPeer (host : Host) {index : Nat} {peer : Peer}
    (moves : (host.peers index).Moves peer) : Quiet host (host.setPeer index peer) := by
  have others : ∀ other, (host.peers other).Moves ((host.setPeer index peer).peers other) := by
    intro other
    by_cases same : other = index
    · rw [same, Host.setPeer_self]
      exact moves
    · rw [Host.setPeer_of_ne host peer same]
  exact ⟨fun other => (others other).alike, rfl, rfl, rfl, rfl, rfl, others, rfl, .inl rfl⟩

/-- A move of one peer. -/
theorem setPeer (host : Host) {index : Nat} {peer : Peer} (move : (host.peers index).Move peer) :
    Quiet host (host.setPeer index peer) := moves_setPeer host (.single move)

/-- The round-trip time of an acknowledgement that is not from the future. -/
theorem acknowledgedTime_lt {serviceTime sentTime : Nat}
    (current : ¬ timeLess serviceTime sentTime = true) :
    max (timeDifference serviceTime sentTime) 1 < timeOverflow := by
  unfold timeLess at current
  simp only [decide_eq_true_eq] at current
  unfold timeDifference
  rw [if_neg current]
  simp only [timeOverflow] at current ⊢
  omega

theorem updateRoundTripTime (host : Host) (index : Nat) {sentTime : Nat}
    (current : ¬ timeLess host.serviceTime sentTime = true) :
    Quiet host (host.setPeer index ((host.peers index).updateRoundTripTime host.serviceTime
      (max (timeDifference host.serviceTime sentTime) 1))) :=
  setPeer host (.roundTripTime _ _ _ (Nat.le_max_right _ 1) (acknowledgedTime_lt current))

theorem setServiceTime (host : Host) : Quiet host host.setServiceTime :=
  of_same rfl rfl rfl rfl rfl rfl rfl rfl

theorem setDatagram (host : Host) (datagram : Datagram) : Quiet host (host.setDatagram datagram) :=
  of_same rfl rfl rfl rfl rfl rfl rfl rfl

theorem setRandomSeed (host : Host) (seed : Nat) : Quiet host (host.setRandomSeed seed) :=
  of_same rfl rfl rfl rfl rfl rfl rfl rfl

theorem random (host : Host) : Quiet host host.random.1 := setRandomSeed host _

theorem countWait (host : Host) : Quiet host host.countWait :=
  of_same rfl rfl rfl rfl rfl rfl rfl rfl

/-- The address from which a datagram is read. -/
theorem setReceivedAddress (host : Host) {source : Address}
    (received : host.MayReceiveFrom source) :
    Quiet host (host.setReceivedAddress source) :=
  ⟨fun index => .refl (host.peers index), rfl, rfl, rfl, rfl, rfl, fun _ => .refl, rfl,
    .inr received⟩

/-- A datagram reaches a peer from its own address, unless that is the broadcast address. -/
theorem isAddressed_known {host : Host} {index sessionID : Nat}
    (addressed : host.isAddressed index sessionID = true) :
    host.receivedAddress = (host.peers index).address ∨
      (host.peers index).address.host = hostBroadcast := by
  unfold Host.isAddressed at addressed
  simp only [Bool.not_eq_true', Bool.or_eq_false_iff, Bool.and_eq_false_iff,
    decide_eq_false_iff_not, not_not, ne_eq] at addressed
  rcases addressed.1.2 with ⟨sameHost, samePort⟩ | broadcast
  · left
    generalize host.receivedAddress = received at sameHost samePort
    generalize (host.peers index).address = address at sameHost samePort
    cases received
    cases address
    cases sameHost
    cases samePort
    rfl
  · exact .inr broadcast

theorem noteDatagram {host : Host} {bytes : List UInt8} {opened : Opened}
    (opens : host.openDatagram bytes = some opened) : Quiet host (host.noteDatagram opened) := by
  have sets : Quiet host (host.setReceivedData opened.bytes) :=
    of_same rfl rfl rfl rfl rfl rfl rfl rfl
  unfold Host.noteDatagram
  dsimp only
  split
  · exact sets
  next index reached =>
      refine sets.trans (setPeer _ (.received _ _ _ ?_))
      unfold Host.openDatagram at opens
      dsimp only at opens
      split at opens
      · cases opens
      · obtain ⟨peer, addressed, opens⟩ := Option.bind_eq_some_iff.mp opens
        obtain ⟨expanded, -, opens⟩ := Option.bind_eq_some_iff.mp opens
        obtain ⟨verified, -, same⟩ := Option.map_eq_some_iff.mp opens
        have named : peer = some index := by
          rw [← same] at reached
          exact reached
        rw [named] at addressed
        unfold Host.addressedPeer at addressed
        split at addressed
        · cases addressed
        · split at addressed
          · cases addressed
          · split at addressed
            next reaches =>
                cases addressed
                exact isAddressed_known reaches
            · cases addressed

end Quiet

end Enet
