import Enet.Library.Counting
import Enet.Runs.Settings

/-!
# The counts of connected peers

`host->connectedPeers` counts the peers that are CONNECTED or DISCONNECT_LATER,
and `host->bandwidthLimitedPeers` those of them that limit their incoming
bandwidth. Every change of a peer's state passes through
`enet_peer_on_connect` or `enet_peer_on_disconnect`, and a peer that is taken
for a connection, whose bandwidth changes without them, is not connected.
-/

set_option autoImplicit false

namespace Enet

open Library Finset

/-- A connected peer with a limit to its incoming bandwidth. -/
def Peer.isLimited (peer : Peer) : Bool :=
  peer.state.isConnected && decide (peer.incomingBandwidth ≠ 0)

theorem Peer.isLimited_of_unconnected {peer : Peer} (unconnected : peer.state.isConnected = false) :
    peer.isLimited = false := by
  rw [isLimited, unconnected, Bool.false_and]

/-- The two counts are those of the peers, and no decrement found a zero. -/
structure Counted (host : Host) : Prop where
  connected : host.connectedPeers =
    ∑ index ∈ Finset.range host.peerCount, (host.peers index).state.isConnected.toNat
  limited : host.bandwidthLimitedPeers =
    ∑ index ∈ Finset.range host.peerCount, (host.peers index).isLimited.toNat
  outside : ∀ index, host.peerCount ≤ index → (host.peers index).state = .disconnected
  positive : host.decrementedAtZero = false

/-- A change that no count sees. -/
structure Steady (host host' : Host) : Prop where
  counts : host'.counts = host.counts
  peerCount : host'.peerCount = host.peerCount
  state : ∀ index, (host'.peers index).state = (host.peers index).state
  limited : ∀ index, (host'.peers index).isLimited = (host.peers index).isLimited

namespace Steady

variable {host host' : Host} {index : Nat}

theorem of_same (counts : host'.counts = host.counts) (peerCount : host'.peerCount = host.peerCount)
    (peers : host'.peers = host.peers) : Steady host host' :=
  ⟨counts, peerCount, fun _ => by rw [peers], fun _ => by rw [peers]⟩

theorem of_acts (acts : ActsOn index host host') (counts : host'.counts = host.counts)
    (state : (host'.peers index).state = (host.peers index).state)
    (limited : (host'.peers index).isLimited = (host.peers index).isLimited) :
    Steady host host' := by
  refine ⟨counts, acts.peerCount, fun other => ?_, fun other => ?_⟩
  · by_cases same : other = index
    · rw [same, state]
    · rw [acts.others other same]
  · by_cases same : other = index
    · rw [same, limited]
    · rw [acts.others other same]

theorem of_bandwidth (acts : ActsOn index host host') (counts : host'.counts = host.counts)
    (state : (host'.peers index).state = (host.peers index).state)
    (bandwidth : (host'.peers index).incomingBandwidth = (host.peers index).incomingBandwidth) :
    Steady host host' :=
  of_acts acts counts state (by rw [Peer.isLimited, state, bandwidth]; rfl)

theorem sendsFor (sends : SendsFor index host host') (counts : host'.counts = host.counts) :
    Steady host host' :=
  of_bandwidth sends.acts counts sends.peer.state sends.peer.incomingBandwidth

theorem receivesFor (receives : ReceivesFor index host host')
    (counts : host'.counts = host.counts) : Steady host host' :=
  of_bandwidth receives.acts counts receives.peer.state receives.peer.incomingBandwidth

theorem setPeer (host : Host) {peer : Peer} (state : peer.state = (host.peers index).state)
    (bandwidth : peer.incomingBandwidth = (host.peers index).incomingBandwidth) :
    Steady host (host.setPeer index peer) :=
  of_bandwidth (.setPeer host index peer) rfl (by rw [Host.setPeer_self]; exact state)
    (by rw [Host.setPeer_self]; exact bandwidth)

end Steady

theorem Steady.receiveStep {index : Nat} {available : List UInt8} {received : Heard}
    {host host' : Host} (step : ReceiveStep index available received host host') :
    Steady host host' :=
  receivesFor step.receivesFor (SameFrame.receiveStep step).counts

namespace Counted

variable {host host' : Host} {index : Nat}

theorem steady (counted : Counted host) (steady : Steady host host') : Counted host' := by
  obtain ⟨counts, peerCount, state, limited⟩ := steady
  simp only [Host.counts, Prod.mk.injEq] at counts
  refine ⟨?_, ?_, fun index outside => ?_, counts.2.2.trans counted.positive⟩
  · rw [counts.1, counted.connected, peerCount]
    simp only [state]
  · rw [counts.2.1, counted.limited, peerCount]
    simp only [limited]
  · rw [state]
    exact counted.outside index (peerCount ▸ outside)

theorem within (counted : Counted host) (used : (host.peers index).state ≠ .disconnected) :
    index < host.peerCount := by
  by_contra outside
  exact used (counted.outside index (Nat.le_of_not_lt outside))

/-- **A count follows one slot**: it takes what the slot gains, and gives what it loses. -/
theorem move (counted : Counted host) (acts : ActsOn index host host')
    (within : index < host.peerCount)
    (connected : host'.connectedPeers + (host.peers index).state.isConnected.toNat =
      host.connectedPeers + (host'.peers index).state.isConnected.toNat)
    (limited : host'.bandwidthLimitedPeers + (host.peers index).isLimited.toNat =
      host.bandwidthLimitedPeers + (host'.peers index).isLimited.toNat)
    (positive : host'.decrementedAtZero = false) : Counted host' := by
  have connects := sum_range_swap
    (f := fun index => (host.peers index).state.isConnected.toNat)
    (g := fun index => (host'.peers index).state.isConnected.toNat)
    (fun other different => by simp only [acts.others other different]) within
  have limits := sum_range_swap
    (f := fun index => (host.peers index).isLimited.toNat)
    (g := fun index => (host'.peers index).isLimited.toNat)
    (fun other different => by simp only [acts.others other different]) within
  refine ⟨?_, ?_, fun other outside => ?_, positive⟩
  · have before := counted.connected
    rw [acts.peerCount]
    omega
  · have before := counted.limited
    rw [acts.peerCount]
    omega
  · rw [acts.peerCount] at outside
    rw [acts.others other (by omega)]
    exact counted.outside other outside

/-- A connected peer is among the counted ones. -/
theorem connected_le (counted : Counted host) (within : index < host.peerCount) :
    (host.peers index).state.isConnected.toNat ≤ host.connectedPeers := by
  rw [counted.connected]
  exact le_sum_range (f := fun index => (host.peers index).state.isConnected.toNat) within

theorem limited_le (counted : Counted host) (within : index < host.peerCount) :
    (host.peers index).isLimited.toNat ≤ host.bandwidthLimitedPeers := by
  rw [counted.limited]
  exact le_sum_range (f := fun index => (host.peers index).isLimited.toNat) within

/-- The counts once a peer, connected or not, is not counted any more. -/
theorem onDisconnect (counted : Counted host) (within : index < host.peerCount) :
    (host.onDisconnect index).connectedPeers + (host.peers index).state.isConnected.toNat =
        host.connectedPeers ∧
      (host.onDisconnect index).bandwidthLimitedPeers + (host.peers index).isLimited.toNat =
        host.bandwidthLimitedPeers ∧
      (host.onDisconnect index).decrementedAtZero = false := by
  have connected := counted.connected_le within
  have limited := counted.limited_le within
  have positive := counted.positive
  unfold Peer.isLimited at limited ⊢
  unfold Host.onDisconnect
  dsimp only
  cases up : (host.peers index).state.isConnected with
  | false => exact ⟨rfl, rfl, positive⟩
  | true =>
      rw [up, Bool.toNat_true] at connected
      rw [up, Bool.true_and] at limited
      rw [if_pos rfl]
      dsimp only
      rw [sub64_of_le connected, positive]
      by_cases bandwidth : (host.peers index).incomingBandwidth = 0
      · simp only [bandwidth, ne_eq, not_true_eq_false, if_false, decide_false, Bool.false_and,
          Bool.and_false, Bool.toNat_false, Bool.toNat_true, Bool.or_false, Bool.false_or,
          decide_eq_false_iff_not]
        omega
      · simp only [bandwidth, ne_eq, not_false_eq_true, decide_true, Bool.toNat_true] at limited
        simp only [bandwidth, ne_eq, not_false_eq_true, if_true, decide_true, Bool.true_and,
          Bool.toNat_true, sub64_of_le limited, Bool.false_or, Bool.or_eq_false_iff,
          decide_eq_false_iff_not]
        omega

/-- The counts once a peer, connected or not, is counted. -/
theorem onConnect (host : Host) (index : Nat) :
    (host.onConnect index).connectedPeers =
        host.connectedPeers + (!(host.peers index).state.isConnected).toNat ∧
      (host.onConnect index).bandwidthLimitedPeers =
        host.bandwidthLimitedPeers + (!(host.peers index).state.isConnected &&
          decide ((host.peers index).incomingBandwidth ≠ 0)).toNat ∧
      (host.onConnect index).decrementedAtZero = host.decrementedAtZero := by
  unfold Host.onConnect
  dsimp only
  cases up : (host.peers index).state.isConnected with
  | true => exact ⟨rfl, rfl, rfl⟩
  | false =>
      rw [if_neg (by decide)]
      by_cases bandwidth : (host.peers index).incomingBandwidth = 0
      · simp [bandwidth]
      · simp [bandwidth]

theorem changeState (counted : Counted host) (state : PeerState)
    (used : (host.peers index).state ≠ .disconnected) :
    Counted (host.changeState index state) := by
  have within := counted.within used
  have counts : (host.changeState index state).counts =
      (if state.isConnected then host.onConnect index else host.onDisconnect index).counts := rfl
  simp only [Host.counts, Prod.mk.injEq] at counts
  have after : ((host.changeState index state).peers index).isLimited =
      (state.isConnected && decide ((host.peers index).incomingBandwidth ≠ 0)) := by
    rw [Host.changeState_peer]
    rfl
  have reaches : ((host.changeState index state).peers index).state = state := by
    rw [Host.changeState_peer]
    rfl
  refine counted.move (.changeState host index state) within ?_ ?_ ?_
  · rw [counts.1, reaches]
    cases up : state.isConnected with
    | true =>
        have connects := (onConnect host index).1
        rw [if_pos rfl, connects]
        cases (host.peers index).state.isConnected <;> rfl
    | false =>
        rw [if_neg (by decide)]
        exact (counted.onDisconnect within).1
  · rw [counts.2.1, after]
    cases up : state.isConnected with
    | true =>
        have connects := (onConnect host index).2.1
        rw [if_pos rfl, connects, Peer.isLimited]
        cases (host.peers index).state.isConnected <;>
          cases decide ((host.peers index).incomingBandwidth ≠ 0) <;> rfl
    | false =>
        rw [if_neg (by decide)]
        exact (counted.onDisconnect within).2.1
  · rw [counts.2.2]
    split
    · exact (onConnect host index).2.2.trans counted.positive
    · exact (counted.onDisconnect within).2.2

/-- A peer that is not counted changes, and is not counted then. -/
theorem uncounted (counted : Counted host) (acts : ActsOn index host host')
    (within : index < host.peerCount) (counts : host'.counts = host.counts)
    (before : (host.peers index).state.isConnected = false)
    (after : (host'.peers index).state.isConnected = false) : Counted host' := by
  simp only [Host.counts, Prod.mk.injEq] at counts
  refine counted.move acts within ?_ ?_ (counts.2.2.trans counted.positive)
  · rw [counts.1, before, after]
  · rw [counts.2.1, Peer.isLimited_of_unconnected before, Peer.isLimited_of_unconnected after]

theorem peerReset (counted : Counted host) (index : Nat) : Counted (host.peerReset index) := by
  obtain ⟨mtu, reset⟩ := Host.peerReset_peer host index
  have leaves : ((host.peerReset index).peers index).state = .disconnected := by
    rw [reset]
    rfl
  have counts : (host.peerReset index).counts =
      ((host.observe (.reset index (host.peers index))).onDisconnect index).counts :=
    (SameFrame.resetQueues ..).counts
  have observed : Counted (host.observe (.reset index (host.peers index))) :=
    counted.steady (.of_same rfl rfl rfl)
  by_cases within : index < host.peerCount
  · have disconnects := observed.onDisconnect within
    simp only [Host.counts, Prod.mk.injEq] at counts
    refine counted.move (.peerReset host index) within ?_ ?_ (counts.2.2.trans disconnects.2.2)
    · rw [counts.1, leaves]
      exact disconnects.1
    · have unlimited := @Peer.isLimited_of_unconnected ((host.peerReset index).peers index)
        (by rw [leaves]; rfl)
      rw [counts.2.1, unlimited]
      exact disconnects.2.1
  · have free := counted.outside index (Nat.le_of_not_lt within)
    have still : (host.observe (.reset index (host.peers index))).onDisconnect index =
        host.observe (.reset index (host.peers index)) := by
      unfold Host.onDisconnect
      exact if_neg (by rw [show ((host.observe _).peers index).state = _ from free]; decide)
    refine counted.steady (.of_acts (.peerReset host index) ?_ ?_ ?_)
    · rw [counts, still]
      rfl
    · rw [leaves, free]
    · rw [Peer.isLimited_of_unconnected (by rw [leaves]; rfl),
        Peer.isLimited_of_unconnected (by rw [free]; rfl)]

/-- A count gives what the old limit had in it, and takes the new one. -/
theorem limit_swap {count old : Nat} (held : (decide (old ≠ 0)).toNat ≤ count) (new : Nat) :
    (if new ≠ 0 then (if old ≠ 0 then sub64 count 1 else count) + 1
      else if old ≠ 0 then sub64 count 1 else count) + (decide (old ≠ 0)).toNat =
      count + (decide (new ≠ 0)).toNat := by
  by_cases unlimited : old = 0
  · by_cases drops : new = 0 <;> simp [unlimited, drops]
  · have positive : 1 ≤ count := by simpa [unlimited] using held
    by_cases drops : new = 0
    · simp [unlimited, drops, sub64_of_le positive]
      omega
    · simp [unlimited, drops, sub64_of_le positive]
      omega

theorem bandwidthLimit (counted : Counted host) (incomingBandwidth outgoingBandwidth : Nat) :
    Counted (host.handleBandwidthLimit index incomingBandwidth outgoingBandwidth).1 := by
  have acts := ActsOn.handleBandwidthLimit host index incomingBandwidth outgoingBandwidth
  unfold Host.handleBandwidthLimit at acts ⊢
  dsimp only at acts ⊢
  cases up : (host.peers index).state.isConnected with
  | false => exact counted
  | true =>
      rw [up, if_neg (by decide)] at acts
      rw [if_neg (by decide)]
      have within := @within host index counted fun free => by rw [free] at up; cases up
      have limited := counted.limited_le within
      have isLimited : ∀ peer : Peer, peer.state.isConnected = true →
          peer.isLimited = decide (peer.incomingBandwidth ≠ 0) := by
        intro peer connected
        rw [Peer.isLimited, connected, Bool.true_and]
      rw [isLimited _ up] at limited
      refine counted.move acts within ?_ ?_ ?_
      · rw [Host.setPeer_self]
        rfl
      · have after := isLimited ((host.peers index).setBandwidth incomingBandwidth outgoingBandwidth
          (Peer.negotiateWindowSize host.outgoingBandwidth incomingBandwidth)) up
        rw [Host.setPeer_self, isLimited _ up, after]
        exact limit_swap limited incomingBandwidth
      · have positive := counted.positive
        change (host.decrementedAtZero || (decide ((host.peers index).incomingBandwidth ≠ 0) &&
          decide (host.bandwidthLimitedPeers = 0))) = false
        rw [positive, Bool.false_or, Bool.and_eq_false_iff, decide_eq_false_iff_not]
        by_cases bandwidth : (host.peers index).incomingBandwidth = 0
        · exact .inl (by simp [bandwidth])
        · refine .inr ?_
          simp only [bandwidth, ne_eq, not_false_eq_true, decide_true, Bool.toNat_true] at limited
          exact decide_eq_false (by omega)

theorem edit (edit : Edit index host host') (counted : Counted host) : Counted host' := by
  cases edit with
  | quiet quiet =>
      refine counted.steady ⟨quiet.counts, quiet.peerCount, fun index => (quiet.peers index).state,
        fun index => ?_⟩
      rw [Peer.isLimited, (quiet.peers index).state, (quiet.peers index).incomingBandwidth]
      rfl
  | malloc => exact counted.steady (.of_same rfl rfl rfl)
  | observe observation about fresh => exact counted.steady (.of_same rfl rfl rfl)
  | schedule =>
      exact counted.steady (.receivesFor (.scheduleDispatch host index)
        (SameFrame.scheduleDispatch host index).counts)
  | unschedule => exact counted.steady (.of_bandwidth (.of_setPeer rfl rfl (.refl _) rfl) rfl
      (by rw [Host.unscheduleDispatch, Host.setPeer_self]; rfl)
      (by rw [Host.unscheduleDispatch, Host.setPeer_self]; rfl))
  | changeState state used stays may => exact counted.changeState state used
  | eventData data => exact counted.steady (.setPeer host rfl rfl)
  | resetQueues =>
      exact counted.steady (.of_bandwidth (.resetQueues host index)
        (SameFrame.resetQueues host index).counts
        (by rw [Host.resetQueues_peer]; rfl) (by rw [Host.resetQueues_peer]; rfl))
  | reset => exact counted.peerReset index
  | clearChannels free => exact counted.steady (.setPeer host rfl rfl)
  | connecting address channelCount connectID slot free locally =>
      refine counted.uncounted (.setPeer host index _) slot rfl (by rw [free]; rfl) ?_
      rw [Host.setPeer_self]
      exact (Host.connectingPeer_takes ..).unconnected
  | accepted fields slot free channels admits =>
      refine counted.uncounted (.setPeer host index _) slot rfl (by rw [free]; rfl) ?_
      rw [Host.setPeer_self]
      exact (Host.acceptedPeer_takes ..).unconnected
  | verified fields waits =>
      have within := @within host index counted (by rw [waits]; decide)
      refine counted.uncounted (.setPeer host index _) within rfl (by rw [waits]; rfl) ?_
      rw [Host.setPeer_self]
      rw [show (Host.verifiedPeer (host.peers index) fields).state = .connecting from waits]
      rfl
  | bandwidth incomingBandwidth outgoingBandwidth => exact counted.bandwidthLimit ..
  | queue command control bare =>
      exact counted.steady (.sendsFor (.queueOutgoingCommand ..)
        (SameFrame.queueOutgoingCommand ..).counts)
  | removeSent number channelID =>
      exact counted.steady (.sendsFor (.removeSentReliableCommand ..)
        (SameFrame.removeSentReliableCommand ..).counts)
  | scanTimeouts =>
      have checks := Peer.SendingOnly.checkTimeouts (host.peers index) host.serviceTime
      exact counted.steady (.setPeer host checks.state checks.incomingBandwidth)
  | receive step heard => exact counted.steady (.receiveStep step)
  | acknowledge acknowledgement => exact counted.steady (.setPeer host rfl rfl)
  | acknowledged rest => exact counted.steady (.setPeer host rfl rfl)

theorem maintained : Maintained fun host _ => Counted host where
  edit := edit
  scan := by
    intro host index sentUnreliable counted
    have checks := Peer.SendingOnly.checkOutgoingCommands (host.peers index) host.heap host.datagram
      sentUnreliable host.serviceTime
    have scanned : Counted ((host.setHeap (host.scanOutgoing index sentUnreliable).heap).setDatagram
        (host.scanOutgoing index sentUnreliable).datagram) :=
      counted.steady (.of_same rfl rfl rfl)
    exact scanned.steady (.setPeer _ checks.state checks.incomingBandwidth)
  free := by
    intro host sentUnreliable counted
    exact counted.steady (.of_same rfl rfl rfl)
  take := fun host index counted =>
    counted.steady (.receivesFor (.peerReceive host index) (SameFrame.peerReceive ..).counts)
  packet := by
    intro host index channelID packet counted
    exact counted.steady (.sendsFor (.peerSend host index channelID packet)
      (SameFrame.peerSend ..).counts)
  discard := by
    intro host packet unreferenced counted
    exact counted.steady (.of_same rfl rfl rfl)
  configure := by
    intro host _ _ _ _ _ _ may counted
    exact counted.steady (.of_same rfl rfl rfl)

/-- A new host has no connections. -/
theorem create (heap : Heap) (world : World) (randomSeed peerCount channelLimit incomingBandwidth
    outgoingBandwidth : Nat) : Counted (Host.create heap world randomSeed peerCount channelLimit
      incomingBandwidth outgoingBandwidth) := by
  refine ⟨?_, ?_, fun _ _ => rfl, rfl⟩
  · exact (Finset.sum_eq_zero fun _ _ => rfl).symm
  · exact (Finset.sum_eq_zero fun _ _ => rfl).symm

end Counted

/-- **The counts are right between calls**: `connectedPeers` counts the peers that
are CONNECTED or DISCONNECT_LATER, `bandwidthLimitedPeers` those of them with a
limit, and neither was ever decremented at zero. -/
theorem connectedPeers_counted {host : Host} (reachable : Host.Reachable host) :
    host.connectedPeers =
        #{index ∈ Finset.range host.peerCount | (host.peers index).state = .connected ∨
          (host.peers index).state = .disconnectLater} ∧
      host.bandwidthLimitedPeers =
        #{index ∈ Finset.range host.peerCount | ((host.peers index).state = .connected ∨
          (host.peers index).state = .disconnectLater) ∧
            (host.peers index).incomingBandwidth ≠ 0} ∧
      host.decrementedAtZero = false := by
  have counted := Counted.maintained.visited Counted.create
    (@Visited.of_reachable host none reachable rfl)
  refine ⟨?_, ?_, counted.positive⟩
  · rw [counted.connected, ← card_filter_range]
    simp only [PeerState.isConnected, Bool.or_eq_true, decide_eq_true_eq]
  · rw [counted.limited, ← card_filter_range]
    simp only [Peer.isLimited, PeerState.isConnected, Bool.and_eq_true, Bool.or_eq_true,
      decide_eq_true_eq]

/-- A host that has completed a connection counts it. -/
theorem connectedPeers_counted_one :
    ∃ host, servedHost connectDatagrams 2 = some host ∧
      #{index ∈ Finset.range host.peerCount | (host.peers index).state = .connected ∨
        (host.peers index).state = .disconnectLater} = 1 ∧ host.decrementedAtZero = false := by
  have evaluated : (servedHost connectDatagrams 2).map Host.connectedPeers = some 1 := by
    decide +kernel
  obtain ⟨host, serves, one⟩ := Option.map_eq_some_iff.mp evaluated
  obtain ⟨connected, -, positive⟩ := connectedPeers_counted (servedHost_reachable serves)
  exact ⟨host, serves, connected.symm.trans one, positive⟩

end Enet
