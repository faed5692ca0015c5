import Enet.Runs.Rules

/-!
# What a peer sends within

The mtu of a connection is bounded by its handshake, its channels are no more
than a command can name, and their numbers are those of 16-bit registers.
-/

set_option autoImplicit false

namespace Enet

/-- The ranges of what a peer sends with. -/
structure Peer.Ranged (peer : Peer) : Prop where
  channelCount : peer.channelCount ≤ protocolMaximumChannelCount
  mtu : peer.state.isNegotiated = true → peer.mtu ≤ protocolMaximumMtu
  typed : ∀ channelID, (peer.channels channelID).SendsTyped

namespace Peer.Ranged

variable {peer peer' : Peer}

theorem sendingOnly (ranged : peer.Ranged) (sending : peer.SendingOnly peer') : peer'.Ranged := by
  refine ⟨?_, fun settled => ?_, fun channelID => sending.typed channelID (ranged.typed channelID)⟩
  · rw [sending.channelCount]
    exact ranged.channelCount
  · rw [sending.mtu]
    rw [sending.state] at settled
    exact ranged.mtu settled

theorem receivingOnly (ranged : peer.Ranged) (receiving : peer.ReceivingOnly peer') :
    peer'.Ranged := by
  refine ⟨?_, fun settled => ?_, fun channelID => ?_⟩
  · rw [receiving.channelCount]
    exact ranged.channelCount
  · rw [receiving.mtu]
    rw [receiving.state] at settled
    exact ranged.mtu settled
  · obtain ⟨reliable, unreliable⟩ := ranged.typed channelID
    have same := receiving.channels channelID
    refine ⟨?_, ?_⟩
    · rw [same.outgoingReliableSequenceNumber]
      exact reliable
    · rw [same.outgoingUnreliableSequenceNumber]
      exact unreliable

/-- The channels of a free slot, or of a new connection. -/
theorem fresh (count : peer.channelCount ≤ protocolMaximumChannelCount)
    (mtu : peer.state.isNegotiated = true → peer.mtu ≤ protocolMaximumMtu)
    (empty : peer.channels = fun _ => Channel.empty) : peer.Ranged := by
  refine ⟨count, mtu, fun channelID => ?_⟩
  rw [empty]
  exact ⟨Nat.zero_lt_succ _, Nat.zero_lt_succ _⟩

end Peer.Ranged

theorem Host.clampChannelCount_le (channelCount : Nat) :
    clampChannelCount channelCount ≤ protocolMaximumChannelCount := by
  unfold clampChannelCount
  simp only [protocolMaximumChannelCount, protocolMinimumChannelCount]
  grind

/-- Every peer is within the ranges. -/
def Ranged (host : Host) : Prop := ∀ index, (host.peers index).Ranged

namespace Ranged

variable {host host' : Host} {index : Nat}

theorem acts (ranged : Ranged host) (acts : ActsOn index host host')
    (own : (host'.peers index).Ranged) : Ranged host' := by
  intro other
  rcases eq_or_ne other index with same | different
  · rw [same]
    exact own
  · rw [acts.others other different]
    exact ranged other

theorem setPeer (ranged : Ranged host) {peer : Peer} (own : peer.Ranged) :
    Ranged (host.setPeer index peer) := by
  refine ranged.acts (.setPeer host index peer) ?_
  rw [Host.setPeer_self]
  exact own

/-- A change of one peer that leaves its channels, and does not settle it. -/
theorem keep (ranged : Ranged host) {peer : Peer}
    (count : peer.channelCount = (host.peers index).channelCount)
    (mtu : peer.mtu = (host.peers index).mtu)
    (channels : peer.channels = (host.peers index).channels)
    (state : peer.state = (host.peers index).state) : Ranged (host.setPeer index peer) := by
  obtain ⟨bound, settled, typed⟩ := ranged index
  refine ranged.setPeer ⟨?_, ?_, ?_⟩
  · rw [count]
    exact bound
  · rw [mtu, state]
    exact settled
  · rw [channels]
    exact typed

theorem sendsFor (ranged : Ranged host) (sends : SendsFor index host host') : Ranged host' :=
  ranged.acts sends.acts ((ranged index).sendingOnly sends.peer)

theorem receivesFor (ranged : Ranged host) (receives : ReceivesFor index host host') :
    Ranged host' :=
  ranged.acts receives.acts ((ranged index).receivingOnly receives.peer)

theorem quiet (ranged : Ranged host) (quiet : Quiet host host') : Ranged host' :=
  fun other => (ranged other).sendingOnly (.of_alike (quiet.peers other))

theorem changeState (ranged : Ranged host) {state : PeerState}
    (may : (host.peers index).MayEnter state) : Ranged (host.changeState index state) := by
  obtain ⟨bound, settled, typed⟩ := ranged index
  refine ranged.acts (.changeState host index state) ?_
  rw [Host.changeState_peer]
  exact ⟨bound, fun enters => (may enters).elim settled id, typed⟩

/-- **An edit keeps the ranges.** -/
theorem edit (edit : Edit index host host') (ranged : Ranged host) : Ranged host' := by
  cases edit with
  | quiet quiet => exact ranged.quiet quiet
  | malloc => exact ranged
  | observe observation about fresh => exact ranged
  | schedule => exact ranged.receivesFor (.scheduleDispatch host index)
  | unschedule => exact @keep (host.setDispatchQueue _) index ranged _ rfl rfl rfl rfl
  | changeState state used stays may => exact ranged.changeState may
  | eventData data => exact ranged.keep rfl rfl rfl rfl
  | resetQueues =>
      refine ranged.acts (.resetQueues host index) ?_
      rw [Host.resetQueues_peer]
      exact .fresh (Nat.zero_le _) (ranged index).mtu rfl
  | reset =>
      refine ranged.acts (.peerReset host index) ?_
      obtain ⟨mtu, same⟩ := Host.peerReset_peer host index
      rw [same]
      exact .fresh (Nat.zero_le _) (fun settled => by cases settled) rfl
  | clearChannels free =>
      refine ranged.setPeer (.fresh (ranged index).channelCount (ranged index).mtu rfl)
  | connecting address channelCount connectID slot free locally =>
      refine ranged.setPeer (.fresh ?_ (fun settled => by cases settled) rfl)
      exact Host.clampChannelCount_le channelCount
  | accepted fields slot free channels admits =>
      refine ranged.setPeer (.fresh ?_ (fun _ => Host.acceptedPeer_mtu ..) rfl)
      unfold Host.acceptedPeer
      dsimp only
      split <;> omega
  | verified fields waits =>
      refine ranged.setPeer ⟨?_, fun _ => Host.verifiedPeer_mtu .., (ranged index).typed⟩
      have bound := (ranged index).channelCount
      unfold Host.verifiedPeer
      dsimp only
      split <;> omega
  | bandwidth incomingBandwidth outgoingBandwidth =>
      unfold Host.handleBandwidthLimit
      dsimp only
      split
      · exact ranged
      · exact @keep (host.setBandwidthLimitedPeers _ _) index ranged _ rfl rfl rfl rfl
  | queue command control bare => exact ranged.sendsFor (.queueOutgoingCommand ..)
  | removeSent number channelID => exact ranged.sendsFor (.removeSentReliableCommand ..)
  | scanTimeouts =>
      exact ranged.sendsFor
        (.setPeer host (Peer.SendingOnly.checkTimeouts (host.peers index) host.serviceTime))
  | receive step heard => exact ranged.receivesFor step.receivesFor
  | acknowledge acknowledgement => exact ranged.keep rfl rfl rfl rfl
  | acknowledged rest => exact ranged.keep rfl rfl rfl rfl

theorem maintained : Maintained fun host _ => Ranged host where
  edit := edit
  scan := by
    intro host index sentUnreliable ranged
    have scanned : Ranged ((host.setHeap (host.scanOutgoing index sentUnreliable).heap).setDatagram
        (host.scanOutgoing index sentUnreliable).datagram) := ranged
    exact scanned.sendsFor (.setPeer _ (.checkOutgoingCommands ..))
  free := fun _ _ ranged => ranged
  take := fun host index ranged => ranged.receivesFor (.peerReceive host index)
  packet := fun host index channelID packet ranged => ranged.sendsFor (.peerSend ..)
  discard := fun _ _ _ ranged => ranged
  configure := fun _ _ _ _ _ _ _ _ ranged => ranged

theorem create (heap : Heap) (world : World)
    (randomSeed peerCount channelLimit incomingBandwidth outgoingBandwidth : Nat) :
    Ranged (Host.create heap world randomSeed peerCount channelLimit incomingBandwidth
      outgoingBandwidth) :=
  fun _ => .fresh (Nat.zero_le _) (fun settled => by cases settled) rfl

/-- **Every peer is within the ranges wherever calls pass through.** -/
theorem visited {activity : Activity} (visited : Visited activity) : Ranged activity.1 :=
  maintained.visited create visited

/-- **Every peer is within the ranges between calls.** -/
theorem reachable (reachable : Host.Reachable host) : Ranged host :=
  visited (@Visited.of_reachable host none reachable rfl)

end Ranged

end Enet
