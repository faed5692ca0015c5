import Enet.Runs.Received

/-!
# Where received commands wait

Only the channels that a peer uses hold received commands, and before the peer
is connected none of them does. The slots past the array are never taken.
-/

set_option autoImplicit false

namespace Enet

/-- Where the received commands of a peer are. -/
structure Peer.Contained (peer : Peer) : Prop where
  beyond : ∀ channelID, peer.channelCount ≤ channelID → (peer.channels channelID).commands = 0
  unopened : peer.state = .disconnected ∨ peer.state = .connecting →
    ∀ channelID, (peer.channels channelID).commands = 0

namespace Peer.Contained

variable {peer peer' : Peer}

theorem sendingOnly (contained : peer.Contained) (sending : peer.SendingOnly peer') :
    peer'.Contained := by
  have same : ∀ channelID, (peer'.channels channelID).commands =
      (peer.channels channelID).commands := by
    intro channelID
    unfold Channel.commands
    rw [(sending.channels channelID).incomingReliableCommands,
      (sending.channels channelID).incomingUnreliableCommands]
  refine ⟨fun channelID beyond => ?_, fun unopened channelID => ?_⟩
  · rw [sending.channelCount] at beyond
    rw [same]
    exact contained.beyond channelID beyond
  · rw [sending.state] at unopened
    rw [same]
    exact contained.unopened unopened channelID

/-- The same channels, in a state that is no earlier. -/
theorem keep (contained : peer.Contained) (channels : peer'.channels = peer.channels)
    (channelCount : peer'.channelCount = peer.channelCount)
    (state : peer'.state = .disconnected ∨ peer'.state = .connecting →
      peer.state = .disconnected ∨ peer.state = .connecting) : peer'.Contained := by
  refine ⟨fun channelID beyond => ?_, fun unopened channelID => ?_⟩
  · rw [channels]
    rw [channelCount] at beyond
    exact contained.beyond channelID beyond
  · rw [channels]
    exact contained.unopened (state unopened) channelID

/-- New channels hold nothing. -/
theorem fresh (empty : peer.channels = fun _ => Channel.empty) : peer.Contained := by
  refine ⟨fun channelID _ => ?_, fun _ channelID => ?_⟩
  · rw [empty]
    rfl
  · rw [empty]
    rfl

/-- A channel that a connected peer uses may hold anything. -/
theorem channel {channelID : Nat} (contained : peer.Contained) (takes : peer.Takes channelID)
    (state : peer'.state = peer.state) (channelCount : peer'.channelCount = peer.channelCount)
    (others : ∀ other, other ≠ channelID → peer'.channels other = peer.channels other) :
    peer'.Contained := by
  refine ⟨fun other beyond => ?_, fun unopened => ?_⟩
  · have used := takes.hasChannel
    rw [channelCount] at beyond
    rw [others other (by omega)]
    exact contained.beyond other beyond
  · have connected := takes.connected
    rw [state] at unopened
    rcases unopened with same | same <;>
      · rw [same] at connected
        cases connected

end Peer.Contained

/-- Where the received commands of a host are, and which slots are taken. -/
structure Contained (host : Host) : Prop where
  peers : ∀ index, (host.peers index).Contained
  spare : ∀ index, host.peerCount ≤ index → (host.peers index).state = .disconnected

namespace Contained

variable {host host' : Host} {index : Nat}

theorem acts (contained : Contained host) (acts : ActsOn index host host')
    (own : (host'.peers index).Contained)
    (spare : host.peerCount ≤ index → (host'.peers index).state = .disconnected) :
    Contained host' := by
  refine ⟨fun other => ?_, fun other beyond => ?_⟩
  · rcases eq_or_ne other index with same | different
    · rw [same]
      exact own
    · rw [acts.others other different]
      exact contained.peers other
  · rw [acts.peerCount] at beyond
    rcases eq_or_ne other index with same | different
    · rw [same] at beyond ⊢
      exact spare beyond
    · rw [acts.others other different]
      exact contained.spare other beyond

theorem sendsFor (contained : Contained host) (sends : SendsFor index host host') :
    Contained host' :=
  contained.acts sends.acts ((contained.peers index).sendingOnly sends.peer) fun spare =>
    sends.peer.state.trans (contained.spare index spare)

theorem setPeer (contained : Contained host) {peer : Peer} (own : peer.Contained)
    (spare : host.peerCount ≤ index → peer.state = .disconnected) :
    Contained (host.setPeer index peer) := by
  refine contained.acts (.setPeer host index peer) ?_ ?_
  · rw [Host.setPeer_self]
    exact own
  · rw [Host.setPeer_self]
    exact spare

/-- A change of one peer that leaves its channels and its state. -/
theorem keep (contained : Contained host) {peer : Peer}
    (channels : peer.channels = (host.peers index).channels)
    (channelCount : peer.channelCount = (host.peers index).channelCount)
    (state : peer.state = (host.peers index).state) : Contained (host.setPeer index peer) :=
  contained.setPeer ((contained.peers index).keep channels channelCount (by rw [state]; exact id))
    fun spare => state.trans (contained.spare index spare)

theorem quiet (contained : Contained host) (quiet : Quiet host host') : Contained host' := by
  refine ⟨fun other => (contained.peers other).sendingOnly (.of_alike (quiet.peers other)),
    fun other beyond => ?_⟩
  rw [quiet.peerCount] at beyond
  rw [(quiet.peers other).state]
  exact contained.spare other beyond

theorem receiveStep {available : List UInt8} {received : Heard} (contained : Contained host)
    (step : ReceiveStep index available received host host') : Contained host' := by
  have receives := step.receivesFor
  have state := receives.peer.state
  refine contained.acts receives.acts ?_ fun spare =>
    state.trans (contained.spare index spare)
  rcases step.channels with same | ⟨channelID, takes, others⟩
  · exact (contained.peers index).keep same receives.peer.channelCount (by rw [state]; exact id)
  · exact (contained.peers index).channel takes state receives.peer.channelCount others

/-- A free slot of the array is not past it. -/
theorem inside (contained : Contained host) (used : (host.peers index).state ≠ .disconnected) :
    index < host.peerCount := by
  by_contra beyond
  exact used (contained.spare index (Nat.le_of_not_lt beyond))

theorem peerReceive (contained : Contained host) (index : Nat) :
    Contained (host.peerReceive index).1 := by
  unfold Host.peerReceive
  dsimp only
  split
  · exact contained
  next command rest _ =>
      exact @keep (host.setHeap ((host.heap.unreference command.packet).free command.address)) index
        ⟨contained.peers, contained.spare⟩ _ rfl rfl rfl

/-- **An edit leaves received commands where they may be.** -/
theorem edit (edit : Edit index host host') (contained : Contained host) : Contained host' := by
  have free : ∀ {other : Host}, other.peers = host.peers → other.peerCount = host.peerCount →
      Contained other := by
    intro other peers peerCount
    refine ⟨?_, ?_⟩
    · rw [peers]
      exact contained.peers
    · rw [peers, peerCount]
      exact contained.spare
  cases edit with
  | quiet quiet => exact contained.quiet quiet
  | malloc => exact free rfl rfl
  | observe observation about fresh => exact free rfl rfl
  | schedule =>
      refine contained.acts (.scheduleDispatch host index) ?_ ?_
      · rw [Host.scheduleDispatch_peer]
        exact (contained.peers index).keep rfl rfl id
      · rw [Host.scheduleDispatch_peer]
        exact contained.spare index
  | unschedule =>
      exact @keep (host.setDispatchQueue (host.dispatchQueue.remove (.peer index))) index
        (free rfl rfl) _ rfl rfl rfl
  | changeState state used stays may =>
      refine contained.acts (.changeState host index state) ?_ fun spare =>
        absurd (contained.spare index spare) used
      rw [Host.changeState_peer]
      refine (contained.peers index).keep rfl rfl ?_
      rintro (same | same)
      · exact absurd same stays.1
      · exact absurd same stays.2
  | eventData data => exact contained.keep rfl rfl rfl
  | resetQueues =>
      refine contained.acts (.resetQueues host index) ?_ ?_
      · rw [Host.resetQueues_peer]
        exact .fresh rfl
      · rw [Host.resetQueues_peer]
        exact contained.spare index
  | reset =>
      obtain ⟨mtu, same⟩ := Host.peerReset_peer host index
      refine contained.acts (.peerReset host index) ?_ ?_
      · rw [same]
        exact .fresh rfl
      · rw [same]
        exact fun _ => rfl
  | clearChannels free => exact contained.setPeer (.fresh rfl) fun _ => free
  | connecting address channelCount connectID slot free locally =>
      exact contained.setPeer (.fresh rfl) fun beyond => absurd slot (Nat.not_lt_of_le beyond)
  | accepted fields slot free channels admits =>
      exact contained.setPeer (.fresh rfl) fun beyond => absurd slot (Nat.not_lt_of_le beyond)
  | verified fields waits =>
      have empty := (contained.peers index).unopened (.inr waits)
      refine contained.setPeer ⟨fun channelID _ => empty channelID, fun _ => empty⟩ fun spare => ?_
      have free := contained.spare index spare
      rw [waits] at free
      cases free
  | bandwidth incomingBandwidth outgoingBandwidth =>
      unfold Host.handleBandwidthLimit
      dsimp only
      split
      · exact contained
      · exact @keep (host.setBandwidthLimitedPeers _ _) index (free rfl rfl) _ rfl rfl rfl
  | queue command control bare => exact contained.sendsFor (.queueOutgoingCommand ..)
  | removeSent number channelID => exact contained.sendsFor (.removeSentReliableCommand ..)
  | scanTimeouts =>
      exact contained.sendsFor
        (.setPeer host (Peer.SendingOnly.checkTimeouts (host.peers index) host.serviceTime))
  | receive step heard => exact contained.receiveStep step
  | acknowledge acknowledgement => exact contained.keep rfl rfl rfl
  | acknowledged rest => exact contained.keep rfl rfl rfl

theorem maintained : Maintained fun host _ => Contained host where
  edit := edit
  scan := by
    intro host index sentUnreliable contained
    have scanned : Contained ((host.setHeap
        (host.scanOutgoing index sentUnreliable).heap).setDatagram
        (host.scanOutgoing index sentUnreliable).datagram) := ⟨contained.peers, contained.spare⟩
    exact scanned.sendsFor (.setPeer _ (.checkOutgoingCommands ..))
  free := fun _ _ contained => ⟨contained.peers, contained.spare⟩
  take := fun _ index contained => contained.peerReceive index
  packet := fun host index channelID packet contained => contained.sendsFor (.peerSend ..)
  discard := fun _ _ _ contained => ⟨contained.peers, contained.spare⟩
  configure := fun _ _ _ _ _ _ _ _ contained => ⟨contained.peers, contained.spare⟩

theorem create (heap : Heap) (world : World) (randomSeed peerCount channelLimit incomingBandwidth
    outgoingBandwidth : Nat) :
    Contained (.create heap world randomSeed peerCount channelLimit incomingBandwidth
      outgoingBandwidth) :=
  ⟨fun _ => .fresh rfl, fun _ _ => rfl⟩

end Contained

end Enet
