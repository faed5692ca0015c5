import Mathlib.Algebra.Order.BigOperators.Group.Finset
import Enet.Model.Checked
import Enet.Runs.Received
import Enet.Runs.Settings
import Enet.Runs.WaitingData

/-!
# The memory of received commands

The limit on waiting data counts the bytes of packets. A command that waits for
fragments also holds a bitmap, which the limit does not count, and is bounded
only where a packet has no more fragments than bytes. The handler of reliable
fragments tests this; the handler of unreliable fragments does not.
-/

set_option autoImplicit false

namespace Enet

open Finset Relation

/-! ## Extents -/

/-- What a received command was allocated for. -/
structure Extent where
  dataLength : Nat
  fragmentCount : Nat
  deriving DecidableEq

/-- The memory of a packet, and of the bitmap of its fragments. -/
def Extent.memory (extent : Extent) : Nat :=
  extent.dataLength + 4 * ((extent.fragmentCount + 31) / 32)

/-- **Where no packet has more fragments than bytes, the bitmaps are no longer than the
packets**, but for the last word of each. -/
theorem memory_le (extents : Multiset Extent)
    (counted : ∀ extent ∈ extents, extent.fragmentCount ≤ extent.dataLength) :
    (extents.map Extent.memory).sum ≤ 2 * (extents.map Extent.dataLength).sum +
      4 * extents.countP fun extent => 0 < extent.fragmentCount := by
  induction extents using Multiset.induction with
  | empty => exact Nat.le_refl _
  | cons extent extents ih =>
      have rest := ih fun other member => counted other (Multiset.mem_cons_of_mem member)
      have here := counted extent (Multiset.mem_cons_self extent extents)
      rw [Multiset.map_cons, Multiset.map_cons, Multiset.sum_cons, Multiset.sum_cons]
      unfold Extent.memory at rest ⊢
      rcases Nat.eq_zero_or_pos extent.fragmentCount with none | fragmented
      · rw [Multiset.countP_cons_of_neg (p := fun extent : Extent => 0 < extent.fragmentCount) _
          (by omega)]
        omega
      · rw [Multiset.countP_cons_of_pos (p := fun extent : Extent => 0 < extent.fragmentCount) _
          fragmented]
        omega

/-- What a received command was allocated for. -/
def IncomingCommand.extent (incoming : IncomingCommand) : Extent where
  dataLength := incoming.packet.dataLength
  fragmentCount := incoming.fragmentCount

/-- A fragment leaves the extent of its command. -/
theorem IncomingCommand.addFragment_extent (incoming : IncomingCommand) (number offset : Nat)
    (fragment : List UInt8) : (incoming.addFragment number offset fragment).extent =
      incoming.extent :=
  congrArg (fun dataLength => Extent.mk dataLength incoming.fragmentCount)
    (Accounts.addFragment_dataLength incoming number offset fragment)

/-- A received command is allocated for the bytes of its datagram, or for those of the
packet that its fragments make up. -/
theorem allocateIncoming_extent {heap heap' : Heap} {command : Protocol}
    {data : Option (List UInt8)} {dataLength : Nat} {flags : PacketFlags} {fragmentCount : Nat}
    {incoming : IncomingCommand} {available : List UInt8}
    (payload : data = none ∨
      data = some (available.take dataLength) ∧ dataLength ≤ available.length)
    (allocated : Host.allocateIncoming heap command data dataLength flags fragmentCount =
      (heap', some incoming)) : incoming.extent = ⟨dataLength, fragmentCount⟩ := by
  have spec := allocateIncoming_spec allocated
  have length : incoming.packet.dataLength = dataLength := by
    rcases payload with none | ⟨bytes, enough⟩
    · exact spec.empty none
    · rcases Nat.eq_zero_or_pos dataLength with zero | positive
      · rw [zero, Packet.dataLength, spec.nothing zero, List.length_nil]
      · rw [Packet.dataLength, spec.contents _ bytes positive, List.length_take,
          Nat.min_eq_left enough]
  unfold IncomingCommand.extent
  rw [length, spec.fragments]

namespace Peer

/-! ## Received commands -/

/-- The received commands of a peer, dispatched or in its channels. -/
def received (peer : Peer) : Multiset IncomingCommand :=
  ↑peer.dispatchedCommands +
    ∑ channelID ∈ range peer.channelCount, (peer.channels channelID).commands

/-- What the received commands of a peer were allocated for. -/
def extents (peer : Peer) : Multiset Extent := peer.received.map IncomingCommand.extent

/-- The memory that the received commands of a peer hold for packets and bitmaps. -/
def receivedMemory (peer : Peer) : Nat :=
  (peer.received.map fun incoming => incoming.packet.dataLength + 4 * incoming.bitmapWords).sum

/-- The received commands of a peer whose packets arrive in fragments. -/
def fragmentedCommands (peer : Peer) : Nat :=
  peer.received.countP fun incoming => 0 < incoming.fragmentCount

variable {peer peer' : Peer}

theorem received_congr (dispatched : peer'.dispatchedCommands = peer.dispatchedCommands)
    (channelCount : peer'.channelCount = peer.channelCount)
    (channels : ∀ channelID, (peer.channels channelID).SameIncoming (peer'.channels channelID)) :
    peer'.received = peer.received := by
  unfold received
  rw [dispatched, channelCount]
  congr 1
  refine sum_congr rfl fun channelID _ => ?_
  unfold Channel.commands
  rw [(channels channelID).incomingReliableCommands,
    (channels channelID).incomingUnreliableCommands]

/-- A peer whose channels are new has received what is dispatched. -/
theorem received_of_empty (empty : ∀ channelID, peer.channels channelID = Channel.empty) :
    peer.received = ↑peer.dispatchedCommands := by
  unfold received
  rw [sum_eq_zero fun channelID _ => by rw [empty]; rfl, add_zero]

/-- The received commands of a peer that has the channel, with another channel in its
place and other dispatched commands. -/
theorem received_split {channelID : Nat} (hasChannel : channelID < peer.channelCount) :
    ∃ others : Multiset IncomingCommand,
      peer.received = ↑peer.dispatchedCommands + ((peer.channels channelID).commands + others) ∧
      ∀ channel dispatchedCommands total, ((peer.setChannel channelID channel).setDispatched
        dispatchedCommands total).received =
          ↑dispatchedCommands + (channel.commands + others) := by
  have member : channelID ∈ range peer.channelCount := mem_range.mpr hasChannel
  refine ⟨∑ other ∈ (range peer.channelCount).erase channelID, (peer.channels other).commands,
    ?_, fun channel dispatchedCommands total => ?_⟩
  · unfold received
    rw [← add_sum_erase _ _ member]
  · unfold received
    dsimp only [setDispatched, setChannel]
    rw [← add_sum_erase _ _ member, Function.update_self]
    congr 2
    refine sum_congr rfl fun other erased => ?_
    rw [Function.update_of_ne (mem_erase.mp erased).1]

/-- A peer with fewer of the channels. -/
theorem received_le (dispatched : peer'.dispatchedCommands = peer.dispatchedCommands)
    (channelCount : peer'.channelCount ≤ peer.channelCount)
    (channels : peer'.channels = peer.channels) : peer'.received ≤ peer.received := by
  unfold received
  rw [dispatched, channels]
  exact add_le_add_right
    (sum_le_sum_of_subset (range_subset_range.mpr channelCount)) _

theorem extents_congr (same : peer'.received = peer.received) : peer'.extents = peer.extents :=
  congrArg (Multiset.map IncomingCommand.extent) same

theorem extents_le (fewer : peer'.received ≤ peer.received) : peer'.extents ≤ peer.extents :=
  Multiset.map_le_map fewer

end Peer

/-! ## Data handlers -/

namespace Host

/-- **A dispatch keeps or removes** what was received and what was added. -/
theorem installDispatched_received (host : Host) {index channelID : Nat}
    {dispatched : Channel.Dispatched} {added : Multiset IncomingCommand}
    (hasChannel : channelID < (host.peers index).channelCount)
    (conserved : dispatched.commands =
      added + ((host.peers index).channels channelID).commands) :
    ((host.installDispatched index channelID dispatched).peers index).received ≤
        added + (host.peers index).received ∧
      ((host.installDispatched index channelID dispatched).peers index).totalWaitingData =
        (host.peers index).totalWaitingData := by
  obtain ⟨flag, peer⟩ := host.installDispatched_peer index channelID dispatched
  obtain ⟨others, before, after⟩ := Peer.received_split hasChannel
  rw [peer]
  refine ⟨?_, rfl⟩
  have left := after dispatched.channel
    ((host.peers index).dispatchedCommands ++ dispatched.moved) (host.peers index).totalWaitingData
  refine (Multiset.le_add_right _ (dispatched.removed : Multiset IncomingCommand)).trans
    (le_of_eq ?_)
  refine (congrArg (· + (dispatched.removed : Multiset IncomingCommand)) left).trans ?_
  unfold Channel.Dispatched.commands at conserved
  rw [before, ← Multiset.coe_add]
  calc _ = ↑(host.peers index).dispatchedCommands + (dispatched.channel.commands +
        ↑dispatched.moved + ↑dispatched.removed + others) := by abel
    _ = _ := by
      rw [conserved]
      abel

/-- A command written in the place of one of the same extent. -/
theorem setStartCommand_extents (host : Host) {index channelID : Nat} {reliable : Bool}
    {incoming written : IncomingCommand}
    (hasChannel : channelID < (host.peers index).channelCount)
    (found : host.startCommand index channelID reliable written.address = some incoming)
    (same : written.extent = incoming.extent) :
    ((host.setStartCommand index channelID reliable written).peers index).extents =
      (host.peers index).extents := by
  have writes : ∀ commands : List IncomingCommand,
      commands.find? (fun other => decide (other.address = written.address)) = some incoming →
      (↑(writeCommand written commands) : Multiset IncomingCommand).map IncomingCommand.extent =
        (↑commands : Multiset IncomingCommand).map IncomingCommand.extent := by
    intro commands here
    exact congrArg Multiset.ofList (writeCommand_map IncomingCommand.extent here same)
  obtain ⟨channel, stores, commands⟩ : ∃ channel : Channel,
      host.setStartCommand index channelID reliable written =
        host.setPeer index ((host.peers index).setChannel channelID channel) ∧
      channel.commands.map IncomingCommand.extent =
        ((host.peers index).channels channelID).commands.map IncomingCommand.extent := by
    refine ⟨_, rfl, ?_⟩
    unfold Channel.commands
    rw [Multiset.map_add, Multiset.map_add]
    cases reliable with
    | true => exact congrArg (· + _) (writes _ found)
    | false => exact congrArg (_ + ·) (writes _ found)
  obtain ⟨others, before, after⟩ := Peer.received_split hasChannel
  have left := after channel (host.peers index).dispatchedCommands
    (host.peers index).totalWaitingData
  rw [stores, setPeer_self]
  unfold Peer.extents
  refine (congrArg (Multiset.map IncomingCommand.extent) left).trans ?_
  rw [before, Multiset.map_add, Multiset.map_add, commands, ← Multiset.map_add, ← Multiset.map_add]

end Host

/-- What a step does to the received commands of a peer, and to its count of waiting
data: some may go, one may be queued, or the application takes one. -/
inductive Peer.Stores (peer : Peer) (host : Host) (short : Prop) (peer' : Peer) : Prop where
  | kept (fewer : peer'.extents ≤ peer.extents)
      (total : peer'.totalWaitingData = peer.totalWaitingData)
  | emptied (none : peer'.extents = 0)
      (total : peer'.totalWaitingData ≤ peer.totalWaitingData)
  | queued (extent : Extent) (more : peer'.extents ≤ extent ::ₘ peer.extents)
      (total : peer'.totalWaitingData = peer.totalWaitingData + extent.dataLength)
      (admitted : peer.totalWaitingData < host.maximumWaitingData)
      (small : extent.dataLength ≤ host.maximumPacketSize)
      (counted : extent.fragmentCount ≤ extent.dataLength ∨ short)
  | taken (extent : Extent) (held : peer.extents = extent ::ₘ peer'.extents)
      (total : peer'.totalWaitingData = sub64 peer.totalWaitingData extent.dataLength)

theorem Peer.Stores.of_received {peer peer' : Peer} {host : Host} {short : Prop}
    (received : peer'.received = peer.received)
    (total : peer'.totalWaitingData = peer.totalWaitingData) : peer.Stores host short peer' :=
  .kept (extents_congr received).le total

theorem Peer.Stores.sendingOnly {peer peer' : Peer} {host : Host} {short : Prop}
    (sending : peer.SendingOnly peer') : peer.Stores host short peer' :=
  .of_received (received_congr sending.dispatchedCommands sending.channelCount sending.channels)
    sending.totalWaitingData

theorem Peer.Stores.mono {peer peer' : Peer} {host : Host} {short short' : Prop}
    (stores : peer.Stores host short peer') (heard : short → short') :
    peer.Stores host short' peer' := by
  cases stores with
  | kept fewer total => exact .kept fewer total
  | emptied none total => exact .emptied none total
  | queued extent more total admitted small counted =>
      exact .queued extent more total admitted small (counted.imp_right heard)
  | taken extent held total => exact .taken extent held total

/-- A free slot that is taken has the commands that were dispatched. -/
theorem Peer.Stores.takenBy {peer peer' : Peer} {host : Host} {short : Prop}
    (takes : peer.TakenBy peer') : peer.Stores host short peer' := by
  refine .kept (extents_le ?_) takes.total
  rw [received_of_empty takes.channels, takes.dispatched]
  exact Multiset.le_add_right ..

/-- **What a data handler does to the received commands of its peer.** -/
theorem ReceiveStep.stores {index : Nat} {available : List UInt8} {received : Heard}
    {host host' : Host} (step : ReceiveStep index available received host host') :
    (host.peers index).Stores host received.IsShort (host'.peers index) := by
  cases step with
  | window group window =>
      rw [Host.setPeer_self]
      exact .of_received rfl rfl
  | queue command data dataLength flags fragmentCount takes payload small few counted =>
      rcases host.queueIncomingCommand_cases index command data dataLength flags fragmentCount with
        same | ⟨heap, -, same⟩ | ⟨heap, incoming, allocated, placed, admitted, same⟩
      · rw [same]
        exact .of_received rfl rfl
      · rw [same]
        exact .of_received rfl rfl
      · have extent := allocateIncoming_extent payload allocated
        have length : incoming.packet.dataLength = dataLength := congrArg Extent.dataLength extent
        have inserts := Channel.insertIncoming_conserves
          ((host.peers index).channels command.channelID) incoming command placed
        rw [← Multiset.singleton_add] at inserts
        have adds := Host.setPeer_self (host.setHeap heap) index ((host.peers index).setDispatched
          (host.peers index).dispatchedCommands
          ((host.peers index).totalWaitingData + incoming.packet.dataLength))
        obtain ⟨more, total⟩ := Host.installDispatched_received ((host.setHeap heap).setPeer index
          ((host.peers index).setDispatched (host.peers index).dispatchedCommands
            ((host.peers index).totalWaitingData + incoming.packet.dataLength)))
          (by rw [adds]; exact takes.hasChannel) (inserts.trans (by rw [adds]; rfl))
        rw [← same, adds] at more total
        have held := Multiset.map_le_map (f := IncomingCommand.extent) more
        rw [Multiset.map_add, Multiset.map_singleton, extent, Multiset.singleton_add] at held
        exact .queued ⟨dataLength, fragmentCount⟩ held
          (total.trans (congrArg ((host.peers index).totalWaitingData + ·) length))
          admitted.waits small (counted admitted)
  | fragment channelID reliable address fields takes fits payload holds =>
      rcases host.addFragment_cases index channelID reliable address fields available with
        same | ⟨incoming, written, found, writes, same | ⟨dispatched, conserved, same⟩⟩
      · rw [same]
        exact .of_received rfl rfl
      · have stored := host.setStartCommand_extents takes.hasChannel found
          (by rw [writes, IncomingCommand.addFragment_extent])
        rw [same]
        refine .kept stored.le ?_
        unfold Host.setStartCommand
        dsimp only
        rw [Host.setPeer_self]
        rfl
      · have stored := host.setStartCommand_extents takes.hasChannel found
          (by rw [writes, IncomingCommand.addFragment_extent])
        obtain ⟨channel, peer⟩ : ∃ channel,
            (host.setStartCommand index channelID reliable written).peers index =
              (host.peers index).setChannel channelID channel := ⟨_, Host.setPeer_self ..⟩
        obtain ⟨fewer, total⟩ := @Host.installDispatched_received
          (host.setStartCommand index channelID reliable written) index _ _ 0
          (by rw [peer]; exact takes.hasChannel) (conserved.trans (zero_add _).symm)
        rw [zero_add] at fewer
        rw [same]
        refine .kept ((Peer.extents_le fewer).trans stored.le) (total.trans ?_)
        rw [peer]
        rfl

/-! ## Steps -/

/-- Whether a peer was sent the first fragment of a packet with more fragments than bytes,
since its slot was last reset. -/
def Host.HearsShort (host : Host) (index : Nat) : Prop :=
  ∃ received, host.Hears index received ∧ received.IsShort

/-- What a step does to what every peer of a host has received. -/
structure Stored (host host' : Host) : Prop where
  peers : ∀ index, (host.peers index).Stores host (host'.HearsShort index) (host'.peers index)
  settings : host'.settings = host.settings
  /-- What was seen of a slot is forgotten only where it is emptied. -/
  history : ∀ index, (∃ seen, sinceReset index host'.history =
    sinceReset index host.history ++ seen) ∨ (host'.peers index).extents = 0

/-- A connection has no more channels than were asked for. -/
theorem Host.verifiedPeer_channelCount (peer : Peer) (fields : VerifyConnect) :
    (verifiedPeer peer fields).channelCount ≤ peer.channelCount := by
  unfold verifiedPeer
  dsimp only
  split <;> omega

namespace Stored

variable {host host' : Host} {index : Nat}

/-- What was heard was heard, but where the slot is emptied. -/
theorem hears (stored : Stored host host') (index : Nat) :
    (host.HearsShort index → host'.HearsShort index) ∨ (host'.peers index).extents = 0 := by
  refine (stored.history index).imp_left ?_
  rintro ⟨seen, history⟩ ⟨heard, hears, short⟩
  refine ⟨heard, ?_, short⟩
  unfold Host.Hears at hears ⊢
  rw [history]
  exact List.mem_append_left _ hears

theorem of_peers (peers : host'.peers = host.peers) (settings : host'.settings = host.settings)
    (history : host'.history = host.history) : Stored host host' :=
  ⟨fun index => by rw [peers]; exact .of_received rfl rfl, settings,
    fun index => .inl ⟨[], by rw [history, List.append_nil]⟩⟩

theorem setHeap (host : Host) (heap : Heap) : Stored host (host.setHeap heap) :=
  of_peers rfl rfl rfl

theorem acts (acts : ActsOn index host host') (settings : host'.settings = host.settings)
    (continues : (∃ seen, sinceReset index host'.history = sinceReset index host.history ++ seen) ∨
      (host'.peers index).extents = 0)
    (own : (host.peers index).Stores host (host'.HearsShort index) (host'.peers index)) :
    Stored host host' := by
  obtain ⟨seen, history, about⟩ := acts.history
  refine ⟨fun other => ?_, settings, fun other => ?_⟩
  · rcases eq_or_ne other index with same | different
    · rw [same]
      exact own
    · rw [acts.others other different]
      exact .of_received rfl rfl
  · rcases eq_or_ne other index with same | different
    · rw [same]
      exact continues
    · refine .inl ⟨[], ?_⟩
      rw [history, List.append_nil]
      exact sinceReset_append_others fun observation member same =>
        different (same.symm.trans (about observation member))

/-- A function that writes nothing down. -/
theorem silent (silent : ActsOn index host host') (history : host'.history = host.history)
    (settings : host'.settings = host.settings)
    (own : (host.peers index).Stores host (host'.HearsShort index) (host'.peers index)) :
    Stored host host' :=
  acts silent settings (.inl ⟨[], by rw [history, List.append_nil]⟩) own

theorem sendsFor (sends : SendsFor index host host') (settings : host'.settings = host.settings) :
    Stored host host' :=
  silent sends.acts sends.history settings (.sendingOnly sends.peer)

/-- A change of one peer, and of fields that hold nothing received. -/
theorem of_setPeer {peer : Peer} (peers : host'.peers = Function.update host.peers index peer)
    (settings : host'.settings = host.settings) (history : host'.history = host.history)
    (stores : (host.peers index).Stores host (host'.HearsShort index) peer) :
    Stored host host' := by
  refine ⟨fun other => ?_, settings,
    fun other => .inl ⟨[], by rw [history, List.append_nil]⟩⟩
  rw [peers]
  by_cases equal : other = index
  · rw [equal, Function.update_self]
    exact stores
  · rw [Function.update_of_ne equal]
    exact .of_received rfl rfl

/-- **An edit keeps, removes or queues received commands.** -/
theorem edit (edit : Edit index host host') : Stored host host' := by
  have settings := (Adjusted.edit edit).settings
  cases edit with
  | quiet quiet =>
      refine ⟨fun other => ?_, settings,
        fun other => .inl ⟨[], by rw [quiet.history, List.append_nil]⟩⟩
      exact .sendingOnly (.of_alike (quiet.peers other))
  | malloc => exact setHeap host _
  | observe observation about fresh stays =>
      refine acts (.observe host index about) settings (.inl ⟨[observation], ?_⟩)
        (.of_received rfl rfl)
      rw [Host.observe_history]
      exact sinceReset_append (fun other member => by rw [List.mem_singleton.mp member, about])
        fun other member => by rw [List.mem_singleton.mp member, stays]
  | schedule =>
      refine silent (.scheduleDispatch host index) (Host.scheduleDispatch_history ..) settings ?_
      rw [Host.scheduleDispatch_peer]
      exact .of_received rfl rfl
  | unschedule =>
      exact of_setPeer rfl settings rfl (.of_received rfl rfl)
  | changeState state used stays may =>
      refine silent (.changeState host index state) (Host.changeState_history ..) settings ?_
      rw [Host.changeState_peer]
      exact .of_received rfl rfl
  | eventData data => exact of_setPeer rfl settings rfl (.of_received rfl rfl)
  | resetQueues =>
      refine silent (.resetQueues host index) (Host.resetQueues_history ..) settings ?_
      rw [Host.resetQueues_peer]
      exact .emptied rfl (Nat.le_refl _)
  | reset =>
      obtain ⟨mtu, same⟩ := Host.peerReset_peer host index
      have none : ((host.peerReset index).peers index).extents = 0 := by
        rw [same]
        rfl
      refine acts (.peerReset host index) settings (.inr none) (.emptied none ?_)
      rw [same]
      exact Nat.zero_le _
  | clearChannels free =>
      refine of_setPeer rfl settings rfl (.kept (Peer.extents_le ?_) rfl)
      rw [Peer.received_of_empty fun _ => rfl]
      exact Multiset.le_add_right ..
  | connecting address channelCount connectID slot free locally =>
      exact of_setPeer rfl settings rfl (.takenBy (Host.connectingPeer_takes ..))
  | accepted fields slot free channels admits =>
      exact of_setPeer rfl settings rfl (.takenBy (Host.acceptedPeer_takes ..))
  | verified fields waits =>
      refine of_setPeer rfl settings rfl (.kept (Peer.extents_le ?_) rfl)
      exact Peer.received_le rfl (Host.verifiedPeer_channelCount ..) rfl
  | bandwidth incomingBandwidth outgoingBandwidth =>
      unfold Host.handleBandwidthLimit
      dsimp only
      split
      · exact of_peers rfl rfl rfl
      · exact of_setPeer rfl rfl rfl (.of_received rfl rfl)
  | queue command control bare => exact sendsFor (.queueOutgoingCommand ..) settings
  | removeSent number channelID => exact sendsFor (.removeSentReliableCommand ..) settings
  | scanTimeouts =>
      exact of_setPeer rfl settings rfl
        (.sendingOnly (.checkTimeouts (host.peers index) host.serviceTime))
  | receive step heard =>
      have receives := step.receivesFor
      exact acts receives.acts settings (.inl receives.continues)
        (step.stores.mono fun short => ⟨_, heard.receivesFor receives, short⟩)
  | acknowledge acknowledgement => exact of_setPeer rfl settings rfl (.of_received rfl rfl)
  | acknowledged rest => exact of_setPeer rfl settings rfl (.of_received rfl rfl)

theorem peerReceive (host : Host) (index : Nat) : Stored host (host.peerReceive index).1 := by
  unfold Host.peerReceive
  dsimp only
  split
  · exact of_peers rfl rfl rfl
  next command rest dispatched =>
      refine of_setPeer rfl rfl rfl (.taken command.extent ?_ rfl)
      unfold Peer.extents Peer.received
      rw [dispatched, ← Multiset.cons_coe, Multiset.cons_add, Multiset.map_cons]
      rfl

/-- **What every such step keeps is maintained.** -/
theorem maintained {May : Host → Request → Prop} {Invariant : Host → Prop}
    (stores : ∀ {host host'}, Stored host host' → Invariant host → Invariant host')
    (configures : ∀ (host : Host) (mtu duplicatePeers maximumPacketSize maximumWaitingData : Nat)
      (checksum : Option (List UInt8 → Nat)) (compressor : Option Compressor),
      May host (.configure mtu duplicatePeers maximumPacketSize maximumWaitingData) →
        Invariant host → Invariant (host.configure mtu duplicatePeers maximumPacketSize
          maximumWaitingData checksum compressor)) :
    MaintainedUnder May fun host _ => Invariant host where
  edit := fun step holds => stores (edit step) holds
  scan := by
    intro host index sentUnreliable holds
    refine stores (@of_setPeer host (host.installScan index (host.scanOutgoing index
      sentUnreliable)) index _ rfl rfl rfl ?_) holds
    exact .sendingOnly (.checkOutgoingCommands ..)
  free := fun host _ holds => stores (setHeap host _) holds
  take := fun host index holds => stores (peerReceive host index) holds
  packet := fun host index channelID packet holds =>
    stores (sendsFor (.peerSend host index channelID packet)
      (SameFrame.peerSend host index channelID packet).settings) holds
  discard := fun host _ _ holds => stores (setHeap host _) holds
  configure := configures

end Stored

/-! ## Counts -/

/-- The bytes of the packets are counted, and a packet with more fragments than bytes
comes from a peer that was sent one. -/
structure Peer.Covers (peer : Peer) (short : Prop) : Prop where
  total : (peer.extents.map Extent.dataLength).sum ≤ peer.totalWaitingData
  counted : ∀ extent ∈ peer.extents, extent.fragmentCount ≤ extent.dataLength ∨ short

theorem Peer.Covers.stores {peer peer' : Peer} {host : Host} {short short' : Prop}
    (covers : peer.Covers short) (stores : peer.Stores host short' peer')
    (heard : (short → short') ∨ peer'.extents = 0) : peer'.Covers short' := by
  obtain ⟨bound, counted⟩ := covers
  rcases heard with heard | emptied
  case inr =>
    refine ⟨by rw [emptied]; exact Nat.zero_le _, fun extent member => ?_⟩
    rw [emptied] at member
    exact absurd member (Multiset.notMem_zero extent)
  have sums : ∀ {fewer more : Multiset Extent}, fewer ≤ more →
      (fewer.map Extent.dataLength).sum ≤ (more.map Extent.dataLength).sum := by
    intro fewer more less
    obtain ⟨rest, same⟩ := Multiset.le_iff_exists_add.mp less
    rw [same, Multiset.map_add, Multiset.sum_add]
    exact Nat.le_add_right ..
  cases stores with
  | kept fewer total =>
      refine ⟨?_, fun extent member => ?_⟩
      · rw [total]
        exact (sums fewer).trans bound
      · exact (counted extent (Multiset.mem_of_le fewer member)).imp_right heard
  | emptied none total =>
      refine ⟨?_, fun extent member => ?_⟩
      · rw [none]
        exact Nat.zero_le _
      · rw [none] at member
        exact absurd member (Multiset.notMem_zero extent)
  | queued extent more total admitted small here =>
      refine ⟨?_, fun other member => ?_⟩
      · have sum := sums more
        rw [Multiset.map_cons, Multiset.sum_cons] at sum
        omega
      · rcases Multiset.mem_cons.mp (Multiset.mem_of_le more member) with same | member
        · rw [same]
          exact here
        · exact (counted other member).imp_right heard
  | taken extent held total =>
      rw [held, Multiset.map_cons, Multiset.sum_cons] at bound
      refine ⟨?_, fun other member => ?_⟩
      · rw [total, sub64_of_le (by omega)]
        omega
      · exact (counted other (by rw [held]; exact Multiset.mem_cons_of_mem member)).imp_right heard

/-- Every peer counts the bytes it holds. -/
def Covered (host : Host) : Prop := ∀ index, (host.peers index).Covers (host.HearsShort index)

theorem Covered.stores {host host' : Host} (covered : Covered host) (stored : Stored host host') :
    Covered host' :=
  fun index => (covered index).stores (stored.peers index) (stored.hears index)

theorem Covered.maintained : Maintained fun host _ => Covered host :=
  Stored.maintained (fun stored covered => covered.stores stored)
    fun _ _ _ _ _ _ _ _ covered => covered

/-- **Every peer counts the bytes it holds, wherever calls pass through.** -/
theorem Covered.visited {activity : Activity} (visited : Visited activity) : Covered activity.1 :=
  maintained.visited (fun _ _ _ _ _ _ _ _ => ⟨Nat.zero_le _, fun _ member => by cases member⟩)
    visited

/-! ## Limits -/

/-- No peer waits for more than the limit on waiting data, and one packet. -/
def WaitsWithin (host : Host) : Prop :=
  ∀ index, (host.peers index).totalWaitingData ≤ host.maximumWaitingData + host.maximumPacketSize

/-- What an application may ask that leaves the limits on received data alone. -/
def KeepsLimits (host : Host) : Request → Prop
  | .configure _ _ maximumPacketSize maximumWaitingData =>
      maximumPacketSize = host.maximumPacketSize ∧ maximumWaitingData = host.maximumWaitingData
  | _ => True

theorem WaitsWithin.stores {host host' : Host} (covered : Covered host) (within : WaitsWithin host)
    (stored : Stored host host') : WaitsWithin host' := by
  intro index
  have bound := within index
  have packets : host'.maximumPacketSize = host.maximumPacketSize :=
    congrArg (fun settings => settings.2.2.1) stored.settings
  have waiting : host'.maximumWaitingData = host.maximumWaitingData :=
    congrArg (fun settings => settings.2.2.2.1) stored.settings
  rw [packets, waiting]
  cases stored.peers index with
  | kept fewer total => rw [total]; exact bound
  | emptied none total => exact total.trans bound
  | queued extent more total admitted small counted => omega
  | taken extent held total =>
      have sum := (covered index).total
      rw [held, Multiset.map_cons, Multiset.sum_cons] at sum
      rw [total, sub64_of_le (by omega)]
      omega

theorem WaitsWithin.maintained :
    MaintainedUnder KeepsLimits fun host _ => Covered host ∧ WaitsWithin host := by
  refine Stored.maintained (fun stored holds => ⟨holds.1.stores stored,
    holds.2.stores holds.1 stored⟩) ?_
  rintro host mtu duplicatePeers maximumPacketSize maximumWaitingData checksum compressor
    ⟨packets, waiting⟩ ⟨covered, within⟩
  refine ⟨covered, fun index => ?_⟩
  have bound := within index
  rw [← packets, ← waiting] at bound
  exact bound

/-- The memory of the received commands of a peer is within the limits, and no packet
has more fragments than bytes. -/
structure Host.HoldsWithin (host : Host) (index : Nat) : Prop where
  memory : (host.peers index).receivedMemory ≤
    2 * (host.maximumWaitingData + host.maximumPacketSize) +
      4 * (host.peers index).fragmentedCommands
  counted : ∀ incoming ∈ (host.peers index).received,
    incoming.fragmentCount ≤ incoming.packet.dataLength

/-- **The memory of what a peer received is within the limits**, as long as the peer is
sent no first fragment of an unreliable packet with more fragments than bytes. -/
theorem received_bounded (start : Host) (activity : Activity) (index : Nat)
    (reachable : Host.Reachable start) (within : WaitsWithin start)
    (passes : PassesUnder KeepsLimits start activity) (long : ¬activity.1.HearsShort index) :
    activity.1.HoldsWithin index := by
  have lasting : Lasting KeepsLimits := fun _ _ _ _ _ => trivial
  obtain ⟨covered, within⟩ := WaitsWithin.maintained.passes lasting passes
    ⟨Covered.visited (@Visited.of_reachable start none reachable rfl), within⟩
  obtain ⟨total, counted⟩ := covered index
  have bound := within index
  have each : ∀ extent ∈ (activity.1.peers index).extents,
      extent.fragmentCount ≤ extent.dataLength :=
    fun extent member => (counted extent member).resolve_right long
  have memory := memory_le _ each
  refine ⟨?_, fun incoming member => each _ (Multiset.mem_map_of_mem _ member)⟩
  have held : (activity.1.peers index).receivedMemory =
      ((activity.1.peers index).extents.map Extent.memory).sum := by
    unfold Peer.extents
    rw [Multiset.map_map]
    rfl
  have fragmented : (activity.1.peers index).fragmentedCommands =
      (activity.1.peers index).extents.countP fun extent => 0 < extent.fragmentCount := by
    unfold Peer.extents
    rw [Multiset.countP_map, ← Multiset.countP_eq_card_filter]
    rfl
  rw [held, fragmented]
  omega

/-- Datagrams to a host: a CONNECT command, the acknowledgement of its answer, and
fragments of one byte. -/
def fragmentDatagrams (fragments : List SendFragment) : List (Address × List UInt8) :=
  connectDatagrams ++ fragments.map fun fields => (⟨7, 9⟩, [0, 0] ++
    (⟨.sendUnreliableFragment fields, false, false, 0, 0⟩ : Protocol).encode ++ [65])

/-- A host that serves these datagrams, and lets eight bytes wait, in packets of eight. -/
def fragmentHost (fragments : List SendFragment) : Host :=
  (Host.create .ample (.delivering (fun _ => 1) (fragmentDatagrams fragments)) 0 1 1 0 0).configure
    1392 1 8 8 none none

/-- The calls that it serves them with. -/
def fragmentCalls : List Host.Call :=
  [.service (some noEvent) 0, .service (some noEvent) 0, .service (some noEvent) 0]

theorem fragmentHost_passes {fragments : List SendFragment} {host : Host}
    (called : calledHost (fragmentHost fragments) fragmentCalls = some host) :
    Host.Reachable (fragmentHost fragments) ∧ WaitsWithin (fragmentHost fragments) ∧
      PassesUnder KeepsLimits (fragmentHost fragments) (host, none) := by
  refine ⟨.call 1 (.configure 1392 1 8 8 none none) (.create ..) rfl, fun _ => Nat.zero_le _, ?_⟩
  exact ⟨host, none, calledHost_calls .refl (by simp [fragmentCalls, Host.Call.Asks]) called, rfl,
    .refl⟩

/-- The commands that were handed to handlers since a slot was last reset, each with the
numbers of its channel. -/
def Host.heardCommands (host : Host) (index : Nat) : List (Protocol × Nat × Nat) :=
  (sinceReset index host.history).filterMap fun
    | .command _ heard =>
      let channel := heard.before.channels heard.command.channelID
      some (heard.command, channel.incomingReliableSequenceNumber,
        channel.incomingUnreliableSequenceNumber)
    | _ => none

/-- Half a packet of two bytes is held within the limits. A stale fragment of a packet
with more fragments than bytes is not queued. -/
theorem received_bounded_half :
    ∃ host, calledHost (fragmentHost [⟨1, 1, 2, 0, 2, 0⟩, ⟨0, 1, 1000, 0, 1, 0⟩]) fragmentCalls =
        some host ∧ (host.peers 0).receivedMemory = 6 ∧ host.HoldsWithin 0 := by
  have evaluated : (calledHost (fragmentHost [⟨1, 1, 2, 0, 2, 0⟩, ⟨0, 1, 1000, 0, 1, 0⟩])
      fragmentCalls).map (fun host => ((host.peers 0).receivedMemory, host.heardCommands 0)) =
        some (6, [(⟨.acknowledge 1 1, false, false, 0xFF, 0⟩, 0, 0),
          (⟨.sendUnreliableFragment ⟨1, 1, 2, 0, 2, 0⟩, false, false, 0, 0⟩, 0, 0),
          (⟨.sendUnreliableFragment ⟨0, 1, 1000, 0, 1, 0⟩, false, false, 0, 0⟩, 0, 0)]) := by
    decide +kernel
  obtain ⟨host, called, same⟩ := Option.map_eq_some_iff.mp evaluated
  obtain ⟨memory, commands⟩ := Prod.mk.inj same
  obtain ⟨reachable, within, passes⟩ := fragmentHost_passes called
  refine ⟨host, called, memory, received_bounded _ (host, none) 0 reachable within passes ?_⟩
  rintro ⟨heard, hears, fields, short⟩
  have member : (heard.command,
      (heard.before.channels heard.command.channelID).incomingReliableSequenceNumber,
      (heard.before.channels heard.command.channelID).incomingUnreliableSequenceNumber) ∈
        host.heardCommands 0 := List.mem_filterMap.mpr ⟨_, hears, rfl⟩
  have kind := short.kind
  have fresh := short.awaits.fresh
  have more := short.short
  rw [commands] at member
  simp only [List.mem_cons, List.not_mem_nil, or_false, Prod.mk.injEq] at member
  rcases member with ⟨same, -⟩ | ⟨same, -⟩ | ⟨same, reliable, unreliable⟩
  · rw [same] at kind
    cases kind
  · rw [same] at kind
    cases kind
    exact absurd more (by decide)
  · rw [reliable, unreliable] at fresh
    rw [same] at kind fresh
    cases kind
    exact absurd (fresh rfl) (by decide)

/-- A packet of one byte in a thousand fragments holds a bitmap of 128 bytes. -/
theorem received_not_bounded :
    ¬∀ (start : Host) (activity : Activity) (index : Nat), Host.Reachable start →
      WaitsWithin start → PassesUnder KeepsLimits start activity →
        activity.1.HoldsWithin index := by
  intro always
  have evaluated : (calledHost (fragmentHost [⟨1, 1, 1000, 0, 1, 0⟩]) fragmentCalls).map
      (fun host => ((host.peers 0).receivedMemory, (host.peers 0).fragmentedCommands,
        host.maximumWaitingData + host.maximumPacketSize)) = some (129, 1, 16) := by
    decide +kernel
  obtain ⟨host, called, same⟩ := Option.map_eq_some_iff.mp evaluated
  simp only [Prod.mk.injEq] at same
  obtain ⟨memory, fragmented, limits⟩ := same
  obtain ⟨reachable, within, passes⟩ := fragmentHost_passes called
  have bound := (always _ (host, none) 0 reachable within passes).memory
  dsimp only at bound
  rw [memory, fragmented, limits] at bound
  omega

end Enet
