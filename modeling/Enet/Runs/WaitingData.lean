import Mathlib.Algebra.BigOperators.Group.Finset.Piecewise
import Mathlib.Algebra.Ring.Nat
import Enet.Channels.Dropped
import Enet.Runs.DispatchQueue

/-!
# The count of waiting data

`peer->totalWaitingData` is raised when a received command is queued and lowered
when the application takes its packet. A command can also leave the lists of a
channel by `enet_peer_remove_incoming_commands`, which does not touch the count.
So the count is the data in the lists and, on top of it, the data removed since
the slot was last reset.
-/

set_option autoImplicit false

namespace Enet

open Relation

/-! ## The data of commands -/

/-- The bytes of the packets of received commands. -/
def waitingLength (commands : List IncomingCommand) : Nat :=
  (commands.map fun command => command.packet.dataLength).sum

@[simp] theorem waitingLength_nil : waitingLength [] = 0 := rfl

@[simp] theorem waitingLength_cons (command : IncomingCommand) (commands : List IncomingCommand) :
    waitingLength (command :: commands) = command.packet.dataLength + waitingLength commands := by
  simp [waitingLength]

@[simp] theorem waitingLength_append (commands others : List IncomingCommand) :
    waitingLength (commands ++ others) = waitingLength commands + waitingLength others := by
  simp [waitingLength]

/-- The bytes waiting in the two lists of a channel. -/
def Channel.waitingData (channel : Channel) : Nat :=
  waitingLength channel.incomingReliableCommands + waitingLength channel.incomingUnreliableCommands

/-- The bytes waiting in the lists of a peer. -/
def Peer.waitingData (peer : Peer) : Nat :=
  (∑ channelID ∈ Finset.range peer.channelCount, (peer.channels channelID).waitingData) +
    waitingLength peer.dispatchedCommands

/-- What an unreliable dispatch was entered with. -/
def Observation.entered : Observation → Option Dispatching
  | .dispatching _ entered => some entered
  | _ => none

/-- What unreliable dispatches were entered with since the slot was last reset. -/
def dispatchings (index : Nat) (history : List Observation) : List Dispatching :=
  (sinceReset index history).filterMap Observation.entered

/-- The bytes of the commands that dispatches remove. -/
def removedLength (entered : List Dispatching) : Nat :=
  (entered.map fun dispatching => waitingLength dispatching.removed).sum

/-- The bytes of the commands that dispatches have removed since the slot was
last reset. -/
def removedData (index : Nat) (history : List Observation) : Nat :=
  removedLength (dispatchings index history)

/-! ## Dispatches keep the data -/

namespace Channel

theorem scanUnreliable_waitingLength (current : Nat) (rest : List IncomingCommand) :
    ∀ (number : Nat) (passed run moved : List IncomingCommand) (dropped : Nat),
      let scan := scanUnreliable current number passed run rest moved dropped
      waitingLength scan.passed + waitingLength scan.run + waitingLength scan.rest +
          waitingLength scan.moved =
        waitingLength passed + waitingLength run + waitingLength rest + waitingLength moved := by
  induction rest with
  | nil => intro number passed run moved dropped; rfl
  | cons command rest ih =>
      intro number passed run moved dropped
      dsimp only at ih ⊢
      unfold scanUnreliable
      split
      · rw [ih]
        simp only [waitingLength_append, waitingLength_cons, waitingLength_nil]
        omega
      · split
        · split
          · rw [ih]
            simp only [waitingLength_append, waitingLength_cons, waitingLength_nil]
            omega
          · rw [ih]
            simp only [waitingLength_append, waitingLength_cons, waitingLength_nil]
            omega
        · split
          · rfl
          · rw [ih]
            simp only [waitingLength_append, waitingLength_cons, waitingLength_nil]
            omega

theorem waitingLength_filter (keeps : IncomingCommand → Bool) (commands : List IncomingCommand) :
    waitingLength (commands.filter keeps) +
        waitingLength (commands.filter fun command => !keeps command) =
      waitingLength commands := by
  induction commands with
  | nil => rfl
  | cons command commands ih =>
      cases kept : keeps command <;>
        simp only [List.filter_cons, kept, Bool.not_true, Bool.not_false, if_true,
          waitingLength_cons, Bool.false_eq_true, if_false] <;> omega

theorem dispatchUnreliable_waitingData (channel : Channel) (queuedCommand : Option Nat) :
    (channel.dispatchUnreliable queuedCommand).channel.waitingData +
        waitingLength (channel.dispatchUnreliable queuedCommand).moved +
        waitingLength (channel.dispatchUnreliable queuedCommand).removed =
      channel.waitingData := by
  have scanned := scanUnreliable_waitingLength channel.incomingReliableSequenceNumber
    channel.incomingUnreliableCommands channel.incomingUnreliableSequenceNumber [] [] [] 0
  unfold dispatchUnreliable
  dsimp only at scanned ⊢
  generalize scanUnreliable channel.incomingReliableSequenceNumber
    channel.incomingUnreliableSequenceNumber [] [] channel.incomingUnreliableCommands [] 0 = scan
    at scanned ⊢
  generalize (if !scan.run.isEmpty then scan.passed.length else scan.dropped) = dropped
  have split := waitingLength_append ((scan.passed ++ scan.rest).take dropped)
    ((scan.passed ++ scan.rest).drop dropped)
  rw [List.take_append_drop] at split
  have filtered := waitingLength_filter
    (fun command => decide (some command.address = queuedCommand))
    ((scan.passed ++ scan.rest).take dropped)
  simp only [waitingData, waitingLength_append, waitingLength_nil] at scanned split filtered ⊢
  omega

theorem takeReliable_waitingLength (commands : List IncomingCommand) : ∀ current : Nat,
    waitingLength (takeReliable current commands).1 +
        waitingLength (takeReliable current commands).2.1 =
      waitingLength commands := by
  induction commands with
  | nil => intro current; rfl
  | cons command rest ih =>
      intro current
      unfold takeReliable
      split
      · simp
      · dsimp only
        rw [waitingLength_cons, waitingLength_cons, Nat.add_assoc, ih]

theorem dispatchReliable_waitingData (channel : Channel) (queuedCommand : Option Nat) :
    (channel.dispatchReliable queuedCommand).channel.waitingData +
        waitingLength (channel.dispatchReliable queuedCommand).moved +
        waitingLength (channel.dispatchReliable queuedCommand).removed =
      channel.waitingData := by
  have taken := takeReliable_waitingLength channel.incomingReliableCommands
    channel.incomingReliableSequenceNumber
  unfold dispatchReliable
  dsimp only
  split
  · simp
  · split
    · simp only [waitingData, waitingLength_nil]
      omega
    · have dispatched := dispatchUnreliable_waitingData
        { channel with
          incomingReliableSequenceNumber :=
            (takeReliable channel.incomingReliableSequenceNumber
              channel.incomingReliableCommands).2.2
          incomingReliableCommands :=
            (takeReliable channel.incomingReliableSequenceNumber
              channel.incomingReliableCommands).2.1
          incomingUnreliableSequenceNumber := 0 } queuedCommand
      rw [waitingLength_append]
      generalize dispatchUnreliable _ queuedCommand = result at dispatched ⊢
      simp only [waitingData] at dispatched taken ⊢
      omega

/-- What a reliable dispatch removes is what the unreliable one in it does. -/
theorem dispatchReliable_removed (channel : Channel) (queuedCommand : Option Nat) :
    waitingLength (channel.dispatchReliable queuedCommand).removed =
      removedLength (channel.dispatchReliable queuedCommand).entered := by
  unfold dispatchReliable
  dsimp only
  split
  · rfl
  · split <;> rfl

theorem insertIncoming_removed (channel : Channel) (command : IncomingCommand)
    (placement : Placement) :
    waitingLength (channel.insertIncoming command placement).removed =
      removedLength (channel.insertIncoming command placement).entered := by
  cases placement with
  | discard => rfl
  | reliable before after => exact dispatchReliable_removed _ _
  | unreliable before after => rfl

/-- **A command inserted at its place is in the lists, moved or removed.** -/
theorem insertIncoming_waitingData (channel : Channel) (command : IncomingCommand)
    (protocol : Protocol) (placed : channel.place protocol ≠ .discard) :
    (channel.insertIncoming command (channel.place protocol)).channel.waitingData +
        waitingLength (channel.insertIncoming command (channel.place protocol)).moved +
        waitingLength (channel.insertIncoming command (channel.place protocol)).removed =
      channel.waitingData + command.packet.dataLength := by
  cases place : channel.place protocol with
  | discard => exact absurd place placed
  | reliable before after =>
      refine (dispatchReliable_waitingData _ _).trans ?_
      simp only [waitingData, place_reliable place, waitingLength_append, waitingLength_cons]
      omega
  | unreliable before after =>
      refine (dispatchUnreliable_waitingData _ _).trans ?_
      simp only [waitingData, place_unreliable place, waitingLength_append, waitingLength_cons]
      omega

end Channel

/-! ## The count of a peer -/

/-- No command was received. -/
structure Channel.NothingReceived (channel : Channel) : Prop where
  reliable : channel.incomingReliableCommands = []
  unreliable : channel.incomingUnreliableCommands = []

/-- The count of a peer from whose lists this much data was removed. A peer that
was never up has received nothing; once it leaves, its lists are emptied before
its count is. -/
structure Accounted (peer : Peer) (removed : Nat) : Prop where
  balanced : peer.state.isConnected = true → peer.totalWaitingData = peer.waitingData + removed
  nothing : peer.state.isEarly = true → peer.totalWaitingData = 0 ∧ removed = 0 ∧
    peer.dispatchedCommands = [] ∧ ∀ channelID, (peer.channels channelID).NothingReceived

namespace Accounted

variable {peer peer' : Peer} {removed : Nat}

/-- A connected peer, or one that is leaving, is early in no sense. -/
theorem of_balanced (late : peer.state.isEarly = false)
    (balanced : peer.totalWaitingData = peer.waitingData + removed) : Accounted peer removed := by
  refine ⟨fun _ => balanced, fun early => ?_⟩
  rw [late] at early
  cases early

theorem of_leaving (unconnected : peer.state.isConnected = false)
    (late : peer.state.isEarly = false) : Accounted peer removed := by
  refine ⟨fun connected => ?_, fun early => ?_⟩
  · rw [unconnected] at connected
    cases connected
  · rw [late] at early
    cases early

theorem of_nothing (unconnected : peer.state.isConnected = false)
    (nothing : peer.totalWaitingData = 0 ∧ removed = 0 ∧ peer.dispatchedCommands = [] ∧
      ∀ channelID, (peer.channels channelID).NothingReceived) : Accounted peer removed := by
  refine ⟨fun connected => ?_, fun _ => nothing⟩
  rw [unconnected] at connected
  cases connected

/-- What the count does not depend on. -/
theorem of_same (accounted : Accounted peer removed) (state : peer'.state = peer.state)
    (total : peer'.totalWaitingData = peer.totalWaitingData)
    (dispatched : peer'.dispatchedCommands = peer.dispatchedCommands)
    (channelCount : peer'.channelCount = peer.channelCount)
    (channels : ∀ channelID, (peer.channels channelID).SameIncoming (peer'.channels channelID)) :
    Accounted peer' removed := by
  have waiting : peer'.waitingData = peer.waitingData := by
    simp only [Peer.waitingData, Channel.waitingData, dispatched, channelCount,
      (channels _).incomingReliableCommands, (channels _).incomingUnreliableCommands]
  refine ⟨fun connected => ?_, fun early => ?_⟩
  · rw [total, waiting]
    exact accounted.balanced (state ▸ connected)
  · obtain ⟨none, kept, empty, nothing⟩ := accounted.nothing (state ▸ early)
    refine ⟨total.trans none, kept, dispatched.trans empty, fun channelID => ⟨?_, ?_⟩⟩
    · rw [(channels channelID).incomingReliableCommands]
      exact (nothing channelID).reliable
    · rw [(channels channelID).incomingUnreliableCommands]
      exact (nothing channelID).unreliable

theorem sendingOnly (accounted : Accounted peer removed) (sending : peer.SendingOnly peer') :
    Accounted peer' removed :=
  accounted.of_same sending.state sending.totalWaitingData sending.dispatchedCommands
    sending.channelCount sending.channels

theorem alike (accounted : Accounted peer removed) (alike : peer.Alike peer') :
    Accounted peer' removed :=
  accounted.of_same alike.state alike.totalWaitingData alike.dispatchedCommands
    alike.channelCount fun channelID => by rw [alike.channels]; exact .refl _

/-- A peer that has received nothing comes up with a count of zero. -/
theorem connect (accounted : Accounted peer removed) (early : peer.state.isEarly = true) :
    Accounted (peer.setState .connected) removed := by
  obtain ⟨none, kept, empty, nothing⟩ := accounted.nothing early
  refine of_balanced rfl ?_
  have waiting : (peer.setState .connected).waitingData = 0 := by
    simp [Peer.waitingData, Peer.setState, Channel.waitingData, empty, (nothing _).reliable,
      (nothing _).unreliable]
  rw [waiting, kept]
  exact none

/-- What a dispatch does to the lists of a peer that has the channel. -/
theorem installs {channelID : Nat} (dispatched : Channel.Dispatched) (added : Nat)
    (late : peer.state.isEarly = false) (hasChannel : channelID < peer.channelCount)
    (balanced : peer.totalWaitingData = peer.waitingData + removed + added)
    (conserved : dispatched.channel.waitingData + waitingLength dispatched.moved +
      waitingLength dispatched.removed = (peer.channels channelID).waitingData + added) :
    Accounted ((peer.setChannel channelID dispatched.channel).setDispatched
      (peer.dispatchedCommands ++ dispatched.moved) peer.totalWaitingData)
      (removed + waitingLength dispatched.removed) := by
  refine of_balanced late ?_
  have member : channelID ∈ Finset.range peer.channelCount := Finset.mem_range.mpr hasChannel
  have others : ∑ other ∈ Finset.range peer.channelCount \ {channelID},
      (Function.update peer.channels channelID dispatched.channel other).waitingData =
      ∑ other ∈ Finset.range peer.channelCount \ {channelID},
        (peer.channels other).waitingData := by
    refine Finset.sum_congr rfl fun other outside => ?_
    have different : other ≠ channelID := by simpa using (Finset.mem_sdiff.mp outside).2
    rw [Function.update_of_ne different]
  simp only [Peer.waitingData, Peer.setDispatched, Peer.setChannel,
    Finset.sum_eq_add_sum_sdiff_singleton_of_mem member, Function.update_self, others,
    waitingLength_append] at balanced ⊢
  omega

/-- A channel replaced by one with as much data. -/
theorem setChannel {channelID : Nat} {channel : Channel}
    (accounted : Accounted peer removed) (connected : peer.state.isConnected = true)
    (hasChannel : channelID < peer.channelCount)
    (same : channel.waitingData = (peer.channels channelID).waitingData) :
    Accounted (peer.setChannel channelID channel) removed := by
  have installed := installs ⟨channel, [], [], []⟩ 0
    (PeerState.isEarly_of_isConnected connected) hasChannel (accounted.balanced connected) same
  exact installed.of_same rfl rfl (List.append_nil _).symm rfl fun _ => .refl _

theorem disconnectLater {data : Nat} (accounted : Accounted peer removed)
    (connected : peer.state.isConnected = true) :
    Accounted ((peer.setState .disconnectLater).setEventData data) removed :=
  of_balanced rfl (accounted.balanced connected)

theorem clearChannels (accounted : Accounted peer removed) (free : peer.state = .disconnected) :
    Accounted peer.clearChannels removed := by
  obtain ⟨none, kept, empty, -⟩ := accounted.nothing (by rw [free]; rfl)
  exact .of_nothing (congrArg PeerState.isConnected free)
    ⟨none, kept, empty, fun _ => ⟨rfl, rfl⟩⟩

end Accounted

/-! ## The data removed -/

theorem dispatchings_append_others {index : Nat} {history seen : List Observation}
    (others : ∀ observation ∈ seen, observation.peer ≠ index) :
    dispatchings index (history ++ seen) = dispatchings index history :=
  congrArg (List.filterMap _) (sinceReset_append_others others)

theorem dispatchings_append (index : Nat) (history : List Observation)
    (entered : List Dispatching) :
    dispatchings index (history ++ entered.map (Observation.dispatching index)) =
      dispatchings index history ++ entered := by
  have about : ∀ observation ∈ entered.map (Observation.dispatching index),
      observation.peer = index ∧ observation.isReset = false := by
    intro observation member
    obtain ⟨dispatching, -, rfl⟩ := List.mem_map.mp member
    exact ⟨rfl, rfl⟩
  unfold dispatchings
  rw [sinceReset_append (fun _ member => (about _ member).1) fun _ member => (about _ member).2,
    List.filterMap_append, List.filterMap_map]
  exact congrArg (_ ++ ·) List.filterMap_some

/-- Other observations of the slot. -/
theorem dispatchings_concat (index : Nat) (history : List Observation)
    {observation : Observation} (other : observation.entered = none)
    (stays : observation.isReset = false) :
    dispatchings index (history ++ [observation]) = dispatchings index history := by
  unfold dispatchings
  rw [sinceReset_concat, Observation.note, stays]
  split
  · rfl
  · rw [if_neg Bool.false_ne_true, List.filterMap_append, List.filterMap_cons_none other]
    exact List.append_nil _

theorem removedData_append (index : Nat) (history : List Observation)
    (entered : List Dispatching) :
    removedData index (history ++ entered.map (Observation.dispatching index)) =
      removedData index history + removedLength entered := by
  rw [removedData, dispatchings_append, removedLength, List.map_append, List.sum_append]
  rfl

theorem removedData_append_reset (index : Nat) (history : List Observation) (before : Peer) :
    removedData index (history ++ [.reset index before]) = 0 := by
  rw [removedData, dispatchings, sinceReset_reset]
  rfl

/-! ## Runs -/

/-- The count of a peer of a host. -/
def Accounts (index : Nat) (host : Host) : Prop :=
  Accounted (host.peers index) (removedData index host.history)

namespace Accounts

variable {host host' : Host} {index : Nat}

/-- What is done for another peer. -/
theorem frame {other : Nat} (accounts : Accounts index host) (acts : ActsOn other host host')
    (different : index ≠ other) : Accounts index host' := by
  obtain ⟨seen, history, about⟩ := acts.history
  have kept : removedData index host'.history = removedData index host.history := by
    rw [history]
    exact congrArg removedLength (dispatchings_append_others fun observation member same =>
      different (same.symm.trans (about observation member)))
  rw [Accounts, kept, acts.others index different]
  exact accounts

/-- What is done for some peer. -/
theorem acts {other : Nat} (accounts : Accounts index host) (acts : ActsOn other host host')
    (own : Accounts other host → Accounts other host') : Accounts index host' := by
  by_cases same : index = other
  · subst same
    exact own accounts
  · exact accounts.frame acts same

theorem of_history (accounts : Accounts index host) (history : host'.history = host.history)
    (peer : ∀ removed, Accounted (host.peers index) removed →
      Accounted (host'.peers index) removed) : Accounts index host' := by
  rw [Accounts, history]
  exact peer _ accounts

theorem sendsFor (accounts : Accounts index host) (sends : SendsFor index host host') :
    Accounts index host' :=
  accounts.of_history sends.history fun _ accounted => accounted.sendingOnly sends.peer

theorem quiet (accounts : Accounts index host) (quiet : Quiet host host') : Accounts index host' :=
  accounts.of_history quiet.history fun _ accounted => accounted.alike (quiet.peers index)

/-- A change of the peer by which its count stays right. -/
theorem setPeer (accounts : Accounts index host) {peer : Peer}
    (accounted : ∀ removed, Accounted (host.peers index) removed → Accounted peer removed) :
    Accounts index (host.setPeer index peer) :=
  accounts.of_history rfl fun removed before => by
    rw [Host.setPeer_self]
    exact accounted removed before

theorem of_leaving (unconnected : (host.peers index).state.isConnected = false)
    (late : (host.peers index).state.isEarly = false) : Accounts index host :=
  Accounted.of_leaving unconnected late

/-- An observation that is neither a dispatch nor a reset. -/
theorem observe (accounts : Accounts index host) (observation : Observation)
    (other : observation.entered = none) (stays : observation.isReset = false) :
    Accounts index (host.observe observation) := by
  rw [Accounts, Host.observe_history, removedData, dispatchings_concat index _ other stays]
  exact accounts

theorem storeEvent (accounts : Accounts index host) (type : EventType) (data : Nat)
    (event : Event) : Accounts index (host.storeEvent index type data event).1 :=
  accounts.observe (.event index type) rfl rfl

theorem scheduleDispatch (accounts : Accounts index host) :
    Accounts index (host.scheduleDispatch index) := by
  unfold Host.scheduleDispatch
  split
  · exact accounts
  · exact accounts.of_history rfl fun removed accounted => by
      rw [Host.setPeer_self]
      exact accounted.of_same rfl rfl rfl rfl fun _ => .refl _

/-- `enet_peer_reset` leaves an empty peer with an empty count. -/
theorem peerReset (host : Host) (index : Nat) : Accounts index (host.peerReset index) := by
  obtain ⟨mtu, same⟩ := host.peerReset_peer index
  rw [Accounts, Host.peerReset_history, removedData_append_reset, same]
  exact .of_nothing rfl ⟨rfl, rfl, rfl, fun _ => ⟨rfl, rfl⟩⟩

/-! ## States -/

theorem dispatchState (host : Host) (index : Nat) (state : PeerState)
    (settles : Accounted ((host.peers index).setState state)
      (removedData index host.history)) : Accounts index (host.dispatchState index state) := by
  rw [Accounts, Host.dispatchState_peer, Host.dispatchState_history]
  exact settles.of_same rfl rfl rfl rfl fun _ => .refl _

theorem changeState (host : Host) (index : Nat) (state : PeerState)
    (settles : Accounted ((host.peers index).setState state)
      (removedData index host.history)) : Accounts index (host.changeState index state) := by
  rw [Accounts, Host.changeState_peer, Host.changeState_history]
  exact settles

/-- A peer that is leaving, whatever its lists. -/
theorem dispatchZombie (host : Host) (index : Nat) :
    Accounts index (host.dispatchState index .zombie) :=
  dispatchState host index .zombie (.of_leaving rfl rfl)

theorem startDisconnect (host : Host) (index data : Nat) :
    Accounts index (host.startDisconnect index data) := by
  refine of_leaving ?_ ?_ <;>
    · unfold Host.startDisconnect
      dsimp only
      rw [Host.setPeer_self]
      rfl

theorem notifyConnect (accounts : Accounts index host) (event : Option Event)
    (early : (host.peers index).state.isEarly = true) :
    Accounts index (host.notifyConnect index event).1 := by
  cases event with
  | some event =>
      refine storeEvent ?_ .connect 0 event
      exact changeState host.recalculate index .connected (Accounted.connect accounts early)
  | none =>
      refine dispatchState host.recalculate index _ ?_
      have nothing := accounts.nothing early
      split <;> exact .of_nothing rfl nothing

theorem notifyDisconnect (host : Host) (index : Nat) (event : Option Event) :
    Accounts index (host.notifyDisconnect index event).1 := by
  unfold Host.notifyDisconnect
  dsimp only
  split
  · exact peerReset _ index
  · cases event with
    | none => exact dispatchZombie _ index
    | some event => exact peerReset _ index

/-! ## Received commands -/

/-- A dispatch installed in a connected peer. -/
theorem installDispatched {channelID : Nat} {dispatched : Channel.Dispatched} (added : Nat)
    (takes : (host.peers index).Takes channelID)
    (balanced : (host.peers index).totalWaitingData =
      (host.peers index).waitingData + removedData index host.history + added)
    (conserved : dispatched.channel.waitingData + waitingLength dispatched.moved +
      waitingLength dispatched.removed =
        ((host.peers index).channels channelID).waitingData + added)
    (noted : waitingLength dispatched.removed = removedLength dispatched.entered) :
    Accounts index (host.installDispatched index channelID dispatched) := by
  have late := PeerState.isEarly_of_isConnected takes.connected
  have installed : Accounts index ((host.removeDispatched index dispatched).setPeer index
      (((host.peers index).setChannel channelID dispatched.channel).setDispatched
        ((host.peers index).dispatchedCommands ++ dispatched.moved)
        (host.peers index).totalWaitingData)) := by
    have history : ((host.removeDispatched index dispatched).setPeer index
        (((host.peers index).setChannel channelID dispatched.channel).setDispatched
          ((host.peers index).dispatchedCommands ++ dispatched.moved)
          (host.peers index).totalWaitingData)).history =
        host.history ++ dispatched.entered.map (Observation.dispatching index) := rfl
    rw [Accounts, history, removedData_append, ← noted, Host.setPeer_self]
    exact .installs dispatched added late takes.hasChannel balanced conserved
  unfold Host.installDispatched
  dsimp only
  split
  · exact installed
  · exact installed.scheduleDispatch

theorem queueIncomingCommand (accounts : Accounts index host) (command : Protocol)
    (data : Option (List UInt8)) (dataLength : Nat) (flags : PacketFlags) (fragmentCount : Nat)
    (takes : (host.peers index).Takes command.channelID) :
    Accounts index
      (host.queueIncomingCommand index command data dataLength flags fragmentCount).1 := by
  unfold Host.queueIncomingCommand
  dsimp only
  split
  · exact accounts
  · split
    · exact accounts
    next placement placed =>
        split
        · exact accounts
        · split
          · exact accounts
          next heap incoming _ =>
              have balanced := Accounted.balanced accounts takes.connected
              have conserved := Channel.insertIncoming_waitingData
                ((host.peers index).channels command.channelID) incoming command placed
              refine installDispatched incoming.packet.dataLength ?_ ?_ ?_
                (Channel.insertIncoming_removed _ _ _)
              · rw [Host.setPeer_self]
                exact ⟨takes.connected, takes.hasChannel⟩
              · rw [Host.setPeer_self]
                exact congrArg (· + incoming.packet.dataLength) balanced
              · rw [Host.setPeer_self]
                exact conserved

theorem waitingLength_writeCommand {incoming old : IncomingCommand}
    {commands : List IncomingCommand} (found : commands.find? (fun other =>
      decide (other.address = incoming.address)) = some old)
    (same : incoming.packet.dataLength = old.packet.dataLength) :
    waitingLength (Host.writeCommand incoming commands) = waitingLength commands := by
  induction commands with
  | nil => cases found
  | cons head rest ih =>
      unfold Host.writeCommand
      rw [List.find?_cons] at found
      split
      next here =>
          rw [decide_eq_true here] at found
          cases found
          rw [waitingLength_cons, waitingLength_cons, same]
      next other =>
          rw [decide_eq_false other] at found
          rw [waitingLength_cons, waitingLength_cons, ih found]

theorem addFragment_dataLength (incoming : IncomingCommand) (number offset : Nat)
    (fragment : List UInt8) :
    (incoming.addFragment number offset fragment).packet.dataLength =
      incoming.packet.dataLength := by
  simp [IncomingCommand.addFragment, Packet.dataLength]

/-- A fragment changes no length, so the count stays right when it is put in. -/
theorem setStartCommand (accounts : Accounts index host) {channelID : Nat} {reliable : Bool}
    {old incoming : IncomingCommand}
    (found : host.startCommand index channelID reliable incoming.address = some old)
    (same : incoming.packet.dataLength = old.packet.dataLength)
    (takes : (host.peers index).Takes channelID) :
    Accounts index (host.setStartCommand index channelID reliable incoming) := by
  refine accounts.setPeer fun removed accounted =>
    accounted.setChannel takes.connected takes.hasChannel ?_
  cases reliable with
  | true => exact congrArg (· + _) (waitingLength_writeCommand found same)
  | false => exact congrArg (_ + ·) (waitingLength_writeCommand found same)

/-- A dispatch that nothing was queued for. -/
theorem dispatch {channelID : Nat} {dispatched : Channel.Dispatched}
    (accounts : Accounts index host) (takes : (host.peers index).Takes channelID)
    (conserved : dispatched.channel.waitingData + waitingLength dispatched.moved +
      waitingLength dispatched.removed =
        ((host.peers index).channels channelID).waitingData)
    (noted : waitingLength dispatched.removed = removedLength dispatched.entered) :
    Accounts index (host.installDispatched index channelID dispatched) :=
  installDispatched 0 takes (Accounted.balanced accounts takes.connected) conserved noted

theorem addFragment (accounts : Accounts index host) (channelID : Nat) (reliable : Bool)
    (address : Nat) (fields : SendFragment) (data : List UInt8)
    (takes : (host.peers index).Takes channelID) :
    Accounts index (host.addFragment index channelID reliable address fields data) := by
  unfold Host.addFragment
  split
  · exact accounts
  next incoming found =>
      have here : incoming.address = address := by
        have holds := List.find?_some found
        exact of_decide_eq_true holds
      split
      · exact accounts
      · dsimp only
        generalize added : incoming.addFragment fields.fragmentNumber fields.fragmentOffset
          (data.take fields.dataLength) = written
        have same : written.packet.dataLength = incoming.packet.dataLength := by
          rw [← added, addFragment_dataLength]
        have address : written.address = address := by
          rw [← added]
          exact here
        rw [← address] at found
        have writes := accounts.setStartCommand found same takes
        have still : ((host.setStartCommand index channelID reliable written).peers
            index).Takes channelID := by
          unfold Host.setStartCommand
          dsimp only
          rw [Host.setPeer_self]
          exact ⟨takes.connected, takes.hasChannel⟩
        split
        · split
          · exact writes.dispatch still (Channel.dispatchReliable_waitingData _ none)
              (Channel.dispatchReliable_removed _ none)
          · exact writes.dispatch still (Channel.dispatchUnreliable_waitingData _ none) rfl
        · exact writes

theorem receiveStep {available : List UInt8} {received : Heard} (accounts : Accounts index host)
    (step : ReceiveStep index available received host host') :
    Accounts index host' := by
  cases step with
  | window group window =>
      exact accounts.setPeer fun _ accounted =>
        accounted.of_same rfl rfl rfl rfl fun _ => .refl _
  | queue command data dataLength flags fragmentCount takes payload small few counted =>
      exact accounts.queueIncomingCommand command data dataLength flags fragmentCount takes
  | fragment channelID reliable address fields takes =>
      exact accounts.addFragment channelID reliable address fields available takes

/-- The application takes a packet of a connected peer; nothing else has one. -/
theorem peerReceive (accounts : Accounts index host) :
    Accounts index (host.peerReceive index).1 := by
  unfold Host.peerReceive
  dsimp only
  split
  · exact accounts
  next command rest dispatched =>
      refine accounts.of_history rfl fun removed accounted => ?_
      rw [Host.setPeer_self]
      refine ⟨fun connected => ?_, fun early => ?_⟩
      · have balanced := accounted.balanced connected
        simp only [Peer.waitingData, Peer.setDispatched, dispatched, waitingLength_cons]
          at balanced ⊢
        rw [sub64, if_pos (by omega)]
        omega
      · have nothing := (accounted.nothing early).2.2.1
        rw [dispatched] at nothing
        cases nothing

/-- Leaving empties the lists before it leaves the count to the reset. -/
theorem leaveConnection (host : Host) (index : Nat) (state : PeerState) (acknowledge : Bool) :
    Accounts index (host.leaveConnection index state acknowledge) := by
  unfold Host.leaveConnection
  split
  · exact dispatchZombie host index
  · split
    · exact peerReset _ index
    · split
      · exact changeState host index _ (.of_leaving rfl rfl)
      · exact dispatchZombie host index

theorem handleDisconnect (accounts : Accounts index host) (command : Protocol) (data : Nat) :
    Accounts index (host.handleDisconnect index command data).1 := by
  have leaves := leaveConnection (host.resetQueues index) index (host.peers index).state
    command.acknowledge
  unfold Host.handleDisconnect
  dsimp only
  split
  · exact accounts
  · split
    · exact leaves.setPeer fun _ accounted =>
        accounted.of_same rfl rfl rfl rfl fun _ => .refl _
    · exact leaves

theorem settleAcknowledge (accounts : Accounts index host) (event : Option Event)
    (commandNumber : Nat) :
    Accounts index (host.settleAcknowledge event index commandNumber).1 := by
  unfold Host.settleAcknowledge
  split
  next state =>
      split
      · exact accounts
      · exact accounts.notifyConnect event (by rw [state]; rfl)
  · split
    · exact accounts
    · exact notifyDisconnect host index event
  · split
    · exact accounts
    · exact startDisconnect host index _
  · exact accounts

theorem handleAcknowledge (accounts : Accounts index host) (event : Option Event)
    (channelID received sentTime : Nat) :
    Accounts index (host.handleAcknowledge event index channelID received sentTime).1 := by
  unfold Host.handleAcknowledge
  dsimp only
  split
  · exact accounts
  · split
    · exact accounts
    next sent =>
      have times := accounts.quiet (.updateRoundTripTime host index sent)
      exact (times.sendsFor
        (.removeSentReliableCommand _ index received channelID)).settleAcknowledge event _

theorem handleVerifyConnect (accounts : Accounts index host) (event : Option Event)
    (fields : VerifyConnect) :
    Accounts index (host.handleVerifyConnect event index fields).1 := by
  unfold Host.handleVerifyConnect
  dsimp only
  split
  · exact accounts
  next connecting =>
      rw [not_not] at connecting
      split
      · exact dispatchZombie _ index
      · have removes := SendsFor.removeSentReliableCommand host index 1 0xFF
        have early : ((host.removeSentReliableCommand index 1 0xFF).1.peers index).state.isEarly =
            true := by
          rw [removes.peer.state, connecting]
          rfl
        refine notifyConnect ((accounts.sendsFor removes).setPeer fun removed accounted => ?_)
          event (by rw [Host.setPeer_self]; exact early)
        have state : (Host.verifiedPeer ((host.removeSentReliableCommand index 1 0xFF).1.peers
            index) fields).state = .connecting := removes.peer.state.trans connecting
        exact .of_nothing (by rw [state]; rfl) (accounted.nothing early)

theorem handleCommand (accounts : Accounts index host) (event : Option Event)
    (command : Protocol) (data : List UInt8) :
    Accounts index (host.handleCommand event index command data).1 := by
  by_cases carries : command.command.isData = true
  · have run := (ReceiveRun.handleCommand host event index command data false carries).1
    exact Library.runs_keep (Accounts index) (fun step accounts => accounts.receiveStep step)
      run accounts
  · unfold Host.handleCommand
    dsimp only
    split
    · exact accounts.handleAcknowledge event _ _ _
    · exact accounts
    · exact accounts.handleVerifyConnect event _
    · exact accounts.handleDisconnect command _
    · exact accounts
    case h_10 =>
      unfold Host.handleBandwidthLimit
      dsimp only
      split
      · exact accounts
      · exact accounts.of_history rfl fun removed accounted => by
          rw [Host.setPeer_self]
          exact accounted.of_same rfl rfl rfl rfl fun _ => .refl _
    case h_11 =>
      unfold Host.handleThrottleConfigure
      dsimp only
      split
      · exact accounts
      · exact accounts.setPeer fun _ accounted =>
          accounted.of_same rfl rfl rfl rfl fun _ => .refl _
    all_goals
      rename_i same
      rw [same] at carries
      exact absurd rfl carries

theorem acknowledges {command : Protocol} (accounts : Accounts index host)
    (acknowledges : Acknowledges index command host host') : Accounts index host' := by
  cases acknowledges with
  | kept mallocs => exact accounts
  | queued sentTime mallocs allowed =>
      exact accounts.of_history rfl fun _ accounted => by
        rw [Host.setPeer_self]
        exact accounted.of_same rfl rfl rfl rfl fun _ => .refl _

theorem commandStep (accounts : Accounts index host) (event : Option Event)
    (sentTime : Option Nat) (command : Protocol) (data : List UInt8) :
    Accounts index (host.commandStep event index sentTime command data).1 := by
  have observes : Accounts index (host.hear index command data sentTime.isSome) :=
    accounts.observe _ rfl rfl
  have handles := observes.handleCommand event command data
  unfold Host.commandStep
  dsimp only
  split
  next handled => rw [handled] at handles; exact handles
  next handled =>
      rw [handled] at handles
      exact handles.acknowledges (.acknowledgeStage ..)

/-! ## Sending, connecting and dispatching -/

theorem sendAcknowledgements (index : Nat) (acknowledgements : List Acknowledgement) :
    ∀ {host : Host}, Accounts index host →
      Accounts index (Host.sendAcknowledgements index acknowledgements host) := by
  induction acknowledgements with
  | nil => intro host accounts; exact accounts
  | cons acknowledgement rest ih =>
      intro host accounts
      unfold Host.sendAcknowledgements
      dsimp only
      split
      · exact accounts.setPeer fun _ accounted => accounted.alike (.setContinueSending _ _)
      · refine ih (setPeer ?_ fun _ accounted => 
          accounted.of_same rfl rfl rfl rfl fun _ => .refl _)
        split
        · exact dispatchZombie _ index
        · exact accounts.quiet (.setDatagram host _)

theorem checkOutgoingCommands (accounts : Accounts index host)
    (sentUnreliable : List OutgoingCommand) :
    Accounts index (host.checkOutgoingCommands index sentUnreliable).1 := by
  unfold Host.checkOutgoingCommands
  dsimp only
  split
  · exact startDisconnect _ index _
  · refine accounts.of_history rfl fun _ accounted => ?_
    rw [Host.setPeer_self]
    exact accounted.sendingOnly (.checkOutgoingCommands ..)

theorem removeSentUnreliableCommands (accounts : Accounts index host)
    (sentUnreliable : List OutgoingCommand) :
    Accounts index (host.removeSentUnreliableCommands index sentUnreliable) := by
  unfold Host.removeSentUnreliableCommands
  split
  · exact accounts
  · dsimp only
    split
    · exact startDisconnect _ index _
    · exact accounts

/-- A step that sends keeps the count of each peer. -/
theorem sendStep {before after : Sending} (step : SendStep before after)
    (accounts : Accounts index before.1) : Accounts index after.1 := by
  cases step with
  | quiet sentUnreliable quiet => exact accounts.quiet quiet
  | startDatagram host other used =>
      refine accounts.acts (.startDatagram host other) fun accounts => ?_
      refine sendAcknowledgements other _ ?_
      exact accounts.of_history rfl fun _ accounted => by
        rw [Host.setPeer_self]
        exact accounted.alike (.setContinueSending _ _)
  | queue host sentUnreliable other command maintenance =>
      exact accounts.acts (.queueOutgoingCommand ..) fun accounts =>
        accounts.sendsFor (.queueOutgoingCommand ..)
  | checkOutgoing host sentUnreliable other =>
      exact accounts.acts (.checkOutgoingCommands ..) fun accounts =>
        accounts.checkOutgoingCommands sentUnreliable
  | removeSent host sentUnreliable other =>
      exact accounts.acts (.removeSentUnreliableCommands ..) fun accounts =>
        accounts.removeSentUnreliableCommands sentUnreliable

theorem sends (accounts : Accounts index host) (sends : Sends host host') :
    Accounts index host' :=
  Library.runs_keep (fun sending : Sending => Accounts index sending.1) sendStep sends accounts

theorem checkTimeouts (accounts : Accounts index host) (event : Option Event) :
    Accounts index (host.checkTimeouts index event).1 := by
  unfold Host.checkTimeouts
  dsimp only
  split
  · exact notifyDisconnect _ index event
  · exact accounts.setPeer fun _ accounted => accounted.sendingOnly (.checkTimeouts _ _)

/-- A free slot that a connection takes. -/
theorem takeSlot {peer : Peer} (accounts : Accounts index host)
    (free : (host.peers index).state = .disconnected) (takes : (host.peers index).TakenBy peer) :
    Accounts index (host.setPeer index peer) := by
  obtain ⟨none, kept, empty, -⟩ := Accounted.nothing accounts (by rw [free]; rfl)
  rw [Accounts, Host.setPeer_self]
  refine .of_nothing takes.unconnected ⟨takes.total.trans none, kept,
    takes.dispatched.trans empty, fun channelID => ?_⟩
  rw [takes.channels]
  exact ⟨rfl, rfl⟩

theorem hostConnect (accounts : Accounts index host) (address : Address)
    (channelCount data : Nat) :
    Accounts index (host.hostConnect address channelCount data).1 := by
  cases free : host.freePeer with
  | none =>
      unfold Host.hostConnect
      rw [free]
      exact accounts
  | some slot =>
      by_cases same : index = slot
      · subst same
        have disconnected := Host.freePeer_disconnected free
        unfold Host.hostConnect
        rw [free]
        dsimp only
        split
        next heap _ =>
            exact accounts.of_history rfl fun _ accounted => by
              rw [Host.setPeer_self]
              exact accounted.clearChannels disconnected
        next heap _ _ =>
            have installs : Accounts index (host.setHeap heap) := accounts
            have starts := (installs.quiet (.random _)).observe (.started index true) rfl rfl
            exact (starts.takeSlot disconnected (Host.connectingPeer_takes ..)).sendsFor
              (.queueOutgoingCommand ..)
      · exact accounts.frame (.hostConnect address channelCount data free) same

theorem handleConnect (accounts : Accounts index host) (fields : Connect) :
    Accounts index (host.handleConnect fields).1 := by
  cases free : host.freePeer with
  | none =>
      unfold Host.handleConnect
      rw [free]
      split <;> exact accounts
  | some slot =>
      by_cases same : index = slot
      · subst same
        have disconnected := Host.freePeer_disconnected free
        unfold Host.handleConnect
        rw [free]
        split
        · exact accounts
        · dsimp only
          split
          · exact accounts
          · split
            next heap _ =>
                exact accounts.of_history rfl fun _ accounted => by
                  rw [Host.setPeer_self]
                  exact accounted.clearChannels disconnected
            next heap _ _ =>
                have installs : Accounts index (host.setHeap heap) := accounts
                have starts := installs.observe (.started index false) rfl rfl
                exact (starts.takeSlot disconnected (Host.acceptedPeer_takes ..)).sendsFor
                  (.queueOutgoingCommand ..)
      · exact accounts.frame (.handleConnect fields free) same

theorem dispatchTurn (accounts : Accounts index host) (event : Event) :
    Accounts index (host.dispatchTurn index event).1 := by
  have takes : Accounts index ((host.setDispatchQueue
      (host.dispatchQueue.remove (.peer index))).setPeer index
        (((host.setDispatchQueue (host.dispatchQueue.remove (.peer index))).peers
          index).setNeedsDispatch false)) :=
    accounts.of_history rfl fun _ accounted => by
      rw [Host.setPeer_self]
      exact accounted.of_same rfl rfl rfl rfl fun _ => .refl _
  have connects : ((((host.setDispatchQueue (host.dispatchQueue.remove (.peer index))).peers
      index).setNeedsDispatch false)).state.isEarly = true →
      Accounts index (((host.setDispatchQueue
        (host.dispatchQueue.remove (.peer index))).setPeer index
          (((host.setDispatchQueue (host.dispatchQueue.remove (.peer index))).peers
            index).setNeedsDispatch false)).changeState index .connected) := by
    intro early
    refine changeState _ index .connected ?_
    rw [Host.setPeer_self]
    have accounted := takes
    rw [Accounts, Host.setPeer_self] at accounted
    exact accounted.connect early
  unfold Host.dispatchTurn
  dsimp only
  split
  next state => exact (connects (by rw [state]; rfl)).storeEvent .connect 0 event
  next state => exact (connects (by rw [state]; rfl)).storeEvent .connect 0 event
  · exact peerReset _ index
  · have receives := takes.peerReceive
    split
    next received => rw [received] at receives; exact receives
    next received =>
        rw [received] at receives
        have stores := receives.storeEvent .receive 0 event
        dsimp only
        split
        · exact stores
        · exact stores.scheduleDispatch
  · exact takes

/-- **A step keeps the count of every peer**; a peer that is abandoned is exempt
while its last datagrams are sent, since it is reset behind them. -/
theorem step {before after : Activity} (step : Step before after)
    (accounts : Accounts index before.1) : Accounts index after.1 := by
  cases step with
  | send event sends => exact accounts.sends sends
  | command host event other sentTime command data current =>
      exact accounts.acts (.commandStep ..) fun accounts =>
        accounts.commandStep event sentTime command data
  | accept host event fields fresh => exact accounts.handleConnect fields
  | timeouts host event other fresh =>
      exact accounts.acts (.checkTimeouts ..) fun accounts => accounts.checkTimeouts event
  | dispatch host event other first fresh =>
      exact accounts.acts (.dispatchTurn ..) fun accounts => accounts.dispatchTurn event
  | connect host address channelCount data =>
      exact accounts.hostConnect address channelCount data
  | packet host other channelID packet =>
      exact accounts.acts (.peerSend ..) fun accounts => accounts.sendsFor (.peerSend ..)
  | receive host other =>
      exact accounts.acts (.peerReceive ..) fun accounts => accounts.peerReceive
  | reset host other => exact accounts.acts (.peerReset ..) fun _ => peerReset host other
  | startDisconnect host other data connected =>
      exact accounts.acts (.startDisconnect ..) fun _ => startDisconnect host other data
  | disconnectLater host other data connected =>
      exact accounts.acts (.setPeer ..) fun accounts =>
        accounts.setPeer fun _ accounted => accounted.disconnectLater connected
  | abandon host other data sends =>
      by_cases same : index = other
      · subst same
        exact peerReset _ index
      · have leaves := (accounts.frame (.resetQueues host other) same).frame
          (.queueOutgoingCommand _ other (Host.disconnectCommand data) none 0 0) same
        exact (leaves.sends sends).frame (.peerReset ..) same
  | discard host packet unreferenced => exact accounts
  | configure host => exact accounts

theorem create (heap : Heap) (world : World) (randomSeed peerCount channelLimit incomingBandwidth
    outgoingBandwidth index : Nat) : Accounts index (Host.create heap world randomSeed peerCount
      channelLimit incomingBandwidth outgoingBandwidth) :=
  .of_nothing rfl ⟨rfl, rfl, rfl, fun _ => ⟨rfl, rfl⟩⟩

end Accounts

theorem accounts_of_visited {activity : Activity} (visited : Visited activity) (index : Nat) :
    Accounts index activity.1 :=
  visited.keeps (fun activity => Accounts index activity.1) (fun _ _ _ _ _ _ _ _ _ => .create ..)
    (fun accounts _ => accounts) Accounts.step

/-! ## What the count is -/

/-- Commands without data. -/
theorem waitingLength_eq_zero_iff (commands : List IncomingCommand) :
    waitingLength commands = 0 ↔ ∀ command ∈ commands, command.packet.dataLength = 0 := by
  rw [waitingLength, List.sum_eq_zero_iff_forall_eq_nat]
  exact List.forall_mem_map

/-- Dispatches remove no data exactly when no command that one frees has any. -/
theorem removedLength_eq_zero_iff (entered : List Dispatching) :
    removedLength entered = 0 ↔
      ∀ dispatching ∈ entered, ∀ command, dispatching.Frees command →
        command.packet.dataLength = 0 := by
  rw [removedLength, List.sum_eq_zero_iff_forall_eq_nat]
  refine List.forall_mem_map.trans (forall₂_congr fun dispatching _ => ?_)
  rw [waitingLength_eq_zero_iff]
  exact forall_congr' fun command => imp_congr_left (dispatching.mem_removed_iff command)

/-- **The count of a connected peer is the data in its lists exactly as long as** no
unreliable dispatch, since the slot was last reset, was entered with an old or
incomplete command with data in front of the place that `droppedCommand` comes to. -/
theorem totalWaitingData_eq_waitingData_iff {host : Host} {event : Option Event} {index : Nat}
    (visited : Visited (host, event)) (connected : (host.peers index).state = .connected) :
    (host.peers index).totalWaitingData = (host.peers index).waitingData ↔
      ∀ entered ∈ dispatchings index host.history, ∀ command, entered.Frees command →
        command.packet.dataLength = 0 := by
  have balanced := (accounts_of_visited visited index).balanced (by rw [connected]; rfl)
  rw [← removedLength_eq_zero_iff]
  unfold removedData at balanced
  dsimp only at balanced
  omega

/-- Datagrams to a host: a CONNECT command, the acknowledgement of its answer, the first
half of a packet that is cut up, and a reliable command before its turn. -/
def waitingDatagrams : List (Address × List UInt8) :=
  let source : Address := ⟨7, 9⟩
  let command (command : Command) (channelID sequenceNumber : Nat) : Protocol :=
    ⟨command, false, false, channelID, sequenceNumber⟩
  [(source, [0x0F, 0xFF] ++ connectRequest.encode), (source, []),
    (source, [0, 0] ++ (command (.acknowledge 1 1) 0xFF 0).encode),
    (source, [0, 0] ++
      (command (.sendUnreliableFragment ⟨1, 1, 2, 0, 2, 0⟩) 0 0).encode ++ [65] ++
      (command (.sendReliable 1) 0 2).encode ++ [66])]

/-- The half packet and the command that is early wait, and are counted: the dispatch
for the half packet finds it alone. -/
theorem totalWaitingData_eq_waitingData_half :
    ∃ host, servedHost waitingDatagrams 3 = some host ∧ (host.peers 0).state = .connected ∧
      (host.peers 0).totalWaitingData = 3 ∧ (dispatchings 0 host.history).length = 1 ∧
      ∀ entered ∈ dispatchings 0 host.history, ∀ command, entered.Frees command →
        command.packet.dataLength = 0 := by
  have evaluated : (servedHost waitingDatagrams 3).map (fun host =>
      ((host.peers 0).state, (host.peers 0).totalWaitingData, (host.peers 0).waitingData,
        (dispatchings 0 host.history).length)) = some (.connected, 3, 3, 1) := by decide +kernel
  obtain ⟨host, serves, same⟩ := Option.map_eq_some_iff.mp evaluated
  simp only [Prod.mk.injEq] at same
  obtain ⟨connected, total, waiting, entered⟩ := same
  have visited : Visited (host, none) := .of_reachable (servedHost_reachable serves) rfl
  exact ⟨host, serves, connected, total, entered,
    (totalWaitingData_eq_waitingData_iff visited connected).mp (total.trans waiting.symm)⟩

/-- Datagrams to a host: a CONNECT command, the acknowledgement of its answer, and
two unreliable commands behind each other, the first of which is half a packet. -/
def staleDatagrams : List (Address × List UInt8) :=
  let source : Address := ⟨7, 9⟩
  let command (command : Command) (channelID : Nat) : Protocol :=
    ⟨command, false, false, channelID, 0⟩
  [(source, [0x0F, 0xFF] ++ connectRequest.encode), (source, []),
    (source, [0, 0] ++ (command (.acknowledge 1 1) 0xFF).encode),
    (source, [0, 0] ++ (command (.sendUnreliableFragment ⟨1, 1, 2, 0, 2, 0⟩) 0).encode ++ [65] ++
      (command (.sendUnreliable 2 1) 0).encode ++ [66])]

/-- The half packet is removed, and its two bytes stay in the count. -/
theorem totalWaitingData_not_waitingData :
    ¬∀ host index, Host.Reachable host → (host.peers index).state = .connected →
      (host.peers index).totalWaitingData = (host.peers index).waitingData := by
  intro always
  have evaluated : (servedHost staleDatagrams 3).map (fun host =>
      ((host.peers 0).state, (host.peers 0).totalWaitingData, (host.peers 0).waitingData)) =
      some (.connected, 2, 0) := by decide +kernel
  obtain ⟨host, serves, same⟩ := Option.map_eq_some_iff.mp evaluated
  simp only [Prod.mk.injEq] at same
  obtain ⟨connected, total, waiting⟩ := same
  have equal := always host 0 (servedHost_reachable serves) connected
  rw [total, waiting] at equal
  cases equal

end Enet
