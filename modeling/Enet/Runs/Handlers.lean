import Enet.Runs.Incoming

/-!
# What the handlers leave alone

The data handlers are steps of the receiving side of their peer. The other
handlers, the functions that start a connection and those that send have the
frame of a function for one peer.
-/

set_option autoImplicit false

namespace Enet

open Relation

/-! ## Data handlers -/

/-- A peer takes data for a channel: it is connected, and has the channel. -/
structure Peer.Takes (peer : Peer) (channelID : Nat) : Prop where
  connected : peer.state.isConnected = true
  hasChannel : channelID < peer.channelCount

/-- A fragment lies inside its packet, and its number below the count. -/
structure SendFragment.Fits (fields : SendFragment) : Prop where
  number : fields.fragmentNumber < fields.fragmentCount
  count : fields.fragmentCount ≤ protocolMaximumFragmentCount
  bytes : fields.fragmentOffset + fields.dataLength ≤ fields.totalLength

/-- What `enet_protocol_handle_send_unreliable_fragment` tests before the numbers of the
fragment: it is neither out of the window nor stale. -/
structure Channel.AwaitsFragment (channel : Channel) (reliableSequenceNumber : Nat)
    (fields : SendFragment) : Prop where
  inWindow : Channel.inWindow channel.incomingReliableSequenceNumber reliableSequenceNumber = true
  fresh : reliableSequenceNumber = channel.incomingReliableSequenceNumber →
    channel.incomingUnreliableSequenceNumber < fields.startSequenceNumber
  /-- No command waits for fragments of this packet. -/
  first : ∃ before after, channel.searchUnreliable reliableSequenceNumber
    fields.startSequenceNumber = .place before after

/-- `enet_peer_queue_incoming_command` gets past its tests of the peer. -/
structure Peer.AdmitsData (peer : Peer) (maximumWaitingData : Nat) : Prop where
  stays : peer.state ≠ .disconnectLater
  waits : peer.totalWaitingData < maximumWaitingData

/-- The first fragment of an unreliable packet with more fragments than bytes, which
passes every test of its handler. -/
structure Heard.StartsShort (heard : Heard) (fields : SendFragment) : Prop where
  kind : heard.command.command = .sendUnreliableFragment fields
  takes : heard.before.Takes heard.command.channelID
  payload : fields.dataLength ≤ heard.data.length
  awaits : (heard.before.channels heard.command.channelID).AwaitsFragment
    heard.command.reliableSequenceNumber fields
  fits : fields.Fits
  inside : fields.fragmentOffset < fields.totalLength
  small : fields.totalLength ≤ heard.maximumPacketSize
  admits : heard.before.AdmitsData heard.maximumWaitingData
  short : fields.totalLength < fields.fragmentCount

/-- A command that is the first fragment of a packet with more fragments than bytes. -/
def Heard.IsShort (heard : Heard) : Prop := ∃ fields, heard.StartsShort fields

/-- The step of the handler of a received command that carries data: a command
queued, a fragment put in its place, or the window of unsequenced groups moved. The
payload comes from the bytes of the datagram that are available behind the command. -/
inductive ReceiveStep (index : Nat) (available : List UInt8) (received : Heard) :
    Host → Host → Prop where
  | queue (host : Host) (command : Protocol) (data : Option (List UInt8)) (dataLength : Nat)
      (flags : PacketFlags) (fragmentCount : Nat)
      (takes : (host.peers index).Takes command.channelID)
      (payload : data = none ∨
        data = some (available.take dataLength) ∧ dataLength ≤ available.length)
      (small : dataLength ≤ host.maximumPacketSize)
      (few : fragmentCount ≤ protocolMaximumFragmentCount)
      (counted : (host.peers index).AdmitsData host.maximumWaitingData →
        fragmentCount ≤ dataLength ∨ received.IsShort) :
      ReceiveStep index available received host
        (host.queueIncomingCommand index command data dataLength flags fragmentCount).1
  | fragment (host : Host) (channelID : Nat) (reliable : Bool) (address : Nat)
      (fields : SendFragment) (takes : (host.peers index).Takes channelID) (fits : fields.Fits)
      (payload : fields.dataLength ≤ available.length)
      (holds : ((host.peers index).channels channelID).Holds reliable address
        fields.fragmentCount fields.totalLength) :
      ReceiveStep index available received host
        (host.addFragment index channelID reliable address fields available)
  | window (host : Host) (group : Nat) (window : Nat → Bool) :
      ReceiveStep index available received host
        (host.setPeer index ((host.peers index).setUnsequencedWindow group window))

/-- The steps of a data handler. -/
abbrev ReceiveRun (index : Nat) (available : List UInt8) (received : Heard) :
    Host → Host → Prop :=
  ReflTransGen (ReceiveStep index available received)

theorem ReceiveStep.receivesFor {index : Nat} {available : List UInt8} {received : Heard}
    {host host' : Host} (step : ReceiveStep index available received host host') :
    ReceivesFor index host host' := by
  cases step with
  | queue => exact .queueIncomingCommand ..
  | fragment => exact .addFragment ..
  | window => exact .setPeer host (.setUnsequencedWindow _ _ _)

theorem ReceiveRun.receivesFor {index : Nat} {available : List UInt8} {received : Heard}
    {host host' : Host} (run : ReceiveRun index available received host host') :
    ReceivesFor index host host' :=
  Library.runs_relate (ReceivesFor index) (.refl index) (fun first => first.trans)
    (fun step => step.receivesFor) run

/-- What the tests of the data handlers let through is taken. -/
theorem Host.takes_of_rejectsData {host : Host} {index : Nat} {command : Protocol}
    {data : List UInt8} (accepted : ¬host.rejectsData index command data = true) :
    (host.peers index).Takes command.channelID ∧ command.command.dataLength ≤ data.length := by
  unfold rejectsData at accepted
  simp only [Bool.or_eq_true, decide_eq_true_eq, Bool.not_eq_true', not_or] at accepted
  exact ⟨⟨by simpa using accepted.1.1.2, by omega⟩, by omega⟩

theorem Host.small_of_rejectsData {host : Host} {index : Nat} {command : Protocol}
    {data : List UInt8} (accepted : ¬host.rejectsData index command data = true) :
    command.command.dataLength ≤ host.maximumPacketSize := by
  unfold rejectsData at accepted
  simp only [Bool.or_eq_true, decide_eq_true_eq, Bool.not_eq_true', not_or] at accepted
  exact Nat.le_of_not_lt accepted.1.2

/-- The receiving side of a peer does not decide what it takes. -/
theorem Peer.Takes.receivesFor {host host' : Host} {index channelID : Nat}
    (takes : (host.peers index).Takes channelID) (receives : ReceivesFor index host host') :
    (host'.peers index).Takes channelID :=
  ⟨by rw [receives.peer.state]; exact takes.connected,
    by rw [receives.peer.channelCount]; exact takes.hasChannel⟩

/-- A run goes on with the host that a call returned. -/
theorem ReceiveRun.queued {index : Nat} {available : List UInt8} {received : Heard}
    {host host' : Host} {command : Protocol} {data : Option (List UInt8)} {dataLength : Nat}
    {flags : PacketFlags} {fragmentCount : Nat} {result : Queued}
    (queued : host.queueIncomingCommand index command data dataLength flags fragmentCount =
      (host', result))
    (takes : (host.peers index).Takes command.channelID)
    (payload : data = none ∨
      data = some (available.take dataLength) ∧ dataLength ≤ available.length)
    (small : dataLength ≤ host.maximumPacketSize)
    (few : fragmentCount ≤ protocolMaximumFragmentCount)
    (counted : (host.peers index).AdmitsData host.maximumWaitingData →
      fragmentCount ≤ dataLength ∨ received.IsShort) :
    ReceiveRun index available received host host' := by
  have queues := ReceiveStep.queue host command data dataLength flags fragmentCount takes payload
    small few counted
  rw [queued] at queues
  exact .single queues

namespace ReceiveRun

theorem handleSendReliable (host : Host) (index : Nat) (command : Protocol) (data : List UInt8)
    (received : Heard) :
    ReceiveRun index data received host
      (host.handleSendReliable index command data).1 := by
  unfold Host.handleSendReliable
  split
  · exact .refl
  next accepted =>
      obtain ⟨takes, fits⟩ := Host.takes_of_rejectsData accepted
      have small := Host.small_of_rejectsData accepted
      have counted : (host.peers index).AdmitsData host.maximumWaitingData →
          0 ≤ command.command.dataLength ∨ received.IsShort := fun _ => .inl (Nat.zero_le _)
      dsimp only
      split
      next result =>
          exact queued result takes (.inr ⟨rfl, fits⟩) small (Nat.zero_le _) counted
      next result =>
          exact queued result takes (.inr ⟨rfl, fits⟩) small (Nat.zero_le _) counted

theorem handleSendUnreliable (host : Host) (index : Nat) (command : Protocol)
    (data : List UInt8) (received : Heard) :
    ReceiveRun index data received host
      (host.handleSendUnreliable index command data).1 := by
  unfold Host.handleSendUnreliable
  split
  · exact .refl
  next accepted =>
      obtain ⟨takes, fits⟩ := Host.takes_of_rejectsData accepted
      have small := Host.small_of_rejectsData accepted
      have counted : (host.peers index).AdmitsData host.maximumWaitingData →
          0 ≤ command.command.dataLength ∨ received.IsShort := fun _ => .inl (Nat.zero_le _)
      dsimp only
      split
      next result =>
          exact queued result takes (.inr ⟨rfl, fits⟩) small (Nat.zero_le _) counted
      next result =>
          exact queued result takes (.inr ⟨rfl, fits⟩) small (Nat.zero_le _) counted

theorem moveUnsequencedWindow (host : Host) (index start : Nat) (data : List UInt8)
    (received : Heard) :
    ReceiveRun index data received host (host.moveUnsequencedWindow index start) := by
  unfold Host.moveUnsequencedWindow
  dsimp only
  split
  · exact .refl
  · exact .single (.window host _ _)

theorem handleSendUnsequenced (host : Host) (index : Nat) (command : Protocol) (group : Nat)
    (data : List UInt8) (received : Heard) :
    ReceiveRun index data received host
      (host.handleSendUnsequenced index command group data).1 := by
  unfold Host.handleSendUnsequenced
  dsimp only
  split
  · exact .refl
  next accepted =>
      obtain ⟨takes, fits⟩ := Host.takes_of_rejectsData accepted
      split
      · exact .refl
      · split
        · exact .refl
        · generalize u16 (Host.unwrapGroup group (host.peers index).incomingUnsequencedGroup) -
            group % peerUnsequencedWindowSize = start
          have moves := moveUnsequencedWindow host index start data received
          have still := takes.receivesFor moves.receivesFor
          have small : command.command.dataLength ≤
              (host.moveUnsequencedWindow index start).maximumPacketSize := by
            have same : (host.moveUnsequencedWindow index start).maximumPacketSize =
                host.maximumPacketSize := by
              unfold Host.moveUnsequencedWindow
              dsimp only
              split <;> rfl
            rw [same]
            exact Host.small_of_rejectsData accepted
          have queues : ∀ {host' : Host} {result : Queued},
              (host.moveUnsequencedWindow index start).queueIncomingCommand index command
                (some (data.take command.command.dataLength)) command.command.dataLength
                ⟨false, true, false, false⟩ 0 = (host', result) →
              ReceiveRun index data received (host.moveUnsequencedWindow index start) host' :=
            fun result => queued result still (.inr ⟨rfl, fits⟩) small (Nat.zero_le _)
              fun _ => .inl (Nat.zero_le _)
          split
          next result => exact moves.trans (queues result)
          next result => exact (moves.trans (queues result)).tail (.window _ _ _)

/-- A fragment is put in the command that a search found. -/
theorem fragment_found {host : Host} {index channelID : Nat} {reliable : Bool}
    {command : Protocol} {fields : SendFragment} {incoming : IncomingCommand} {data : List UInt8}
    {received : Heard} (own : ¬Host.isForeign command fields incoming = true)
    (member : incoming ∈ ((host.peers index).channels channelID).incomingCommands reliable)
    (takes : (host.peers index).Takes channelID) (fits : fields.Fits)
    (payload : fields.dataLength ≤ data.length) :
    ReceiveRun index data received host
      (host.addFragment index channelID reliable incoming.address fields data) := by
  simp only [Host.isForeign, Bool.or_eq_true, decide_eq_true_eq, not_or, not_not] at own
  exact .single (.fragment host channelID reliable incoming.address fields takes fits payload
    ⟨incoming, member, rfl, own.2.symm, own.1.2.symm⟩)

/-- A fragment is put in the command that was queued for it. -/
theorem fragment_queued {host host' : Host} {index address : Nat} {reliable : Bool}
    {command : Protocol} {fields : SendFragment} {flags : PacketFlags} {data : List UInt8}
    {received : Heard}
    (queues : host.queueIncomingCommand index command none fields.totalLength flags
      fields.fragmentCount = (host', .command address))
    (kind : command.command.IsFragment reliable)
    (takes : (host.peers index).Takes command.channelID) (fits : fields.Fits)
    (payload : fields.dataLength ≤ data.length)
    (small : fields.totalLength ≤ host.maximumPacketSize)
    (counted : (host.peers index).AdmitsData host.maximumWaitingData →
      fields.fragmentCount ≤ fields.totalLength ∨ received.IsShort) :
    ReceiveRun index data received host
      (host'.addFragment index command.channelID reliable address fields data) := by
  have positive : 0 < fields.fragmentCount := Nat.zero_lt_of_lt fits.number
  have first := @queued index data received _ _ _ _ _ _ _ _ queues takes (.inl rfl) small
    fits.count counted
  exact first.tail (.fragment host' command.channelID reliable address fields
    (takes.receivesFor first.receivesFor) fits payload
    (Host.holds_of_queued kind positive queues))

theorem handleSendFragment (host : Host) (index : Nat) (command : Protocol)
    (fields : SendFragment) (data : List UInt8) (received : Heard)
    (kind : command.command = .sendFragment fields) :
    ReceiveRun index data received host
      (host.handleSendFragment index command fields data).1 := by
  unfold Host.handleSendFragment
  dsimp only
  split
  · exact .refl
  next accepted =>
      rw [Bool.or_eq_true, not_or] at accepted
      obtain ⟨takes, length⟩ := Host.takes_of_rejectsData accepted.1
      have payload : fields.dataLength ≤ data.length := by
        rw [kind] at length
        exact length
      split
      · exact .refl
      · split
        · exact .refl
        next inside =>
          have fits : fields.Fits := ⟨by omega, by omega, by omega⟩
          split
          next incoming found =>
              split
              · exact .refl
              next own =>
                  exact fragment_found own (Channel.search_found found).1 takes fits payload
          · split
            next address result =>
                exact @fragment_queued host _ index address true
                  { command with reliableSequenceNumber := fields.startSequenceNumber } fields _
                  data _ result (by rw [kind]; rfl) takes fits payload (by omega)
                  fun _ => .inl (by omega)
            next result =>
                exact queued result takes (.inl rfl) (by omega) fits.count
                  fun _ => .inl (by omega)

theorem handleSendUnreliableFragment (host : Host) (index : Nat) (command : Protocol)
    (fields : SendFragment) (data : List UInt8) (sentTime : Bool)
    (kind : command.command = .sendUnreliableFragment fields) :
    ReceiveRun index data (host.heard index command data sentTime) host
      (host.handleSendUnreliableFragment index command fields data).1 := by
  unfold Host.handleSendUnreliableFragment
  dsimp only
  split
  · exact .refl
  next accepted =>
      obtain ⟨takes, length⟩ := Host.takes_of_rejectsData accepted
      have payload : fields.dataLength ≤ data.length := by
        rw [kind] at length
        exact length
      split
      · exact .refl
      next window =>
        rw [Bool.not_eq_true, Bool.not_eq_false'] at window
        split
        · exact .refl
        next fresh =>
          split
          · exact .refl
          next inside =>
            have fits : fields.Fits := ⟨by omega, by omega, by omega⟩
            split
            next incoming found =>
                split
                · exact .refl
                next own =>
                    exact fragment_found own (Channel.search_found found).1 takes fits payload
            next before after place =>
              have arrived : fields.dataLength ≤
                  (data.take command.command.dataLength).length := by
                rw [List.length_take, kind]
                exact Nat.le_min.mpr ⟨Nat.le_refl _, payload⟩
              -- the test that the handler lacks
              have counted : (host.peers index).AdmitsData host.maximumWaitingData →
                  fields.fragmentCount ≤ fields.totalLength ∨
                    (host.heard index command data sentTime).IsShort := by
                intro admits
                rcases Nat.lt_or_ge fields.totalLength fields.fragmentCount with short | enough
                · exact .inr ⟨fields, kind, takes, arrived,
                    ⟨window, fun same => Nat.lt_of_not_le fun stale => fresh ⟨same, stale⟩,
                      before, after, place⟩, fits,
                    (by omega : fields.fragmentOffset < fields.totalLength),
                    (by omega : fields.totalLength ≤ host.maximumPacketSize), admits, short⟩
                · exact .inl enough
              split
              next result =>
                  exact fragment_queued result (by rw [kind]; rfl) takes fits payload (by omega)
                    counted
              next result => exact queued result takes (.inl rfl) (by omega) fits.count counted

end ReceiveRun

/-- The five commands that carry data. -/
def Command.isData : Command → Bool
  | .sendReliable _ | .sendUnreliable _ _ | .sendFragment _ | .sendUnsequenced _ _
  | .sendUnreliableFragment _ => true
  | _ => false

/-- **The handler of a command that carries data changes the receiving side of
the peer only.** -/
theorem ReceiveRun.handleCommand (host : Host) (event : Option Event) (index : Nat)
    (command : Protocol) (data : List UInt8) (sentTime : Bool)
    (carries : command.command.isData = true) :
    ReceiveRun index data (host.heard index command data sentTime) host
        (host.handleCommand event index command data).1 ∧
      (host.handleCommand event index command data).2.1 = event := by
  unfold Host.handleCommand
  dsimp only
  split
  case h_6 => exact ⟨handleSendReliable .., rfl⟩
  case h_7 => exact ⟨handleSendUnreliable .., rfl⟩
  case h_8 kind => exact ⟨handleSendFragment host index command _ data _ kind, rfl⟩
  case h_9 => exact ⟨handleSendUnsequenced .., rfl⟩
  case h_12 kind =>
    exact ⟨handleSendUnreliableFragment host index command _ data sentTime kind, rfl⟩
  all_goals
    rename_i same
    rw [same] at carries
    cases carries

/-! ## Other handlers -/

namespace ActsOn

theorem handleBandwidthLimit (host : Host) (index incomingBandwidth outgoingBandwidth : Nat) :
    ActsOn index host
      (host.handleBandwidthLimit index incomingBandwidth outgoingBandwidth).1 := by
  unfold Host.handleBandwidthLimit
  dsimp only
  split
  · exact refl index host
  · exact of_setPeer rfl rfl (.refl _) rfl

theorem handleThrottleConfigure (host : Host) (index interval acceleration deceleration : Nat) :
    ActsOn index host
      (host.handleThrottleConfigure index interval acceleration deceleration).1 := by
  unfold Host.handleThrottleConfigure
  dsimp only
  split
  · exact refl index host
  · exact setPeer host index _

theorem leaveConnection (host : Host) (index : Nat) (state : PeerState) (acknowledge : Bool) :
    ActsOn index host (host.leaveConnection index state acknowledge) := by
  unfold Host.leaveConnection
  split
  · exact dispatchState host index _
  · split
    · split
      · exact (recalculate index host).trans (peerReset _ index)
      · exact peerReset host index
    · split
      · exact changeState host index _
      · exact dispatchState host index _

theorem handleDisconnect (host : Host) (index : Nat) (command : Protocol) (data : Nat) :
    ActsOn index host (host.handleDisconnect index command data).1 := by
  have leaves := (resetQueues host index).trans
    (leaveConnection _ index (host.peers index).state command.acknowledge)
  unfold Host.handleDisconnect
  dsimp only
  split
  · exact refl index host
  · split
    · exact leaves.trans (setPeer _ index _)
    · exact leaves

theorem settleAcknowledge (host : Host) (event : Option Event) (index commandNumber : Nat) :
    ActsOn index host (host.settleAcknowledge event index commandNumber).1 := by
  unfold Host.settleAcknowledge
  split
  · split
    · exact refl index host
    · exact notifyConnect host index event
  · split
    · exact refl index host
    · exact notifyDisconnect host index event
  · split
    · exact refl index host
    · exact startDisconnect host index _
  · exact refl index host

theorem handleAcknowledge (host : Host) (event : Option Event)
    (index channelID received sentTime : Nat) :
    ActsOn index host (host.handleAcknowledge event index channelID received sentTime).1 := by
  unfold Host.handleAcknowledge
  dsimp only
  split
  · exact refl index host
  · split
    · exact refl index host
    · exact ((setPeer host index _).trans
        (SendsFor.removeSentReliableCommand _ index received channelID).acts).trans
        (settleAcknowledge _ event index _)

theorem handleVerifyConnect (host : Host) (event : Option Event) (index : Nat)
    (fields : VerifyConnect) :
    ActsOn index host (host.handleVerifyConnect event index fields).1 := by
  unfold Host.handleVerifyConnect
  dsimp only
  split
  · exact refl index host
  · split
    · exact (setPeer host index _).trans (dispatchState _ index _)
    · exact ((SendsFor.removeSentReliableCommand host index 1 0xFF).acts.trans
        (setPeer _ index _)).trans
        (notifyConnect _ index event)

theorem handleCommand (host : Host) (event : Option Event) (index : Nat) (command : Protocol)
    (data : List UInt8) : ActsOn index host (host.handleCommand event index command data).1 := by
  by_cases carries : command.command.isData = true
  · exact (ReceiveRun.handleCommand host event index command data false carries).1.receivesFor.acts
  · unfold Host.handleCommand
    dsimp only
    split
    · exact handleAcknowledge ..
    · exact refl index host
    · exact handleVerifyConnect ..
    · exact handleDisconnect ..
    · exact refl index host
    case h_10 => exact handleBandwidthLimit ..
    case h_11 => exact handleThrottleConfigure ..
    all_goals
      rename_i same
      rw [same] at carries
      exact absurd rfl carries

theorem commandStep (host : Host) (event : Option Event) (index : Nat) (sentTime : Option Nat)
    (command : Protocol) (data : List UInt8) :
    ActsOn index host (host.commandStep event index sentTime command data).1 := by
  unfold Host.commandStep
  dsimp only
  generalize seen : host.hear index command data sentTime.isSome = host'
  have observes : ActsOn index host host' := by
    rw [← seen]
    exact observe host index rfl
  have handles := handleCommand host' event index command data
  split
  next handled => rw [handled] at handles; exact observes.trans handles
  next handled =>
      rw [handled] at handles
      exact (observes.trans handles).trans
        (Acknowledges.acknowledgeStage _ index command sentTime).acts

/-! ## Starting a connection -/

theorem setRandomSeed (index : Nat) (host : Host) (seed : Nat) :
    ActsOn index host (host.setRandomSeed seed) :=
  of_same rfl rfl (.refl _) rfl

theorem hostConnect {host : Host} {index : Nat} (address : Address) (channelCount data : Nat)
    (free : host.freePeer = some index) :
    ActsOn index host (host.hostConnect address channelCount data).1 := by
  unfold Host.hostConnect
  rw [free]
  dsimp only
  split
  next allocated =>
      exact (setHeap index host (Heap.grows_of_malloc allocated)).trans
        (setPeer _ index _)
  next heap address allocated =>
      have seeded : ActsOn index host (host.setHeap heap).random.1 :=
        (setHeap index host (Heap.grows_of_malloc allocated)).trans
          (setRandomSeed index _ _)
      exact ((seeded.trans (observe _ index rfl)).trans (setPeer _ index _)).trans
        (queueOutgoingCommand ..)

theorem handleConnect {host : Host} {index : Nat} (fields : Connect)
    (free : host.freePeer = some index) : ActsOn index host (host.handleConnect fields).1 := by
  unfold Host.handleConnect
  split
  · exact refl index host
  · rw [free]
    dsimp only
    split
    · exact refl index host
    · split
      next allocated =>
          exact (setHeap index host (Heap.grows_of_malloc allocated)).trans
            (setPeer _ index _)
      next allocated =>
          exact (((setHeap index host (Heap.grows_of_malloc allocated)).trans
            (observe _ index rfl)).trans (setPeer _ index _)).trans
            (queueOutgoingCommand ..)

/-! ## Sending -/

theorem sendAcknowledgements (index : Nat) (acknowledgements : List Acknowledgement) :
    ∀ host : Host, ActsOn index host (Host.sendAcknowledgements index acknowledgements host) := by
  induction acknowledgements with
  | nil => intro host; exact refl index host
  | cons acknowledgement rest ih =>
      intro host
      unfold Host.sendAcknowledgements
      dsimp only
      split
      · exact setPeer host index _
      · refine ActsOn.trans ?_ (ih _)
        refine ActsOn.trans ?_ (setPeer _ index _)
        have pushes : ∀ datagram, ActsOn index host (host.setDatagram datagram) :=
          fun _ => of_same rfl rfl (.refl _) rfl
        split
        · exact (pushes _).trans (dispatchState _ index _)
        · exact pushes _

theorem startDatagram (host : Host) (index : Nat) :
    ActsOn index host (host.startDatagram index) := by
  unfold Host.startDatagram
  have prepares : ActsOn index host
      ((host.setDatagram Datagram.start).setPeer index
        ((host.peers index).setContinueSending false)) := of_setPeer rfl rfl (.refl _) rfl
  exact prepares.trans (sendAcknowledgements index _ _)

theorem checkTimeouts (host : Host) (index : Nat) (event : Option Event) :
    ActsOn index host (host.checkTimeouts index event).1 := by
  unfold Host.checkTimeouts
  dsimp only
  split
  · exact (setPeer host index _).trans (notifyDisconnect _ index event)
  · exact setPeer host index _

theorem removeSentUnreliableCommands (host : Host) (index : Nat)
    (sentUnreliable : List OutgoingCommand) :
    ActsOn index host (host.removeSentUnreliableCommands index sentUnreliable) := by
  unfold Host.removeSentUnreliableCommands
  split
  · exact refl index host
  · dsimp only
    have releases := setHeap index host
      (Heap.foldl_grows _ Heap.removeOutgoing_grows sentUnreliable host.heap)
    split
    · exact releases.trans (startDisconnect _ index _)
    · exact releases

end ActsOn

namespace OutgoingScan

theorem dropPacket_grows (number unreliableNumber : Nat) (commands : List OutgoingCommand) :
    ∀ heap : Heap, heap.Grows (dropPacket number unreliableNumber heap commands).1 := by
  induction commands with
  | nil => intro heap; exact .refl heap
  | cons outgoing rest ih =>
      intro heap
      unfold dropPacket
      split
      · exact ((heap.releaseOption_grows _).trans (Heap.free_grows _ _)).trans (ih _)
      · exact .refl heap

theorem unlink_heap (scan : OutgoingScan) (reliable : Bool) :
    (scan.unlink reliable).heap = scan.heap := by
  cases reliable <;> rfl

theorem pass_heap (scan : OutgoingScan) (reliable : Bool) :
    (scan.pass reliable).heap = scan.heap := by
  cases reliable <;> rfl

theorem dropThrottled_grows (scan : OutgoingScan) (reliable : Bool) (outgoing : OutgoingCommand) :
    scan.heap.Grows (scan.dropThrottled reliable outgoing).heap :=
  ((Heap.releaseOption_grows _ _).trans (Heap.free_grows _ _)).trans (dropPacket_grows ..)

theorem transmitUnreliable_grows (scan : OutgoingScan) (reliable : Bool)
    (outgoing : OutgoingCommand) :
    scan.heap.Grows (scan.transmitUnreliable reliable outgoing).heap := by
  have unlinks := scan.unlink_heap reliable
  unfold transmitUnreliable
  dsimp only
  split
  · exact unlinks.symm ▸ .refl _
  · exact unlinks.symm ▸ Heap.free_grows _ _

theorem sendUnreliable_grows (scan : OutgoingScan) (reliable : Bool)
    (outgoing : OutgoingCommand) :
    scan.heap.Grows (scan.sendUnreliable reliable outgoing).heap := by
  have counts : ∀ peer, (scan.setPeer peer).heap = scan.heap := fun _ => rfl
  unfold sendUnreliable
  dsimp only
  split
  · exact counts _ ▸ dropThrottled_grows _ reliable outgoing
  · exact counts _ ▸ transmitUnreliable_grows _ reliable outgoing

theorem sendReliable_heap (scan : OutgoingScan) (serviceTime : Nat) (reliable : Bool)
    (outgoing : OutgoingCommand) :
    (scan.sendReliable serviceTime reliable outgoing).heap = scan.heap :=
  unlink_heap scan reliable

theorem step_grows (scan : OutgoingScan) (serviceTime : Nat) (reliable : Bool)
    (outgoing : OutgoingCommand) :
    scan.heap.Grows (scan.step serviceTime reliable outgoing).1.heap := by
  have passes := scan.pass_heap reliable
  have sends := scan.forbidPing.sendReliable_heap serviceTime reliable outgoing
  unfold step
  split
  · split
    · exact passes.symm ▸ .refl _
    · split
      · exact passes.symm ▸ .refl _
      · split
        · exact passes.symm ▸ .refl _
        · split
          · exact .refl _
          · exact sends.symm ▸ .refl _
  · split
    · exact .refl _
    · exact sendUnreliable_grows scan reliable outgoing

theorem run_grows (serviceTime fuel : Nat) : ∀ scan : OutgoingScan,
    scan.heap.Grows (run serviceTime fuel scan).heap := by
  induction fuel with
  | zero => intro scan; exact .refl _
  | succ fuel ih =>
      intro scan
      unfold run
      split
      · exact .refl _
      next reliable outgoing _ =>
          have steps := scan.step_grows serviceTime reliable outgoing
          dsimp only
          split
          · exact steps.trans (ih _)
          · exact steps

end OutgoingScan

theorem Peer.checkOutgoingCommands_grows (peer : Peer) (heap : Heap) (datagram : Datagram)
    (sentUnreliable : List OutgoingCommand) (serviceTime : Nat) :
    heap.Grows (peer.checkOutgoingCommands heap datagram sentUnreliable serviceTime).heap :=
  OutgoingScan.run_grows _ _ (OutgoingScan.start peer heap datagram sentUnreliable)

namespace ActsOn

theorem checkOutgoingCommands (host : Host) (index : Nat) (sentUnreliable : List OutgoingCommand) :
    ActsOn index host (host.checkOutgoingCommands index sentUnreliable).1 := by
  unfold Host.checkOutgoingCommands
  dsimp only
  have installs : ∀ datagram peer, ActsOn index host
      (((host.setHeap ((host.peers index).checkOutgoingCommands host.heap host.datagram
        sentUnreliable host.serviceTime).heap).setDatagram datagram).setPeer index peer) :=
    fun _ _ => of_setPeer rfl rfl (Peer.checkOutgoingCommands_grows ..) rfl
  split
  · exact (installs _ _).trans (startDisconnect _ index _)
  · exact installs _ _

/-! ## The turn of a peer -/

theorem checkDueTimeouts (host : Host) (event : Option Event) (checkForTimeouts : Bool)
    (index : Nat) : ActsOn index host (host.checkDueTimeouts event checkForTimeouts index).1 := by
  unfold Host.checkDueTimeouts
  dsimp only
  split
  · exact checkTimeouts host index event
  · exact refl index host

theorem checkWaitingCommands (host : Host) (index : Nat) :
    ActsOn index host (host.checkWaitingCommands index).1 := by
  unfold Host.checkWaitingCommands
  dsimp only
  split
  · exact refl index host
  · exact checkOutgoingCommands host index []

theorem fillDatagram (host : Host) (index : Nat) :
    ActsOn index host (host.fillDatagram index).1 := by
  have checks := checkWaitingCommands host index
  unfold Host.fillDatagram
  dsimp only
  split
  · exact (checks.trans (peerPing _ index)).trans (checkOutgoingCommands _ index _)
  · exact checks

theorem sendDatagram (host : Host) (index : Nat) (sentUnreliable : List OutgoingCommand) :
    ActsOn index host (host.sendDatagram index sentUnreliable).1 := by
  have passes : ∀ (before : Host) address bytes peer,
      ActsOn index before ((before.pass address bytes).setPeer index peer) :=
    fun before _ _ _ => of_setPeer rfl rfl (.refl _) rfl
  have counts : ∀ (before : Host) length, ActsOn index before (before.countSent length) :=
    fun _ _ => of_same rfl rfl (.refl _) rfl
  unfold Host.sendDatagram
  dsimp only
  split
  · exact ((setPeer host index _).trans (passes _ _ _ _)).trans
      (removeSentUnreliableCommands _ index sentUnreliable)
  · exact (((setPeer host index _).trans (passes _ _ _ _)).trans
      (removeSentUnreliableCommands _ index sentUnreliable)).trans (counts _ _)

theorem sendFilled (host : Host) (event : Option Event) (index : Nat) :
    ActsOn index host (host.sendFilled event index).1 := by
  have fills := fillDatagram host index
  have sends := sendDatagram (host.fillDatagram index).1 index (host.fillDatagram index).2
  unfold Host.sendFilled
  dsimp only
  split
  · exact fills
  · split
    next goes => rw [goes] at sends; exact fills.trans sends
    next fails => rw [fails] at sends; exact fills.trans sends

/-- The turn of a peer is about that peer. -/
theorem sendPeer (host : Host) (event : Option Event) (checkForTimeouts : Bool)
    (sendPass index : Nat) :
    ActsOn index host (host.sendPeer event checkForTimeouts sendPass index).1 := by
  have checks := (startDatagram host index).trans
    (checkDueTimeouts (host.startDatagram index) event checkForTimeouts index)
  unfold Host.sendPeer
  dsimp only
  split
  · exact refl index host
  · split
    · exact checks
    · exact checks.trans (sendFilled _ _ index)

end ActsOn

end Enet
