import Enet.Runs.Edits

/-!
# The rules of the runs

A step is taken apart into stages: the work of the library on its own, and what
is done with a packet of the application or handed to it. A rule says what an
invariant of a host, with the unreliable commands in the datagram of a peer,
needs from each of these to hold wherever calls pass through.
-/

set_option autoImplicit false

namespace Enet

open Relation

/-! ## Work -/

/-- One thing that the library does on its own. -/
inductive Work : Sending → Sending → Prop where
  | edit {index : Nat} {host host' : Host} {sentUnreliable : List OutgoingCommand}
      (edit : Edit index host host') : Work (host, sentUnreliable) (host', sentUnreliable)
  | scan (host : Host) (index : Nat) (sentUnreliable : List OutgoingCommand) :
      Work (host, sentUnreliable)
        (host.installScan index (host.scanOutgoing index sentUnreliable),
          (host.scanOutgoing index sentUnreliable).sentUnreliable)
  | free (host : Host) (sentUnreliable : List OutgoingCommand) :
      Work (host, sentUnreliable) (host.freeSent sentUnreliable, [])

/-- What the library does on its own. -/
abbrev Works : Sending → Sending → Prop := ReflTransGen Work

namespace Works

theorem edits {index : Nat} {host host' : Host} (edits : Edits index host host')
    (sentUnreliable : List OutgoingCommand) :
    Works (host, sentUnreliable) (host', sentUnreliable) := by
  induction edits with
  | refl => exact .refl
  | tail _ edit ih => exact ih.tail (.edit edit)

theorem sendStep {before after : Sending} (step : SendStep before after) : Works before after := by
  cases step with
  | quiet sentUnreliable quiet => exact edits (@Edits.of_quiet 0 _ _ quiet) sentUnreliable
  | startDatagram host index used => exact edits (.startDatagram used) []
  | queue host sentUnreliable index command maintenance =>
      exact .single (.edit (@Edit.queue index host command maintenance.2.1
        (Protocol.isMaintenance_bare maintenance)))
  | checkOutgoing host sentUnreliable index =>
      obtain ⟨ends, same⟩ := Edits.checkOutgoingCommands host index sentUnreliable
      rw [same]
      exact (ReflTransGen.single (.scan host index sentUnreliable)).trans (edits ends _)
  | removeSent host sentUnreliable index =>
      exact (ReflTransGen.single (.free host sentUnreliable)).trans
        (edits (.removeSentUnreliableCommands host index sentUnreliable) [])

theorem sends {host host' : Host} (sends : Sends host host') : Works (host, []) (host', []) :=
  Library.runs_relate Works (fun _ => .refl) (fun first => first.trans) sendStep sends

end Works

/-! ## Events -/

/-- `*event` keeps its packet, and what is stored stays stored. -/
structure Stores (event event' : Option Event) : Prop where
  packet : event'.bind Event.packet = event.bind Event.packet
  stored : Host.isStored event = true → Host.isStored event' = true

namespace Stores

theorem refl (event : Option Event) : Stores event event := ⟨rfl, id⟩

theorem of_type {event event' : Event} (packet : event'.packet = event.packet)
    (stored : event'.type ≠ .none) : Stores (some event) (some event') :=
  ⟨packet, fun _ => decide_eq_true stored⟩

theorem notifyConnect (host : Host) (index : Nat) (event : Option Event) :
    Stores event (host.notifyConnect index event).2 := by
  cases event with
  | none => exact refl none
  | some event => exact of_type rfl (by decide : EventType.connect ≠ .none)

theorem notifyDisconnect (host : Host) (index : Nat) (event : Option Event) :
    Stores event (host.notifyDisconnect index event).2 := by
  unfold Host.notifyDisconnect
  dsimp only
  split
  · exact refl event
  · cases event with
    | none => exact refl none
    | some event => exact of_type rfl (by decide : EventType.disconnect ≠ .none)

theorem settleAcknowledge (host : Host) (event : Option Event) (index commandNumber : Nat) :
    Stores event (host.settleAcknowledge event index commandNumber).2.1 := by
  unfold Host.settleAcknowledge
  split
  · split
    · exact refl event
    · exact notifyConnect host index event
  · split
    · exact refl event
    · exact notifyDisconnect host index event
  · split <;> exact refl event
  · exact refl event

theorem handleAcknowledge (host : Host) (event : Option Event)
    (index channelID received sentTime : Nat) :
    Stores event (host.handleAcknowledge event index channelID received sentTime).2.1 := by
  unfold Host.handleAcknowledge
  dsimp only
  split
  · exact refl event
  · split
    · exact refl event
    · exact settleAcknowledge _ event index _

theorem handleVerifyConnect (host : Host) (event : Option Event) (index : Nat)
    (fields : VerifyConnect) :
    Stores event (host.handleVerifyConnect event index fields).2.1 := by
  unfold Host.handleVerifyConnect
  dsimp only
  split
  · exact refl event
  · split
    · exact refl event
    · exact notifyConnect _ index event

theorem handleCommand (host : Host) (event : Option Event) (index : Nat) (command : Protocol)
    (data : List UInt8) : Stores event (host.handleCommand event index command data).2.1 := by
  unfold Host.handleCommand
  dsimp only
  split
  case h_1 => exact handleAcknowledge ..
  case h_3 => exact handleVerifyConnect ..
  all_goals exact refl event

theorem commandStep (host : Host) (event : Option Event) (index : Nat) (sentTime : Option Nat)
    (command : Protocol) (data : List UInt8) :
    Stores event (host.commandStep event index sentTime command data).2.1 := by
  have handles := handleCommand
    (host.hear index command data sentTime.isSome) event index command data
  unfold Host.commandStep
  dsimp only
  split
  next handled => rw [handled] at handles; exact handles
  next handled => rw [handled] at handles; exact handles

theorem checkTimeouts (host : Host) (index : Nat) (event : Option Event) :
    Stores event (host.checkTimeouts index event).2.1 := by
  unfold Host.checkTimeouts
  dsimp only
  split
  · exact notifyDisconnect _ index event
  · exact refl event

end Stores

/-! ## Stages -/

/-- A turn of the dispatch loop takes at most one packet, and stores it. -/
theorem Edits.dispatchTurn (host : Host) (index : Nat) (event : Event) :
    Edits index host (host.unscheduleDispatch index) ∧
      (Edits index (host.unscheduleDispatch index) (host.dispatchTurn index event).1 ∧
          Stores (some event) (some (host.dispatchTurn index event).2.1) ∨
        ∃ packet channelID,
          ((host.unscheduleDispatch index).peerReceive index).2 = some (packet, channelID) ∧
          Edits index ((host.unscheduleDispatch index).peerReceive index).1
            (host.dispatchTurn index event).1 ∧
          (host.dispatchTurn index event).2.1.type = .receive ∧
          (host.dispatchTurn index event).2.1.packet = some packet) := by
  refine ⟨.single (.unschedule host), ?_⟩
  have same : (host.unscheduleDispatch index).peers index =
      (host.peers index).setNeedsDispatch false := Host.setPeer_self ..
  unfold Host.dispatchTurn
  dsimp only
  rw [show (host.setDispatchQueue (host.dispatchQueue.remove (.peer index))).setPeer index
    (((host.setDispatchQueue (host.dispatchQueue.remove (.peer index))).peers
      index).setNeedsDispatch false) = host.unscheduleDispatch index from rfl]
  generalize host.unscheduleDispatch index = taken at same ⊢
  have connects : (host.peers index).state.isNegotiated = true →
      Edits index taken ((taken.changeState index .connected).storeEvent index .connect
        (host.peers index).eventData event).1 := by
    intro settled
    have still : (taken.peers index).state = (host.peers index).state := by
      rw [same]
      rfl
    rw [← still] at settled
    refine (ReflTransGen.single (.changeState _ .connected ?_ (by decide)
      fun _ => .inl settled)).trans (Edits.storeEvent _ index _ 0 event)
    intro free
    rw [free] at settled
    cases settled
  split
  next state =>
      exact .inl ⟨connects (by rw [show (host.peers index).state = _ from state]; rfl),
        .of_type rfl (by decide : EventType.connect ≠ .none)⟩
  next state =>
      exact .inl ⟨connects (by rw [show (host.peers index).state = _ from state]; rfl),
        .of_type rfl (by decide : EventType.connect ≠ .none)⟩
  · exact .inl ⟨((Edits.recalculate _ index).trans
      (Edits.storeEvent _ index .disconnect 0 event)).tail (.reset _),
        .of_type rfl (by decide : EventType.disconnect ≠ .none)⟩
  · split
    next nothing =>
        refine .inl ⟨?_, .refl _⟩
        have waits := nothing
        unfold Host.peerReceive at waits
        dsimp only at waits
        split at waits
        · cases waits
          exact .refl
        · cases waits
    next after packet channelID received =>
        refine .inr ⟨packet, channelID, by rw [received], ?_, rfl, rfl⟩
        rw [received]
        have stores := Edits.storeEvent after index .receive 0 event
        dsimp only
        split
        · exact stores
        · exact stores.tail (.schedule _)
  · exact .inl ⟨.refl, .refl _⟩

/-- One stage of a step, by an application that asks what it may. -/
inductive Stage (May : Host → Request → Prop) : Activity → Activity → Prop where
  | works {host host' : Host} {event event' : Option Event}
      (works : Works (host, []) (host', [])) (stores : Stores event event') :
      Stage May (host, event) (host', event')
  | packet (host : Host) (index channelID : Nat) (packet : Packet)
      (may : May host (.send packet)) :
      Stage May (host, none) ((host.peerSend index channelID packet).1, none)
  | receive (host : Host) (index : Nat) (may : May host (.receive index)) :
      Stage May (host, none) ((host.peerReceive index).1, none)
  | dispatch (host : Host) (index channelID : Nat) (packet : Packet) (event event' : Event)
      (fresh : Host.isStored (some event) = false)
      (takes : (host.peerReceive index).2 = some (packet, channelID))
      (stored : event'.type = .receive) (holds : event'.packet = some packet) :
      Stage May (host, some event) ((host.peerReceive index).1, some event')
  | discard (host : Host) (packet : Packet)
      (unreferenced : host.heap.referenceCount packet.address = 0)
      (may : May host (.send packet)) :
      Stage May (host, none) (host.setHeap (host.heap.destroy packet), none)
  | configure (host : Host) (mtu duplicatePeers maximumPacketSize maximumWaitingData : Nat)
      (checksum : Option (List UInt8 → Nat)) (compressor : Option Compressor)
      (may : May host (.configure mtu duplicatePeers maximumPacketSize maximumWaitingData)) :
      Stage May (host, none)
        (host.configure mtu duplicatePeers maximumPacketSize maximumWaitingData checksum
          compressor, none)

/-- Stages in sequence. -/
abbrev Stages (May : Host → Request → Prop) : Activity → Activity → Prop :=
  ReflTransGen (Stage May)

namespace Stages

variable {May : Host → Request → Prop} {host host' : Host} {event event' : Option Event}

theorem of_edits {index : Nat} (edits : Edits index host host') (stores : Stores event event') :
    Stages May (host, event) (host', event') :=
  .single (.works (.edits edits []) stores)

theorem dispatchTurn (host : Host) (index : Nat) {event : Event}
    (fresh : Host.isStored (some event) = false) :
    Stages May (host, some event)
      ((host.dispatchTurn index event).1, some (host.dispatchTurn index event).2.1) := by
  obtain ⟨takes, ⟨edits, stores⟩ | ⟨packet, channelID, taken, edits, stored, holds⟩⟩ :=
    Edits.dispatchTurn host index event
  · exact of_edits (takes.trans edits) stores
  · exact ((of_edits takes (.refl _)).tail
      (.dispatch _ index channelID packet event _ fresh taken stored holds)).trans
      (of_edits edits (.refl _))

/-- **A step is a sequence of stages.** -/
theorem step {before after : Activity} (step : StepUnder May before after) :
    Stages May before after := by
  cases step with
  | send event sends => exact .single (.works (.sends sends) (.refl event))
  | command host event index sentTime command data current =>
      exact of_edits (.commandStep ..) (.commandStep ..)
  | accept host event fields fresh =>
      cases free : host.freePeer with
      | none =>
          unfold Host.handleConnect
          rw [free]
          split <;> exact .refl
      | some slot => exact of_edits (.handleConnect host fields free) (.refl event)
  | timeouts host event index fresh => exact of_edits (.checkTimeouts ..) (.checkTimeouts ..)
  | dispatch host event index first fresh => exact dispatchTurn host index fresh
  | connect host address channelCount data =>
      cases free : host.freePeer with
      | none =>
          unfold Host.hostConnect
          rw [free]
      | some slot =>
          exact of_edits (.hostConnect host address channelCount data free) (.refl none)
  | packet host index channelID packet may =>
      exact .single (.packet host index channelID packet may)
  | receive host index may => exact .single (.receive host index may)
  | reset host index => exact of_edits (.single (@Edit.reset index host)) (.refl none)
  | startDisconnect host index data connected =>
      have used : (host.peers index).state ≠ .disconnected := by
        intro free
        rw [free] at connected
        cases connected
      exact of_edits (.startDisconnect used data) (.refl none)
  | disconnectLater host index data connected =>
      exact of_edits (.disconnectLater host index data connected) (.refl none)
  | abandon host index data sends =>
      have leaves := (ReflTransGen.single (@Edit.resetQueues index host)).tail
        (.queue _ (Host.disconnectCommand data) rfl rfl)
      exact ((of_edits leaves (.refl none)).tail (.works (.sends sends) (.refl none))).trans
        (of_edits (.single (@Edit.reset index _)) (.refl none))
  | discard host packet unreferenced may => exact .single (.discard host packet unreferenced may)
  | configure host mtu duplicatePeers maximumPacketSize maximumWaitingData checksum compressor
      may => exact .single (.configure host mtu duplicatePeers maximumPacketSize
        maximumWaitingData checksum compressor may)

/-- A run is a sequence of stages. -/
theorem run {before after : Activity} (run : RunUnder May before after) :
    Stages May before after :=
  Library.runs_relate (Stages May) (fun _ => .refl) (fun first => first.trans) step run

end Stages

/-! ## Rules -/

/-- What the functions of the library need to keep, for an invariant of a host
with the unreliable commands in the datagram of a peer, where an application
stores the settings that it may. -/
structure MaintainedUnder (May : Host → Request → Prop)
    (Invariant : Host → List OutgoingCommand → Prop) : Prop where
  edit : ∀ {index : Nat} {host host' : Host} {sentUnreliable : List OutgoingCommand},
    Edit index host host' → Invariant host sentUnreliable → Invariant host' sentUnreliable
  scan : ∀ (host : Host) (index : Nat) (sentUnreliable : List OutgoingCommand),
    Invariant host sentUnreliable →
      Invariant (host.installScan index (host.scanOutgoing index sentUnreliable))
        (host.scanOutgoing index sentUnreliable).sentUnreliable
  free : ∀ (host : Host) (sentUnreliable : List OutgoingCommand),
    Invariant host sentUnreliable → Invariant (host.freeSent sentUnreliable) []
  take : ∀ (host : Host) (index : Nat),
    Invariant host [] → Invariant (host.peerReceive index).1 []
  packet : ∀ (host : Host) (index channelID : Nat) (packet : Packet),
    Invariant host [] → Invariant (host.peerSend index channelID packet).1 []
  discard : ∀ (host : Host) (packet : Packet), host.heap.referenceCount packet.address = 0 →
    Invariant host [] → Invariant (host.setHeap (host.heap.destroy packet)) []
  configure : ∀ (host : Host) (mtu duplicatePeers maximumPacketSize maximumWaitingData : Nat)
    (checksum : Option (List UInt8 → Nat)) (compressor : Option Compressor),
    May host (.configure mtu duplicatePeers maximumPacketSize maximumWaitingData) →
      Invariant host [] →
      Invariant (host.configure mtu duplicatePeers maximumPacketSize maximumWaitingData checksum
        compressor) []

/-- What is kept whatever an application asks. -/
abbrev Maintained : (Host → List OutgoingCommand → Prop) → Prop :=
  MaintainedUnder fun _ _ => True

namespace MaintainedUnder

variable {May : Host → Request → Prop} {Invariant : Host → List OutgoingCommand → Prop}

theorem work (maintained : MaintainedUnder May Invariant) {before after : Sending}
    (work : Work before after) (holds : Invariant before.1 before.2) :
    Invariant after.1 after.2 := by
  cases work with
  | edit edit => exact maintained.edit edit holds
  | scan host index sentUnreliable => exact maintained.scan host index sentUnreliable holds
  | free host sentUnreliable => exact maintained.free host sentUnreliable holds

theorem stage (maintained : MaintainedUnder May Invariant) {before after : Activity}
    (stage : Stage May before after) (holds : Invariant before.1 []) : Invariant after.1 [] := by
  cases stage with
  | works works stores =>
      exact Library.runs_keep (fun sending : Sending => Invariant sending.1 sending.2)
        maintained.work works holds
  | packet host index channelID packet => exact maintained.packet host index channelID packet holds
  | receive host index => exact maintained.take host index holds
  | dispatch host index => exact maintained.take host index holds
  | discard host packet unreferenced => exact maintained.discard host packet unreferenced holds
  | configure host mtu duplicatePeers maximumPacketSize maximumWaitingData checksum compressor
      may => exact maintained.configure host _ _ _ _ checksum compressor may holds

/-- **A step keeps what its stages keep.** -/
theorem step (maintained : MaintainedUnder May Invariant) {before after : Activity}
    (step : StepUnder May before after) (holds : Invariant before.1 []) : Invariant after.1 [] :=
  Library.runs_keep (fun activity : Activity => Invariant activity.1 []) maintained.stage
    (Stages.step step) holds

/-- **A run keeps what its steps keep.** -/
theorem run (maintained : MaintainedUnder May Invariant) {before after : Activity}
    (run : RunUnder May before after) (holds : Invariant before.1 []) : Invariant after.1 [] :=
  Library.runs_keep (fun activity : Activity => Invariant activity.1 []) maintained.step run holds

end MaintainedUnder

/-- **What holds of a new host and is maintained holds wherever calls pass through.** -/
theorem MaintainedUnder.visited {Invariant : Host → List OutgoingCommand → Prop}
    (maintained : Maintained Invariant)
    (creates : ∀ heap world randomSeed peerCount channelLimit incomingBandwidth outgoingBandwidth,
      Invariant (Host.create heap world randomSeed peerCount channelLimit incomingBandwidth
        outgoingBandwidth) [])
    {activity : Activity} (visited : Visited activity) : Invariant activity.1 [] :=
  visited.keeps (fun activity => Invariant activity.1 [])
    (fun _ _ _ _ _ _ _ _ _ => creates _ _ _ _ _ _ _) (fun holds _ => holds)
    (fun step holds => maintained.step step holds)

/-! ## An application that asks what it may -/

/-- A state between the calls of such an application, from some state on. -/
inductive CallsUnder (May : Host → Request → Prop) (start : Host) : Host → Prop where
  | refl : CallsUnder May start start
  | call {host host' : Host} {event : Option Event} {value : Int} (fuel : Nat) (call : Host.Call)
      (calls : CallsUnder May start host) (asks : call.Asks May host)
      (returns : call.run fuel host = some (host', event, value)) : CallsUnder May start host'

/-- A state that its calls pass through from there on, or leave behind. -/
def PassesUnder (May : Host → Request → Prop) (start : Host) (activity : Activity) : Prop :=
  ∃ host event, CallsUnder May start host ∧ Host.isStored event = false ∧
    RunUnder May (host, event) activity

/-- A state between the calls of such an application. -/
inductive ReachableUnder (May : Host → Request → Prop) : Host → Prop where
  | create (heap : Heap) (world : World) (randomSeed peerCount channelLimit incomingBandwidth
      outgoingBandwidth : Nat) :
      ReachableUnder May (.create heap world randomSeed peerCount channelLimit incomingBandwidth
        outgoingBandwidth)
  | call {host host' : Host} {event : Option Event} {value : Int} (fuel : Nat) (call : Host.Call)
      (reachable : ReachableUnder May host) (asks : call.Asks May host)
      (returns : call.run fuel host = some (host', event, value)) : ReachableUnder May host'

/-- A state that its calls pass through, or leave behind. -/
def VisitedUnder (May : Host → Request → Prop) (activity : Activity) : Prop :=
  ∃ host event, ReachableUnder May host ∧ Host.isStored event = false ∧
    RunUnder May (host, event) activity

/-- Calls go on from a state that such calls reach. -/
theorem CallsUnder.reaches {May : Host → Request → Prop} {start host : Host}
    (calls : CallsUnder May start host) (reachable : ReachableUnder May start) :
    ReachableUnder May host := by
  induction calls with
  | refl => exact reachable
  | call fuel call _ asks returns ih => exact .call fuel call ih asks returns

/-- The calls of a new host. -/
theorem ReachableUnder.calls {May : Host → Request → Prop} {host : Host}
    (reachable : ReachableUnder May host) :
    ∃ heap world randomSeed peerCount channelLimit incomingBandwidth outgoingBandwidth,
      CallsUnder May (.create heap world randomSeed peerCount channelLimit incomingBandwidth
        outgoingBandwidth) host := by
  induction reachable with
  | create => exact ⟨_, _, _, _, _, _, _, .refl⟩
  | call fuel call _ asks returns ih =>
      obtain ⟨_, _, _, _, _, _, _, calls⟩ := ih
      exact ⟨_, _, _, _, _, _, _, .call fuel call calls asks returns⟩

namespace MaintainedUnder

variable {May : Host → Request → Prop} {Invariant : Host → List OutgoingCommand → Prop}

/-- What is maintained whatever is asked is maintained. -/
theorem under (maintained : Maintained Invariant) : MaintainedUnder May Invariant where
  edit := maintained.edit
  scan := maintained.scan
  free := maintained.free
  take := maintained.take
  packet := maintained.packet
  discard := maintained.discard
  configure := fun host _ _ _ _ checksum compressor _ =>
    maintained.configure host _ _ _ _ checksum compressor trivial

/-- **What is maintained holds wherever such calls pass through.** -/
theorem passes (maintained : MaintainedUnder May Invariant) (lasting : Lasting May)
    {start : Host} {activity : Activity} (passes : PassesUnder May start activity)
    (holds : Invariant start []) : Invariant activity.1 [] := by
  obtain ⟨host, event, calls, fresh, run⟩ := passes
  have called : Invariant host [] := by
    clear run fresh
    induction calls with
    | refl => exact holds
    | call fuel call calls asks returns ih =>
        exact maintained.run (call_runUnder lasting call asks returns) ih
  exact maintained.run run called

/-- **What holds of a new host and is maintained holds wherever such calls pass through.** -/
theorem visitedUnder (maintained : MaintainedUnder May Invariant) (lasting : Lasting May)
    (creates : ∀ heap world randomSeed peerCount channelLimit incomingBandwidth outgoingBandwidth,
      Invariant (Host.create heap world randomSeed peerCount channelLimit incomingBandwidth
        outgoingBandwidth) [])
    {activity : Activity} (visited : VisitedUnder May activity) : Invariant activity.1 [] := by
  obtain ⟨host, event, reachable, fresh, run⟩ := visited
  obtain ⟨_, _, _, _, _, _, _, calls⟩ := reachable.calls
  exact maintained.passes lasting ⟨host, event, calls, fresh, run⟩ (creates _ _ _ _ _ _ _)

end MaintainedUnder

/-- Calls that ask what they may lead from one host to another. -/
theorem calledHost_calls {May : Host → Request → Prop} {start host host' : Host}
    {calls : List Host.Call} (before : CallsUnder May start host)
    (asks : ∀ call ∈ calls, ∀ host, call.Asks May host)
    (called : calledHost host calls = some host') : CallsUnder May start host' := by
  induction calls generalizing host with
  | nil => cases called; exact before
  | cons call calls ih =>
      obtain ⟨⟨after, event, value⟩, returns, called⟩ := Option.bind_eq_some_iff.mp called
      exact ih (.call 5 call before (asks call List.mem_cons_self host) returns)
        (fun other member => asks other (List.mem_cons_of_mem _ member)) called

end Enet
