import Enet.Model.Checked
import Enet.Runs.Rules

/-!
# The command loop stays in bounds

The array of channels is as long as the count of channels says, in every state
of a run, and the received commands of a channel lie at different addresses. So
the command that a fragment is put in is the one its tests were made on, and no
access of the command loop falls outside of what it may touch.
-/

set_option autoImplicit false

namespace Enet

open Relation

/-! ## The received commands of a channel -/

/-- The received commands of a channel lie at different addresses, all of them
below a limit. -/
structure Channel.Distinct (channel : Channel) (limit : Nat) : Prop where
  nodup : ∀ reliable, ((channel.incomingCommands reliable).map IncomingCommand.address).Nodup
  below : ∀ reliable, ∀ address ∈ (channel.incomingCommands reliable).map IncomingCommand.address,
    address < limit

namespace Channel.Distinct

variable {channel channel' : Channel} {limit limit' : Nat}

theorem empty (limit : Nat) : Channel.empty.Distinct limit := by
  refine ⟨fun reliable => ?_, fun reliable address member => ?_⟩
  · cases reliable <;> exact List.nodup_nil
  · cases reliable <;> cases member

theorem mono (distinct : channel.Distinct limit) (grows : limit ≤ limit') :
    channel.Distinct limit' :=
  ⟨distinct.nodup, fun reliable address member =>
    Nat.lt_of_lt_of_le (distinct.below reliable address member) grows⟩

theorem of_sublist (distinct : channel.Distinct limit)
    (left : ∀ reliable, (channel'.incomingCommands reliable).Sublist
      (channel.incomingCommands reliable)) : channel'.Distinct limit :=
  ⟨fun reliable => (distinct.nodup reliable).sublist ((left reliable).map _),
    fun reliable address member =>
      distinct.below reliable address (((left reliable).map _).subset member)⟩

theorem of_addresses (distinct : channel.Distinct limit)
    (same : ∀ reliable, (channel'.incomingCommands reliable).map IncomingCommand.address =
      (channel.incomingCommands reliable).map IncomingCommand.address) :
    channel'.Distinct limit :=
  ⟨fun reliable => by rw [same]; exact distinct.nodup reliable,
    fun reliable => by rw [same]; exact distinct.below reliable⟩

theorem sameIncoming (distinct : channel.Distinct limit) (same : channel.SameIncoming channel') :
    channel'.Distinct limit := by
  refine distinct.of_addresses fun reliable => ?_
  cases reliable with
  | true => exact congrArg _ same.incomingReliableCommands
  | false => exact congrArg _ same.incomingUnreliableCommands

theorem dispatchReliable (distinct : channel.Distinct limit) (queuedCommand : Option Nat) :
    (channel.dispatchReliable queuedCommand).channel.Distinct limit :=
  distinct.of_sublist (dispatchReliable_sublist channel queuedCommand)

theorem dispatchUnreliable (distinct : channel.Distinct limit) (queuedCommand : Option Nat) :
    (channel.dispatchUnreliable queuedCommand).channel.Distinct limit := by
  refine distinct.of_sublist fun reliable => ?_
  cases reliable with
  | true => exact .refl _
  | false => exact dispatchUnreliable_sublist channel queuedCommand

/-- A command at a new address is put between two parts of a list. -/
theorem insert {before after : List IncomingCommand} {incoming : IncomingCommand}
    (nodup : ((before ++ after).map IncomingCommand.address).Nodup)
    (below : ∀ address ∈ (before ++ after).map IncomingCommand.address, address < limit)
    (fresh : limit ≤ incoming.address) (allocated : incoming.address < limit') :
    ((before ++ incoming :: after).map IncomingCommand.address).Nodup ∧
      ∀ address ∈ (before ++ incoming :: after).map IncomingCommand.address, address < limit' := by
  rw [List.map_append] at nodup below
  rw [List.map_append, List.map_cons, List.nodup_middle]
  refine ⟨List.nodup_cons.mpr ⟨fun member => ?_, nodup⟩, fun address member => ?_⟩
  · have placed := below _ member
    omega
  · rcases List.mem_append.mp member with member | member
    · have placed := below address (List.mem_append_left _ member)
      omega
    · rcases List.mem_cons.mp member with same | member
      · rw [same]
        exact allocated
      · have placed := below address (List.mem_append_right _ member)
        omega

theorem insertIncoming (distinct : channel.Distinct limit) {incoming : IncomingCommand}
    {placement : Placement} (placed : channel.place incoming.command = placement)
    (fresh : limit ≤ incoming.address) (allocated : incoming.address < limit') :
    (channel.insertIncoming incoming placement).channel.Distinct limit' := by
  have grown : channel.Distinct limit' := distinct.mono (by omega)
  cases placement with
  | discard => exact grown
  | reliable before after =>
      have nodup := distinct.nodup true
      have below := distinct.below true
      simp only [incomingCommands, if_pos, place_reliable placed] at nodup below
      obtain ⟨nodup', below'⟩ := insert nodup below fresh allocated
      refine dispatchReliable ⟨fun reliable => ?_, fun reliable => ?_⟩ _
      · cases reliable with
        | true => exact nodup'
        | false => exact grown.nodup false
      · cases reliable with
        | true => exact below'
        | false => exact grown.below false
  | unreliable before after =>
      have nodup := distinct.nodup false
      have below := distinct.below false
      simp only [incomingCommands, Bool.false_eq_true, if_false, place_unreliable placed]
        at nodup below
      obtain ⟨nodup', below'⟩ := insert nodup below fresh allocated
      refine dispatchUnreliable ⟨fun reliable => ?_, fun reliable => ?_⟩ _
      · cases reliable with
        | true => exact grown.nodup true
        | false => exact nodup'
      · cases reliable with
        | true => exact grown.below true
        | false => exact below'

end Channel.Distinct

theorem Host.writeCommand_addresses (incoming : IncomingCommand) (commands : List IncomingCommand) :
    (writeCommand incoming commands).map IncomingCommand.address =
      commands.map IncomingCommand.address := by
  induction commands with
  | nil => rfl
  | cons other rest ih =>
      unfold writeCommand
      split
      next same => rw [List.map_cons, List.map_cons, same]
      · rw [List.map_cons, List.map_cons, ih]

/-- A command is found under its address. -/
theorem find_address {commands : List IncomingCommand} {incoming : IncomingCommand}
    (nodup : (commands.map IncomingCommand.address).Nodup) (member : incoming ∈ commands) :
    commands.find? (fun other => other.address = incoming.address) = some incoming := by
  induction commands with
  | nil => cases member
  | cons other rest ih =>
      rw [List.map_cons, List.nodup_cons] at nodup
      rw [List.find?_cons]
      rcases List.mem_cons.mp member with same | member
      · rw [same]
        simp
      · have different : other.address ≠ incoming.address := fun same =>
          nodup.1 (same ▸ List.mem_map_of_mem member)
        rw [decide_eq_false different]
        exact ih nodup.2 member

/-! ## Peers -/

/-- The channels of a peer: the array holds those in use, a free slot uses none,
and the received commands of each lie at different addresses below a limit. -/
structure Peer.Bounded (peer : Peer) (limit : Nat) : Prop where
  allocated : peer.channelCount ≤ peer.channelsAllocated
  unused : peer.state = .disconnected → peer.channelCount = 0
  distinct : ∀ channelID, (peer.channels channelID).Distinct limit

namespace Peer.Bounded

variable {peer peer' : Peer} {limit limit' : Nat}

theorem mono (bounded : peer.Bounded limit) (grows : limit ≤ limit') : peer.Bounded limit' :=
  ⟨bounded.allocated, bounded.unused, fun channelID => (bounded.distinct channelID).mono grows⟩

theorem sendingOnly (bounded : peer.Bounded limit) (sending : peer.SendingOnly peer') :
    peer'.Bounded limit := by
  refine ⟨?_, fun free => ?_, fun channelID => ?_⟩
  · rw [sending.channelCount, sending.channelsAllocated]
    exact bounded.allocated
  · rw [sending.channelCount]
    exact bounded.unused (sending.state ▸ free)
  · exact (bounded.distinct channelID).sameIncoming (sending.channels channelID)

/-- The channels of a free slot. -/
theorem fresh {channels : Nat} (allocated : peer.channelsAllocated = channels)
    (count : peer.channelCount = channels) (used : peer.state = .disconnected → channels = 0)
    (empty : peer.channels = fun _ => Channel.empty) : peer.Bounded limit := by
  refine ⟨by omega, fun free => count.trans (used free), fun channelID => ?_⟩
  rw [empty]
  exact .empty limit

end Peer.Bounded

/-! ## Hosts -/

/-- The channels of every peer are bounded by what was allocated so far. -/
def Bounded (host : Host) : Prop :=
  ∀ index, (host.peers index).Bounded host.heap.nextAddress

namespace Bounded

variable {host host' : Host} {index : Nat}

theorem acts (bounded : Bounded host) (acts : ActsOn index host host')
    (own : (host'.peers index).Bounded host'.heap.nextAddress) : Bounded host' := by
  intro other
  by_cases same : other = index
  · rw [same]
    exact own
  · rw [acts.others other same]
    exact (bounded other).mono acts.mallocs.nextAddress

theorem sendsFor (bounded : Bounded host) (sends : SendsFor index host host') : Bounded host' :=
  bounded.acts sends.acts
    (((bounded index).mono sends.acts.mallocs.nextAddress).sendingOnly sends.peer)

theorem quiet (bounded : Bounded host) (quiet : Quiet host host') : Bounded host' := by
  intro other
  rw [quiet.heap]
  exact (bounded other).sendingOnly (.of_alike (quiet.peers other))

/-- A change of one peer that leaves its channels. -/
theorem setPeer (bounded : Bounded host) {peer : Peer}
    (count : peer.channelCount = (host.peers index).channelCount)
    (allocated : peer.channelsAllocated = (host.peers index).channelsAllocated)
    (channels : peer.channels = (host.peers index).channels)
    (free : peer.state = .disconnected → (host.peers index).state = .disconnected) :
    Bounded (host.setPeer index peer) := by
  refine bounded.acts (.setPeer host index peer) ?_
  rw [Host.setPeer_self]
  have own := bounded index
  refine ⟨?_, fun disconnected => ?_, fun channelID => ?_⟩
  · rw [count, allocated]
    exact own.allocated
  · rw [count]
    exact own.unused (free disconnected)
  · rw [channels]
    exact own.distinct channelID

theorem noteDatagram (bounded : Bounded host) (opened : Opened) :
    Bounded (host.noteDatagram opened) := by
  unfold Host.noteDatagram
  dsimp only
  split
  · exact bounded
  · exact @setPeer (host.setReceivedData opened.bytes) _ bounded _ rfl rfl rfl id

theorem setHeap (bounded : Bounded host) {heap : Heap} (grows : host.heap.Grows heap) :
    Bounded (host.setHeap heap) :=
  fun other => (bounded other).mono grows.nextAddress

/-- One channel of a peer is replaced. -/
theorem setChannel (bounded : Bounded host) {channelID : Nat} {channel : Channel}
    (distinct : channel.Distinct host.heap.nextAddress) :
    Bounded (host.setPeer index ((host.peers index).setChannel channelID channel)) := by
  refine bounded.acts (.setPeer host index _) ?_
  rw [Host.setPeer_self]
  refine ⟨(bounded index).allocated, (bounded index).unused, fun other => ?_⟩
  rw [Peer.setChannel_channels, Host.setPeer_heap]
  by_cases same : other = channelID
  · rw [same, Function.update_self]
    exact distinct
  · rw [Function.update_of_ne same]
    exact (bounded index).distinct other

theorem scheduleDispatch (bounded : Bounded host) (index : Nat) :
    Bounded (host.scheduleDispatch index) := by
  unfold Host.scheduleDispatch
  split
  · exact bounded
  · exact @setPeer (host.setDispatchQueue _) index bounded _ rfl rfl rfl id

/-! ## Received commands -/

theorem installDispatched (bounded : Bounded host) (channelID : Nat)
    {dispatched : Channel.Dispatched}
    (distinct : dispatched.channel.Distinct host.heap.nextAddress) :
    Bounded (host.installDispatched index channelID dispatched) := by
  have grows := Heap.foldl_grows _ Heap.removeIncoming_grows dispatched.removed host.heap
  have frees : Bounded (host.removeDispatched index dispatched) :=
    bounded.setHeap grows
  have sets : Bounded ((host.removeDispatched index dispatched).setPeer index
      (((host.peers index).setChannel channelID dispatched.channel).setDispatched
        ((host.peers index).dispatchedCommands ++ dispatched.moved)
        (host.peers index).totalWaitingData)) := by
    have channels := @setChannel _ index frees channelID _ (distinct.mono grows.nextAddress)
    refine frees.acts (.setPeer _ index _) ?_
    have own := channels index
    rw [Host.setPeer_self] at own ⊢
    exact ⟨own.allocated, own.unused, own.distinct⟩
  unfold Host.installDispatched
  dsimp only
  split
  · exact sets
  · exact sets.scheduleDispatch index

theorem queueIncomingCommand (bounded : Bounded host) (command : Protocol)
    (data : Option (List UInt8)) (dataLength : Nat) (flags : PacketFlags) (fragmentCount : Nat) :
    Bounded (host.queueIncomingCommand index command data dataLength flags fragmentCount).1 := by
  have grows := allocateIncoming_grows host.heap command data dataLength flags fragmentCount
  unfold Host.queueIncomingCommand
  dsimp only
  split
  · exact bounded
  · split
    · exact bounded
    · split
      · exact bounded
      · split
        next allocated =>
            rw [allocated] at grows
            exact bounded.setHeap grows
        next heap incoming allocated =>
            rw [allocated] at grows
            have spec := allocateIncoming_spec allocated
            refine installDispatched ?_ _ ?_
            · exact (bounded.setHeap grows).setPeer rfl rfl rfl id
            · exact ((bounded index).distinct command.channelID).insertIncoming
                (by rw [spec.received]) spec.fresh spec.below

theorem setStartCommand (bounded : Bounded host) (channelID : Nat) (reliable : Bool)
    (incoming : IncomingCommand) :
    Bounded (host.setStartCommand index channelID reliable incoming) := by
  refine bounded.setChannel (((bounded index).distinct channelID).of_addresses fun other => ?_)
  cases reliable <;> cases other <;> first
    | rfl
    | exact Host.writeCommand_addresses incoming _

theorem addFragment (bounded : Bounded host) (channelID : Nat) (reliable : Bool) (address : Nat)
    (fields : SendFragment) (data : List UInt8) :
    Bounded (host.addFragment index channelID reliable address fields data) := by
  unfold Host.addFragment
  split
  · exact bounded
  next incoming found =>
      split
      · exact bounded
      · dsimp only
        have writes := @setStartCommand host index bounded channelID reliable
          (incoming.addFragment fields.fragmentNumber fields.fragmentOffset
            (data.take fields.dataLength))
        split
        · split
          · exact writes.installDispatched channelID
              (((writes index).distinct channelID).dispatchReliable none)
          · exact writes.installDispatched channelID
              (((writes index).distinct channelID).dispatchUnreliable none)
        · exact writes

theorem receiveStep {available : List UInt8} {received : Heard} (bounded : Bounded host)
    (step : ReceiveStep index available received host host') : Bounded host' := by
  cases step with
  | queue command data dataLength flags fragmentCount takes payload small few counted =>
      exact bounded.queueIncomingCommand command data dataLength flags fragmentCount
  | fragment channelID reliable address fields takes =>
      exact bounded.addFragment channelID reliable address fields available
  | window group window => exact bounded.setPeer rfl rfl rfl id

/-! ## Runs -/

theorem edit (edit : Edit index host host') (bounded : Bounded host) : Bounded host' := by
  cases edit with
  | quiet quiet => exact bounded.quiet quiet
  | malloc => exact bounded.setHeap host.heap.malloc_grows
  | observe observation about fresh => exact bounded
  | schedule => exact bounded.scheduleDispatch index
  | unschedule => exact @setPeer (host.setDispatchQueue _) index bounded _ rfl rfl rfl id
  | changeState state used stays may =>
      refine bounded.acts (.changeState host index state) ?_
      have own := (bounded index).mono (ActsOn.changeState host index state).mallocs.nextAddress
      rw [Host.changeState_peer]
      exact ⟨own.allocated, fun free => absurd free stays.1, own.distinct⟩
  | eventData data => exact bounded.setPeer rfl rfl rfl id
  | resetQueues =>
      refine bounded.acts (.resetQueues host index) ?_
      rw [Host.resetQueues_peer]
      exact .fresh rfl rfl (fun _ => rfl) rfl
  | reset =>
      refine bounded.acts (.peerReset host index) ?_
      obtain ⟨mtu, same⟩ := Host.peerReset_peer host index
      rw [same]
      exact .fresh rfl rfl (fun _ => rfl) rfl
  | clearChannels free =>
      refine bounded.acts (.setPeer host index _) ?_
      rw [Host.setPeer_self]
      exact .fresh rfl ((bounded index).unused free) (fun _ => rfl) rfl
  | connecting address channelCount connectID slot free locally =>
      refine bounded.acts (.setPeer host index _) ?_
      rw [Host.setPeer_self]
      exact .fresh rfl rfl (fun free => by cases free) rfl
  | accepted fields slot free channels admits =>
      refine bounded.acts (.setPeer host index _) ?_
      rw [Host.setPeer_self]
      exact .fresh rfl rfl (fun free => by cases free) rfl
  | verified fields waits =>
      refine bounded.acts (.setPeer host index _) ?_
      have own := bounded index
      rw [Host.setPeer_self]
      have lowered : (Host.verifiedPeer (host.peers index) fields).channelCount ≤
          (host.peers index).channelCount := by
        unfold Host.verifiedPeer
        dsimp only
        split <;> omega
      refine ⟨Nat.le_trans lowered own.allocated, fun free => ?_, own.distinct⟩
      rw [own.unused free] at lowered
      exact Nat.le_zero.mp lowered
  | bandwidth incomingBandwidth outgoingBandwidth =>
      unfold Host.handleBandwidthLimit
      dsimp only
      split
      · exact bounded
      · exact @setPeer (host.setBandwidthLimitedPeers _ _) index bounded _ rfl rfl rfl id
  | queue command control bare => exact bounded.sendsFor (.queueOutgoingCommand ..)
  | removeSent number channelID => exact bounded.sendsFor (.removeSentReliableCommand ..)
  | scanTimeouts =>
      exact bounded.sendsFor
        (.setPeer host (Peer.SendingOnly.checkTimeouts (host.peers index) host.serviceTime))
  | receive step heard => exact bounded.receiveStep step
  | acknowledge acknowledgement => exact bounded.setPeer rfl rfl rfl id
  | acknowledged rest => exact bounded.setPeer rfl rfl rfl id

theorem edits (edits : Edits index host host') (bounded : Bounded host) : Bounded host' :=
  Library.runs_keep Bounded edit edits bounded

theorem maintained : Maintained fun host _ => Bounded host where
  edit := edit
  scan := by
    intro host index sentUnreliable bounded
    have grows := Peer.checkOutgoingCommands_grows (host.peers index) host.heap host.datagram
      sentUnreliable host.serviceTime
    have scanned : Bounded ((host.setHeap (host.scanOutgoing index sentUnreliable).heap).setDatagram
        (host.scanOutgoing index sentUnreliable).datagram) := bounded.setHeap grows
    exact scanned.sendsFor (.setPeer _ (.checkOutgoingCommands ..))
  free := fun host sentUnreliable bounded =>
    bounded.setHeap (Heap.foldl_grows _ Heap.removeOutgoing_grows sentUnreliable host.heap)
  take := by
    intro host index bounded
    unfold Host.peerReceive
    dsimp only
    split
    · exact bounded
    · exact (bounded.setHeap ((Heap.unreference_grows _ _).trans
        (Heap.free_grows _ _))).setPeer rfl rfl rfl id
  packet := fun host index channelID packet bounded => bounded.sendsFor (.peerSend ..)
  discard := fun host packet unreferenced bounded =>
    bounded.setHeap (host.heap.destroy_grows packet)
  configure := fun _ _ _ _ _ _ _ _ bounded => bounded

/-- **The channels of every peer are bounded wherever calls pass through.** -/
theorem visited {activity : Activity} (visited : Visited activity) : Bounded activity.1 :=
  maintained.visited
    (fun _ _ _ _ _ _ _ _ => .fresh rfl rfl (fun _ => rfl) rfl) visited

end Bounded

/-! ## Reading a command -/

/-- A field does not depend on what lies behind it. -/
theorem field_append {bytes : List UInt8} {offset width : Nat}
    (fits : offset + width ≤ bytes.length)
    (behind : List UInt8) : field (bytes ++ behind) offset width = field bytes offset width := by
  unfold field
  rw [List.drop_append_of_le_length (by omega), List.take_append_of_le_length]
  rw [List.length_drop]
  omega

theorem nativeField_append {bytes : List UInt8} {offset width : Nat}
    (fits : offset + width ≤ bytes.length) (behind : List UInt8) :
    nativeField (bytes ++ behind) offset width = nativeField bytes offset width := by
  unfold nativeField
  rw [List.drop_append_of_le_length (by omega), List.take_append_of_le_length]
  rw [List.length_drop]
  omega

theorem Command.decode_append {bytes : List UInt8} {number : Nat}
    (fits : commandSizes number ≤ bytes.length) (behind : List UInt8) :
    decode number (bytes ++ behind) = decode number bytes := by
  unfold decode decodeFragment
  split <;> simp only [commandSizes] at fits <;>
    simp (disch := omega) only [field_append, nativeField_append]

theorem Command.decode_number {bytes : List UInt8} {number : Nat} {command : Command}
    (decoded : decode number bytes = some command) : command.number = number := by
  unfold decode at decoded
  split at decoded <;> cases decoded <;> rfl

/-- A command does not depend on what lies behind it. -/
theorem Protocol.decode_append {bytes : List UInt8} (header : 4 ≤ bytes.length)
    (fits : commandSizes (field bytes 0 1 % 16) ≤ bytes.length) (behind : List UInt8) :
    Protocol.decode (bytes ++ behind) = Protocol.decode bytes := by
  have length : (bytes ++ behind).length = bytes.length + behind.length := List.length_append
  have first : field (bytes ++ behind) 0 1 = field bytes 0 1 := field_append (by omega) behind
  unfold Protocol.decode
  dsimp only
  rw [first, if_neg (by omega), if_neg (by omega), if_neg (by omega), if_neg (by omega),
    Command.decode_append fits, field_append (by omega), field_append (by omega)]

/-- **The fields of a command lie in the bytes of the command**: reading it from
the receive buffer gives what the bytes before the limit give, whatever follows. -/
theorem Protocol.readAt_append (bytes behind : List UInt8) {currentData : Nat}
    (inside : currentData ≤ bytes.length) :
    Protocol.readAt (bytes ++ behind) bytes.length currentData =
      Protocol.decode (bytes.drop currentData) := by
  have left : (bytes ++ behind).drop currentData = bytes.drop currentData ++ behind :=
    List.drop_append_of_le_length inside
  have length : (bytes.drop currentData).length = bytes.length - currentData := List.length_drop
  unfold Protocol.readAt
  split
  next short =>
      unfold Protocol.decode
      rw [if_pos (by omega)]
  next header =>
      have first : field (bytes ++ behind) currentData 1 = field (bytes.drop currentData) 0 1 := by
        rw [field_append (by omega)]
        unfold field
        rw [List.drop_zero]
      rw [first]
      split
      next long =>
          unfold Protocol.decode
          dsimp only
          rw [if_neg (by omega), if_pos (by omega)]
      next fits =>
          rw [left]
          exact Protocol.decode_append (by omega) (by omega) behind

theorem Protocol.size_of_decode {bytes : List UInt8} {command : Protocol}
    (decoded : Protocol.decode bytes = some command) :
    4 ≤ command.size ∧ command.size ≤ bytes.length := by
  unfold Protocol.decode at decoded
  split at decoded
  · cases decoded
  · dsimp only at decoded
    split at decoded
    · cases decoded
    next fits =>
        obtain ⟨inner, same, rfl⟩ := Option.map_eq_some_iff.mp decoded
        have number := Command.decode_number same
        unfold Protocol.size
        dsimp only
        rw [number]
        refine ⟨?_, by omega⟩
        rw [← number]
        cases inner <;> simp [Command.number, commandSizes]

/-! ## Checked accesses -/

namespace Bounded

variable {host host' : Host} {index : Nat}

theorem hasChannels (bounded : Bounded host) (index : Nat) :
    (host.peers index).hasChannels = true :=
  decide_eq_true (bounded index).allocated

/-- A channel below `channelCount` is an element of the array. -/
theorem hasChannel_of_lt (bounded : Bounded host) {channelID : Nat}
    (below : channelID < (host.peers index).channelCount) :
    (host.peers index).hasChannel channelID = true := by
  unfold Peer.hasChannel
  rw [Bool.and_eq_true, decide_eq_true_eq, decide_eq_true_eq]
  exact ⟨below, (bounded index).allocated⟩

theorem hasChannel (bounded : Bounded host) {channelID : Nat}
    (takes : (host.peers index).Takes channelID) :
    (host.peers index).hasChannel channelID = true := bounded.hasChannel_of_lt takes.hasChannel

theorem handleDataChecked (bounded : Bounded host) (index : Nat) (command : Protocol)
    (data : List UInt8) (handled : Host × Bool) :
    host.handleDataChecked index command data handled = some handled := by
  unfold Host.handleDataChecked
  split
  · rfl
  next accepted =>
      obtain ⟨takes, fits⟩ := Host.takes_of_rejectsData accepted
      rw [if_neg (by simp [bounded.hasChannel takes]), if_neg (by omega)]

/-- **A fragment is written inside of the bitmap and of the packet.** -/
theorem addFragmentChecked (bounded : Bounded host) {channelID address : Nat} {reliable : Bool}
    {fields : SendFragment} {data : List UInt8} (fits : fields.Fits)
    (payload : fields.dataLength ≤ data.length)
    (holds : ((host.peers index).channels channelID).Holds reliable address
      fields.fragmentCount fields.totalLength) :
    host.addFragmentChecked index channelID reliable address fields data =
      some (host.addFragment index channelID reliable address fields data) := by
  obtain ⟨incoming, member, rfl, count, length⟩ := holds
  have found : host.startCommand index channelID reliable incoming.address = some incoming :=
    find_address (((bounded index).distinct channelID).nodup reliable) member
  have number := fits.number
  have bytes := fits.bytes
  have copied : incoming.copyLength fields.fragmentOffset fields.dataLength =
      fields.dataLength := by
    unfold IncomingCommand.copyLength
    refine if_neg ?_
    have wraps : u32 (fields.fragmentOffset + fields.dataLength) ≤
        fields.fragmentOffset + fields.dataLength := Nat.mod_le _ _
    omega
  unfold Host.addFragmentChecked
  rw [found]
  dsimp only
  rw [copied, if_neg (by unfold IncomingCommand.bitmapWords; omega)]
  split
  next known =>
      unfold Host.addFragment
      rw [found]
      dsimp only
      rw [if_pos known]
  · rw [if_neg (by omega), if_neg (by omega)]

/-- The command that a search found is the one a fragment is put in. -/
theorem addFragmentChecked_found (bounded : Bounded host) {channelID : Nat} {reliable : Bool}
    {command : Protocol} {fields : SendFragment} {incoming : IncomingCommand} {data : List UInt8}
    (own : ¬Host.isForeign command fields incoming = true)
    (member : incoming ∈ ((host.peers index).channels channelID).incomingCommands reliable)
    (fits : fields.Fits) (payload : fields.dataLength ≤ data.length) :
    host.addFragmentChecked index channelID reliable incoming.address fields data =
      some (host.addFragment index channelID reliable incoming.address fields data) := by
  simp only [Host.isForeign, Bool.or_eq_true, decide_eq_true_eq, not_or, not_not] at own
  exact bounded.addFragmentChecked fits payload
    ⟨incoming, member, rfl, own.2.symm, own.1.2.symm⟩

/-- The command that was queued for a fragment is the one it is put in. -/
theorem addFragmentChecked_queued (bounded : Bounded host) {address : Nat} {reliable : Bool}
    {command : Protocol} {fields : SendFragment} {flags : PacketFlags} {data : List UInt8}
    (queues : host.queueIncomingCommand index command none fields.totalLength flags
      fields.fragmentCount = (host', .command address))
    (kind : command.command.IsFragment reliable) (fits : fields.Fits)
    (payload : fields.dataLength ≤ data.length) :
    host'.addFragmentChecked index command.channelID reliable address fields data =
      some (host'.addFragment index command.channelID reliable address fields data) := by
  have queued := @queueIncomingCommand host index bounded command none fields.totalLength
    flags fields.fragmentCount
  rw [queues] at queued
  exact queued.addFragmentChecked fits payload
    (Host.holds_of_queued kind (Nat.zero_lt_of_lt fits.number) queues)

theorem handleSendFragmentChecked (bounded : Bounded host) {command : Protocol}
    {fields : SendFragment} (data : List UInt8)
    (kind : command.command = .sendFragment fields) :
    host.handleSendFragmentChecked index command fields data =
      some (host.handleSendFragment index command fields data) := by
  unfold Host.handleSendFragmentChecked Host.handleSendFragment
  dsimp only
  split
  · rfl
  next accepted =>
      rw [Bool.or_eq_true, not_or] at accepted
      obtain ⟨takes, length⟩ := Host.takes_of_rejectsData accepted.1
      have payload : fields.dataLength ≤ data.length := by
        rw [kind] at length
        exact length
      rw [if_neg (by simp [bounded.hasChannel takes])]
      split
      · rfl
      · split
        · rfl
        next inside =>
            have fits : fields.Fits := ⟨by omega, by omega, by omega⟩
            cases found : ((host.peers index).channels command.channelID).searchReliable
                fields.startSequenceNumber with
            | found incoming =>
                dsimp only
                split
                · rfl
                next own =>
                    have member := (Channel.search_found found).1
                    rw [@addFragmentChecked_found host index bounded command.channelID true _ _ _ _
                      own member fits payload]
                    rfl
            | place before after =>
                have kept : command.command.IsFragment true := by rw [kind]; rfl
                dsimp only
                rcases result : host.queueIncomingCommand index
                  { command with reliableSequenceNumber := fields.startSequenceNumber } none
                  fields.totalLength ⟨true, false, false, false⟩ fields.fragmentCount with
                  ⟨host', queued⟩
                cases queued with
                | command address =>
                    dsimp only
                    rw [@addFragmentChecked_queued host host' index bounded address true
                      { command with reliableSequenceNumber := fields.startSequenceNumber } fields _
                      data result kept fits payload]
                    rfl
                | _ => rfl

theorem handleSendUnreliableFragmentChecked (bounded : Bounded host) {command : Protocol}
    {fields : SendFragment} (data : List UInt8)
    (kind : command.command = .sendUnreliableFragment fields) :
    host.handleSendUnreliableFragmentChecked index command fields data =
      some (host.handleSendUnreliableFragment index command fields data) := by
  unfold Host.handleSendUnreliableFragmentChecked Host.handleSendUnreliableFragment
  dsimp only
  split
  · rfl
  next accepted =>
      obtain ⟨takes, length⟩ := Host.takes_of_rejectsData accepted
      have payload : fields.dataLength ≤ data.length := by
        rw [kind] at length
        exact length
      rw [if_neg (by simp [bounded.hasChannel takes])]
      split
      · rfl
      · split
        · rfl
        · split
          · rfl
          next inside =>
            have fits : fields.Fits := ⟨by omega, by omega, by omega⟩
            cases found : ((host.peers index).channels command.channelID).searchUnreliable
                command.reliableSequenceNumber fields.startSequenceNumber with
            | found incoming =>
                dsimp only
                split
                · rfl
                next own =>
                    have member := (Channel.search_found found).1
                    rw [@addFragmentChecked_found host index bounded command.channelID false _ _ _ _
                      own member fits payload]
                    rfl
            | place before after =>
                have kept : command.command.IsFragment false := by rw [kind]; rfl
                dsimp only
                rcases result : host.queueIncomingCommand index command none fields.totalLength
                  ⟨false, false, false, true⟩ fields.fragmentCount with ⟨host', queued⟩
                cases queued with
                | command address =>
                    dsimp only
                    rw [bounded.addFragmentChecked_queued result kept fits payload]
                    rfl
                | _ => rfl

/-! ## Acknowledged commands -/

/-- **The removal of an acknowledged command looks up a channel of the array only.** -/
theorem removeSentReliableCommandChecked (bounded : Bounded host) (number channelID : Nat) :
    host.removeSentReliableCommandChecked index number channelID =
      some (host.removeSentReliableCommand index number channelID) := by
  have takes : ((host.peers index).takeSentReliableCommand number channelID).1.hasChannel
      channelID = (host.peers index).hasChannel channelID ∧
      ((host.peers index).takeSentReliableCommand number channelID).1.channelCount =
        (host.peers index).channelCount := by
    unfold Peer.takeSentReliableCommand
    split
    · exact ⟨rfl, rfl⟩
    · split
      · exact ⟨rfl, rfl⟩
      · split <;> exact ⟨rfl, rfl⟩
  have closes : ((host.peers index).takeSentReliableCommand number
      channelID).1.closeCommandWindowChecked number channelID =
      some (((host.peers index).takeSentReliableCommand number
        channelID).1.closeCommandWindow number channelID) := by
    unfold Peer.closeCommandWindowChecked Peer.closeCommandWindow
    rw [takes.1, takes.2]
    split
    next below => exact if_pos (bounded.hasChannel_of_lt below)
    · rfl
  have removes : (host.peers index).removeSentReliableCommandChecked number channelID =
      some ((host.peers index).removeSentReliableCommand number channelID) := by
    unfold Peer.removeSentReliableCommandChecked Peer.removeSentReliableCommand
    dsimp only
    rw [closes]
    cases ((host.peers index).takeSentReliableCommand number channelID).2 with
    | none => rfl
    | some outgoing => rfl
  unfold Host.removeSentReliableCommandChecked
  rw [removes]
  rfl

theorem handleAcknowledgeChecked (bounded : Bounded host) (event : Option Event)
    (channelID received sentTime : Nat) :
    host.handleAcknowledgeChecked event index channelID received sentTime =
      some (host.handleAcknowledge event index channelID received sentTime) := by
  unfold Host.handleAcknowledgeChecked Host.handleAcknowledge
  dsimp only
  split
  · rfl
  · split
    · rfl
    next current =>
        have measured : Bounded (host.setPeer index ((host.peers index).updateRoundTripTime
            host.serviceTime (max (timeDifference host.serviceTime
              (Host.receivedSentTime host.serviceTime sentTime)) 1))) :=
          edits (@Edits.of_quiet index _ _ (.updateRoundTripTime host index current)) bounded
        have removed := edits (.single (@Edit.removeSent index _ received channelID)) measured
        rw [measured.removeSentReliableCommandChecked, Option.bind_some]
        exact if_pos (removed.hasChannels index)

theorem handleVerifyConnectChecked (bounded : Bounded host) (event : Option Event)
    (fields : VerifyConnect) :
    host.handleVerifyConnectChecked event index fields =
      some (host.handleVerifyConnect event index fields) := by
  unfold Host.handleVerifyConnectChecked Host.handleVerifyConnect
  dsimp only
  rw [bounded.removeSentReliableCommandChecked]
  split
  · rfl
  · split <;> rfl

/-- **An acknowledgement looks up a channel of the array only.** -/
theorem queueAcknowledgementChecked (bounded : Bounded host) (command : Protocol)
    (sentTime : Nat) :
    host.queueAcknowledgementChecked index command sentTime =
      some (host.queueAcknowledgement index command sentTime) := by
  unfold Host.queueAcknowledgementChecked Host.queueAcknowledgement
  dsimp only
  by_cases below : command.channelID < (host.peers index).channelCount
  · rw [if_pos below, bounded.hasChannel_of_lt below]
    simp only [Bool.not_true, Bool.false_eq_true, if_false, below, true_and]
    split <;> rfl
  · exact (if_neg below).trans (congrArg some (if_neg fun both => below both.1).symm)

theorem acknowledgeCommandChecked (bounded : Bounded host) (command : Protocol)
    (sentTime : Nat) :
    host.acknowledgeCommandChecked index command sentTime =
      some (host.acknowledgeCommand index command sentTime) := by
  unfold Host.acknowledgeCommandChecked Host.acknowledgeCommand
  rw [bounded.queueAcknowledgementChecked]
  cases (host.peers index).state with
  | acknowledgingDisconnect =>
      cases command.command with
      | disconnect data => rfl
      | _ => rfl
  | _ => rfl

/-! ## The loop -/

theorem handleCommandChecked (bounded : Bounded host) (event : Option Event) (command : Protocol)
    (data : List UInt8) :
    host.handleCommandChecked event index command data =
      some (host.handleCommand event index command data) := by
  have data' := bounded.handleDataChecked index command data
  unfold Host.handleCommandChecked Host.handleCommand
  cases same : command.command with
  | acknowledge received sentTime => exact bounded.handleAcknowledgeChecked ..
  | verifyConnect fields => exact bounded.handleVerifyConnectChecked ..
  | disconnect data =>
      exact congrArg (Option.map _) (if_pos (bounded.hasChannels index))
  | sendReliable dataLength => dsimp only; rw [data']; rfl
  | sendUnreliable number dataLength => dsimp only; rw [data']; rfl
  | sendUnsequenced group dataLength => dsimp only; rw [data']; rfl
  | sendFragment fields => dsimp only; rw [bounded.handleSendFragmentChecked data same]; rfl
  | sendUnreliableFragment fields =>
      dsimp only
      rw [bounded.handleSendUnreliableFragmentChecked data same]
      rfl
  | _ => rfl

theorem acknowledgeStageChecked (bounded : Bounded host) (command : Protocol)
    (sentTime : Option Nat) :
    host.acknowledgeStageChecked index command sentTime =
      some (host.acknowledgeStage index command sentTime) := by
  unfold Host.acknowledgeStageChecked Host.acknowledgeStage
  split
  · cases sentTime with
    | none => rfl
    | some time => exact congrArg (Option.map _) (bounded.acknowledgeCommandChecked command time)
  · rfl

theorem commandStepChecked (bounded : Bounded host) (event : Option Event) (sentTime : Option Nat)
    (command : Protocol) (data : List UInt8) :
    host.commandStepChecked event index sentTime command data =
      some (host.commandStep event index sentTime command data) := by
  unfold Host.commandStepChecked Host.commandStep
  dsimp only
  have observed : Bounded (host.hear index command data sentTime.isSome) := bounded
  have handles := Edits.handleCommand (host.hear index command data sentTime.isSome) event index
    command data sentTime.isSome (host.hears_hear index command data sentTime.isSome)
  generalize host.hear index command data sentTime.isSome = seen at observed handles ⊢
  rw [observed.handleCommandChecked, Option.bind_some]
  rcases handled : seen.handleCommand event index command data with ⟨host', event', failed⟩
  rw [handled] at handles
  cases failed with
  | true => rfl
  | false =>
      have still := edits handles observed
      dsimp only
      rw [if_neg Bool.false_ne_true, still.acknowledgeStageChecked]
      rfl

theorem handleConnect (bounded : Bounded host) (fields : Connect) :
    Bounded (host.handleConnect fields).1 := by
  cases free : host.freePeer with
  | none =>
      unfold Host.handleConnect
      rw [free]
      split <;> exact bounded
  | some slot => exact edits (.handleConnect host fields free) bounded

/-- What a turn of the loop leaves. -/
theorem incomingStep (bounded : Bounded host) (event : Option Event) (peer sentTime : Option Nat)
    (bytes : List UInt8) : Bounded (host.incomingStep event peer sentTime bytes).1 := by
  unfold Host.incomingStep
  split
  · exact bounded
  · dsimp only
    split
    · split
      next fields _ =>
          have accepts := bounded.handleConnect fields
          split
          next accepted => rw [accepted] at accepts; exact accepts
          next accepted =>
              rw [accepted] at accepts
              exact edits (.acknowledgeStage ..) accepts
      · exact bounded
    · exact edits (.commandStep ..) bounded

/-- **A turn of the loop stays in bounds**, and moves `currentData` on. -/
theorem incomingStepChecked (bounded : Bounded host) (event : Option Event)
    (peer sentTime : Option Nat) (bytes behind : List UInt8) {currentData : Nat}
    (inside : currentData ≤ bytes.length) :
    ∃ next, host.incomingStepChecked event peer sentTime (bytes ++ behind) bytes.length
        currentData =
      some ((host.incomingStep event peer sentTime (bytes.drop currentData)).1,
        (host.incomingStep event peer sentTime (bytes.drop currentData)).2.1,
        (host.incomingStep event peer sentTime (bytes.drop currentData)).2.2.1, next) ∧
      (host.incomingStep event peer sentTime (bytes.drop currentData)).2.2.2 =
        next.map bytes.drop ∧ ∀ place ∈ next, currentData < place := by
  unfold Host.incomingStepChecked Host.incomingStep
  rw [Protocol.readAt_append bytes behind inside]
  cases decoded : Protocol.decode (bytes.drop currentData) with
  | none => exact ⟨none, rfl, rfl, by simp⟩
  | some command =>
      have size := Protocol.size_of_decode decoded
      dsimp only
      cases peer with
      | none =>
          cases same : command.command with
          | connect fields =>
              have accepts : Bounded (host.handleConnect fields).1 := bounded.handleConnect fields
              dsimp only
              rcases accepted : host.handleConnect fields with ⟨host', slot⟩
              rw [accepted] at accepts
              cases slot with
              | none => exact ⟨none, rfl, rfl, by simp⟩
              | some index =>
                  dsimp only
                  rw [accepts.acknowledgeStageChecked]
                  refine ⟨_, rfl, ?_, ?_⟩
                  · dsimp only
                    split
                    · rfl
                    · rw [List.drop_drop, Option.map_some]
                  · dsimp only
                    split
                    · simp
                    · rintro place ⟨⟩
                      omega
          | _ => exact ⟨none, rfl, rfl, by simp⟩
      | some index =>
          have data : ((bytes ++ behind).take bytes.length).drop (currentData + command.size) =
              (bytes.drop currentData).drop command.size := by
            rw [List.take_left, List.drop_drop]
          dsimp only
          rw [data, bounded.commandStepChecked]
          refine ⟨_, rfl, ?_, ?_⟩
          · split
            · rfl
            · rw [List.drop_drop, List.drop_drop, Option.map_some, Nat.add_assoc]
          · split
            · simp
            · rintro place ⟨⟩
              omega

theorem incomingLoopChecked (bytes behind : List UInt8) (fuel : Nat) :
    ∀ (host : Host) (event : Option Event) (peer sentTime : Option Nat) (currentData : Nat),
      Bounded host → bytes.length - currentData ≤ fuel →
        Host.incomingLoopChecked (bytes ++ behind) bytes.length (fuel + 1) host event peer sentTime
            currentData =
          some (Host.incomingLoop fuel host event peer sentTime (bytes.drop currentData)) := by
  induction fuel with
  | zero =>
      intro host event peer sentTime currentData bounded left
      unfold Host.incomingLoopChecked
      rw [if_pos (by omega)]
      rfl
  | succ fuel ih =>
      intro host event peer sentTime currentData bounded left
      unfold Host.incomingLoopChecked Host.incomingLoop
      by_cases done : bytes.length ≤ currentData
      · rw [if_pos done, List.drop_eq_nil_of_le done]
        rfl
      · have some : ¬(bytes.drop currentData).isEmpty = true := by
          rw [List.isEmpty_iff, List.drop_eq_nil_iff]
          exact done
        obtain ⟨next, checked, rest, moves⟩ := bounded.incomingStepChecked event peer sentTime bytes
          behind (Nat.le_of_not_le done)
        have still := bounded.incomingStep event peer sentTime (bytes.drop currentData)
        rw [if_neg done, if_neg some, checked, Option.bind_some]
        rcases stepped : host.incomingStep event peer sentTime (bytes.drop currentData) with
          ⟨host', event', peer', rest'⟩
        rw [stepped] at rest still
        cases next with
        | none =>
            subst rest
            rfl
        | some place =>
            have further := moves place rfl
            subst rest
            dsimp only
            rw [if_neg (by omega)]
            exact ih host' event' peer' sentTime place still (by omega)

end Bounded

/-- **The command loop ends and stays in bounds.** In any state that calls pass
through, whatever the datagram holds behind its header, and whatever follows it
in the receive buffer, no access of the loop falls outside, `currentData` grows
in every turn, and as many turns as the datagram has bytes are enough. -/
theorem incomingLoop_safe {activity : Activity} (visited : Visited activity) (opened : Opened)
    (event : Option Event) (behind : List UInt8) :
    Host.incomingLoopChecked (opened.bytes ++ behind) opened.bytes.length
        (opened.bytes.length + 1) (activity.1.noteDatagram opened) event opened.peer
        opened.sentTime opened.headerSize =
      some (Host.incomingLoop opened.bytes.length (activity.1.noteDatagram opened) event
        opened.peer opened.sentTime (opened.bytes.drop opened.headerSize)) :=
  Bounded.incomingLoopChecked opened.bytes behind opened.bytes.length _ event opened.peer
    opened.sentTime opened.headerSize ((Bounded.visited visited).noteDatagram opened)
    (Nat.sub_le _ _)

/-- A connected peer sends the first of two fragments, and a command cut short. -/
def fragmentDatagram : Opened where
  peer := some 0
  sentTime := some 1
  bytes := [0x80, 0, 0, 1] ++
    (⟨.sendFragment ⟨1, 2, 2, 0, 4, 0⟩, true, false, 0, 1⟩ : Protocol).encode ++ [65, 66] ++
      [6, 0, 0]
  headerSize := 4

theorem incomingLoop_safe_fragment :
    ∃ host, servedHost connectDatagrams 2 = some host ∧
      (Host.incomingLoopChecked (fragmentDatagram.bytes ++ [0, 9, 0, 0]) 33 34
        (host.noteDatagram fragmentDatagram) none (some 0) (some 1) 4).isSome = true := by
  have served : (servedHost connectDatagrams 2).isSome = true := by decide +kernel
  obtain ⟨host, serves⟩ := Option.isSome_iff_exists.mp served
  have safe := @incomingLoop_safe (host, none)
    (.of_reachable (servedHost_reachable serves) rfl) fragmentDatagram none [0, 9, 0, 0]
  have length : fragmentDatagram.bytes.length = 33 := by decide
  rw [length] at safe
  exact ⟨host, serves, Option.isSome_iff_exists.mpr ⟨_, safe⟩⟩

end Enet
