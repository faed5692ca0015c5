import Enet.Channels.Dispatch
import Enet.Runs.Sides

/-!
# Queued commands

What `enet_peer_queue_incoming_command` allocates for a received command, and
that the command of a fragment stays in its list when it is queued: it is not
complete, and the dispatch behind the insertion spares the command just queued.
-/

set_option autoImplicit false

namespace Enet

/-! ## Allocation -/

namespace Heap

theorem malloc_some {heap heap' : Heap} {address : Nat}
    (allocated : heap.malloc = (heap', some address)) :
    address = heap.nextAddress ∧ heap'.nextAddress = heap.nextAddress + 1 := by
  unfold malloc at allocated
  rw [Prod.mk.injEq] at allocated
  obtain ⟨rfl, taken⟩ := allocated
  split at taken
  · cases taken
    exact ⟨rfl, rfl⟩
  · cases taken

theorem malloc_of_memory {heap : Heap}
    (memory : ∀ allocation, heap.mallocSucceeds allocation = true) :
    ∃ heap' address, heap.malloc = (heap', some address) ∧
      ∀ allocation, heap'.mallocSucceeds allocation = true := by
  refine ⟨{ heap with nextAddress := heap.nextAddress + 1 }, heap.nextAddress, ?_, memory⟩
  unfold malloc
  rw [if_pos (memory _)]

@[simp] theorem acquire_nextAddress (heap : Heap) (packet : Packet) :
    (heap.acquire packet).nextAddress = heap.nextAddress := rfl

end Heap

/-- The commands whose packet arrives in fragments, with the list that they wait in. -/
def Command.IsFragment (reliable : Bool) : Command → Prop
  | sendFragment _ => reliable = true
  | sendUnreliableFragment _ => reliable = false
  | _ => False

theorem Command.IsFragment.reliable {command : Command} (kind : command.IsFragment true) :
    ∃ fields, command = .sendFragment fields := by
  cases command with
  | sendFragment fields => exact ⟨fields, rfl⟩
  | _ => cases kind

theorem Command.IsFragment.unreliable {command : Command} (kind : command.IsFragment false) :
    ∃ fields, command = .sendUnreliableFragment fields := by
  cases command with
  | sendUnreliableFragment fields => exact ⟨fields, rfl⟩
  | _ => cases kind

/-- A received command that was allocated, with its packet and its bitmap. -/
structure Allocated (heap heap' : Heap) (command : Protocol) (data : Option (List UInt8))
    (dataLength fragmentCount : Nat) (incoming : IncomingCommand) : Prop where
  received : incoming.command = command
  number : incoming.reliableSequenceNumber = command.reliableSequenceNumber
  unreliableNumber : command.command.IsFragment false →
    incoming.unreliableSequenceNumber = command.unreliableSequenceNumber
  fragments : incoming.fragmentCount = fragmentCount
  remaining : incoming.fragmentsRemaining = fragmentCount
  missing : incoming.fragments = fun _ => false
  empty : data = none → incoming.packet.dataLength = dataLength
  contents : ∀ bytes, data = some bytes → 0 < dataLength → incoming.packet.data = bytes
  nothing : dataLength = 0 → incoming.packet.data = []
  fresh : heap.nextAddress ≤ incoming.address
  below : incoming.address < heap'.nextAddress

theorem Heap.createPacket_spec {heap heap' : Heap} {data : Option (List UInt8)} {dataLength : Nat}
    {flags : PacketFlags} {packet : Packet}
    (created : heap.createPacket data dataLength flags = (heap', some packet)) :
    (data = none → packet.dataLength = dataLength) ∧
      (∀ bytes, data = some bytes → 0 < dataLength → packet.data = bytes) ∧
      (dataLength = 0 → packet.data = []) ∧ heap.nextAddress ≤ heap'.nextAddress := by
  unfold createPacket at created
  split at created
  · cases created
  next first _ allocated =>
      obtain ⟨-, grown⟩ := malloc_some allocated
      split at created
      next empty =>
          cases created
          exact ⟨fun _ => empty.symm, fun bytes given positive => by omega, fun _ => rfl, by omega⟩
      next filled =>
        split at created
        · cases created
        next second _ allocated =>
            obtain ⟨-, grows⟩ := malloc_some allocated
            cases created
            refine ⟨fun none => ?_, fun bytes given positive => ?_,
              fun empty => absurd empty filled, by omega⟩
            · subst none
              simp [Packet.dataLength]
            · subst given
              rfl

/-- The fragment of an unreliable packet keeps its number. -/
theorem Command.IsFragment.numbers (command : Protocol)
    (kind : command.command.IsFragment false) :
    (match command.command with
      | .sendUnreliable .. | .sendUnreliableFragment _ => command.unreliableSequenceNumber
      | _ => 0) = command.unreliableSequenceNumber := by
  obtain ⟨fields, same⟩ := kind.unreliable
  rw [same]

theorem allocateIncoming_spec {heap heap' : Heap} {command : Protocol}
    {data : Option (List UInt8)} {dataLength : Nat} {flags : PacketFlags} {fragmentCount : Nat}
    {incoming : IncomingCommand}
    (allocated : Host.allocateIncoming heap command data dataLength flags fragmentCount =
      (heap', some incoming)) :
    Allocated heap heap' command data dataLength fragmentCount incoming := by
  unfold Host.allocateIncoming at allocated
  split at allocated
  · cases allocated
  next first packet created =>
      obtain ⟨empty, contents, nothing, grows⟩ := Heap.createPacket_spec created
      have fragmentNumber := Command.IsFragment.numbers command
      split at allocated
      · cases allocated
      next second address made =>
          obtain ⟨taken, grown⟩ := Heap.malloc_some made
          dsimp only at allocated
          split at allocated
          next none =>
              cases allocated
              refine ⟨rfl, rfl, fragmentNumber, rfl, rfl, rfl, empty, contents, nothing, ?_, ?_⟩
              · dsimp only
                omega
              · dsimp only
                rw [Heap.acquire_nextAddress]
                omega
          · split at allocated
            · cases allocated
            · split at allocated
              · cases allocated
              next third _ made' =>
                  obtain ⟨-, grown'⟩ := Heap.malloc_some made'
                  cases allocated
                  refine ⟨rfl, rfl, fragmentNumber, rfl, rfl, rfl, empty, contents, nothing, ?_, ?_⟩
                  · dsimp only
                    omega
                  · dsimp only
                    rw [Heap.acquire_nextAddress]
                    omega

/-! ## Dispatching -/

/-- The channel that a dispatch leaves. -/
theorem Host.installDispatched_channel (host : Host) (index channelID : Nat)
    (dispatched : Channel.Dispatched) :
    ((host.installDispatched index channelID dispatched).peers index).channels channelID =
      dispatched.channel := by
  unfold installDispatched
  dsimp only
  split
  · rw [setPeer_self]
    exact Function.update_self ..
  · rw [scheduleDispatch_peer, setPeer_self]
    exact Function.update_self ..

/-! ## Fragments -/

/-- A channel holds the command of a fragment's packet at an address. -/
def Channel.Holds (channel : Channel) (reliable : Bool) (address fragmentCount totalLength : Nat) :
    Prop :=
  ∃ incoming ∈ channel.incomingCommands reliable, incoming.address = address ∧
    incoming.fragmentCount = fragmentCount ∧ incoming.packet.dataLength = totalLength

theorem Channel.isUnsequenced_of_isFragment {incoming : IncomingCommand} {reliable : Bool}
    (kind : incoming.command.command.IsFragment reliable) : isUnsequenced incoming = false := by
  unfold isUnsequenced
  split
  next same => rw [same] at kind; cases kind
  · rfl

/-- An incomplete command stays in its list when it is inserted. -/
theorem Channel.insertIncoming_keeps {channel : Channel} {incoming : IncomingCommand}
    {reliable : Bool} {placement : Placement} (placed : channel.place incoming.command = placement)
    (taken : placement ≠ .discard) (kind : incoming.command.command.IsFragment reliable)
    (incomplete : 0 < incoming.fragmentsRemaining) :
    incoming ∈ (channel.insertIncoming incoming placement).channel.incomingCommands reliable := by
  unfold Channel.place at placed
  cases placement with
  | discard => exact absurd rfl taken
  | reliable before after =>
      have listed : reliable = true := by
        cases same : incoming.command.command with
        | sendFragment fields => rw [same] at kind; exact kind
        | sendUnreliableFragment fields =>
            rw [same] at placed
            exact absurd placed (placeUnreliable_ne_reliable _ _ _)
        | _ => rw [same] at kind; cases kind
      subst listed
      exact dispatchReliable_keeps (by simp) incomplete _
  | unreliable before after =>
      have listed : reliable = false := by
        cases same : incoming.command.command with
        | sendFragment fields =>
            rw [same] at placed
            exact absurd placed (placeReliable_ne_unreliable _ _)
        | sendUnreliableFragment fields => rw [same] at kind; exact kind
        | _ => rw [same] at kind; cases kind
      subst listed
      exact dispatchUnreliable_keeps (by simp) (isUnsequenced_of_isFragment kind) incomplete

/-- **A fragment's command stays in its list once it is queued.** -/
theorem Host.holds_of_queued {host host' : Host} {index : Nat} {command : Protocol}
    {dataLength : Nat} {flags : PacketFlags} {fragmentCount address : Nat} {reliable : Bool}
    (kind : command.command.IsFragment reliable) (fragments : 0 < fragmentCount)
    (queued : host.queueIncomingCommand index command none dataLength flags fragmentCount =
      (host', .command address)) :
    ((host'.peers index).channels command.channelID).Holds reliable address fragmentCount
      dataLength := by
  unfold queueIncomingCommand at queued
  dsimp only at queued
  rw [if_pos fragments] at queued
  split at queued
  · cases queued
  · split at queued
    · cases queued
    next taken =>
      split at queued
      · cases queued
      · split at queued
        · cases queued
        next heap incoming allocated =>
          have spec := allocateIncoming_spec allocated
          rw [Prod.mk.injEq, Queued.command.injEq] at queued
          obtain ⟨same, rfl⟩ := queued
          have channel : (host'.peers index).channels command.channelID =
              (((host.peers index).channels command.channelID).insertIncoming incoming
                (((host.peers index).channels command.channelID).place command)).channel := by
            rw [← same]
            exact installDispatched_channel ..
          have incomplete : 0 < incoming.fragmentsRemaining := by
            rw [spec.remaining]
            exact fragments
          refine ⟨incoming, ?_, rfl, spec.fragments, spec.empty rfl⟩
          rw [channel]
          refine Channel.insertIncoming_keeps (by rw [spec.received]) taken ?_ incomplete
          rw [spec.received]
          exact kind

end Enet
