import Enet.Channels.Conserved
import Enet.Runs.Rules

/-!
# What a data handler does to its peer

A received command is put in a list of its channel, or a fragment in a command
that waits there; then the channel is dispatched. The other channels of the
peer, and its other queues, stay as they are, and no channel that a peer does
not use holds a command.
-/

set_option autoImplicit false

namespace Enet

namespace Host

/-! ## Dispatching -/

/-- The peer that a dispatch leaves, but for its flag. -/
theorem installDispatched_peer (host : Host) (index channelID : Nat)
    (dispatched : Channel.Dispatched) :
    ∃ flag, (host.installDispatched index channelID dispatched).peers index =
      (((host.peers index).setChannel channelID dispatched.channel).setDispatched
        ((host.peers index).dispatchedCommands ++ dispatched.moved)
        (host.peers index).totalWaitingData).setNeedsDispatch flag := by
  unfold installDispatched
  dsimp only
  split
  · exact ⟨(host.peers index).needsDispatch, by rw [setPeer_self]; rfl⟩
  · exact ⟨true, by rw [scheduleDispatch_peer, setPeer_self]⟩

theorem scheduleDispatch_heap (host : Host) (index : Nat) :
    (host.scheduleDispatch index).heap = host.heap := by
  unfold scheduleDispatch
  split <;> rfl

theorem installDispatched_heap (host : Host) (index channelID : Nat)
    (dispatched : Channel.Dispatched) :
    (host.installDispatched index channelID dispatched).heap =
      dispatched.removed.foldl Heap.removeIncoming host.heap := by
  unfold installDispatched
  dsimp only
  split
  · rfl
  · exact scheduleDispatch_heap _ index

/-! ## Queueing -/

/-- **What queueing a received command does**: nothing, or its allocations fail, or
it is allocated, inserted at its place, and the channel is dispatched. -/
theorem queueIncomingCommand_cases (host : Host) (index : Nat) (command : Protocol)
    (data : Option (List UInt8)) (dataLength : Nat) (flags : PacketFlags) (fragmentCount : Nat) :
    (host.queueIncomingCommand index command data dataLength flags fragmentCount).1 = host ∨
    (∃ heap, allocateIncoming host.heap command data dataLength flags fragmentCount =
        (heap, none) ∧
      (host.queueIncomingCommand index command data dataLength flags fragmentCount).1 =
        host.setHeap heap) ∨
    ∃ heap incoming, allocateIncoming host.heap command data dataLength flags fragmentCount =
        (heap, some incoming) ∧
      ((host.peers index).channels command.channelID).place command ≠ .discard ∧
      (host.peers index).AdmitsData host.maximumWaitingData ∧
      (host.queueIncomingCommand index command data dataLength flags fragmentCount).1 =
        ((host.setHeap heap).setPeer index
            ((host.peers index).setDispatched (host.peers index).dispatchedCommands
              ((host.peers index).totalWaitingData +
                incoming.packet.dataLength))).installDispatched index command.channelID
          (((host.peers index).channels command.channelID).insertIncoming incoming
            (((host.peers index).channels command.channelID).place command)) := by
  unfold queueIncomingCommand
  dsimp only
  split
  · exact .inl rfl
  next stays =>
    split
    · exact .inl rfl
    next placement placed =>
        split
        · exact .inl rfl
        next admitted =>
          split
          next heap allocated => exact .inr (.inl ⟨heap, allocated, rfl⟩)
          next heap incoming allocated =>
              exact .inr (.inr ⟨heap, incoming, allocated, placed,
                ⟨stays, Nat.lt_of_not_le admitted⟩, rfl⟩)

/-- What is read of a command is the same in a list where the command is replaced by
one that it reads the same of. -/
theorem writeCommand_map {α : Type} (reads : IncomingCommand → α) {incoming old : IncomingCommand}
    {commands : List IncomingCommand}
    (found : commands.find? (fun other => decide (other.address = incoming.address)) = some old)
    (same : reads incoming = reads old) :
    (writeCommand incoming commands).map reads = commands.map reads := by
  induction commands with
  | nil => cases found
  | cons head rest ih =>
      unfold writeCommand
      rw [List.find?_cons] at found
      split
      next here =>
          rw [decide_eq_true here] at found
          cases found
          rw [List.map_cons, List.map_cons, same]
      next other =>
          rw [decide_eq_false other] at found
          rw [List.map_cons, List.map_cons, ih found]

/-- **What the end of a fragment handler does**: nothing, or the fragment is
written into a command of the channel, and the channel may be dispatched. -/
theorem addFragment_cases (host : Host) (index channelID : Nat) (reliable : Bool) (address : Nat)
    (fields : SendFragment) (data : List UInt8) :
    host.addFragment index channelID reliable address fields data = host ∨
    ∃ incoming written,
      host.startCommand index channelID reliable written.address = some incoming ∧
      written = incoming.addFragment fields.fragmentNumber fields.fragmentOffset
        (data.take fields.dataLength) ∧
      (host.addFragment index channelID reliable address fields data =
        host.setStartCommand index channelID reliable written ∨
      ∃ dispatched : Channel.Dispatched, dispatched.commands =
          (((host.setStartCommand index channelID reliable written).peers index).channels
            channelID).commands ∧
        host.addFragment index channelID reliable address fields data =
          (host.setStartCommand index channelID reliable written).installDispatched index channelID
            dispatched) := by
  unfold addFragment
  split
  · exact .inl rfl
  next incoming found =>
      have here : incoming.address = address := by
        have holds := List.find?_some found
        exact of_decide_eq_true holds
      split
      · exact .inl rfl
      · refine .inr ⟨incoming, incoming.addFragment fields.fragmentNumber fields.fragmentOffset
          (data.take fields.dataLength), ?_, rfl, ?_⟩
        · rw [← here] at found
          exact found
        · dsimp only
          split
          · split
            · exact .inr ⟨_, Channel.dispatchReliable_conserves _ none, rfl⟩
            · exact .inr ⟨_, Channel.dispatchUnreliable_conserves _ none, rfl⟩
          · exact .inl rfl

end Host

/-! ## The other channels -/

/-- **A data handler changes one channel of its peer**, which the peer uses. -/
theorem ReceiveStep.channels {index : Nat} {available : List UInt8} {received : Heard}
    {host host' : Host} (step : ReceiveStep index available received host host') :
    (host'.peers index).channels = (host.peers index).channels ∨
      ∃ channelID, (host.peers index).Takes channelID ∧ ∀ other, other ≠ channelID →
        (host'.peers index).channels other = (host.peers index).channels other := by
  have dispatches : ∀ (before : Host) (channelID : Nat) (dispatched : Channel.Dispatched) other,
      other ≠ channelID →
      ((before.installDispatched index channelID dispatched).peers index).channels other =
        (before.peers index).channels other := by
    intro before channelID dispatched other different
    obtain ⟨flag, same⟩ := before.installDispatched_peer index channelID dispatched
    rw [same]
    exact Function.update_of_ne different ..
  cases step with
  | window group window => exact .inl (by rw [Host.setPeer_self]; rfl)
  | queue command data dataLength flags fragmentCount takes payload small few counted =>
      rcases host.queueIncomingCommand_cases index command data dataLength flags fragmentCount with
        same | ⟨heap, -, same⟩ | ⟨heap, incoming, -, -, -, same⟩
      · exact .inl (by rw [same])
      · exact .inl (by rw [same]; rfl)
      · refine .inr ⟨command.channelID, takes, fun other different => ?_⟩
        rw [same, dispatches _ _ _ other different, Host.setPeer_self]
        rfl
  | fragment channelID reliable address fields takes =>
      have writes : ∀ (written : IncomingCommand) other, other ≠ channelID →
          ((host.setStartCommand index channelID reliable written).peers index).channels other =
            (host.peers index).channels other := by
        intro written other different
        unfold Host.setStartCommand
        dsimp only
        rw [Host.setPeer_self]
        exact Function.update_of_ne different ..
      rcases host.addFragment_cases index channelID reliable address fields available with
        same | ⟨incoming, written, -, -, same | ⟨dispatched, -, same⟩⟩
      · exact .inl (by rw [same])
      · exact .inr ⟨channelID, takes, fun other different => by rw [same, writes _ _ different]⟩
      · refine .inr ⟨channelID, takes, fun other different => ?_⟩
        rw [same, dispatches _ _ _ other different, writes _ _ different]

end Enet
