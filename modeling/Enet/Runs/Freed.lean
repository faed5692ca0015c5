import Enet.Runs.Blocks

/-!
# What the queues free

The functions on the queues of a peer, one by one: a command that is moved keeps
its block, and one that is dropped, acknowledged or handed over is freed.
-/

set_option autoImplicit false

namespace Enet

open Library Finset

/-! ## Transmission -/

namespace OutgoingScan

/-- The blocks of a scan of the outgoing queues. -/
def blocks (scan : OutgoingScan) : Multiset Nat :=
  scan.pending.map OutgoingCommand.address + outgoingBlocks scan.sentUnreliable

/-- A turn of the loop frees what it does not keep. -/
def Handles (scan scan' : OutgoingScan) : Prop :=
  scan.heap.Handles scan'.heap scan.blocks scan'.blocks

variable {scan scan' scan'' : OutgoingScan}

theorem Handles.trans (first : scan.Handles scan') (second : scan'.Handles scan'') :
    scan.Handles scan'' :=
  Heap.Handles.trans first second

/-- The commands stay where they are. -/
theorem Handles.of_pending (heap : scan'.heap = scan.heap) (pending : scan'.pending = scan.pending)
    (sentUnreliable : scan'.sentUnreliable = scan.sentUnreliable) : scan.Handles scan' := by
  refine .of_same (by rw [heap]) (by rw [heap]) ?_
  rw [blocks, pending, sentUnreliable]
  rfl

theorem pass_handles (scan : OutgoingScan) (reliable : Bool) : scan.Handles (scan.pass reliable) :=
  .of_pending (by cases reliable <;> rfl) (scan.pass_pending reliable) (by cases reliable <;> rfl)

theorem skipReliable_handles (scan : OutgoingScan) : scan.Handles scan.skipReliable :=
  .of_pending rfl scan.skipReliable_pending rfl

theorem unlink_blocks {reliable : Bool} {outgoing : OutgoingCommand}
    (found : scan.next = some (reliable, outgoing)) :
    scan.blocks = {outgoing.address} + (scan.unlink reliable).blocks := by
  have kept : (scan.unlink reliable).sentUnreliable = scan.sentUnreliable := by
    cases reliable <;> rfl
  rw [blocks, blocks, unlink_pending found, Multiset.map_add, cores_blocks, kept, add_assoc]
  rfl

theorem sendReliable_handles (serviceTime : Nat) {reliable : Bool} {outgoing : OutgoingCommand}
    (found : scan.next = some (reliable, outgoing)) :
    scan.Handles (scan.forbidPing.sendReliable serviceTime reliable outgoing) :=
  .of_pending (by cases reliable <;> rfl) (sendReliable_pending serviceTime found)
    (by cases reliable <;> rfl)

theorem dropPacket_handles (number unreliableNumber : Nat) (rest : List OutgoingCommand) :
    ∀ heap : Heap, heap.Handles (dropPacket number unreliableNumber heap rest).1
      (outgoingBlocks rest)
      (outgoingBlocks (dropPacket number unreliableNumber heap rest).2) := by
  induction rest with
  | nil => intro heap; exact .refl heap _
  | cons outgoing rest ih =>
      intro heap
      unfold dropPacket
      split
      · have first := (Heap.Handles.removeOutgoing heap outgoing).beside (outgoingBlocks rest)
        rw [zero_add, ← outgoingBlocks_cons] at first
        exact first.trans (ih _)
      · exact .refl heap _

/-- **The throttle frees the commands that it drops.** -/
theorem dropThrottled_handles {reliable : Bool} {outgoing : OutgoingCommand}
    (found : scan.next = some (reliable, outgoing)) :
    scan.Handles (scan.dropThrottled reliable outgoing) := by
  have first := (Heap.Handles.removeOutgoing scan.heap outgoing).beside
    (scan.unlink reliable).blocks
  rw [zero_add, ← unlink_blocks found] at first
  -- what is not in the rest of the queue stays as it is
  obtain ⟨others, split⟩ : ∃ others : Multiset Nat, ∀ rest : List OutgoingCommand,
      ((scan.unlink reliable).setRest rest).blocks = outgoingBlocks rest + others := by
    refine ⟨outgoingBlocks (scan.unlink reliable).passed +
      outgoingBlocks ((scan.unlink reliable).passedReliable ++
        (scan.unlink reliable).restReliable) +
      outgoingBlocks (scan.unlink reliable).peer.sentReliableCommands +
      outgoingBlocks (scan.unlink reliable).sentUnreliable, fun rest => ?_⟩
    unfold blocks pending
    dsimp only [OutgoingScan.setRest]
    rw [Multiset.map_add, Multiset.map_add, cores_blocks, cores_blocks, cores_blocks,
      outgoingBlocks_append (scan.unlink reliable).passed rest]
    abel
  have drops := (dropPacket_handles outgoing.reliableSequenceNumber
    outgoing.unreliableSequenceNumber (scan.unlink reliable).rest
    ((scan.heap.releaseOption outgoing.packet).free outgoing.address)).beside others
  rw [← split, ← split] at drops
  exact first.trans drops

/-- **A command that is not to be acknowledged is held until the datagram is sent**, or
freed at once where it carries no packet. -/
theorem transmitUnreliable_handles {reliable : Bool} {outgoing : OutgoingCommand}
    (found : scan.next = some (reliable, outgoing)) :
    scan.Handles (scan.transmitUnreliable reliable outgoing) := by
  have unlinks := unlink_blocks found
  have same : (scan.unlink reliable).heap = scan.heap := by cases reliable <;> rfl
  have emits : ((scan.unlink reliable).emit outgoing).blocks = (scan.unlink reliable).blocks := rfl
  unfold transmitUnreliable
  dsimp only
  split
  · refine .of_same ?_ ?_ ?_
    · rw [← same]
      exact le_rfl
    · rw [← same]
      rfl
    · rw [unlinks]
      have adds : (((scan.unlink reliable).emit outgoing).addSentUnreliable outgoing).blocks =
          ((scan.unlink reliable).emit outgoing).pending.map OutgoingCommand.address +
            outgoingBlocks ((scan.unlink reliable).sentUnreliable ++ [outgoing]) := rfl
      rw [adds, outgoingBlocks_append, ← add_assoc]
      exact add_comm _ _
  · have frees := (Heap.Handles.free scan.heap outgoing.address).beside
      (scan.unlink reliable).blocks
    rw [zero_add, ← unlinks] at frees
    refine frees.congr rfl ?_ |>.trans (.of_same ?_ ?_ rfl)
    · exact emits
    · rw [← same]
      exact le_rfl
    · rw [← same]
      rfl

theorem step_handles (serviceTime : Nat) {reliable : Bool} {outgoing : OutgoingCommand}
    (found : scan.next = some (reliable, outgoing)) :
    scan.Handles (scan.step serviceTime reliable outgoing).1 := by
  have passes := scan.pass_handles reliable
  unfold step
  split
  · split
    · exact passes
    · split
      · exact passes.trans (skipReliable_handles _)
      · split
        · exact passes.trans (skipReliable_handles _)
        · split
          · exact Heap.Handles.refl ..
          · exact sendReliable_handles serviceTime found
  · split
    · exact Heap.Handles.refl ..
    · unfold sendUnreliable
      dsimp only
      split
      · exact @dropThrottled_handles (scan.setPeer (scan.peer.setThrottleCounter
          (throttleCounter scan.peer outgoing))) reliable outgoing found
      · exact @transmitUnreliable_handles (scan.setPeer (scan.peer.setThrottleCounter
          (throttleCounter scan.peer outgoing))) reliable outgoing found

theorem run_handles (serviceTime fuel : Nat) : ∀ scan : OutgoingScan,
    scan.Handles (run serviceTime fuel scan) := by
  induction fuel with
  | zero => intro scan; exact Heap.Handles.refl ..
  | succ fuel ih =>
      intro scan
      unfold run
      split
      · exact Heap.Handles.refl ..
      next reliable outgoing found =>
          have steps := scan.step_handles serviceTime found
          dsimp only
          split
          · exact steps.trans (ih _)
          · exact steps

end OutgoingScan

/-- **The check of the outgoing commands frees what it neither keeps nor sends.** -/
theorem Peer.checkOutgoingCommands_handles (peer : Peer) (heap : Heap) (datagram : Datagram)
    (sentUnreliable : List OutgoingCommand) (serviceTime : Nat) :
    let scan := peer.checkOutgoingCommands heap datagram sentUnreliable serviceTime
    heap.Handles scan.heap (peer.blocks + Enet.outgoingBlocks sentUnreliable)
      (scan.finish.blocks + Enet.outgoingBlocks scan.sentUnreliable) := by
  have sending := SendingOnly.checkOutgoingCommands peer heap datagram sentUnreliable serviceTime
  have runs := OutgoingScan.run_handles serviceTime
    (peer.outgoingCommands.length + peer.outgoingSendReliableCommands.length)
    (.start peer heap datagram sentUnreliable)
  have starts : (OutgoingScan.start peer heap datagram sentUnreliable).blocks =
      peer.outgoingBlocks + Enet.outgoingBlocks sentUnreliable := rfl
  have ends : (peer.checkOutgoingCommands heap datagram sentUnreliable serviceTime).blocks =
      (peer.checkOutgoingCommands heap datagram sentUnreliable
        serviceTime).finish.outgoingBlocks +
        Enet.outgoingBlocks (peer.checkOutgoingCommands heap datagram sentUnreliable
          serviceTime).sentUnreliable := rfl
  refine (Heap.Handles.beside runs peer.incomingBlocks).congr ?_ ?_
  · rw [starts, blocks]
    abel
  · rw [blocks, sending.incomingBlocks]
    refine Eq.trans ?_ (congrArg (· + peer.incomingBlocks) ends.symm)
    abel

/-! ## New commands -/

namespace Peer

theorem setupCommand_address (peer : Peer) (totalQueued : Nat) (outgoing : OutgoingCommand) :
    (peer.setupCommand totalQueued outgoing).address = outgoing.address := by
  have numbers : ((peer.countOutgoingData outgoing).numberOutgoingCommand outgoing).2.address =
      outgoing.address := by
    unfold numberOutgoingCommand
    split
    · rfl
    · split
      · rfl
      · split <;> rfl
  exact numbers

/-- A new command adds its block. -/
theorem setupOutgoingCommand_blocks (peer : Peer) (totalQueued : Nat)
    (outgoing : OutgoingCommand) :
    (peer.setupOutgoingCommand totalQueued outgoing).blocks =
      {outgoing.address} + peer.blocks := by
  have sending := SendingOnly.setupOutgoingCommand peer totalQueued outgoing
  rw [blocks, blocks, sending.incomingBlocks, outgoingBlocks, setupOutgoingCommand_pending,
    Multiset.map_add, cores_blocks, ← add_assoc]
  congr 2
  exact congrArg (fun address => ({address} : Multiset Nat))
    (peer.setupCommand_address totalQueued outgoing)

end Peer

namespace Host

/-- **A command that is queued is one new block.** -/
theorem queueOutgoingCommand_handles (host : Host) (index : Nat) (command : Protocol)
    (packet : Option Packet) (offset length : Nat) :
    host.heap.Handles (host.queueOutgoingCommand index command packet offset length).1.heap
      (host.peers index).blocks
      ((host.queueOutgoingCommand index command packet offset length).1.peers index).blocks := by
  unfold queueOutgoingCommand
  split
  next allocated => exact .malloc_unheld allocated _
  next heap address allocated =>
      have made := (Heap.Handles.malloc allocated).beside (host.peers index).blocks
      rw [zero_add] at made
      dsimp only
      unfold setupOutgoingCommand
      rw [setPeer_self, Peer.setupOutgoingCommand_blocks]
      cases packet with
      | none => exact made
      | some packet => exact made

theorem freeFragments_handles (fragments : List OutgoingCommand) : ∀ heap : Heap,
    heap.Handles (freeFragments heap fragments) (outgoingBlocks fragments) 0 := by
  induction fragments with
  | nil => intro heap; exact .refl heap 0
  | cons fragment rest ih =>
      intro heap
      have first := (Heap.Handles.free heap fragment.address).beside (outgoingBlocks rest)
      rw [zero_add, ← outgoingBlocks_cons] at first
      exact first.trans (ih _)

/-- **The fragments of a packet are all made, or all freed again.** -/
theorem makeFragments_handles {packet : Packet} {make : Nat → Nat → Nat → Nat → OutgoingCommand}
    (placed : ∀ address number offset length, (make address number offset length).address = address)
    (fuel : Nat) : ∀ (heap : Heap) (length number offset : Nat) (fragments : List OutgoingCommand),
    heap.Handles (makeFragments packet make fuel heap length number offset fragments).1
      (outgoingBlocks fragments)
      (outgoingBlocks
        ((makeFragments packet make fuel heap length number offset fragments).2.getD [])) := by
  induction fuel with
  | zero => intro heap length number offset fragments; exact freeFragments_handles fragments heap
  | succ fuel ih =>
      intro heap length number offset fragments
      unfold makeFragments
      split
      · dsimp only
        split
        next allocated =>
            exact (Heap.Handles.malloc_unheld allocated _).trans (freeFragments_handles fragments _)
        next heap' address allocated =>
            have made := (Heap.Handles.malloc allocated).beside (outgoingBlocks fragments)
            rw [zero_add] at made
            refine (made.congr rfl ?_).trans (ih ..)
            rw [outgoingBlocks_append, outgoingBlocks_cons, outgoingBlocks_nil, add_zero, placed,
              add_comm]
      · exact .refl heap _

theorem foldl_setupOutgoingCommand_blocks (index : Nat) (fragments : List OutgoingCommand) :
    ∀ host : Host,
      ((fragments.foldl (fun host fragment => host.setupOutgoingCommand index fragment)
        host).peers index).blocks = outgoingBlocks fragments + (host.peers index).blocks := by
  induction fragments with
  | nil => intro host; exact (zero_add _).symm
  | cons fragment rest ih =>
      intro host
      refine (ih (host.setupOutgoingCommand index fragment)).trans ?_
      unfold setupOutgoingCommand
      rw [setPeer_self, Peer.setupOutgoingCommand_blocks, outgoingBlocks_cons fragment rest]
      abel

theorem sendFragments_handles (host : Host) (index channelID : Nat) (packet : Packet) :
    host.heap.Handles (host.sendFragments index channelID packet).1.heap
      (host.peers index).blocks
      ((host.sendFragments index channelID packet).1.peers index).blocks := by
  have makes := @makeFragments_handles packet
    (makeFragment ((host.peers index).channels channelID) channelID packet
      (u32 ((packet.dataLength + host.fragmentLength index - 1) / host.fragmentLength index)))
    (fun _ _ _ _ => rfl) (packet.dataLength + 1) host.heap (host.fragmentLength index) 0 0 []
  have beside := makes.beside (host.peers index).blocks
  rw [outgoingBlocks_nil, zero_add] at beside
  unfold sendFragments
  dsimp only
  split
  · exact .refl _ _
  · split
    next heap made =>
        rw [made] at beside
        exact beside.congr rfl (zero_add _).symm
    next heap fragments made =>
        rw [made] at beside
        obtain ⟨same, -⟩ := foldl_setupOutgoingCommand_references index fragments
          (host.setHeap (fragments.foldl (fun heap _ => heap.acquire packet) heap))
        have acquires := Heap.foldl_acquire_arena packet fragments heap
        dsimp only
        rw [same, foldl_setupOutgoingCommand_blocks]
        refine beside.trans (.of_same ?_ ?_ rfl)
        · exact (congrArg Arena.next acquires).ge
        · exact congrArg Arena.freed acquires

/-- **A packet is sent in commands that are new blocks**, or in none. -/
theorem peerSend_handles (host : Host) (index channelID : Nat) (packet : Packet) :
    host.heap.Handles (host.peerSend index channelID packet).1.heap (host.peers index).blocks
      ((host.peerSend index channelID packet).1.peers index).blocks := by
  unfold peerSend
  dsimp only
  split
  · exact .refl _ _
  · split
    · exact sendFragments_handles ..
    · have queues := host.queueOutgoingCommand_handles index
        (sendCommand ((host.peers index).channels channelID) channelID packet) (some packet) 0
          packet.dataLength
      split
      next queued => rw [queued] at queues; exact queues
      next queued => rw [queued] at queues; exact queues

/-- **An acknowledged command is freed.** -/
theorem removeSentReliableCommand_handles (host : Host) (index number channelID : Nat) :
    host.heap.Handles (host.removeSentReliableCommand index number channelID).1.heap
      (host.peers index).blocks
      ((host.removeSentReliableCommand index number channelID).1.peers index).blocks := by
  have pending := (host.peers index).removeSentReliableCommand_pending number channelID
  have sending := Peer.SendingOnly.removeSentReliableCommand (host.peers index) number channelID
  unfold removeSentReliableCommand
  split
  · exact .refl _ _
  next peer outgoing removed =>
      rw [removed] at pending sending
      have frees := (Heap.Handles.removeOutgoing host.heap outgoing).beside peer.blocks
      rw [zero_add] at frees
      rw [setPeer_self]
      refine frees.congr ?_ rfl
      rw [Peer.blocks, Peer.blocks, ← sending.incomingBlocks, Peer.outgoingBlocks, pending,
        Multiset.map_add, cores_blocks, ← add_assoc]
      rfl

/-- **A packet that the application receives leaves a command that is freed.** -/
theorem peerReceive_handles (host : Host) (index : Nat) :
    host.heap.Handles (host.peerReceive index).1.heap (host.peers index).blocks
      ((host.peerReceive index).1.peers index).blocks := by
  unfold peerReceive
  dsimp only
  split
  · exact .refl _ _
  next command rest dispatched =>
      have less : (host.peers index).blocks = {command.address} +
          ((host.peers index).setDispatched rest (sub64 (host.peers index).totalWaitingData
            command.packet.dataLength)).blocks := by
        unfold Peer.blocks Peer.incomingBlocks Peer.received
        rw [dispatched, ← Multiset.cons_coe, ← Multiset.singleton_add, incomingBlocks_add,
          incomingBlocks_add]
        have queues : ((host.peers index).setDispatched rest (sub64
            (host.peers index).totalWaitingData command.packet.dataLength)).outgoingBlocks =
              (host.peers index).outgoingBlocks := rfl
        rw [queues, incomingBlocks_add]
        have first : incomingBlocks {command} = {command.address} := Multiset.map_singleton ..
        rw [first]
        dsimp only [Peer.setDispatched]
        abel
      have frees := (Heap.Handles.free (host.heap.unreference command.packet)
        command.address).beside ((host.peers index).setDispatched rest
          (sub64 (host.peers index).totalWaitingData command.packet.dataLength)).blocks
      rw [zero_add, ← less] at frees
      rw [setPeer_self]
      exact frees

/-! ## Received commands -/

/-- **A dispatch frees what it removes.** -/
theorem installDispatched_handles (host : Host) {index channelID : Nat}
    {dispatched : Channel.Dispatched} {added : Multiset Nat}
    (hasChannel : channelID < (host.peers index).channelCount)
    (conserved : incomingBlocks dispatched.commands =
      added + incomingBlocks ((host.peers index).channels channelID).commands) :
    host.heap.Handles (host.installDispatched index channelID dispatched).heap
      (added + (host.peers index).blocks)
      ((host.installDispatched index channelID dispatched).peers index).blocks := by
  obtain ⟨flag, peer⟩ := host.installDispatched_peer index channelID dispatched
  obtain ⟨others, before, after⟩ := Peer.received_split hasChannel
  have left := after dispatched.channel
    ((host.peers index).dispatchedCommands ++ dispatched.moved) (host.peers index).totalWaitingData
  have removes := (Heap.Handles.foldl_removeIncoming dispatched.removed host.heap).beside
    ((host.peers index).outgoingBlocks + incomingBlocks
      (↑((host.peers index).dispatchedCommands ++ dispatched.moved) +
        (dispatched.channel.commands + others)))
  rw [zero_add, ← host.installDispatched_heap index channelID dispatched] at removes
  refine removes.congr ?_ ?_
  · unfold Peer.blocks Peer.incomingBlocks
    rw [before]
    unfold Channel.Dispatched.commands at conserved
    simp only [incomingBlocks_add, ← Multiset.coe_add] at conserved ⊢
    calc _ = added + incomingBlocks ((host.peers index).channels channelID).commands +
          (incomingBlocks ↑(host.peers index).dispatchedCommands + incomingBlocks others +
            (host.peers index).outgoingBlocks) := by abel
      _ = _ := by
        rw [← conserved]
        abel
  · rw [peer]
    exact congrArg (fun received => (host.peers index).outgoingBlocks + incomingBlocks received)
      left

/-- A command written in its place keeps its block. -/
theorem setStartCommand_blocks (host : Host) {index channelID : Nat} {reliable : Bool}
    {incoming written : IncomingCommand}
    (hasChannel : channelID < (host.peers index).channelCount)
    (found : host.startCommand index channelID reliable written.address = some incoming)
    (same : written.address = incoming.address) :
    ((host.setStartCommand index channelID reliable written).peers index).blocks =
      (host.peers index).blocks := by
  have writes : ∀ commands : List IncomingCommand,
      commands.find? (fun other => decide (other.address = written.address)) = some incoming →
      incomingBlocks ↑(writeCommand written commands) = incomingBlocks ↑commands := by
    intro commands here
    exact congrArg Multiset.ofList (writeCommand_map IncomingCommand.address here same)
  obtain ⟨channel, stores, commands⟩ : ∃ channel : Channel,
      host.setStartCommand index channelID reliable written =
        host.setPeer index ((host.peers index).setChannel channelID channel) ∧
      incomingBlocks channel.commands =
        incomingBlocks ((host.peers index).channels channelID).commands := by
    refine ⟨_, rfl, ?_⟩
    unfold Channel.commands
    rw [incomingBlocks_add, incomingBlocks_add]
    cases reliable with
    | true => exact congrArg (· + _) (writes _ found)
    | false => exact congrArg (_ + ·) (writes _ found)
  obtain ⟨others, before, after⟩ := Peer.received_split hasChannel
  have left := after channel (host.peers index).dispatchedCommands
    (host.peers index).totalWaitingData
  rw [stores, setPeer_self]
  refine (congrArg (fun received => (host.peers index).outgoingBlocks + incomingBlocks received)
    left).trans ?_
  rw [Peer.blocks, Peer.incomingBlocks, before, incomingBlocks_add, incomingBlocks_add,
    incomingBlocks_add, incomingBlocks_add, commands]

/-- **A received command that is queued is one new block.** -/
theorem queueIncomingCommand_handles (host : Host) (index : Nat) (command : Protocol)
    (takes : (host.peers index).Takes command.channelID) (data : Option (List UInt8))
    (dataLength : Nat) (flags : PacketFlags) (fragmentCount : Nat) :
    host.heap.Handles
      (host.queueIncomingCommand index command data dataLength flags fragmentCount).1.heap
      (host.peers index).blocks
      ((host.queueIncomingCommand index command data dataLength flags fragmentCount).1.peers
        index).blocks := by
  have allocates := (Heap.Handles.allocateIncoming host.heap command data dataLength flags
    fragmentCount).beside (host.peers index).blocks
  rw [zero_add] at allocates
  rcases host.queueIncomingCommand_cases index command data dataLength flags fragmentCount with
    same | ⟨heap, allocated, same⟩ | ⟨heap, incoming, allocated, placed, -, same⟩
  · rw [same]
    exact .refl _ _
  · rw [allocated] at allocates
    rw [same]
    exact allocates.congr rfl (zero_add _).symm
  · rw [allocated] at allocates
    have inserts := Channel.insertIncoming_conserves
      ((host.peers index).channels command.channelID) incoming command placed
    rw [← Multiset.singleton_add] at inserts
    have adds := setPeer_self (host.setHeap heap) index ((host.peers index).setDispatched
      (host.peers index).dispatchedCommands
      ((host.peers index).totalWaitingData + incoming.packet.dataLength))
    have installs := installDispatched_handles ((host.setHeap heap).setPeer index
      ((host.peers index).setDispatched (host.peers index).dispatchedCommands
        ((host.peers index).totalWaitingData + incoming.packet.dataLength)))
      (show _ < _ by rw [adds]; exact takes.hasChannel)
      ((congrArg incomingBlocks inserts).trans
        ((incomingBlocks_add _ _).trans (by rw [adds]; rfl)))
    rw [← same, adds] at installs
    exact allocates.trans installs

/-- **A data handler frees the commands that it neither keeps nor moves.** -/
theorem receiveStep_handles {host host' : Host} {index : Nat} {available : List UInt8}
    {received : Heard} (step : ReceiveStep index available received host host') :
    host.heap.Handles host'.heap (host.peers index).blocks (host'.peers index).blocks := by
  cases step with
  | window group window =>
      rw [setPeer_self]
      exact .refl _ _
  | queue command data dataLength flags fragmentCount takes payload small few counted =>
      exact host.queueIncomingCommand_handles index command takes data dataLength flags
        fragmentCount
  | fragment channelID reliable address fields takes fits payload holds =>
      rcases host.addFragment_cases index channelID reliable address fields available with
        same | ⟨incoming, written, found, writes, same | ⟨dispatched, conserved, same⟩⟩
      · rw [same]
        exact .refl _ _
      · have stored := host.setStartCommand_blocks takes.hasChannel found (by rw [writes]; rfl)
        rw [same]
        exact .of_same le_rfl rfl stored
      · have stored := host.setStartCommand_blocks takes.hasChannel found (by rw [writes]; rfl)
        obtain ⟨channel, peer⟩ : ∃ channel,
            (host.setStartCommand index channelID reliable written).peers index =
              (host.peers index).setChannel channelID channel := ⟨_, setPeer_self ..⟩
        have installs := @installDispatched_handles
          (host.setStartCommand index channelID reliable written) index _ _ 0
          (by rw [peer]; exact takes.hasChannel)
          ((congrArg incomingBlocks conserved).trans (zero_add _).symm)
        rw [zero_add, stored, ← same] at installs
        exact installs

end Host

end Enet
