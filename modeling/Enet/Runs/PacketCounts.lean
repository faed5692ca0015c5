import Enet.Runs.Packets

/-!
# Counted packets

Every edit, every check of the outgoing commands and every call for a packet
keeps the books of a host: the count of a packet is the number of the commands
that refer to it.
-/

set_option autoImplicit false

namespace Enet

open Library Finset Relation

/-! ## Peers that hold nothing received -/

namespace Peer

variable {peer peer' : Peer}

/-- Empty channels hold no reference. -/
theorem incomingReferences_of_empty (empty : ∀ channelID, (peer.channels channelID).commands = 0) :
    peer.incomingReferences = incomingPackets ↑peer.dispatchedCommands := by
  unfold incomingReferences
  rw [sum_eq_zero fun channelID _ => by rw [empty, incomingPackets_zero], add_zero]

/-- Empty channels for empty channels. -/
theorem references_of_empty (empty : ∀ channelID, (peer.channels channelID).commands = 0)
    (empty' : ∀ channelID, (peer'.channels channelID).commands = 0)
    (dispatched : peer'.dispatchedCommands = peer.dispatchedCommands)
    (outgoing : peer'.outgoingReferences = peer.outgoingReferences) :
    peer'.references = peer.references ∧ peer'.incomingReferences = peer.incomingReferences := by
  have same : peer'.incomingReferences = peer.incomingReferences := by
    rw [incomingReferences_of_empty empty, incomingReferences_of_empty empty', dispatched]
  unfold references
  exact ⟨by rw [outgoing, same], same⟩

theorem TakenBy.references (takes : peer.TakenBy peer')
    (empty : ∀ channelID, (peer.channels channelID).commands = 0) :
    peer'.references = peer.references ∧ peer'.incomingReferences = peer.incomingReferences :=
  references_of_empty empty (fun channelID => by rw [takes.channels]; rfl) takes.dispatched
    (outgoingReferences_congr takes.outgoingCommands takes.outgoingSendReliableCommands
      takes.sentReliableCommands)

end Peer

/-! ## Heaps -/

namespace Host

theorem onConnect_heap (host : Host) (index : Nat) : (host.onConnect index).heap = host.heap := by
  unfold onConnect
  dsimp only
  split <;> rfl

theorem onDisconnect_heap (host : Host) (index : Nat) :
    (host.onDisconnect index).heap = host.heap := by
  unfold onDisconnect
  dsimp only
  split <;> rfl

theorem changeState_heap (host : Host) (index : Nat) (state : PeerState) :
    (host.changeState index state).heap = host.heap := by
  unfold changeState
  dsimp only
  split
  · exact host.onConnect_heap index
  · exact host.onDisconnect_heap index

theorem resetQueues_heap (host : Host) (index : Nat) :
    (host.resetQueues index).heap = host.heap.resetQueues (host.peers index) := by
  unfold resetQueues
  dsimp only
  split <;> rfl

theorem peerReset_heap (host : Host) (index : Nat) :
    (host.peerReset index).heap = host.heap.resetQueues (host.peers index) := by
  have left := onDisconnect_heap (host.observe (.reset index (host.peers index))) index
  unfold peerReset
  dsimp only
  rw [resetQueues_heap, setPeer_self, onDisconnect_peers]
  exact congrArg (fun heap : Heap => heap.resetQueues (host.peers index)) left

/-- A command without a packet leaves the counts. -/
theorem queueOutgoingCommand_ledger (host : Host) (index : Nat) (command : Protocol)
    (offset length : Nat) :
    (host.queueOutgoingCommand index command none offset length).1.heap.ledger =
      host.heap.ledger := by
  unfold queueOutgoingCommand
  split
  next allocated => exact Heap.ledger_of_malloc allocated
  next allocated => exact Heap.ledger_of_malloc allocated

theorem queueOutgoingCommand_references (host : Host) (index : Nat) (command : Protocol)
    (offset length : Nat) :
    ((host.queueOutgoingCommand index command none offset length).1.peers index).references =
      (host.peers index).references := by
  unfold queueOutgoingCommand
  split
  · rfl
  · dsimp only
    unfold setupOutgoingCommand
    rw [setPeer_self, Peer.setupOutgoingCommand_references]
    exact zero_add _

end Host

/-! ## Unreliable commands -/

/-- What a scan sends unreliably comes behind what was sent before. -/
theorem OutgoingScan.step_sentUnreliable (scan : OutgoingScan) (serviceTime : Nat)
    (reliable : Bool) (outgoing : OutgoingCommand) :
    scan.sentUnreliable <+: (scan.step serviceTime reliable outgoing).1.sentUnreliable := by
  have passes : ∀ scan : OutgoingScan, (scan.pass reliable).sentUnreliable =
      scan.sentUnreliable := fun scan => by cases reliable <;> rfl
  have unlinks : ∀ scan : OutgoingScan, (scan.unlink reliable).sentUnreliable =
      scan.sentUnreliable := fun scan => by cases reliable <;> rfl
  unfold step
  split
  · split
    · exact (passes scan).symm ▸ List.prefix_rfl
    · split
      · exact (passes scan).symm ▸ List.prefix_rfl
      · split
        · exact (passes scan).symm ▸ List.prefix_rfl
        · split
          · exact List.prefix_rfl
          · exact (unlinks scan.forbidPing).symm ▸ List.prefix_rfl
  · split
    · exact List.prefix_rfl
    · have counted := unlinks (scan.setPeer (scan.peer.setThrottleCounter
        (throttleCounter scan.peer outgoing)))
      have kept : scan.sentUnreliable <+: ((scan.setPeer (scan.peer.setThrottleCounter
          (throttleCounter scan.peer outgoing))).unlink reliable).sentUnreliable :=
        counted.symm ▸ List.prefix_rfl
      unfold sendUnreliable
      dsimp only
      split
      · exact kept
      · unfold transmitUnreliable
        dsimp only
        split
        · exact kept.trans (List.prefix_append ..)
        · exact kept

theorem OutgoingScan.run_sentUnreliable (serviceTime fuel : Nat) : ∀ scan : OutgoingScan,
    scan.sentUnreliable <+: (run serviceTime fuel scan).sentUnreliable := by
  induction fuel with
  | zero => intro scan; exact List.prefix_rfl
  | succ fuel ih =>
      intro scan
      unfold run
      split
      · exact List.prefix_rfl
      next reliable outgoing found =>
          have steps := scan.step_sentUnreliable serviceTime reliable outgoing
          dsimp only
          split
          · exact steps.trans (ih _)
          · exact steps

/-- The rules allow what `enet_peer_queue_incoming_command` does to a packet that it
makes: it takes a reference to it, or destroys it where the rest fails. -/
structure AllowsIncoming (rules : Ledger.Rules Nat) (begun : Heap) : Prop where
  acquires : ∀ address, begun.MakesPacket true address → rules.acquires address
  discards : ∀ address, begun.MakesPacket false address → rules.discards address

namespace Keeps

variable {rules : Ledger.Rules Nat} {start : Ledger.Books Nat} {begun : Heap} {index : Nat}
  {host host' : Host} {sentUnreliable : List OutgoingCommand}

/-! ## Received commands -/

/-- **A dispatch of a channel**, with the commands added to the channel in the books. -/
theorem dispatched (keeps : Keeps rules start begun host sentUnreliable) {before : Host}
    {channelID : Nat} {dispatched : Channel.Dispatched} {added : Multiset Nat}
    (booked : Booked rules start begun before.heap
      (added + (host.references + outgoingPackets sentUnreliable))
      (added + host.incomingReferences))
    (acts : ActsOn index host before) (inside : index < host.peerCount)
    (contained : Contained (before.installDispatched index channelID dispatched))
    (hasChannel : channelID < (before.peers index).channelCount)
    (conserved : incomingPackets dispatched.commands =
      added + incomingPackets ((before.peers index).channels channelID).commands)
    (incoming : (before.peers index).incomingReferences = (host.peers index).incomingReferences)
    (outgoing : (before.peers index).outgoingReferences =
      (host.peers index).outgoingReferences) :
    Keeps rules start begun (before.installDispatched index channelID dispatched)
      sentUnreliable := by
  have installs := ActsOn.installDispatched before index channelID dispatched
  have removes := Heap.Releases.installDispatched before hasChannel conserved
  have sends : ((before.installDispatched index channelID dispatched).peers
      index).outgoingReferences = (host.peers index).outgoingReferences := by
    obtain ⟨flag, same⟩ := before.installDispatched_peer index channelID dispatched
    rw [same]
    exact outgoing
  rw [incoming] at removes
  generalize before.installDispatched index channelID dispatched = after
    at installs contained removes sends ⊢
  have grows := installs.mallocs
  have acts := acts.trans installs
  obtain ⟨others, received, held, held', heldIn, heldIn'⟩ := Host.references_frame acts inside
  refine ⟨contained, ?_, keeps.still_idle acts fun outside => absurd inside
    (Nat.not_lt_of_le outside)⟩
  refine booked.releases ((removes.beside ((host.peers index).outgoingReferences + others +
    outgoingPackets sentUnreliable)).congr ?_ ?_) grows ?_ (within after sentUnreliable)
  · rw [held]
    unfold Peer.references
    abel
  · rw [held']
    unfold Peer.references
    rw [sends]
    abel
  · rw [heldIn, heldIn', ← add_assoc]
    exact add_le_add_left removes.le received

/-- **A received command that is queued.** -/
theorem queueIncomingCommand (keeps : Keeps rules start begun host sentUnreliable)
    (allows : AllowsIncoming rules begun) (command : Protocol)
    (takes : (host.peers index).Takes command.channelID) (inside : index < host.peerCount)
    (data : Option (List UInt8)) (dataLength : Nat) (flags : PacketFlags) {fragmentCount : Nat}
    (few : fragmentCount ≤ protocolMaximumFragmentCount)
    (contained : Contained
      (host.queueIncomingCommand index command data dataLength flags fragmentCount).1) :
    Keeps rules start begun
      (host.queueIncomingCommand index command data dataLength flags fragmentCount).1
      sentUnreliable := by
  have grows := allocateIncoming_grows host.heap command data dataLength flags fragmentCount
  have allocates := Host.allocateIncoming_ledger host.heap command data dataLength flags
    fragmentCount
  have makes : ∀ {packet : Packet} {queued : Heap × Option IncomingCommand},
      (host.heap.createPacket data dataLength flags).2 = some packet →
      Host.allocateIncoming host.heap command data dataLength flags fragmentCount = queued →
      begun.MakesPacket queued.2.isSome packet.address :=
    fun created allocated => .made command data dataLength flags fragmentCount keeps.booked.since
      few created allocated
  rcases host.queueIncomingCommand_cases index command data dataLength flags fragmentCount with
    same | ⟨heap, allocated, same⟩ | ⟨heap, incoming, allocated, placed, -, same⟩
  · rw [same]
    exact keeps
  · rw [allocated] at grows allocates
    rw [same]
    exact keeps.unmake (fun packet created => allows.discards _ (makes created allocated)) grows
      allocates
  · rw [allocated] at grows allocates
    obtain ⟨created, new, below, ledger⟩ := allocates
    have inserts := Channel.insertIncoming_conserves
      ((host.peers index).channels command.channelID) incoming command placed
    have booked := keeps.booked.make (allows.acquires _ (makes created allocated)) grows new below
      ledger
    rw [← Multiset.singleton_add, ← Multiset.singleton_add] at booked
    rw [same] at contained ⊢
    refine keeps.dispatched booked ((ActsOn.setHeap index host grows).trans (.setPeer _ index _))
      inside contained ?_ ?_ ?_ ?_
    · rw [Host.setPeer_self]
      exact takes.hasChannel
    · rw [inserts, Host.setPeer_self]
      exact Multiset.map_cons ..
    · rw [Host.setPeer_self]
      rfl
    · rw [Host.setPeer_self]
      rfl

/-- **A fragment written into its command** changes no reference. -/
theorem setStartCommand (keeps : Keeps rules start begun host sentUnreliable) {channelID : Nat}
    {reliable : Bool} {incoming written : IncomingCommand}
    (takes : (host.peers index).Takes channelID)
    (found : host.startCommand index channelID reliable written.address = some incoming)
    (same : written.packet.address = incoming.packet.address) :
    Keeps rules start begun (host.setStartCommand index channelID reliable written)
      sentUnreliable ∧
    ((host.setStartCommand index channelID reliable written).peers index).Takes channelID := by
  have packets : ∀ commands : List IncomingCommand,
      commands.find? (fun other => decide (other.address = written.address)) = some incoming →
      incomingPackets ↑(Host.writeCommand written commands) = incomingPackets ↑commands := by
    intro commands here
    exact congrArg Multiset.ofList
      (Host.writeCommand_map (fun command => command.packet.address) here same)
  obtain ⟨channel, stores, commands⟩ : ∃ channel : Channel,
      host.setStartCommand index channelID reliable written =
        host.setPeer index ((host.peers index).setChannel channelID channel) ∧
      incomingPackets channel.commands =
        incomingPackets ((host.peers index).channels channelID).commands := by
    refine ⟨_, rfl, ?_⟩
    unfold Channel.commands
    rw [incomingPackets_add, incomingPackets_add]
    cases reliable with
    | true => exact congrArg (· + _) (packets _ found)
    | false => exact congrArg (_ + ·) (packets _ found)
  obtain ⟨others, split, split'⟩ := Peer.incomingReferences_split takes.hasChannel
  have received : ((host.peers index).setChannel channelID channel).incomingReferences =
      (host.peers index).incomingReferences := by
    refine (split' channel (host.peers index).dispatchedCommands
      (host.peers index).totalWaitingData).trans ?_
    rw [commands, split]
  rw [stores]
  refine ⟨keeps.setPeer (keeps.contained.setPeer
    ((keeps.contained.peers index).channel takes rfl rfl fun other different =>
      Function.update_of_ne different ..) (keeps.contained.spare index)) ?_ received, ?_⟩
  · unfold Peer.references
    rw [received]
    rfl
  · rw [Host.setPeer_self]
    exact ⟨takes.connected, takes.hasChannel⟩

theorem receiveStep (keeps : Keeps rules start begun host sentUnreliable)
    (allows : AllowsIncoming rules begun) {available : List UInt8} {received : Heard}
    (step : ReceiveStep index available received host host') :
    Keeps rules start begun host' sentUnreliable := by
  have contained := keeps.contained.receiveStep step
  have inside : ∀ channelID, (host.peers index).Takes channelID → index < host.peerCount := by
    intro channelID takes
    refine keeps.contained.inside fun free => ?_
    have connected := takes.connected
    rw [free] at connected
    cases connected
  cases step with
  | window group window => exact keeps.setPeer contained rfl rfl
  | queue command data dataLength flags fragmentCount takes payload small few counted =>
      exact keeps.queueIncomingCommand allows command takes (inside _ takes) data dataLength flags
        few contained
  | fragment channelID reliable address fields takes fits payload holds =>
      rcases host.addFragment_cases index channelID reliable address fields available with
        same | ⟨incoming, written, found, writes, same | ⟨dispatched, conserved, same⟩⟩
      · rw [same]
        exact keeps
      · have packet : written.packet.address = incoming.packet.address := by rw [writes]; rfl
        rw [same]
        exact (keeps.setStartCommand takes found packet).1
      · have packet : written.packet.address = incoming.packet.address := by rw [writes]; rfl
        obtain ⟨stored, takes'⟩ := keeps.setStartCommand takes found packet
        rw [same] at contained ⊢
        have booked := stored.booked
        rw [← zero_add (_ + _), ← zero_add (Host.incomingReferences _)] at booked
        refine stored.dispatched booked (.refl index _) (inside _ takes) contained takes'.hasChannel
          ?_ rfl rfl
        rw [conserved, zero_add]

/-! ## Edits -/

/-- A peer that refers to nothing once its queues are reset. -/
theorem emptied (keeps : Keeps rules start begun host sentUnreliable)
    (acts : ActsOn index host host') (contained : Contained host')
    (heap : host'.heap = host.heap.resetQueues (host.peers index))
    (empty : (host'.peers index).references = 0) :
    Keeps rules start begun host' sentUnreliable := by
  have resets := (Heap.Releases.resetQueues host.heap (host.peers index)).beside
    (outgoingPackets sentUnreliable)
  rw [← heap, ← empty] at resets
  have received := (host'.peers index).incomingReferences_le
  rw [empty] at received
  exact keeps.releases acts contained resets (empty.le.trans (Multiset.zero_le _))
    (received.trans (Multiset.zero_le _))

theorem removeSentReliableCommand (keeps : Keeps rules start begun host sentUnreliable)
    (number channelID : Nat)
    (contained : Contained (host.removeSentReliableCommand index number channelID).1) :
    Keeps rules start begun (host.removeSentReliableCommand index number channelID).1
      sentUnreliable := by
  have acts := (SendsFor.removeSentReliableCommand host index number channelID).acts
  have sending := Peer.SendingOnly.removeSentReliableCommand (host.peers index) number channelID
  have less : ∀ outgoing,
      ((host.peers index).removeSentReliableCommand number channelID).2 = some outgoing → _ :=
    fun outgoing => (host.peers index).removeSentReliableCommand_references
  unfold Host.removeSentReliableCommand at acts contained ⊢
  split
  · exact keeps
  next peer outgoing removed =>
      rw [removed] at acts contained sending less
      have split := less outgoing rfl
      have releases := (Heap.Releases.removeOutgoing host.heap outgoing).beside
        (peer.references + outgoingPackets sentUnreliable)
      rw [zero_add, ← add_assoc, ← split] at releases
      refine keeps.releases acts contained ?_ ?_ ?_
      · rw [Host.setPeer_self]
        exact releases
      · rw [Host.setPeer_self, split]
        exact Multiset.le_add_left ..
      · rw [Host.setPeer_self]
        exact sending.incomingReferences.le

/-- **An edit keeps the books.** -/
theorem edit (keeps : Keeps rules start begun host sentUnreliable)
    (allows : AllowsIncoming rules begun) (edit : Edit index host host') :
    Keeps rules start begun host' sentUnreliable := by
  have contained := keeps.contained.edit edit
  cases edit with
  | quiet quiet => exact keeps.quiet quiet
  | malloc => exact keeps.of_heap rfl rfl rfl (Heap.malloc_grows host.heap)
  | observe observation about fresh => exact keeps.of_heap rfl rfl rfl (.refl _)
  | schedule =>
      refine keeps.same (.scheduleDispatch host index) contained
        (congrArg Heap.ledger (host.scheduleDispatch_heap index)) ?_ ?_
      · rw [Host.scheduleDispatch_peer]
        rfl
      · rw [Host.scheduleDispatch_peer]
        rfl
  | unschedule =>
      exact @setPeer rules start begun index
        (host.setDispatchQueue (host.dispatchQueue.remove (.peer index))) sentUnreliable
        (keeps.of_heap rfl rfl rfl (.refl _)) _ contained rfl rfl
  | changeState state used stays may =>
      refine keeps.same (.changeState host index state) contained
        (congrArg Heap.ledger (host.changeState_heap index state)) ?_ ?_
      · rw [Host.changeState_peer]
        rfl
      · rw [Host.changeState_peer]
        rfl
  | eventData data => exact keeps.setPeer contained rfl rfl
  | resetQueues =>
      refine keeps.emptied (.resetQueues host index) contained (host.resetQueues_heap index) ?_
      rw [Host.resetQueues_peer]
      rfl
  | reset =>
      obtain ⟨mtu, same⟩ := Host.peerReset_peer host index
      refine keeps.emptied (.peerReset host index) contained (host.peerReset_heap index) ?_
      rw [same]
      rfl
  | clearChannels free =>
      have empty := (keeps.contained.peers index).unopened (.inl free)
      obtain ⟨references, received⟩ := Peer.references_of_empty empty
        (show ∀ channelID, ((host.peers index).clearChannels.channels channelID).commands = 0 from
          fun channelID => rfl) rfl rfl
      exact keeps.setPeer contained references received
  | connecting address channelCount connectID slot free locally =>
      obtain ⟨references, received⟩ := (Host.connectingPeer_takes host (host.peers index) address
        (Host.clampChannelCount channelCount) connectID).references
        ((keeps.contained.peers index).unopened (.inl free))
      exact keeps.setPeer contained references received
  | accepted fields slot free channels admits =>
      obtain ⟨references, received⟩ :=
        (host.acceptedPeer_takes (host.peers index) fields).references
        ((keeps.contained.peers index).unopened (.inl free))
      exact keeps.setPeer contained references received
  | verified fields waits =>
      have empty := (keeps.contained.peers index).unopened (.inr waits)
      obtain ⟨references, received⟩ := Peer.references_of_empty empty
        (show ∀ channelID, ((Host.verifiedPeer (host.peers index) fields).channels
          channelID).commands = 0 from empty) rfl rfl
      exact keeps.setPeer contained references received
  | bandwidth incomingBandwidth outgoingBandwidth =>
      unfold Host.handleBandwidthLimit at contained ⊢
      dsimp only at contained ⊢
      split
      · exact keeps
      next up =>
          rw [if_neg up] at contained
          exact @setPeer rules start begun index (host.setBandwidthLimitedPeers _ _) sentUnreliable
            (keeps.of_heap rfl rfl rfl (.refl _)) _ contained rfl rfl
  | queue command control bare =>
      refine keeps.same (.queueOutgoingCommand ..) contained
        (host.queueOutgoingCommand_ledger index command 0 0)
        (host.queueOutgoingCommand_references index command 0 0) ?_
      exact (host.queueOutgoingCommand_sendingOnly ..).incomingReferences
  | removeSent number channelID => exact keeps.removeSentReliableCommand number channelID contained
  | scanTimeouts =>
      exact keeps.setPeer contained (Peer.checkTimeouts_references ..)
        (Peer.SendingOnly.checkTimeouts ..).incomingReferences
  | receive step heard => exact keeps.receiveStep allows step
  | acknowledge acknowledgement => exact keeps.setPeer contained rfl rfl
  | acknowledged rest => exact keeps.setPeer contained rfl rfl

/-! ## Transmission -/

/-- **A check of the outgoing commands keeps the books**, with the unreliable
commands that it puts in the datagram. -/
theorem scan (keeps : Keeps rules start begun host sentUnreliable) (index : Nat) :
    Keeps rules start begun (host.installScan index (host.scanOutgoing index sentUnreliable))
      (host.scanOutgoing index sentUnreliable).sentUnreliable := by
  have contained := Contained.maintained.scan host index sentUnreliable keeps.contained
  have releases := (host.peers index).checkOutgoingCommands_releases host.heap host.datagram
    sentUnreliable host.serviceTime
  have sending := Peer.SendingOnly.checkOutgoingCommands (host.peers index) host.heap host.datagram
    sentUnreliable host.serviceTime
  obtain ⟨sent, split⟩ := OutgoingScan.run_sentUnreliable host.serviceTime
    ((host.peers index).outgoingCommands.length +
      (host.peers index).outgoingSendReliableCommands.length)
    (.start (host.peers index) host.heap host.datagram sentUnreliable)
  have acts : ActsOn index host
      (host.installScan index (host.scanOutgoing index sentUnreliable)) := by
    have grows := Peer.checkOutgoingCommands_grows (host.peers index) host.heap host.datagram
      sentUnreliable host.serviceTime
    have scans : ActsOn index host ((host.setHeap
        (host.scanOutgoing index sentUnreliable).heap).setDatagram
        (host.scanOutgoing index sentUnreliable).datagram) := .of_same rfl rfl grows rfl
    exact scans.trans (.setPeer _ index _)
  refine keeps.releases acts contained ?_ ?_ ?_
  · unfold Host.installScan
    rw [Host.setPeer_self]
    exact releases
  · have less := releases.le
    rw [show ((host.peers index).checkOutgoingCommands host.heap host.datagram sentUnreliable
      host.serviceTime).sentUnreliable = sentUnreliable ++ sent from split.symm,
      outgoingPackets_append, add_comm (outgoingPackets sentUnreliable), ← add_assoc] at less
    unfold Host.installScan
    rw [Host.setPeer_self]
    exact (Multiset.le_add_right ..).trans (le_of_add_le_add_right less)
  · unfold Host.installScan
    rw [Host.setPeer_self]
    exact sending.incomingReferences.le

/-- The commands of a datagram that was sent are freed. -/
theorem free (keeps : Keeps rules start begun host sentUnreliable) :
    Keeps rules start begun (host.freeSent sentUnreliable) [] := by
  have frees := (Heap.Releases.foldl_removeOutgoing sentUnreliable host.heap).beside host.references
  have grows := Heap.foldl_grows _ Heap.removeOutgoing_grows sentUnreliable host.heap
  refine ⟨⟨keeps.contained.peers, keeps.contained.spare⟩, ?_, keeps.idle⟩
  refine keeps.booked.releases (frees.congr (add_comm ..) ?_) grows le_rfl (within _ [])
  rw [outgoingPackets_nil, zero_add, add_zero]
  rfl

end Keeps

end Enet
