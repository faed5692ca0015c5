import Enet.Runs.References

/-!
# What the queues release

The functions on the queues of a peer, one by one: a command that is moved takes
its reference with it, and one that is dropped releases its packet.
-/

set_option autoImplicit false

namespace Enet

open Library Finset

/-! ## Sending -/

namespace Peer

variable {peer peer' : Peer}

theorem outgoingReferences_congr (outgoing : peer'.outgoingCommands = peer.outgoingCommands)
    (reliable : peer'.outgoingSendReliableCommands = peer.outgoingSendReliableCommands)
    (sent : peer'.sentReliableCommands = peer.sentReliableCommands) :
    peer'.outgoingReferences = peer.outgoingReferences := by
  rw [outgoingReferences, outgoing, reliable, sent]
  rfl

/-- What the sending side does not change. -/
theorem SendingOnly.incomingReferences (sending : peer.SendingOnly peer') :
    peer'.incomingReferences = peer.incomingReferences := by
  unfold Peer.incomingReferences
  rw [sending.dispatchedCommands, sending.channelCount]
  congr 1
  refine sum_congr rfl fun channelID _ => ?_
  unfold Channel.commands
  rw [(sending.channels channelID).incomingReliableCommands,
    (sending.channels channelID).incomingUnreliableCommands]

theorem Alike.references (alike : peer.Alike peer') : peer'.references = peer.references := by
  unfold Peer.references
  rw [outgoingReferences_congr alike.outgoingCommands alike.outgoingSendReliableCommands
    alike.sentReliableCommands, (SendingOnly.of_alike alike).incomingReferences]

/-- **A removed command is one reference less.** -/
theorem takeSentReliableCommand_references (peer : Peer) {number channelID : Nat}
    {outgoing : OutgoingCommand}
    (taken : (peer.takeSentReliableCommand number channelID).2 = some outgoing) :
    peer.outgoingReferences = outgoingPackets [outgoing] +
      (peer.takeSentReliableCommand number channelID).1.outgoingReferences := by
  unfold takeSentReliableCommand at taken ⊢
  split at taken
  · have less := outgoingPackets_eraseIdx taken
    unfold outgoingReferences
    rw [less]
    dsimp only [setSentReliable]
    abel
  · split at taken
    · have less := outgoingPackets_eraseIdx taken
      unfold outgoingReferences
      rw [less]
      dsimp only [setOutgoing]
      abel
    · split at taken
      · have less := outgoingPackets_eraseIdx taken
        unfold outgoingReferences
        rw [less]
        dsimp only [setOutgoing]
        abel
      · cases taken

theorem removeSentReliableCommand_references (peer : Peer) {number channelID : Nat}
    {outgoing : OutgoingCommand}
    (removed : (peer.removeSentReliableCommand number channelID).2 = some outgoing) :
    peer.references = outgoingPackets [outgoing] +
      (peer.removeSentReliableCommand number channelID).1.references := by
  have sending := SendingOnly.removeSentReliableCommand peer number channelID
  have queues : (peer.takeSentReliableCommand number channelID).2 = some outgoing ∧
      (peer.removeSentReliableCommand number channelID).1.outgoingReferences =
        (peer.takeSentReliableCommand number channelID).1.outgoingReferences := by
    unfold removeSentReliableCommand at removed ⊢
    dsimp only at removed ⊢
    split at removed
    · cases removed
    next found takes =>
        cases removed
        refine ⟨takes, ?_⟩
        have lands := Alike.landReliableData
          ((peer.takeSentReliableCommand number channelID).1.closeCommandWindow number channelID)
          outgoing (peer.isInTransit number channelID) 0
        have schedules := lands.trans ((Alike.scheduleTimeout _).setDataInTransit 0)
        refine (outgoingReferences_congr schedules.outgoingCommands
          schedules.outgoingSendReliableCommands schedules.sentReliableCommands).trans ?_
        unfold closeCommandWindow
        split <;> rfl
  have taken := peer.takeSentReliableCommand_references queues.1
  unfold references
  rw [sending.incomingReferences, taken, queues.2, add_assoc]

/-- The references of a scan of the timeouts. -/
def TimeoutScan.references (scan : TimeoutScan) (rest : List OutgoingCommand) : Multiset Nat :=
  outgoingPackets scan.passed + outgoingPackets rest + outgoingPackets scan.requeued +
    outgoingPackets scan.requeuedReliable

theorem scanTimeouts_references (serviceTime : Nat) (commands : List OutgoingCommand) :
    ∀ scan : TimeoutScan,
      (scanTimeouts serviceTime scan commands).1.references
          ((scanTimeouts serviceTime scan commands).2.getD []) = scan.references commands := by
  induction commands with
  | nil => intro scan; rfl
  | cons outgoing rest ih =>
      intro scan
      unfold scanTimeouts
      split
      · rw [ih]
        unfold TimeoutScan.references
        dsimp only [TimeoutScan.pass]
        rw [outgoingPackets_append, outgoingPackets_cons outgoing rest]
        abel
      · dsimp only
        split
        · rfl
        · rw [ih]
          have same : outgoingPackets [backOff outgoing] = outgoingPackets [outgoing] :=
            outgoingPackets_congr rfl
          unfold TimeoutScan.references TimeoutScan.putBack
          split
          · dsimp only
            rw [outgoingPackets_append, same, outgoingPackets_cons outgoing rest]
            abel
          · dsimp only
            rw [outgoingPackets_append, same, outgoingPackets_cons outgoing rest]
            abel

/-- The check of the timeouts moves commands only. -/
theorem checkTimeouts_references (peer : Peer) (serviceTime : Nat) :
    (peer.checkTimeouts serviceTime).1.references = peer.references := by
  have alike := Alike.scanTimeouts serviceTime 0 peer.sentReliableCommands ⟨peer, [], [], []⟩
  have scanned := scanTimeouts_references serviceTime peer.sentReliableCommands ⟨peer, [], [], []⟩
  have sending := SendingOnly.checkTimeouts peer serviceTime
  unfold references
  rw [sending.incomingReferences]
  congr 1
  unfold checkTimeouts outgoingReferences
  dsimp only [TimeoutScan.finish, setSentReliable, setOutgoing]
  generalize scanTimeouts serviceTime ⟨peer, [], [], []⟩ peer.sentReliableCommands = scan
    at alike scanned ⊢
  have outgoing : scan.1.peer.outgoingCommands = peer.outgoingCommands := alike.outgoingCommands
  have reliable : scan.1.peer.outgoingSendReliableCommands = peer.outgoingSendReliableCommands :=
    alike.outgoingSendReliableCommands
  rw [outgoing, reliable, outgoingPackets_append, outgoingPackets_append, outgoingPackets_append]
  simp only [TimeoutScan.references, outgoingPackets_nil, zero_add, add_zero] at scanned
  rw [← scanned]
  abel

end Peer

/-! ## Transmission -/

namespace OutgoingScan

/-- The references of a scan of the outgoing queues, but for the commands in transit. -/
def queued (scan : OutgoingScan) : Multiset Nat :=
  outgoingPackets scan.passed + outgoingPackets scan.rest + outgoingPackets scan.passedReliable +
    outgoingPackets scan.restReliable + outgoingPackets scan.sentUnreliable

/-- The references of a scan of the outgoing queues. -/
def references (scan : OutgoingScan) : Multiset Nat :=
  scan.queued + outgoingPackets scan.peer.sentReliableCommands

/-- A turn of the loop releases what it does not keep. -/
def Releases (scan scan' : OutgoingScan) : Prop :=
  scan.heap.Releases scan'.heap scan.references scan'.references

variable {scan scan' scan'' : OutgoingScan}

theorem Releases.trans (first : scan.Releases scan') (second : scan'.Releases scan'') :
    scan.Releases scan'' :=
  Heap.Releases.trans first second

theorem pass_releases (scan : OutgoingScan) (reliable : Bool) :
    scan.Releases (scan.pass reliable) := by
  have joined : ∀ passed rest : List OutgoingCommand, outgoingPackets passed +
      outgoingPackets rest = outgoingPackets (passed ++ rest.take 1) +
        outgoingPackets (rest.drop 1) := by
    intro passed rest
    rw [← outgoingPackets_append, ← outgoingPackets_append, List.append_assoc,
      List.take_append_drop]
  refine .of_same (by cases reliable <;> rfl) ?_
  have queued : scan.queued = (scan.pass reliable).queued := by
    unfold queued OutgoingScan.pass
    cases reliable with
    | true =>
        rw [if_pos rfl, add_assoc (_ + _) (outgoingPackets scan.passedReliable),
          joined scan.passedReliable scan.restReliable]
        dsimp only
        abel
    | false => rw [if_neg (by decide), joined]
  rw [references, references, queued, pass_peer]

theorem skipReliable_releases (scan : OutgoingScan) : scan.Releases scan.skipReliable := by
  refine .of_same rfl ?_
  unfold references queued OutgoingScan.skipReliable
  dsimp only
  rw [outgoingPackets_append, outgoingPackets_nil]
  abel

/-- The command at an iterator taken out of its queue. -/
theorem unlink_queued {reliable : Bool} {outgoing : OutgoingCommand}
    (found : scan.next = some (reliable, outgoing)) :
    scan.queued = outgoingPackets [outgoing] + (scan.unlink reliable).queued := by
  rcases next_cases found with ⟨rfl, rest, queue⟩ | ⟨rfl, rest, queue⟩
  · unfold queued OutgoingScan.unlink
    rw [if_neg (by decide), queue, List.drop_one, List.tail_cons, outgoingPackets_cons]
    abel
  · unfold queued OutgoingScan.unlink
    rw [if_pos rfl, queue, List.drop_one, List.tail_cons, outgoingPackets_cons]
    abel

theorem unlink_references {reliable : Bool} {outgoing : OutgoingCommand}
    (found : scan.next = some (reliable, outgoing)) :
    scan.references = outgoingPackets [outgoing] + (scan.unlink reliable).references := by
  rw [references, unlink_queued found, add_assoc, references, unlink_peer]

theorem sendReliable_releases (serviceTime : Nat) {reliable : Bool} {outgoing : OutgoingCommand}
    (found : scan.next = some (reliable, outgoing)) :
    scan.Releases (scan.forbidPing.sendReliable serviceTime reliable outgoing) := by
  have opens : (scan.forbidPing.openCommandWindow outgoing).sentReliableCommands =
      scan.peer.sentReliableCommands := by
    unfold openCommandWindow
    split <;> rfl
  have sends : (scan.forbidPing.sendReliable serviceTime reliable outgoing).references =
      (scan.unlink reliable).queued +
        outgoingPackets ((scan.forbidPing.openCommandWindow outgoing).sentReliableCommands ++
          [transmitted scan.peer serviceTime outgoing]) := by
    cases reliable <;> rfl
  refine .of_same (by cases reliable <;> rfl) ?_
  rw [sends, outgoingPackets_append, opens, references, unlink_queued found,
    outgoingPackets_congr (show (transmitted scan.peer serviceTime outgoing).packet =
      outgoing.packet from rfl)]
  abel

theorem dropPacket_releases (number unreliableNumber : Nat) (rest : List OutgoingCommand) :
    ∀ heap : Heap, heap.Releases (dropPacket number unreliableNumber heap rest).1
      (outgoingPackets rest)
      (outgoingPackets (dropPacket number unreliableNumber heap rest).2) := by
  induction rest with
  | nil => intro heap; exact .refl heap _
  | cons outgoing rest ih =>
      intro heap
      unfold dropPacket
      split
      · have first := (Heap.Releases.removeOutgoing heap outgoing).beside (outgoingPackets rest)
        rw [zero_add, ← outgoingPackets_cons] at first
        exact first.trans (ih _)
      · exact .refl heap _

theorem dropThrottled_releases {reliable : Bool} {outgoing : OutgoingCommand}
    (found : scan.next = some (reliable, outgoing)) :
    scan.Releases (scan.dropThrottled reliable outgoing) := by
  have unlinks := unlink_references found
  have first := (Heap.Releases.removeOutgoing scan.heap outgoing).beside
    (scan.unlink reliable).references
  rw [zero_add, ← unlinks] at first
  -- what is not in the rest of the queue stays as it is
  obtain ⟨others, split⟩ : ∃ others : Multiset Nat, ∀ rest : List OutgoingCommand,
      ((scan.unlink reliable).setRest rest).references = outgoingPackets rest + others := by
    refine ⟨outgoingPackets (scan.unlink reliable).passed +
      outgoingPackets (scan.unlink reliable).passedReliable +
      outgoingPackets (scan.unlink reliable).restReliable +
      outgoingPackets (scan.unlink reliable).sentUnreliable +
      outgoingPackets (scan.unlink reliable).peer.sentReliableCommands, fun rest => ?_⟩
    unfold references queued
    dsimp only [OutgoingScan.setRest]
    abel
  have drops := (dropPacket_releases outgoing.reliableSequenceNumber
    outgoing.unreliableSequenceNumber (scan.unlink reliable).rest
    ((scan.heap.releaseOption outgoing.packet).free outgoing.address)).beside others
  rw [← split, ← split] at drops
  exact first.trans drops

theorem transmitUnreliable_releases {reliable : Bool} {outgoing : OutgoingCommand}
    (found : scan.next = some (reliable, outgoing)) :
    scan.Releases (scan.transmitUnreliable reliable outgoing) := by
  have unlinks := unlink_references found
  have same : (scan.unlink reliable).heap.ledger = scan.heap.ledger := by cases reliable <;> rfl
  unfold transmitUnreliable
  dsimp only
  split
  · refine Heap.Releases.congr (.of_same same rfl) unlinks ?_
    unfold references queued
    dsimp only [addSentUnreliable, emit, Peer.countPacketSent]
    rw [outgoingPackets_append]
    abel
  next bare =>
      have none : outgoingPackets [outgoing] = 0 := by
        simp [outgoingPackets, Option.not_isSome_iff_eq_none.mp bare]
      rw [none, zero_add] at unlinks
      exact .of_same same unlinks

theorem step_releases (serviceTime : Nat) {reliable : Bool} {outgoing : OutgoingCommand}
    (found : scan.next = some (reliable, outgoing)) :
    scan.Releases (scan.step serviceTime reliable outgoing).1 := by
  have passes := scan.pass_releases reliable
  unfold step
  split
  · split
    · exact passes
    · split
      · exact passes.trans (skipReliable_releases _)
      · split
        · exact passes.trans (skipReliable_releases _)
        · split
          · exact Heap.Releases.refl ..
          · exact sendReliable_releases serviceTime found
  · split
    · exact Heap.Releases.refl ..
    · unfold sendUnreliable
      dsimp only
      split
      · exact @dropThrottled_releases (scan.setPeer (scan.peer.setThrottleCounter
          (throttleCounter scan.peer outgoing))) reliable outgoing found
      · exact @transmitUnreliable_releases (scan.setPeer (scan.peer.setThrottleCounter
          (throttleCounter scan.peer outgoing))) reliable outgoing found

theorem run_releases (serviceTime fuel : Nat) : ∀ scan : OutgoingScan,
    scan.Releases (run serviceTime fuel scan) := by
  induction fuel with
  | zero => intro scan; exact Heap.Releases.refl ..
  | succ fuel ih =>
      intro scan
      unfold run
      split
      · exact Heap.Releases.refl ..
      next reliable outgoing found =>
          have steps := scan.step_releases serviceTime found
          dsimp only
          split
          · exact steps.trans (ih _)
          · exact steps

end OutgoingScan

/-- **The check of the outgoing commands releases what it neither keeps nor sends.** -/
theorem Peer.checkOutgoingCommands_releases (peer : Peer) (heap : Heap) (datagram : Datagram)
    (sentUnreliable : List OutgoingCommand) (serviceTime : Nat) :
    let scan := peer.checkOutgoingCommands heap datagram sentUnreliable serviceTime
    heap.Releases scan.heap (peer.references + outgoingPackets sentUnreliable)
      (scan.finish.references + outgoingPackets scan.sentUnreliable) := by
  have sending := SendingOnly.checkOutgoingCommands peer heap datagram sentUnreliable serviceTime
  have runs := OutgoingScan.run_releases serviceTime
    (peer.outgoingCommands.length + peer.outgoingSendReliableCommands.length)
    (.start peer heap datagram sentUnreliable)
  refine (Heap.Releases.beside runs peer.incomingReferences).congr ?_ ?_
  · unfold references outgoingReferences OutgoingScan.references OutgoingScan.queued
    dsimp only [OutgoingScan.start]
    rw [outgoingPackets_nil]
    abel
  · unfold references
    rw [sending.incomingReferences]
    unfold outgoingReferences OutgoingScan.references OutgoingScan.queued
    dsimp only [OutgoingScan.finish, setOutgoing]
    rw [outgoingPackets_append, outgoingPackets_append]
    unfold checkOutgoingCommands
    abel

end Enet
