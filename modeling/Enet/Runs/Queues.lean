import Enet.Runs.Sides

/-!
# The commands of a quiet peer

A peer that exchanges no data queues commands without packets only. Nothing of
what such a peer queues is ever dropped: transmission and timeouts move its
commands between the outgoing queue and the queue of commands in transit, and an
acknowledgement takes out the one command it is for.
-/

set_option autoImplicit false

namespace Enet

namespace Peer

/-- The peer has this command in `outgoingCommands` or `sentReliableCommands`. -/
def Owns (peer : Peer) (command : Protocol) : Prop :=
  ∃ outgoing ∈ peer.outgoingCommands ++ peer.sentReliableCommands, outgoing.command = command

/-- No command in the queues of a peer carries a packet. -/
structure Packetless (peer : Peer) : Prop where
  outgoing : ∀ outgoing ∈ peer.outgoingCommands, outgoing.packet = none
  reliable : ∀ outgoing ∈ peer.outgoingSendReliableCommands, outgoing.packet = none
  sent : ∀ outgoing ∈ peer.sentReliableCommands, outgoing.packet = none

/-- A peer without packets stays so, and keeps the commands to be acknowledged. -/
structure KeepsCommands (peer peer' : Peer) : Prop where
  packetless : peer.Packetless → peer'.Packetless
  owns : peer.Packetless → ∀ command : Protocol, command.acknowledge = true →
    peer.Owns command → peer'.Owns command

namespace KeepsCommands

variable {peer peer' peer'' : Peer}

theorem refl (peer : Peer) : peer.KeepsCommands peer :=
  ⟨fun packetless => packetless, fun _ _ _ owns => owns⟩

theorem trans (first : peer.KeepsCommands peer') (second : peer'.KeepsCommands peer'') :
    peer.KeepsCommands peer'' :=
  ⟨fun packetless => second.packetless (first.packetless packetless),
    fun packetless command acknowledge owns => second.owns (first.packetless packetless) command
      acknowledge (first.owns packetless command acknowledge owns)⟩

/-- The same queues. -/
theorem of_queues (outgoing : peer'.outgoingCommands = peer.outgoingCommands)
    (reliable : peer'.outgoingSendReliableCommands = peer.outgoingSendReliableCommands)
    (sent : peer'.sentReliableCommands = peer.sentReliableCommands) :
    peer.KeepsCommands peer' := by
  refine ⟨fun packetless => ⟨?_, ?_, ?_⟩, fun _ command _ owns => ?_⟩
  · rw [outgoing]
    exact packetless.outgoing
  · rw [reliable]
    exact packetless.reliable
  · rw [sent]
    exact packetless.sent
  · rwa [Owns, outgoing, sent]

theorem of_alike (alike : peer.Alike peer') : peer.KeepsCommands peer' :=
  of_queues alike.outgoingCommands alike.outgoingSendReliableCommands alike.sentReliableCommands

theorem of_landed {count : Nat}
    (alike : (peer.setDataInTransit count).Alike (peer'.setDataInTransit count)) :
    peer.KeepsCommands peer' :=
  of_queues alike.outgoingCommands alike.outgoingSendReliableCommands alike.sentReliableCommands

end KeepsCommands

/-! ## Timeouts -/

/-- The commands that a scan of the timeouts has before it and behind it, but for
those that go back to the reliable queue. -/
def TimeoutScan.commands (scan : TimeoutScan) (rest : List OutgoingCommand) :
    List OutgoingCommand :=
  scan.passed ++ rest ++ scan.requeued

theorem scanTimeouts_keeps (serviceTime : Nat) (commands : List OutgoingCommand) :
    ∀ scan : TimeoutScan,
      (∀ outgoing ∈ scan.commands commands ++ scan.requeuedReliable, outgoing.packet = none) →
      (∀ outgoing ∈ (scanTimeouts serviceTime scan commands).1.commands
          ((scanTimeouts serviceTime scan commands).2.getD []) ++
          (scanTimeouts serviceTime scan commands).1.requeuedReliable, outgoing.packet = none) ∧
        ∀ outgoing ∈ scan.commands commands,
          ∃ kept ∈ (scanTimeouts serviceTime scan commands).1.commands
            ((scanTimeouts serviceTime scan commands).2.getD []),
            kept.command = outgoing.command := by
  induction commands with
  | nil => intro scan packetless; exact ⟨packetless, fun outgoing member => ⟨_, member, rfl⟩⟩
  | cons outgoing rest ih =>
      intro scan packetless
      have bare : outgoing.packet = none :=
        packetless outgoing (by simp [TimeoutScan.commands])
      unfold scanTimeouts
      split
      · have same : (scan.pass outgoing).commands rest = scan.commands (outgoing :: rest) := by
          simp [TimeoutScan.commands, TimeoutScan.pass]
        have passes := ih (scan.pass outgoing) (by rw [same]; exact packetless)
        rwa [same] at passes
      · dsimp only
        split
        · exact ⟨packetless, fun outgoing member => ⟨_, member, rfl⟩⟩
        · generalize ((scan.peer.noteTimeout outgoing).requeue outgoing).scheduleNext scan.passed
            rest = peer
          have back : (scan.putBack peer outgoing) =
              { scan with peer := peer, requeued := scan.requeued ++ [backOff outgoing] } := by
            unfold TimeoutScan.putBack
            rw [bare]
            rfl
          rw [back]
          obtain ⟨still, keeps⟩ := ih
            { scan with peer := peer, requeued := scan.requeued ++ [backOff outgoing] } (by
              intro other member
              simp only [TimeoutScan.commands, List.mem_append, List.mem_singleton] at member
              rcases member with ((member | member) | (member | same)) | member
              · exact packetless other (by simp [TimeoutScan.commands, member])
              · exact packetless other (by simp [TimeoutScan.commands, member])
              · exact packetless other (by simp [TimeoutScan.commands, member])
              · rw [same]
                exact bare
              · exact packetless other (by simp [member]))
          refine ⟨still, fun other member => ?_⟩
          simp only [TimeoutScan.commands, List.mem_append, List.mem_cons] at member
          rcases member with (member | same | member) | member
          · exact keeps other (by simp [TimeoutScan.commands, member])
          · rw [same]
            exact keeps (backOff outgoing) (by simp [TimeoutScan.commands])
          · exact keeps other (by simp [TimeoutScan.commands, member])
          · exact keeps other (by simp [TimeoutScan.commands, member])

/-- **The check of the timeouts puts commands back in their queue.** -/
theorem KeepsCommands.checkTimeouts (peer : Peer) (serviceTime : Nat) :
    peer.KeepsCommands (peer.checkTimeouts serviceTime).1 := by
  have alike := Alike.scanTimeouts serviceTime 0 peer.sentReliableCommands ⟨peer, [], [], []⟩
  have scanned := scanTimeouts_keeps serviceTime peer.sentReliableCommands ⟨peer, [], [], []⟩
  have outgoing : (peer.checkTimeouts serviceTime).1.outgoingCommands =
      (scanTimeouts serviceTime ⟨peer, [], [], []⟩ peer.sentReliableCommands).1.requeued ++
        peer.outgoingCommands := congrArg (_ ++ ·) alike.outgoingCommands
  have reliable : (peer.checkTimeouts serviceTime).1.outgoingSendReliableCommands =
      (scanTimeouts serviceTime ⟨peer, [], [], []⟩
        peer.sentReliableCommands).1.requeuedReliable ++ peer.outgoingSendReliableCommands :=
    congrArg (_ ++ ·) alike.outgoingSendReliableCommands
  have sent : (peer.checkTimeouts serviceTime).1.sentReliableCommands =
      (scanTimeouts serviceTime ⟨peer, [], [], []⟩ peer.sentReliableCommands).1.passed ++
        (scanTimeouts serviceTime ⟨peer, [], [], []⟩ peer.sentReliableCommands).2.getD [] := rfl
  generalize scanTimeouts serviceTime ⟨peer, [], [], []⟩ peer.sentReliableCommands = scan
    at scanned outgoing reliable sent
  have bare : peer.Packetless → ∀ outgoing ∈ scan.1.commands (scan.2.getD []) ++
      scan.1.requeuedReliable, outgoing.packet = none := fun packetless =>
    (scanned (by simpa [TimeoutScan.commands] using packetless.sent)).1
  refine ⟨fun packetless => ⟨?_, ?_, ?_⟩, fun packetless command _ owns => ?_⟩
  · rw [outgoing]
    intro other member
    rcases List.mem_append.mp member with member | member
    · exact bare packetless other (by simp [TimeoutScan.commands, member])
    · exact packetless.outgoing other member
  · rw [reliable]
    intro other member
    rcases List.mem_append.mp member with member | member
    · exact bare packetless other (by simp [member])
    · exact packetless.reliable other member
  · rw [sent]
    intro other member
    rcases List.mem_append.mp member with member | member
    · exact bare packetless other (by simp [TimeoutScan.commands, member])
    · exact bare packetless other (by simp [TimeoutScan.commands, member])
  · obtain ⟨other, member, rfl⟩ := owns
    rw [Owns, outgoing, sent]
    rcases List.mem_append.mp member with member | member
    · exact ⟨other, by simp [member], rfl⟩
    · obtain ⟨kept, still, same⟩ :=
        (scanned (by simpa [TimeoutScan.commands] using packetless.sent)).2 other
          (by simp [TimeoutScan.commands, member])
      refine ⟨kept, ?_, same⟩
      simp only [TimeoutScan.commands, List.mem_append] at still
      rcases still with (still | still) | still
      · simp [still]
      · simp [still]
      · simp [still]

/-! ## Acknowledgements -/

theorem mem_eraseIdx_or {α : Type} {element : α} {list : List α} (place : Nat)
    (member : element ∈ list) : list[place]? = some element ∨ element ∈ list.eraseIdx place := by
  induction list generalizing place with
  | nil => cases member
  | cons head rest ih =>
      cases place with
      | zero =>
          rcases List.mem_cons.mp member with same | member
          · exact .inl (congrArg some same.symm)
          · exact .inr member
      | succ place =>
          rcases List.mem_cons.mp member with same | member
          · exact .inr (by simp [same])
          · rcases ih place member with found | left
            · exact .inl (by simpa using found)
            · exact .inr (by simp [left])

/-- **An acknowledgement takes out the command it is for, and no other.** -/
theorem takeSentReliableCommand_keeps (peer : Peer) (number channelID : Nat)
    {outgoing : OutgoingCommand}
    (member : outgoing ∈ peer.outgoingCommands ++ peer.sentReliableCommands) :
    (peer.takeSentReliableCommand number channelID).2 = some outgoing ∨
      outgoing ∈ (peer.takeSentReliableCommand number channelID).1.outgoingCommands ++
        (peer.takeSentReliableCommand number channelID).1.sentReliableCommands := by
  unfold takeSentReliableCommand
  rcases List.mem_append.mp member with queued | sent
  · split
    · exact .inr (List.mem_append_left _ queued)
    · split
      next place _ =>
          rcases mem_eraseIdx_or place queued with found | left
          · exact .inl found
          · exact .inr (List.mem_append_left _ left)
      · split
        · exact .inr (List.mem_append_left _ queued)
        · exact .inr (List.mem_append_left _ queued)
  · split
    next place _ =>
        rcases mem_eraseIdx_or place sent with found | left
        · exact .inl found
        · exact .inr (List.mem_append_right _ left)
    · split
      · exact .inr (List.mem_append_right _ sent)
      · split
        · exact .inr (List.mem_append_right _ sent)
        · exact .inr (List.mem_append_right _ sent)

theorem Packetless.takeSentReliableCommand {peer : Peer} (packetless : peer.Packetless)
    (number channelID : Nat) :
    (peer.takeSentReliableCommand number channelID).1.Packetless := by
  have fewer : ∀ {list : List OutgoingCommand} {place : Nat},
      (∀ outgoing ∈ list, outgoing.packet = none) →
        ∀ outgoing ∈ list.eraseIdx place, outgoing.packet = none :=
    fun none outgoing member => none outgoing (List.mem_of_mem_eraseIdx member)
  unfold Peer.takeSentReliableCommand
  split
  · exact ⟨packetless.outgoing, packetless.reliable, fewer packetless.sent⟩
  · split
    · exact ⟨fewer packetless.outgoing, packetless.reliable, packetless.sent⟩
    · split
      · exact ⟨packetless.outgoing, fewer packetless.reliable, packetless.sent⟩
      · exact packetless

/-- What the removal of a command changes besides the queue it was in. -/
theorem removeSentReliableCommand_queues {peer : Peer} {number channelID : Nat}
    {outgoing : OutgoingCommand}
    (taken : (peer.removeSentReliableCommand number channelID).2 = some outgoing) :
    (peer.takeSentReliableCommand number channelID).2 = some outgoing ∧
      (peer.takeSentReliableCommand number channelID).1.KeepsCommands
        (peer.removeSentReliableCommand number channelID).1 := by
  unfold removeSentReliableCommand at taken ⊢
  dsimp only at taken ⊢
  split at taken
  · cases taken
  next found takes =>
      cases taken
      refine ⟨takes, ?_⟩
      dsimp only
      have closes : (peer.takeSentReliableCommand number channelID).1.KeepsCommands
          ((peer.takeSentReliableCommand number channelID).1.closeCommandWindow number
            channelID) := by
        unfold closeCommandWindow
        split
        · exact .of_queues rfl rfl rfl
        · exact .refl _
      exact (closes.trans (.of_landed (.landReliableData _ _ _ 0))).trans
        (.of_alike (.scheduleTimeout _))

end Peer

/-! ## Transmission -/

namespace OutgoingScan

/-- The commands of a scan that stay in `outgoingCommands` or are in transit. -/
def commands (scan : OutgoingScan) : List OutgoingCommand :=
  scan.passed ++ scan.rest ++ scan.peer.sentReliableCommands

/-- No command of a scan carries a packet. -/
def Packetless (scan : OutgoingScan) : Prop :=
  ∀ outgoing ∈ scan.commands ++ (scan.passedReliable ++ scan.restReliable),
    outgoing.packet = none

/-- A scan without packets stays so, and keeps the commands to be acknowledged. -/
structure Keeps (scan scan' : OutgoingScan) : Prop where
  packetless : scan'.Packetless
  owns : ∀ outgoing ∈ scan.commands, outgoing.command.acknowledge = true →
    ∃ kept ∈ scan'.commands, kept.command = outgoing.command

theorem Keeps.trans {scan scan' scan'' : OutgoingScan} (first : scan.Keeps scan')
    (second : scan'.Keeps scan'') : scan.Keeps scan'' := by
  refine ⟨second.packetless, fun outgoing member acknowledge => ?_⟩
  obtain ⟨kept, still, same⟩ := first.owns outgoing member acknowledge
  obtain ⟨last, here, equal⟩ := second.owns kept still (by rw [same]; exact acknowledge)
  exact ⟨last, here, equal.trans same⟩

/-- The same commands, in the same queues or passed over. -/
theorem Keeps.of_mem {scan scan' : OutgoingScan} (packetless : scan.Packetless)
    (commands : ∀ outgoing, outgoing ∈ scan'.commands ↔ outgoing ∈ scan.commands)
    (reliable : ∀ outgoing, outgoing ∈ scan'.passedReliable ++ scan'.restReliable ↔
      outgoing ∈ scan.passedReliable ++ scan.restReliable) : scan.Keeps scan' := by
  refine ⟨fun outgoing member => ?_, fun outgoing member _ => ?_⟩
  · rcases List.mem_append.mp member with member | member
    · exact packetless outgoing (List.mem_append_left _ ((commands outgoing).mp member))
    · exact packetless outgoing (List.mem_append_right _ ((reliable outgoing).mp member))
  · exact ⟨outgoing, (commands outgoing).mpr member, rfl⟩

theorem mem_take_one_append {α : Type} {element : α} {passed rest : List α} :
    element ∈ passed ++ rest.take 1 ++ rest.drop 1 ↔ element ∈ passed ++ rest := by
  rw [List.append_assoc, List.take_append_drop]

theorem Packetless.pass {scan : OutgoingScan} (packetless : scan.Packetless) (reliable : Bool) :
    scan.Keeps (scan.pass reliable) := by
  cases reliable with
  | true =>
      exact .of_mem packetless (fun _ => Iff.rfl) fun _ => mem_take_one_append
  | false =>
      refine .of_mem packetless (fun outgoing => ?_) fun _ => Iff.rfl
      have same := @mem_take_one_append _ outgoing scan.passed scan.rest
      simp only [commands, OutgoingScan.pass, Bool.false_eq_true, if_false]
      rw [List.mem_append, same, ← List.mem_append]

theorem Packetless.skipReliable {scan : OutgoingScan} (packetless : scan.Packetless) :
    scan.Keeps scan.skipReliable :=
  .of_mem packetless (fun _ => Iff.rfl) fun outgoing => by simp [OutgoingScan.skipReliable]

/-- The command at an iterator is at the head of its queue. -/
theorem next_cases {scan : OutgoingScan} {reliable : Bool} {outgoing : OutgoingCommand}
    (found : scan.next = some (reliable, outgoing)) :
    (reliable = false ∧ ∃ rest, scan.rest = outgoing :: rest) ∨
      (reliable = true ∧ ∃ rest, scan.restReliable = outgoing :: rest) := by
  unfold next at found
  split at found
  · cases found
  next queue => cases found; exact .inr ⟨rfl, _, queue⟩
  next queue _ => cases found; exact .inl ⟨rfl, _, queue⟩
  next queue queueReliable =>
      split at found
      · cases found
        exact .inr ⟨rfl, _, queueReliable⟩
      · cases found
        exact .inl ⟨rfl, _, queue⟩

/-- The command at an iterator taken out of its queue, and put in transit where it
is to be acknowledged. -/
theorem Packetless.unlink {scan scan' : OutgoingScan} (packetless : scan.Packetless)
    {reliable : Bool} {outgoing : OutgoingCommand} (sent : OutgoingCommand)
    (found : scan.next = some (reliable, outgoing))
    (passed : scan'.passed = scan.passed) (passedReliable : scan'.passedReliable =
      scan.passedReliable)
    (rest : scan'.rest = (scan.unlink reliable).rest)
    (restReliable : scan'.restReliable = (scan.unlink reliable).restReliable)
    (command : sent.command = outgoing.command) (packet : sent.packet = outgoing.packet)
    (transit : scan'.peer.sentReliableCommands = scan.peer.sentReliableCommands ++ [sent] ∨
      scan'.peer.sentReliableCommands = scan.peer.sentReliableCommands ∧
        outgoing.command.acknowledge = false) : scan.Keeps scan' := by
  have bare : ∀ outgoing ∈ scan.passed ++ scan.rest ++ scan.peer.sentReliableCommands ++
      (scan.passedReliable ++ scan.restReliable), outgoing.packet = none := packetless
  have queues : (∀ other ∈ scan'.rest, other ∈ scan.rest) ∧
      (∀ other ∈ scan'.restReliable, other ∈ scan.restReliable) ∧
      outgoing ∈ scan.rest ++ scan.restReliable ∧
      ∀ other ∈ scan.rest, other = outgoing ∨ other ∈ scan'.rest := by
    rcases next_cases found with ⟨rfl, queue, same⟩ | ⟨rfl, queue, same⟩
    · have dropped : scan'.rest = queue := rest.trans (congrArg (List.drop 1) same)
      have kept : scan'.restReliable = scan.restReliable := restReliable
      rw [dropped, kept, same]
      refine ⟨fun _ => List.mem_cons_of_mem _, fun _ member => member, by simp, ?_⟩
      exact fun _ => List.mem_cons.mp
    · have dropped : scan'.restReliable = queue :=
        restReliable.trans (congrArg (List.drop 1) same)
      have kept : scan'.rest = scan.rest := rest
      rw [dropped, kept, same]
      refine ⟨fun _ member => member, fun _ => List.mem_cons_of_mem _, by simp, ?_⟩
      exact fun _ member => .inr member
  obtain ⟨fewer, fewerReliable, here, left⟩ := queues
  have outgoingBare : outgoing.packet = none := by
    refine bare outgoing ?_
    rcases List.mem_append.mp here with here | here <;> simp [here]
  have fromSent : ∀ other ∈ scan'.peer.sentReliableCommands,
      other ∈ scan.peer.sentReliableCommands ∨ other.packet = none := by
    intro other member
    rcases transit with more | ⟨same, -⟩
    · rw [more] at member
      rcases List.mem_append.mp member with old | new
      · exact .inl old
      · rw [List.mem_singleton.mp new]
        exact .inr (packet.trans outgoingBare)
    · exact .inl (same ▸ member)
  have toSent : ∀ other ∈ scan.peer.sentReliableCommands,
      other ∈ scan'.peer.sentReliableCommands := by
    intro other member
    rcases transit with more | ⟨same, -⟩
    · rw [more]
      exact List.mem_append_left _ member
    · exact same ▸ member
  refine ⟨?_, ?_⟩
  · intro other member
    simp only [commands, passed, passedReliable, List.mem_append] at member
    rcases member with ((member | member) | member) | (member | member)
    · exact bare other (by simp [member])
    · exact bare other (by simp [fewer other member])
    · rcases fromSent other member with old | none
      · exact bare other (by simp [old])
      · exact none
    · exact bare other (by simp [member])
    · exact bare other (by simp [fewerReliable other member])
  · intro other member acknowledge
    simp only [commands, passed, List.mem_append] at member ⊢
    rcases member with (member | member) | member
    · exact ⟨other, .inl (.inl member), rfl⟩
    · rcases left other member with same | still
      · rcases transit with more | ⟨-, unacknowledged⟩
        · refine ⟨sent, .inr ?_, by rw [command, same]⟩
          rw [more]
          exact List.mem_append_right _ (List.mem_singleton.mpr rfl)
        · rw [same, unacknowledged] at acknowledge
          cases acknowledge
      · exact ⟨other, .inl (.inr still), rfl⟩
    · exact ⟨other, .inr (toSent other member), rfl⟩

theorem Packetless.sendReliable {scan : OutgoingScan} (packetless : scan.Packetless)
    (serviceTime : Nat) {reliable : Bool} {outgoing : OutgoingCommand}
    (found : scan.next = some (reliable, outgoing)) :
    scan.Keeps (scan.forbidPing.sendReliable serviceTime reliable outgoing) := by
  have opens : (scan.forbidPing.openCommandWindow outgoing).sentReliableCommands =
      scan.peer.sentReliableCommands := by
    unfold openCommandWindow
    split <;> rfl
  refine packetless.unlink (transmitted scan.peer serviceTime outgoing) found ?_ ?_ ?_ ?_
    rfl rfl (.inl ?_)
  · cases reliable <;> rfl
  · cases reliable <;> rfl
  · cases reliable <;> rfl
  · cases reliable <;> rfl
  · exact congrArg (· ++ _) opens

theorem Packetless.sendUnreliable {scan : OutgoingScan} (packetless : scan.Packetless)
    {reliable : Bool} {outgoing : OutgoingCommand}
    (found : scan.next = some (reliable, outgoing))
    (unacknowledged : outgoing.command.acknowledge = false) :
    scan.Keeps (scan.sendUnreliable reliable outgoing) := by
  have bare : outgoing.packet = none := by
    refine packetless outgoing ?_
    rcases next_cases found with ⟨-, queue, same⟩ | ⟨-, queue, same⟩
    · simp [commands, same]
    · simp [same]
  have unthrottled : isThrottled outgoing = false := by rw [isThrottled, bare]; rfl
  unfold OutgoingScan.sendUnreliable
  dsimp only
  rw [unthrottled, Bool.false_and, if_neg (by decide)]
  unfold transmitUnreliable
  dsimp only
  rw [bare]
  refine packetless.unlink outgoing found ?_ ?_ ?_ ?_ rfl rfl
    (.inr ⟨?_, unacknowledged⟩)
  · cases reliable <;> rfl
  · cases reliable <;> rfl
  · cases reliable <;> rfl
  · cases reliable <;> rfl
  · cases reliable <;> rfl

theorem Packetless.step {scan : OutgoingScan} (packetless : scan.Packetless) (serviceTime : Nat)
    {reliable : Bool} {outgoing : OutgoingCommand}
    (found : scan.next = some (reliable, outgoing)) :
    scan.Keeps (scan.step serviceTime reliable outgoing).1 := by
  have passes := packetless.pass reliable
  have skips := passes.trans passes.packetless.skipReliable
  unfold OutgoingScan.step
  split
  · split
    · exact passes
    · split
      · exact skips.trans (.of_mem skips.packetless (fun _ => Iff.rfl) fun _ => Iff.rfl)
      · split
        · exact skips
        · split
          · exact .of_mem packetless (fun _ => Iff.rfl) fun _ => Iff.rfl
          · exact packetless.sendReliable serviceTime found
  next unacknowledged =>
      split
      · exact .of_mem packetless (fun _ => Iff.rfl) fun _ => Iff.rfl
      · exact packetless.sendUnreliable found (by simpa using unacknowledged)

theorem Packetless.run (serviceTime fuel : Nat) : ∀ {scan : OutgoingScan}, scan.Packetless →
    scan.Keeps (OutgoingScan.run serviceTime fuel scan) := by
  induction fuel with
  | zero => intro scan packetless; exact .of_mem packetless (fun _ => Iff.rfl) fun _ => Iff.rfl
  | succ fuel ih =>
      intro scan packetless
      unfold OutgoingScan.run
      split
      · exact .of_mem packetless (fun _ => Iff.rfl) fun _ => Iff.rfl
      next reliable outgoing found =>
          have steps := packetless.step serviceTime found
          dsimp only
          split
          · exact steps.trans (ih steps.packetless)
          · exact steps

end OutgoingScan

/-- **The check of the outgoing commands moves commands into transit.** -/
theorem Peer.KeepsCommands.checkOutgoingCommands (peer : Peer) (heap : Heap)
    (datagram : Datagram) (sentUnreliable : List OutgoingCommand) (serviceTime : Nat) :
    peer.KeepsCommands
      (peer.checkOutgoingCommands heap datagram sentUnreliable serviceTime).finish := by
  have keeps : peer.Packetless → (OutgoingScan.start peer heap datagram sentUnreliable).Keeps
      (peer.checkOutgoingCommands heap datagram sentUnreliable serviceTime) := by
    intro packetless
    refine OutgoingScan.Packetless.run serviceTime _ fun outgoing member => ?_
    simp only [OutgoingScan.commands, OutgoingScan.start, List.nil_append, List.mem_append]
      at member
    rcases member with (member | member) | member
    · exact packetless.outgoing outgoing member
    · exact packetless.sent outgoing member
    · exact packetless.reliable outgoing member
  generalize peer.checkOutgoingCommands heap datagram sentUnreliable serviceTime = scan at keeps ⊢
  refine ⟨fun packetless => ?_, fun packetless command acknowledge owns => ?_⟩
  · have bare := (keeps packetless).packetless
    refine ⟨fun outgoing member => ?_, fun outgoing member => ?_, fun outgoing member => ?_⟩
    · exact bare outgoing (List.mem_append_left _ (List.mem_append_left _ member))
    · exact bare outgoing (List.mem_append_right _ member)
    · exact bare outgoing (List.mem_append_left _ (List.mem_append_right _ member))
  · obtain ⟨outgoing, member, rfl⟩ := owns
    exact (keeps packetless).owns outgoing member acknowledge

end Enet
