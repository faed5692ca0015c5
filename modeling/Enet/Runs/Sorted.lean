import Enet.Runs.Awaiting

/-!
# Sorted queues

A command that carries a packet and is to be acknowledged waits in a queue of its
own, `outgoingSendReliableCommands`. What waits in `outgoingCommands` is not to be
acknowledged, or is a command of the connection, which names no channel.
-/

set_option autoImplicit false

namespace Enet

open Relation

/-! ## One turn -/

namespace OutgoingScan

/-- What the body of the loop does with the command at an iterator. -/
inductive Stepped (serviceTime : Nat) (scan : OutgoingScan) (reliable : Bool)
    (outgoing : OutgoingCommand) : OutgoingScan × Bool → Prop where
  | passes (acknowledge : outgoing.command.acknowledge = true)
      (channel : scan.hasChannel outgoing = true) (wrapped : scan.windowWrap = true) :
      Stepped serviceTime scan reliable outgoing (scan.pass reliable, true)
  | wraps (acknowledge : outgoing.command.acknowledge = true)
      (channel : scan.hasChannel outgoing = true) (unwrapped : scan.windowWrap = false)
      (blocked : windowBlocked (scan.peer.channels outgoing.command.channelID) outgoing = true) :
      Stepped serviceTime scan reliable outgoing
        ((scan.pass reliable).skipReliable.wrapWindow, true)
  | waits (acknowledge : outgoing.command.acknowledge = true)
      (free : scan.hasChannel outgoing = true → scan.windowWrap = false ∧
        windowBlocked (scan.peer.channels outgoing.command.channelID) outgoing = false)
      (blocked : dataBlocked scan.peer outgoing = true) :
      Stepped serviceTime scan reliable outgoing ((scan.pass reliable).skipReliable, true)
  | stops (acknowledge : outgoing.command.acknowledge = true)
      (free : scan.hasChannel outgoing = true → scan.windowWrap = false ∧
        windowBlocked (scan.peer.channels outgoing.command.channelID) outgoing = false)
      (admitted : dataBlocked scan.peer outgoing = false) (full : scan.isFull outgoing = true) :
      Stepped serviceTime scan reliable outgoing (scan.forbidPing.stopFull, false)
  | sends (acknowledge : outgoing.command.acknowledge = true)
      (free : scan.hasChannel outgoing = true → scan.windowWrap = false ∧
        windowBlocked (scan.peer.channels outgoing.command.channelID) outgoing = false)
      (admitted : dataBlocked scan.peer outgoing = false) (room : scan.isFull outgoing = false) :
      Stepped serviceTime scan reliable outgoing
        (scan.forbidPing.sendReliable serviceTime reliable outgoing, true)
  | stopsUnreliable (unreliable : outgoing.command.acknowledge = false)
      (full : scan.isFull outgoing = true) :
      Stepped serviceTime scan reliable outgoing (scan.stopFull, false)
  | sendsUnreliable (unreliable : outgoing.command.acknowledge = false)
      (room : scan.isFull outgoing = false) :
      Stepped serviceTime scan reliable outgoing (scan.sendUnreliable reliable outgoing, true)

theorem step_stepped (scan : OutgoingScan) (serviceTime : Nat) (reliable : Bool)
    (outgoing : OutgoingCommand) :
    Stepped serviceTime scan reliable outgoing (scan.step serviceTime reliable outgoing) := by
  unfold step
  cases acknowledge : outgoing.command.acknowledge with
  | false =>
      rw [if_neg Bool.false_ne_true]
      split
      next full => exact .stopsUnreliable acknowledge full
      next room => exact .sendsUnreliable acknowledge (Bool.eq_false_iff.mpr room)
  | true =>
      rw [if_pos rfl]
      split
      next wrapped =>
          obtain ⟨channel, wrapped⟩ := Bool.and_eq_true_iff.mp wrapped
          exact .passes acknowledge channel wrapped
      next unwrapped =>
          split
          next blocked =>
              obtain ⟨channel, blocked⟩ := Bool.and_eq_true_iff.mp blocked
              rw [channel, Bool.true_and, Bool.not_eq_true] at unwrapped
              exact .wraps acknowledge channel unwrapped blocked
          next open_ =>
              have free : scan.hasChannel outgoing = true → scan.windowWrap = false ∧
                  windowBlocked (scan.peer.channels outgoing.command.channelID) outgoing =
                    false := by
                intro channel
                rw [channel, Bool.true_and, Bool.not_eq_true] at unwrapped open_
                exact ⟨unwrapped, open_⟩
              split
              next blocked => exact .waits acknowledge free blocked
              next admitted =>
                  have admitted := Bool.eq_false_iff.mpr admitted
                  split
                  next full => exact .stops acknowledge free admitted full
                  next room => exact .sends acknowledge free admitted (Bool.eq_false_iff.mpr room)

end OutgoingScan

/-! ## One peer -/

/-- The queues of a peer hold the commands that belong there. -/
structure Peer.Sorted (peer : Peer) : Prop where
  reliable : ∀ outgoing ∈ peer.outgoingSendReliableCommands,
    outgoing.command.acknowledge = true ∧ outgoing.packet.isSome = true
  others : ∀ outgoing ∈ peer.outgoingCommands, outgoing.command.acknowledge = true →
    outgoing.packet = none ∧ outgoing.command.channelID = 0xFF
  sent : ∀ outgoing ∈ peer.sentReliableCommands, outgoing.command.acknowledge = true ∧
    (outgoing.packet = none → outgoing.command.channelID = 0xFF)

namespace Peer.Sorted

variable {peer peer' : Peer}

theorem of_subset (sorted : peer.Sorted)
    (others : peer'.outgoingCommands ⊆ peer.outgoingCommands)
    (reliable : peer'.outgoingSendReliableCommands ⊆ peer.outgoingSendReliableCommands)
    (sent : peer'.sentReliableCommands ⊆ peer.sentReliableCommands) : peer'.Sorted :=
  ⟨fun outgoing member => sorted.reliable outgoing (reliable member),
    fun outgoing member => sorted.others outgoing (others member),
    fun outgoing member => sorted.sent outgoing (sent member)⟩

theorem of_same (sorted : peer.Sorted) (others : peer'.outgoingCommands = peer.outgoingCommands)
    (reliable : peer'.outgoingSendReliableCommands = peer.outgoingSendReliableCommands)
    (sent : peer'.sentReliableCommands = peer.sentReliableCommands) : peer'.Sorted :=
  sorted.of_subset (others ▸ List.Subset.refl _) (reliable ▸ List.Subset.refl _)
    (sent ▸ List.Subset.refl _)

theorem of_nil (others : peer.outgoingCommands = [])
    (reliable : peer.outgoingSendReliableCommands = []) (sent : peer.sentReliableCommands = []) :
    peer.Sorted := by
  refine ⟨fun outgoing member => ?_, fun outgoing member => ?_, fun outgoing member => ?_⟩
  · rw [reliable] at member
    cases member
  · rw [others] at member
    cases member
  · rw [sent] at member
    cases member

/-- A new command is put in its queue: it carries a packet, or it is one of the connection. -/
theorem setupOutgoingCommand (sorted : peer.Sorted) (totalQueued : Nat)
    {outgoing : OutgoingCommand}
    (belongs : outgoing.packet.isSome = true ∨ outgoing.command.channelID = 0xFF) :
    (peer.setupOutgoingCommand totalQueued outgoing).Sorted := by
  obtain ⟨others, reliable, sent, -⟩ :=
    (peer.countOutgoingData outgoing).numberOutgoingCommand_queues outgoing
  have stamps := peer.setupCommand_stamps totalQueued outgoing
  have numbered : ((peer.countOutgoingData outgoing).numberOutgoingCommand outgoing).1.Sorted :=
    sorted.of_same others reliable sent
  unfold Peer.setupCommand at stamps
  unfold Peer.setupOutgoingCommand
  dsimp only at stamps ⊢
  generalize (peer.countOutgoingData outgoing).numberOutgoingCommand outgoing = made at *
  generalize stampOutgoing made.2 totalQueued made.1.outgoingUnsequencedGroup = stamped at *
  unfold Peer.enqueueOutgoing
  split
  next carried =>
      refine ⟨fun other member => ?_, numbered.others, numbered.sent⟩
      rcases List.mem_append.mp member with old | new
      · exact numbered.reliable other old
      · rw [List.mem_singleton.mp new]
        exact Bool.and_eq_true_iff.mp carried
  next bare =>
      refine ⟨numbered.reliable, fun other member => ?_, numbered.sent⟩
      rcases List.mem_append.mp member with old | new
      · exact numbered.others other old
      · rw [List.mem_singleton.mp new]
        intro acknowledge
        rw [acknowledge, Bool.true_and, Bool.not_eq_true, Option.isSome_eq_false_iff,
          Option.isNone_iff_eq_none] at bare
        rw [← stamps.packet, ← stamps.channelID, bare] at belongs
        rcases belongs with carried | connection
        · cases carried
        · exact ⟨bare, connection⟩

theorem takeSentReliableCommand (sorted : peer.Sorted) (number channelID : Nat) :
    (peer.takeSentReliableCommand number channelID).1.Sorted := by
  unfold Peer.takeSentReliableCommand
  split
  · exact sorted.of_subset (List.Subset.refl _) (List.Subset.refl _)
      (List.eraseIdx_sublist _ _).subset
  · split
    · exact sorted.of_subset (List.eraseIdx_sublist _ _).subset (List.Subset.refl _)
        (List.Subset.refl _)
    · split
      · exact sorted.of_subset (List.Subset.refl _) (List.eraseIdx_sublist _ _).subset
          (List.Subset.refl _)
      · exact sorted

/-- An acknowledgement adds nothing to the queues. -/
theorem removeSentReliableCommand (sorted : peer.Sorted) (number channelID : Nat) :
    (peer.removeSentReliableCommand number channelID).1.Sorted := by
  have takes := sorted.takeSentReliableCommand number channelID
  unfold Peer.removeSentReliableCommand
  dsimp only
  split
  · exact sorted
  next outgoing _ =>
      have closes : ((peer.takeSentReliableCommand number channelID).1.closeCommandWindow number
          channelID).Sorted := by
        unfold Peer.closeCommandWindow
        split
        · exact takes.of_same rfl rfl rfl
        · exact takes
      have lands : (((peer.takeSentReliableCommand number channelID).1.closeCommandWindow number
          channelID).landReliableData outgoing (peer.isInTransit number channelID)).Sorted := by
        unfold landReliableData
        split
        · exact closes.of_same rfl rfl rfl
        · exact closes
      have alike := Alike.scheduleTimeout (((peer.takeSentReliableCommand number
        channelID).1.closeCommandWindow number channelID).landReliableData outgoing
          (peer.isInTransit number channelID))
      exact lands.of_same alike.outgoingCommands alike.outgoingSendReliableCommands
        alike.sentReliableCommands

end Peer.Sorted

/-! ## Timeouts -/

/-- The commands put back are in the queues where they belong. -/
structure Peer.TimeoutScan.Sorted (scan : TimeoutScan) (rest : List OutgoingCommand) : Prop where
  reliable : ∀ outgoing ∈ scan.requeuedReliable,
    outgoing.command.acknowledge = true ∧ outgoing.packet.isSome = true
  others : ∀ outgoing ∈ scan.requeued,
    outgoing.packet = none ∧ outgoing.command.channelID = 0xFF
  sent : ∀ outgoing ∈ scan.passed ++ rest, outgoing.command.acknowledge = true ∧
    (outgoing.packet = none → outgoing.command.channelID = 0xFF)

namespace Peer

theorem TimeoutScan.Sorted.putBack {scan : TimeoutScan} {outgoing : OutgoingCommand}
    {rest : List OutgoingCommand} (sorted : scan.Sorted (outgoing :: rest)) (peer : Peer) :
    (scan.putBack peer outgoing).Sorted rest := by
  have belongs := sorted.sent outgoing (List.mem_append_right _ List.mem_cons_self)
  have sent : ∀ other ∈ scan.passed ++ rest, other.command.acknowledge = true ∧
      (other.packet = none → other.command.channelID = 0xFF) := by
    intro other member
    refine sorted.sent other ?_
    rcases List.mem_append.mp member with passed | left
    · exact List.mem_append_left _ passed
    · exact List.mem_append_right _ (List.mem_cons_of_mem _ left)
  unfold TimeoutScan.putBack
  split
  next carried =>
      refine ⟨fun other member => ?_, sorted.others, sent⟩
      rcases List.mem_append.mp member with old | new
      · exact sorted.reliable other old
      · rw [List.mem_singleton.mp new]
        exact ⟨belongs.1, carried⟩
  next bare =>
      refine ⟨sorted.reliable, fun other member => ?_, sent⟩
      rcases List.mem_append.mp member with old | new
      · exact sorted.others other old
      · rw [List.mem_singleton.mp new]
        have none := Option.not_isSome_iff_eq_none.mp bare
        exact ⟨none, belongs.2 none⟩

theorem TimeoutTurn.sorted {serviceTime : Nat}
    {before after : TimeoutScan × List OutgoingCommand}
    (turn : TimeoutTurn serviceTime before after) (sorted : before.1.Sorted before.2) :
    after.1.Sorted after.2 := by
  cases turn with
  | pass scan first rest early =>
      refine ⟨sorted.reliable, sorted.others, fun outgoing member => sorted.sent outgoing ?_⟩
      simpa [TimeoutScan.pass] using member
  | requeue scan first rest overdue stays => exact sorted.putBack _

/-- A timeout puts a command back in the queue that it came from. -/
theorem Sorted.checkTimeouts {peer : Peer} (sorted : peer.Sorted) (serviceTime : Nat) :
    (peer.checkTimeouts serviceTime).1.Sorted := by
  have alike := Alike.scanTimeouts serviceTime 0 peer.sentReliableCommands ⟨peer, [], [], []⟩
  have scanned : TimeoutScan.Sorted ⟨peer, [], [], []⟩ peer.sentReliableCommands :=
    ⟨fun _ member => (List.not_mem_nil member).elim,
      fun _ member => (List.not_mem_nil member).elim, sorted.sent⟩
  obtain ⟨reliable, others, sent⟩ := scanTimeouts_keeps_of_turns
    (fun scan => scan.1.Sorted scan.2) TimeoutTurn.sorted
    (fun holds => ⟨holds.reliable, holds.others, holds.sent⟩) peer.sentReliableCommands _ scanned
  refine ⟨fun outgoing member => ?_, fun outgoing member acknowledge => ?_, sent⟩
  · rcases List.mem_append.mp member with back | old
    · exact reliable outgoing back
    · exact sorted.reliable outgoing (alike.outgoingSendReliableCommands ▸ old)
  · rcases List.mem_append.mp member with back | old
    · exact others outgoing back
    · exact sorted.others outgoing (alike.outgoingCommands ▸ old) acknowledge

end Peer

/-! ## Transmission -/

namespace OutgoingScan

variable {scan scan' : OutgoingScan} {serviceTime : Nat} {reliable : Bool}
  {outgoing : OutgoingCommand}

theorem finish_lists (scan : OutgoingScan) :
    scan.finish.outgoingCommands = scan.passed ++ scan.rest ∧
      scan.finish.outgoingSendReliableCommands = scan.passedReliable ++ scan.restReliable ∧
      scan.finish.sentReliableCommands = scan.peer.sentReliableCommands := ⟨rfl, rfl, rfl⟩

/-- The command at an iterator belongs in its queue. -/
theorem belongs_of_next (sorted : scan.finish.Sorted)
    (next : scan.next = some (reliable, outgoing)) :
    (outgoing.command.acknowledge = true → outgoing.packet = none →
      outgoing.command.channelID = 0xFF) ∧
    (reliable = true → outgoing.command.acknowledge = true ∧ outgoing.packet.isSome = true) ∧
    (reliable = false → outgoing.command.acknowledge = true →
      outgoing.packet = none ∧ outgoing.command.channelID = 0xFF) := by
  rcases next_cases next with ⟨rfl, rest, queue⟩ | ⟨rfl, rest, queue⟩
  · have belongs := sorted.others outgoing (List.mem_append_right _ (by rw [queue]; simp))
    refine ⟨fun acknowledge _ => (belongs acknowledge).2, fun other => ?_, fun _ => belongs⟩
    cases other
  · have belongs := sorted.reliable outgoing (List.mem_append_right _ (by rw [queue]; simp))
    refine ⟨fun _ bare => ?_, fun _ => belongs, fun other => ?_⟩
    · rw [bare] at belongs
      cases belongs.2
    · cases other

/-- A command of a channel that is to be acknowledged waits in the reliable queue. -/
theorem reliable_of_channel (sorted : scan.finish.Sorted)
    (few : scan.peer.channelCount ≤ protocolMaximumChannelCount)
    (next : scan.next = some (reliable, outgoing))
    (acknowledge : outgoing.command.acknowledge = true)
    (channel : scan.hasChannel outgoing = true) : reliable = true := by
  cases reliable with
  | true => rfl
  | false =>
      have connection := ((belongs_of_next sorted next).2.2 rfl acknowledge).2
      have used := of_decide_eq_true channel
      rw [connection] at used
      exact absurd (Nat.lt_of_lt_of_le used few) (by decide)

/-- So does one that carries a packet. -/
theorem reliable_of_packet (sorted : scan.finish.Sorted)
    (next : scan.next = some (reliable, outgoing))
    (acknowledge : outgoing.command.acknowledge = true)
    (carried : outgoing.packet.isSome = true) : reliable = true := by
  cases reliable with
  | true => rfl
  | false =>
      rw [((belongs_of_next sorted next).2.2 rfl acknowledge).1] at carried
      cases carried

theorem restReliable_of_next (next : scan.next = some (true, outgoing)) :
    scan.restReliable = outgoing :: scan.restReliable.tail := by
  rcases next_cases next with ⟨other, -⟩ | ⟨-, rest, queue⟩
  · cases other
  · rw [queue, List.tail_cons]

theorem pass_finish (scan : OutgoingScan) (reliable : Bool) :
    (scan.pass reliable).finish = scan.finish := by
  unfold pass finish
  cases reliable with
  | true => simp only [if_true, List.append_assoc, List.take_append_drop]
  | false => simp only [Bool.false_eq_true, if_false, List.append_assoc, List.take_append_drop]

theorem skipReliable_finish (scan : OutgoingScan) : scan.skipReliable.finish = scan.finish := by
  unfold skipReliable finish
  rw [List.append_nil]

theorem sendReliable_sent (scan : OutgoingScan) (serviceTime : Nat) (reliable : Bool)
    (outgoing : OutgoingCommand) :
    (scan.forbidPing.sendReliable serviceTime reliable outgoing).peer.sentReliableCommands =
      scan.peer.sentReliableCommands ++ [transmitted scan.peer serviceTime outgoing] := by
  have opens : (scan.forbidPing.openCommandWindow outgoing).sentReliableCommands =
      scan.peer.sentReliableCommands := by
    unfold openCommandWindow
    split <;> rfl
  exact congrArg (· ++ _) opens

theorem sendReliable_lists (scan : OutgoingScan) (serviceTime : Nat) (reliable : Bool)
    (outgoing : OutgoingCommand) :
    (scan.forbidPing.sendReliable serviceTime reliable outgoing).passed = scan.passed ∧
      (scan.forbidPing.sendReliable serviceTime reliable outgoing).rest =
        (scan.unlink reliable).rest ∧
      (scan.forbidPing.sendReliable serviceTime reliable outgoing).passedReliable =
        scan.passedReliable ∧
      (scan.forbidPing.sendReliable serviceTime reliable outgoing).restReliable =
        (scan.unlink reliable).restReliable := by
  cases reliable <;> exact ⟨rfl, rfl, rfl, rfl⟩

/-- What is not to be acknowledged leaves its queue, with what a throttle drops. -/
theorem sendUnreliable_lists (scan : OutgoingScan) (reliable : Bool) (outgoing : OutgoingCommand) :
    (scan.sendUnreliable reliable outgoing).passed = scan.passed ∧
      (scan.sendUnreliable reliable outgoing).rest ⊆ (scan.unlink reliable).rest ∧
      (scan.sendUnreliable reliable outgoing).passedReliable = scan.passedReliable ∧
      (scan.sendUnreliable reliable outgoing).restReliable =
        (scan.unlink reliable).restReliable ∧
      (scan.sendUnreliable reliable outgoing).peer.sentReliableCommands =
        scan.peer.sentReliableCommands := by
  unfold sendUnreliable
  dsimp only
  split
  · refine ⟨?_, ?_, ?_, ?_, by rw [dropThrottled_peer]; rfl⟩
    · cases reliable <;> rfl
    · rw [dropThrottled_rest]
      cases reliable <;> exact (List.dropWhile_sublist _).subset
    · cases reliable <;> rfl
    · cases reliable <;> rfl
  · unfold transmitUnreliable
    dsimp only
    split
    · cases reliable <;> exact ⟨rfl, List.Subset.refl _, rfl, rfl, rfl⟩
    · cases reliable <;> exact ⟨rfl, List.Subset.refl _, rfl, rfl, rfl⟩

theorem unlink_subset (scan : OutgoingScan) (reliable : Bool) :
    (scan.unlink reliable).rest ⊆ scan.rest ∧
      (scan.unlink reliable).restReliable ⊆ scan.restReliable := by
  cases reliable with
  | true => exact ⟨List.Subset.refl _, (List.drop_sublist 1 _).subset⟩
  | false => exact ⟨(List.drop_sublist 1 _).subset, List.Subset.refl _⟩

theorem append_subset {passed rest rest' : List OutgoingCommand} (fewer : rest' ⊆ rest) :
    passed ++ rest' ⊆ passed ++ rest :=
  List.append_subset_of_subset_of_subset (List.subset_append_left _ _)
    (List.subset_append_of_subset_right _ fewer)

/-- **A turn of the loop keeps the queues sorted.** -/
theorem step_sorted (sorted : scan.finish.Sorted)
    (next : scan.next = some (reliable, outgoing)) :
    (scan.step serviceTime reliable outgoing).1.finish.Sorted := by
  have passes : (scan.pass reliable).finish.Sorted := by
    rw [pass_finish]
    exact sorted
  have skips : (scan.pass reliable).skipReliable.finish.Sorted := by
    rw [skipReliable_finish]
    exact passes
  obtain ⟨fewer, fewerReliable⟩ := scan.unlink_subset reliable
  generalize stepped : scan.step serviceTime reliable outgoing = after
  have turn := scan.step_stepped serviceTime reliable outgoing
  rw [stepped] at turn
  cases turn with
  | passes acknowledge channel wrapped => exact passes
  | wraps acknowledge channel unwrapped blocked => exact skips
  | waits acknowledge free blocked => exact skips
  | stops acknowledge free admitted full => exact sorted.of_same rfl rfl rfl
  | stopsUnreliable unreliable full => exact sorted.of_same rfl rfl rfl
  | sends acknowledge free admitted room =>
      obtain ⟨passed, rest, passedReliable, restReliable⟩ :=
        scan.sendReliable_lists serviceTime reliable outgoing
      have belongs := (belongs_of_next sorted next).1 acknowledge
      refine ⟨fun other member => sorted.reliable other ?_,
        fun other member => sorted.others other ?_, fun other member => ?_⟩
      · rw [(finish_lists _).2.1, passedReliable, restReliable] at member
        exact append_subset fewerReliable member
      · rw [(finish_lists _).1, passed, rest] at member
        exact append_subset fewer member
      · rw [(finish_lists _).2.2, sendReliable_sent] at member
        rcases List.mem_append.mp member with old | new
        · exact sorted.sent other old
        · rw [List.mem_singleton.mp new]
          exact ⟨acknowledge, belongs⟩
  | sendsUnreliable unreliable room =>
      obtain ⟨passed, rest, passedReliable, restReliable, sent⟩ :=
        scan.sendUnreliable_lists reliable outgoing
      refine sorted.of_subset ?_ ?_ ?_
      · rw [(finish_lists _).1, passed]
        exact append_subset (List.Subset.trans rest fewer)
      · rw [(finish_lists _).2.1, passedReliable, restReliable]
        exact append_subset fewerReliable
      · rw [(finish_lists _).2.2, sent]
        exact List.Subset.refl _

theorem run_sorted (serviceTime fuel : Nat) : ∀ {scan : OutgoingScan}, scan.finish.Sorted →
    (run serviceTime fuel scan).finish.Sorted := by
  induction fuel with
  | zero => intro scan sorted; exact sorted
  | succ fuel ih =>
      intro scan sorted
      unfold run
      split
      · exact sorted
      next reliable outgoing next =>
          have steps := @step_sorted _ serviceTime _ _ sorted next
          dsimp only
          split
          · exact ih steps
          · exact steps

end OutgoingScan

theorem Peer.Sorted.checkOutgoingCommands {peer : Peer} (sorted : peer.Sorted) (heap : Heap)
    (datagram : Datagram) (sentUnreliable : List OutgoingCommand) (serviceTime : Nat) :
    (peer.checkOutgoingCommands heap datagram sentUnreliable serviceTime).finish.Sorted :=
  OutgoingScan.run_sorted serviceTime _ sorted

/-! ## All peers -/

/-- The queues of every peer hold the commands that belong there. -/
def Sorted (host : Host) : Prop := ∀ index, (host.peers index).Sorted

namespace Sorted

variable {host host' : Host} {index : Nat}

theorem acts (sorted : Sorted host) (acts : ActsOn index host host')
    (own : (host'.peers index).Sorted) : Sorted host' := by
  intro other
  rcases eq_or_ne other index with same | different
  · rw [same]
    exact own
  · rw [acts.others other different]
    exact sorted other

theorem setPeer (sorted : Sorted host) {peer : Peer} (own : peer.Sorted) :
    Sorted (host.setPeer index peer) := by
  refine sorted.acts (.setPeer host index peer) ?_
  rw [Host.setPeer_self]
  exact own

/-- A change of a peer that leaves its queues. -/
theorem keep (sorted : Sorted host) {peer : Peer}
    (others : peer.outgoingCommands = (host.peers index).outgoingCommands)
    (reliable : peer.outgoingSendReliableCommands =
      (host.peers index).outgoingSendReliableCommands)
    (sent : peer.sentReliableCommands = (host.peers index).sentReliableCommands) :
    Sorted (host.setPeer index peer) :=
  sorted.setPeer ((sorted index).of_same others reliable sent)

theorem receivesFor (sorted : Sorted host) (receives : ReceivesFor index host host') :
    Sorted host' :=
  sorted.acts receives.acts ((sorted index).of_same receives.peer.outgoingCommands
    receives.peer.outgoingSendReliableCommands receives.peer.sentReliableCommands)

theorem setupOutgoingCommand (sorted : Sorted host) {outgoing : OutgoingCommand}
    (belongs : outgoing.packet.isSome = true ∨ outgoing.command.channelID = 0xFF) :
    Sorted (host.setupOutgoingCommand index outgoing) := by
  refine sorted.acts (.setupOutgoingCommand host index outgoing) ?_
  rw [Host.setupOutgoingCommand, Host.setPeer_self]
  exact (sorted index).setupOutgoingCommand _ belongs

/-- **An edit keeps the queues sorted.** -/
theorem edit (edit : Edit index host host') (sorted : Sorted host) : Sorted host' := by
  cases edit with
  | quiet quiet =>
      intro other
      have alike := quiet.peers other
      exact (sorted other).of_same alike.outgoingCommands alike.outgoingSendReliableCommands
        alike.sentReliableCommands
  | malloc => exact sorted
  | observe observation about fresh => exact sorted
  | schedule => exact sorted.receivesFor (.scheduleDispatch host index)
  | unschedule => exact @keep (host.setDispatchQueue _) index sorted _ rfl rfl rfl
  | changeState state used stays may =>
      refine sorted.acts (.changeState host index state) ?_
      rw [Host.changeState_peer]
      exact (sorted index).of_same rfl rfl rfl
  | eventData data => exact sorted.keep rfl rfl rfl
  | resetQueues =>
      refine sorted.acts (.resetQueues host index) ?_
      rw [Host.resetQueues_peer]
      exact .of_nil rfl rfl rfl
  | reset =>
      refine sorted.acts (.peerReset host index) ?_
      obtain ⟨mtu, same⟩ := Host.peerReset_peer host index
      rw [same]
      exact .of_nil rfl rfl rfl
  | clearChannels free => exact sorted.keep rfl rfl rfl
  | connecting address channelCount connectID slot free locally => exact sorted.keep rfl rfl rfl
  | accepted fields slot free channels admits => exact sorted.keep rfl rfl rfl
  | verified fields waits => exact sorted.keep rfl rfl rfl
  | bandwidth incomingBandwidth outgoingBandwidth =>
      unfold Host.handleBandwidthLimit
      dsimp only
      split
      · exact sorted
      · exact @keep (host.setBandwidthLimitedPeers _ _) index sorted _ rfl rfl rfl
  | queue command control bare =>
      unfold Host.queueOutgoingCommand
      split
      · exact sorted
      · exact @setupOutgoingCommand (host.setHeap _) index sorted _ (.inr control)
  | removeSent number channelID =>
      refine sorted.acts (SendsFor.removeSentReliableCommand host index number channelID).acts ?_
      have removes := (sorted index).removeSentReliableCommand number channelID
      unfold Host.removeSentReliableCommand
      split
      · exact sorted index
      next removed =>
          rw [removed] at removes
          dsimp only
          rw [Host.setPeer_self]
          exact removes
  | scanTimeouts => exact sorted.setPeer ((sorted index).checkTimeouts host.serviceTime)
  | receive step heard => exact sorted.receivesFor step.receivesFor
  | acknowledge acknowledgement => exact sorted.keep rfl rfl rfl
  | acknowledged rest => exact sorted.keep rfl rfl rfl

/-- **A packet is queued where it belongs.** -/
theorem peerSend (sorted : Sorted host) (index channelID : Nat) (packet : Packet) :
    Sorted (host.peerSend index channelID packet).1 := by
  unfold Host.peerSend
  dsimp only
  split
  · exact sorted
  · split
    · unfold Host.sendFragments
      dsimp only
      split
      · exact sorted
      · split
        · exact sorted
        next heap fragments made =>
            have carried := @Fitting.makeFragments_forall
              (fun fragment => fragment.packet.isSome = true) _ _ _
              (fun address number offset length within _ => rfl) _ _ _ _ _ _ _ _
              (Nat.le_refl (host.fragmentLength index)) (by simp) made
            have setups : ∀ (commands : List OutgoingCommand),
                (∀ fragment ∈ commands, fragment.packet.isSome = true) →
                ∀ before : Host, Sorted before → Sorted (commands.foldl
                  (fun host fragment => host.setupOutgoingCommand index fragment) before) := by
              intro commands
              induction commands with
              | nil => intro _ before sorted; exact sorted
              | cons fragment rest ih =>
                  intro carried before sorted
                  exact ih (fun other member => carried other (List.mem_cons_of_mem _ member)) _
                    (sorted.setupOutgoingCommand (.inl (carried fragment List.mem_cons_self)))
            exact setups fragments carried (host.setHeap _) sorted
    · have queues : Sorted (host.queueOutgoingCommand index (Host.sendCommand
          ((host.peers index).channels channelID) channelID packet) (some packet) 0
            packet.dataLength).1 := by
        unfold Host.queueOutgoingCommand
        split
        · exact sorted
        next heap address _ =>
            exact @setupOutgoingCommand (host.setHeap (heap.acquire packet)) index sorted _
              (.inl rfl)
      split
      next queued => rw [queued] at queues; exact queues
      next queued => rw [queued] at queues; exact queues

theorem maintained : Maintained fun host _ => Sorted host where
  edit := edit
  scan := by
    intro host index sentUnreliable sorted
    exact @setPeer ((host.setHeap (host.scanOutgoing index sentUnreliable).heap).setDatagram
      (host.scanOutgoing index sentUnreliable).datagram) index sorted _
        ((sorted index).checkOutgoingCommands host.heap host.datagram sentUnreliable
          host.serviceTime)
  free := fun _ _ sorted => sorted
  take := fun host index sorted => sorted.receivesFor (.peerReceive host index)
  packet := fun _ index channelID packet sorted => sorted.peerSend index channelID packet
  discard := fun _ _ _ sorted => sorted
  configure := fun _ _ _ _ _ _ _ _ sorted => sorted

/-- **The queues are sorted at every point of a call.** -/
theorem passed {sending : Sending} (passed : Passed sending) : Sorted sending.1 :=
  maintained.passed (fun _ _ _ _ _ _ _ _ => .of_nil rfl rfl rfl) (fun _ _ _ sorted => sorted)
    passed

end Sorted

end Enet
