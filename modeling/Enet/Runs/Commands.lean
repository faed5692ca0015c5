import Enet.Runs.Drivers
import Enet.Runs.Drops
import Enet.Runs.References

/-!
# The commands of a peer

The outgoing commands of a peer are in its two outgoing queues and in
`sentReliableCommands`. Timeouts and transmissions move them between the queues
and set three of their fields; what is left of a command without these is its
core, and the cores of all three queues are what the peer has pending.

A timeout changes nothing of that. An acknowledgement takes out one command, a
new command adds one, and a turn of the loop that fills a datagram takes out a
command that it places there, or those that the throttle drops.
-/

set_option autoImplicit false

namespace Enet

open Relation

namespace OutgoingCommand

/-- A command without what its transmissions set. -/
def core (outgoing : OutgoingCommand) : OutgoingCommand :=
  { outgoing with sendAttempts := 0, sentTime := 0, roundTripTimeout := 0 }

end OutgoingCommand

/-! ## Cores -/

/-- The cores of commands. -/
def cores (commands : List OutgoingCommand) : Multiset OutgoingCommand :=
  ↑(commands.map OutgoingCommand.core)

@[simp] theorem cores_nil : cores [] = 0 := rfl

@[simp] theorem cores_append (commands others : List OutgoingCommand) :
    cores (commands ++ others) = cores commands + cores others := by
  rw [cores, List.map_append, ← Multiset.coe_add]
  rfl

theorem cores_cons (outgoing : OutgoingCommand) (commands : List OutgoingCommand) :
    cores (outgoing :: commands) = cores [outgoing] + cores commands :=
  cores_append [outgoing] commands

theorem core_mem_cores {outgoing : OutgoingCommand} {commands : List OutgoingCommand}
    (member : outgoing ∈ commands) : outgoing.core ∈ cores commands :=
  Multiset.mem_coe.mpr (List.mem_map_of_mem member)

theorem mem_cores {core : OutgoingCommand} {commands : List OutgoingCommand}
    (member : core ∈ cores commands) : ∃ outgoing ∈ commands, outgoing.core = core :=
  List.mem_map.mp (Multiset.mem_coe.mp member)

theorem cores_eraseIdx {commands : List OutgoingCommand} {place : Nat}
    {outgoing : OutgoingCommand} (found : commands[place]? = some outgoing) :
    cores commands = cores [outgoing] + cores (commands.eraseIdx place) := by
  obtain ⟨inside, here⟩ := List.getElem?_eq_some_iff.mp found
  have split := List.take_append_drop place commands
  rw [List.drop_eq_getElem_cons inside, here] at split
  rw [List.eraseIdx_eq_take_drop_succ]
  conv => lhs; rw [← split]
  rw [cores_append, cores_append, cores_cons]
  abel

namespace Peer

/-- The cores of the commands that a peer has in its queues. -/
def pending (peer : Peer) : Multiset OutgoingCommand :=
  cores peer.outgoingCommands + cores peer.outgoingSendReliableCommands +
    cores peer.sentReliableCommands

theorem pending_congr {peer peer' : Peer}
    (outgoing : peer'.outgoingCommands = peer.outgoingCommands)
    (reliable : peer'.outgoingSendReliableCommands = peer.outgoingSendReliableCommands)
    (sent : peer'.sentReliableCommands = peer.sentReliableCommands) :
    peer'.pending = peer.pending := by
  unfold pending
  rw [outgoing, reliable, sent]

theorem Alike.pending {peer peer' : Peer} (alike : peer.Alike peer') :
    peer'.pending = peer.pending :=
  pending_congr alike.outgoingCommands alike.outgoingSendReliableCommands
    alike.sentReliableCommands

theorem Alike.landed_pending {peer peer' : Peer} {count : Nat}
    (alike : (peer.setDataInTransit count).Alike (peer'.setDataInTransit count)) :
    peer'.pending = peer.pending := alike.pending

theorem ReceivingOnly.pending {peer peer' : Peer} (receiving : peer.ReceivingOnly peer') :
    peer'.pending = peer.pending :=
  pending_congr receiving.outgoingCommands receiving.outgoingSendReliableCommands
    receiving.sentReliableCommands

theorem pending_eq_zero {peer : Peer} (outgoing : peer.outgoingCommands = [])
    (reliable : peer.outgoingSendReliableCommands = []) (sent : peer.sentReliableCommands = []) :
    peer.pending = 0 := by
  unfold pending
  rw [outgoing, reliable, sent]
  rfl

/-! ## Timeouts -/

/-- The commands of `sentReliableCommands` as a scan of the timeouts has them. -/
def TimeoutScan.scanned (scan : TimeoutScan) (rest : List OutgoingCommand) :
    Multiset OutgoingCommand :=
  cores scan.requeued + cores scan.requeuedReliable + cores (scan.passed ++ rest)

theorem TimeoutScan.putBack_scanned (scan : TimeoutScan) (peer : Peer)
    (outgoing : OutgoingCommand) (rest : List OutgoingCommand) :
    (scan.putBack peer outgoing).scanned rest = scan.scanned (outgoing :: rest) := by
  unfold scanned putBack
  rw [cores_append, cores_append, cores_cons]
  split
  · dsimp only
    rw [cores_append]
    have same : cores [backOff outgoing] = cores [outgoing] := rfl
    rw [same]
    abel
  · dsimp only
    rw [cores_append]
    have same : cores [backOff outgoing] = cores [outgoing] := rfl
    rw [same]
    abel

theorem scanTimeouts_scanned (serviceTime : Nat) (commands : List OutgoingCommand) :
    ∀ scan : TimeoutScan,
      (scanTimeouts serviceTime scan commands).1.scanned
        ((scanTimeouts serviceTime scan commands).2.getD []) = scan.scanned commands := by
  induction commands with
  | nil => intro scan; rfl
  | cons outgoing rest ih =>
      intro scan
      unfold scanTimeouts
      split
      · rw [ih]
        unfold TimeoutScan.scanned TimeoutScan.pass
        rw [List.append_assoc]
        rfl
      · dsimp only
        split
        · rfl
        · rw [ih, TimeoutScan.putBack_scanned]

/-- **The check of the timeouts moves commands between the queues.** -/
theorem checkTimeouts_pending (peer : Peer) (serviceTime : Nat) :
    (peer.checkTimeouts serviceTime).1.pending = peer.pending := by
  have alike := Alike.scanTimeouts serviceTime 0 peer.sentReliableCommands ⟨peer, [], [], []⟩
  have scanned := scanTimeouts_scanned serviceTime peer.sentReliableCommands ⟨peer, [], [], []⟩
  unfold checkTimeouts
  dsimp only
  generalize scanTimeouts serviceTime ⟨peer, [], [], []⟩ peer.sentReliableCommands = scan
    at alike scanned
  unfold TimeoutScan.finish pending
  dsimp only [setOutgoing, setSentReliable]
  have outgoing : scan.1.peer.outgoingCommands = peer.outgoingCommands := alike.outgoingCommands
  have reliable : scan.1.peer.outgoingSendReliableCommands = peer.outgoingSendReliableCommands :=
    alike.outgoingSendReliableCommands
  rw [outgoing, reliable]
  unfold TimeoutScan.scanned at scanned
  rw [cores_append scan.1.requeued, cores_append scan.1.requeuedReliable]
  calc _ = (cores scan.1.requeued + cores scan.1.requeuedReliable +
          cores (scan.1.passed ++ scan.2.getD [])) +
        (cores peer.outgoingCommands + cores peer.outgoingSendReliableCommands) := by abel
    _ = _ := by
      rw [scanned]
      simp only [cores_nil, List.nil_append, zero_add]
      abel

/-! ## Acknowledgements -/

/-- **An acknowledgement takes out one command**, which has its number and channel. -/
theorem takeSentReliableCommand_pending (peer : Peer) (number channelID : Nat) :
    peer.pending = cores (peer.takeSentReliableCommand number channelID).2.toList +
      (peer.takeSentReliableCommand number channelID).1.pending := by
  have none : ∀ {commands : List OutgoingCommand} {place : Nat}, commands[place]? = none →
      commands.eraseIdx place = commands := fun absent =>
    List.eraseIdx_of_length_le (List.getElem?_eq_none_iff.mp absent)
  unfold takeSentReliableCommand
  split
  next place _ =>
      unfold pending
      dsimp only [setSentReliable]
      cases found : peer.sentReliableCommands[place]? with
      | none =>
          rw [none found]
          exact (zero_add _).symm
      | some outgoing =>
          rw [cores_eraseIdx found]
          dsimp only [Option.toList]
          abel
  · split
    next place _ =>
        unfold pending
        dsimp only [setOutgoing]
        cases found : peer.outgoingCommands[place]? with
        | none =>
            rw [none found]
            exact (zero_add _).symm
        | some outgoing =>
            rw [cores_eraseIdx found]
            dsimp only [Option.toList]
            abel
    · split
      next place _ =>
          unfold pending
          dsimp only [setOutgoing]
          cases found : peer.outgoingSendReliableCommands[place]? with
          | none =>
              rw [none found]
              exact (zero_add _).symm
          | some outgoing =>
              rw [cores_eraseIdx found]
              dsimp only [Option.toList]
              abel
      · exact (zero_add _).symm

theorem closeCommandWindow_pending (peer : Peer) (number channelID : Nat) :
    (peer.closeCommandWindow number channelID).pending = peer.pending := by
  unfold closeCommandWindow
  split <;> rfl

/-- **The removal of an acknowledged command takes out that command.** -/
theorem removeSentReliableCommand_pending (peer : Peer) (number channelID : Nat) :
    peer.pending = cores (peer.removeSentReliableCommand number channelID).2.toList +
      (peer.removeSentReliableCommand number channelID).1.pending := by
  have takes := peer.takeSentReliableCommand_pending number channelID
  unfold removeSentReliableCommand
  dsimp only
  split
  · exact (zero_add _).symm
  next outgoing found =>
      dsimp only
      rw [(Alike.scheduleTimeout _).pending, (Alike.landReliableData _ _ _ 0).landed_pending,
        closeCommandWindow_pending, takes, found]

end Peer

theorem Host.removeSentReliableCommand_pending (host : Host) (index number channelID : Nat) :
    (host.peers index).pending =
      cores ((host.peers index).removeSentReliableCommand number channelID).2.toList +
        ((host.removeSentReliableCommand index number channelID).1.peers index).pending := by
  have removes := (host.peers index).removeSentReliableCommand_pending number channelID
  unfold Host.removeSentReliableCommand
  split
  next peer found =>
      rw [found]
      exact (zero_add _).symm
  next peer outgoing found =>
      rw [found] at removes ⊢
      dsimp only
      rw [setPeer_self]
      exact removes

namespace Peer

/-! ## New commands -/

/-- A command as `enet_peer_setup_outgoing_command` queues it. -/
def setupCommand (peer : Peer) (totalQueued : Nat) (outgoing : OutgoingCommand) :
    OutgoingCommand :=
  let numbered := (peer.countOutgoingData outgoing).numberOutgoingCommand outgoing
  stampOutgoing numbered.2 totalQueued numbered.1.outgoingUnsequencedGroup

/-- What a queued command keeps of the command it is made from. -/
structure Stamps (outgoing stamped : OutgoingCommand) : Prop where
  size : stamped.command.size = outgoing.command.size
  acknowledge : stamped.command.acknowledge = outgoing.command.acknowledge
  channelID : stamped.command.channelID = outgoing.command.channelID
  packet : stamped.packet = outgoing.packet
  fragmentOffset : stamped.fragmentOffset = outgoing.fragmentOffset
  fragmentLength : stamped.fragmentLength = outgoing.fragmentLength

theorem stampCommand_size (command : Protocol) (number unreliableNumber group : Nat) :
    (stampCommand command number unreliableNumber group).size = command.size := by
  unfold stampCommand Protocol.size
  cases command.command <;> rfl

theorem stampOutgoing_stamps (outgoing : OutgoingCommand) (totalQueued group : Nat) :
    Stamps outgoing (stampOutgoing outgoing totalQueued group) :=
  ⟨stampCommand_size .., rfl, rfl, rfl, rfl, rfl⟩

theorem numberOutgoingCommand_stamps (peer : Peer) (outgoing : OutgoingCommand) :
    Stamps outgoing (peer.numberOutgoingCommand outgoing).2 := by
  unfold numberOutgoingCommand
  split
  · constructor <;> rfl
  · split
    · constructor <;> rfl
    · split <;> constructor <;> rfl

theorem setupCommand_stamps (peer : Peer) (totalQueued : Nat) (outgoing : OutgoingCommand) :
    Stamps outgoing (peer.setupCommand totalQueued outgoing) := by
  have numbers := (peer.countOutgoingData outgoing).numberOutgoingCommand_stamps outgoing
  have stamps := stampOutgoing_stamps
    ((peer.countOutgoingData outgoing).numberOutgoingCommand outgoing).2 totalQueued
    ((peer.countOutgoingData outgoing).numberOutgoingCommand outgoing).1.outgoingUnsequencedGroup
  exact ⟨stamps.size.trans numbers.size, stamps.acknowledge.trans numbers.acknowledge,
    stamps.channelID.trans numbers.channelID, stamps.packet.trans numbers.packet,
    stamps.fragmentOffset.trans numbers.fragmentOffset,
    stamps.fragmentLength.trans numbers.fragmentLength⟩

/-- **A new command is added to what is pending.** -/
theorem setupOutgoingCommand_pending (peer : Peer) (totalQueued : Nat)
    (outgoing : OutgoingCommand) :
    (peer.setupOutgoingCommand totalQueued outgoing).pending =
      cores [peer.setupCommand totalQueued outgoing] + peer.pending := by
  obtain ⟨queue, reliable, sent, -⟩ :=
    (peer.countOutgoingData outgoing).numberOutgoingCommand_queues outgoing
  have same : ((peer.countOutgoingData outgoing).numberOutgoingCommand outgoing).1.pending =
      peer.pending := pending_congr queue reliable sent
  unfold setupOutgoingCommand setupCommand
  dsimp only
  rw [← same]
  generalize (peer.countOutgoingData outgoing).numberOutgoingCommand outgoing = numbered
  unfold enqueueOutgoing
  split
  · unfold pending
    dsimp only [setOutgoing]
    rw [cores_append]
    abel
  · unfold pending
    dsimp only [setOutgoing]
    rw [cores_append]
    abel

end Peer

/-! ## Filling a datagram -/

namespace OutgoingScan

/-- The cores of the commands that are in the queues while the loop walks them. -/
def pending (scan : OutgoingScan) : Multiset OutgoingCommand :=
  cores (scan.passed ++ scan.rest) + cores (scan.passedReliable ++ scan.restReliable) +
    cores scan.peer.sentReliableCommands

/-- A turn of the loop places a command that is not to be acknowledged in the datagram. -/
structure Places (scan scan' : OutgoingScan) (outgoing : OutgoingCommand) : Prop where
  unreliable : outgoing.command.acknowledge = false
  leaves : scan.pending = cores [outgoing] + scan'.pending
  part : scan'.datagram.parts = scan.datagram.parts ++ [⟨outgoing.command, payload outgoing⟩]

/-- A turn of the loop drops commands by the throttle. -/
structure Throttles (scan scan' : OutgoingScan) (outgoing : OutgoingCommand)
    (dropped : List OutgoingCommand) : Prop where
  unreliable : outgoing.command.acknowledge = false
  first : isThrottled outgoing = true
  throttled : scan.peer.packetThrottle < throttleCounter scan.peer outgoing
  shares : ∀ other ∈ dropped, outgoing.sharesNumbers other = true
  leaves : scan.pending = cores (outgoing :: dropped) + scan'.pending
  parts : scan'.datagram.parts = scan.datagram.parts

theorem pass_pending (scan : OutgoingScan) (reliable : Bool) :
    (scan.pass reliable).pending = scan.pending := by
  unfold pending OutgoingScan.pass
  cases reliable with
  | true => simp only [if_true, List.append_assoc, List.take_append_drop]
  | false => simp only [Bool.false_eq_true, if_false, List.append_assoc, List.take_append_drop]

theorem skipReliable_pending (scan : OutgoingScan) :
    scan.skipReliable.pending = scan.pending := by
  unfold pending skipReliable
  dsimp only
  rw [List.append_nil]

theorem unlink_pending {scan : OutgoingScan} {reliable : Bool} {outgoing : OutgoingCommand}
    (found : scan.next = some (reliable, outgoing)) :
    scan.pending = cores [outgoing] + (scan.unlink reliable).pending := by
  rcases next_cases found with ⟨rfl, rest, queue⟩ | ⟨rfl, rest, queue⟩
  · have unlinked : (scan.unlink false).pending =
        cores (scan.passed ++ rest) + cores (scan.passedReliable ++ scan.restReliable) +
          cores scan.peer.sentReliableCommands := by
      unfold pending unlink
      rw [if_neg Bool.false_ne_true]
      dsimp only
      rw [queue]
      rfl
    rw [unlinked]
    unfold pending
    rw [queue, cores_append, cores_append scan.passed, cores_cons]
    abel
  · have unlinked : (scan.unlink true).pending =
        cores (scan.passed ++ scan.rest) + cores (scan.passedReliable ++ rest) +
          cores scan.peer.sentReliableCommands := by
      unfold pending unlink
      rw [if_pos rfl]
      dsimp only
      rw [queue]
      rfl
    rw [unlinked]
    unfold pending
    rw [queue, cores_append scan.passedReliable, cores_append scan.passedReliable, cores_cons]
    abel

/-- The transmission of a command that is to be acknowledged keeps it. -/
theorem sendReliable_pending {scan : OutgoingScan} (serviceTime : Nat) {reliable : Bool}
    {outgoing : OutgoingCommand} (found : scan.next = some (reliable, outgoing)) :
    (scan.forbidPing.sendReliable serviceTime reliable outgoing).pending = scan.pending := by
  have opens : (scan.forbidPing.openCommandWindow outgoing).sentReliableCommands =
      scan.peer.sentReliableCommands := by
    unfold openCommandWindow
    split <;> rfl
  have sent : (scan.forbidPing.sendReliable serviceTime reliable
      outgoing).peer.sentReliableCommands =
      scan.peer.sentReliableCommands ++ [transmitted scan.peer serviceTime outgoing] :=
    congrArg (· ++ _) opens
  have queues : (scan.forbidPing.sendReliable serviceTime reliable outgoing).passed =
        (scan.unlink reliable).passed ∧
      (scan.forbidPing.sendReliable serviceTime reliable outgoing).rest =
        (scan.unlink reliable).rest ∧
      (scan.forbidPing.sendReliable serviceTime reliable outgoing).passedReliable =
        (scan.unlink reliable).passedReliable ∧
      (scan.forbidPing.sendReliable serviceTime reliable outgoing).restReliable =
        (scan.unlink reliable).restReliable := by
    cases reliable <;> exact ⟨rfl, rfl, rfl, rfl⟩
  rw [unlink_pending found]
  unfold pending
  rw [sent, queues.1, queues.2.1, queues.2.2.1, queues.2.2.2, unlink_peer,
    cores_append scan.peer.sentReliableCommands]
  have same : cores [transmitted scan.peer serviceTime outgoing] = cores [outgoing] := rfl
  rw [same]
  abel

theorem sendReliable_parts (scan : OutgoingScan) (serviceTime : Nat) (reliable : Bool)
    (outgoing : OutgoingCommand) :
    (scan.forbidPing.sendReliable serviceTime reliable outgoing).datagram.parts =
      scan.datagram.parts ++ [⟨outgoing.command, payload outgoing⟩] := by
  cases reliable <;> rfl

/-- The drop of the rest of a packet, whatever the heap. -/
theorem dropThrottled_rest (scan : OutgoingScan) (reliable : Bool) (outgoing : OutgoingCommand) :
    (scan.dropThrottled reliable outgoing).rest =
      (scan.unlink reliable).rest.dropWhile outgoing.sharesNumbers :=
  dropPacket_rest outgoing _ _

theorem dropThrottled_pending {scan : OutgoingScan} {reliable : Bool}
    {outgoing : OutgoingCommand} (found : scan.next = some (reliable, outgoing)) :
    scan.pending =
      cores (outgoing :: (scan.unlink reliable).rest.takeWhile outgoing.sharesNumbers) +
        (scan.dropThrottled reliable outgoing).pending := by
  have split := (scan.unlink reliable).rest.takeWhile_append_dropWhile (p := outgoing.sharesNumbers)
  have rest := scan.dropThrottled_rest reliable outgoing
  have unlinked : (scan.unlink reliable).pending =
      cores ((scan.unlink reliable).rest.takeWhile outgoing.sharesNumbers) +
        (scan.dropThrottled reliable outgoing).pending := by
    unfold pending
    rw [rest]
    conv => lhs; rw [← split]
    have passed : (scan.dropThrottled reliable outgoing).passed =
        (scan.unlink reliable).passed := rfl
    have reliableQueue : (scan.dropThrottled reliable outgoing).passedReliable ++
        (scan.dropThrottled reliable outgoing).restReliable =
          (scan.unlink reliable).passedReliable ++ (scan.unlink reliable).restReliable := rfl
    have peer : (scan.dropThrottled reliable outgoing).peer = (scan.unlink reliable).peer := rfl
    rw [passed, reliableQueue, peer]
    simp only [cores_append]
    abel
  rw [unlink_pending found, cores_cons outgoing (List.takeWhile ..), unlinked, add_assoc]

/-- A command that is not to be acknowledged is placed or dropped. -/
theorem sendUnreliable_pending {scan : OutgoingScan} {reliable : Bool}
    {outgoing : OutgoingCommand} (found : scan.next = some (reliable, outgoing))
    (unreliable : outgoing.command.acknowledge = false) :
    scan.Places (scan.sendUnreliable reliable outgoing) outgoing ∨
      ∃ dropped, scan.Throttles (scan.sendUnreliable reliable outgoing) outgoing dropped := by
  unfold sendUnreliable
  dsimp only
  split
  next throttled =>
      obtain ⟨first, exceeds⟩ := (Bool.and_eq_true ..).mp throttled
      refine .inr ⟨(scan.unlink reliable).rest.takeWhile outgoing.sharesNumbers, unreliable, first,
        of_decide_eq_true exceeds, ?_, ?_, ?_⟩
      · exact fun other member => List.mem_takeWhile_imp member
      · refine (dropThrottled_pending found).trans ?_
        cases reliable <;> rfl
      · cases reliable <;> rfl
  next =>
      refine .inl ⟨unreliable, (unlink_pending found).trans ?_, ?_⟩
      · unfold transmitUnreliable
        dsimp only
        split <;> cases reliable <;> rfl
      · unfold transmitUnreliable
        dsimp only
        split <;> cases reliable <;> rfl

/-- **What a turn of the loop takes out of the queues**: nothing, a command that it
places in the datagram, or the commands that the throttle drops. -/
theorem step_pending {scan : OutgoingScan} (serviceTime : Nat) {reliable : Bool}
    {outgoing : OutgoingCommand} (found : scan.next = some (reliable, outgoing)) :
    ((scan.step serviceTime reliable outgoing).1.pending = scan.pending ∧
        ∃ parts, (scan.step serviceTime reliable outgoing).1.datagram.parts =
          scan.datagram.parts ++ parts) ∨
      scan.Places (scan.step serviceTime reliable outgoing).1 outgoing ∨
      ∃ dropped, scan.Throttles (scan.step serviceTime reliable outgoing).1 outgoing dropped := by
  have passes : (scan.pass reliable).datagram.parts = scan.datagram.parts ++ [] := by
    rw [List.append_nil]
    cases reliable <;> rfl
  have skips : (scan.pass reliable).skipReliable.pending = scan.pending :=
    (skipReliable_pending _).trans (scan.pass_pending reliable)
  unfold OutgoingScan.step
  split
  · refine .inl ?_
    split
    · exact ⟨scan.pass_pending reliable, [], passes⟩
    · split
      · exact ⟨skips, [], passes⟩
      · split
        · exact ⟨skips, [], passes⟩
        · split
          · exact ⟨rfl, [], (List.append_nil _).symm⟩
          · exact ⟨sendReliable_pending serviceTime found, _, sendReliable_parts ..⟩
  next unacknowledged =>
      have unreliable : outgoing.command.acknowledge = false := by simpa using unacknowledged
      split
      · exact .inl ⟨rfl, [], (List.append_nil _).symm⟩
      · exact .inr (sendUnreliable_pending found unreliable)

theorem step_pending_le {scan : OutgoingScan} (serviceTime : Nat) {reliable : Bool}
    {outgoing : OutgoingCommand} (found : scan.next = some (reliable, outgoing)) :
    (scan.step serviceTime reliable outgoing).1.pending ≤ scan.pending := by
  rcases step_pending serviceTime found with ⟨same, -⟩ | places | ⟨dropped, throttles⟩
  · exact same.le
  · rw [places.leaves]
    exact Multiset.le_add_left ..
  · rw [throttles.leaves]
    exact Multiset.le_add_left ..

/-- The command at an iterator is queued. -/
theorem next_pending {scan : OutgoingScan} {reliable : Bool} {outgoing : OutgoingCommand}
    (found : scan.next = some (reliable, outgoing)) : outgoing.core ∈ scan.pending := by
  rw [unlink_pending found]
  exact Multiset.mem_add.mpr (.inl (Multiset.mem_singleton_self _))

end OutgoingScan

end Enet
