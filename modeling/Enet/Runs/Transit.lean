import Enet.Runs.Drops
import Enet.Runs.Points

/-!
# Reliable data in transit

`peer->reliableDataInTransit` is kept in three functions: a transmission adds the
length of a command, and a timeout or an acknowledgement of a command in transit
takes it away again. It is the length of what is in `sentReliableCommands`, as
long as the peer is not leaving: a disconnection frees the queues and leaves the
register as it is.
-/

set_option autoImplicit false

namespace Enet

open Relation

/-- The length of the data that commands carry. -/
def inTransit (commands : List OutgoingCommand) : Nat :=
  (commands.map OutgoingCommand.fragmentLength).sum

@[simp] theorem inTransit_nil : inTransit [] = 0 := rfl

@[simp] theorem inTransit_cons (outgoing : OutgoingCommand) (commands : List OutgoingCommand) :
    inTransit (outgoing :: commands) = outgoing.fragmentLength + inTransit commands :=
  List.sum_cons

@[simp] theorem inTransit_append (commands others : List OutgoingCommand) :
    inTransit (commands ++ others) = inTransit commands + inTransit others := by
  rw [inTransit, List.map_append, List.sum_append]
  rfl

theorem inTransit_eraseIdx {commands : List OutgoingCommand} {place : Nat}
    {outgoing : OutgoingCommand} (found : commands[place]? = some outgoing) :
    inTransit commands = outgoing.fragmentLength + inTransit (commands.eraseIdx place) := by
  obtain ⟨inside, here⟩ := List.getElem?_eq_some_iff.mp found
  have split := List.take_append_drop place commands
  rw [List.drop_eq_getElem_cons inside, here] at split
  rw [List.eraseIdx_eq_take_drop_succ]
  conv => lhs; rw [← split]
  rw [inTransit_append, inTransit_append, inTransit_cons]
  omega

/-! ## One peer -/

/-- The register holds the length of the data in transit, and is not close to
wrapping around. -/
structure Peer.CountsTransit (peer : Peer) : Prop where
  exact : peer.reliableDataInTransit = inTransit peer.sentReliableCommands
  bounded : peer.reliableDataInTransit ≤ 134217728

/-- Commands that carry data carry a packet. -/
def CarryPackets (commands : List OutgoingCommand) : Prop :=
  ∀ outgoing ∈ commands, outgoing.packet = none → outgoing.fragmentLength = 0

theorem Peer.Fitting.carryPackets {peer : Peer} (fitting : peer.Fitting) :
    CarryPackets peer.sentReliableCommands :=
  fun _ member => (fitting.queued (List.mem_append_right _ member)).bare

namespace Peer

/-! ## Timeouts -/

/-- One turn of the loop of `enet_protocol_check_timeouts` that another one follows. -/
inductive TimeoutTurn (serviceTime : Nat) :
    TimeoutScan × List OutgoingCommand → TimeoutScan × List OutgoingCommand → Prop where
  | pass (scan : TimeoutScan) (outgoing : OutgoingCommand) (rest : List OutgoingCommand)
      (early : timeDifference serviceTime outgoing.sentTime < outgoing.roundTripTimeout) :
      TimeoutTurn serviceTime (scan, outgoing :: rest) (scan.pass outgoing, rest)
  | requeue (scan : TimeoutScan) (outgoing : OutgoingCommand) (rest : List OutgoingCommand)
      (overdue : ¬timeDifference serviceTime outgoing.sentTime < outgoing.roundTripTimeout)
      (stays : (scan.peer.noteTimeout outgoing).isTimedOut serviceTime outgoing = false) :
      TimeoutTurn serviceTime (scan, outgoing :: rest)
        (scan.putBack (((scan.peer.noteTimeout outgoing).requeue outgoing).scheduleNext
          scan.passed rest) outgoing, rest)

/-- What a turn of the loop keeps, it keeps to the end. -/
theorem scanTimeouts_keeps_of_turns {serviceTime : Nat}
    (Invariant : TimeoutScan × List OutgoingCommand → Prop)
    (keeps : ∀ {before after}, TimeoutTurn serviceTime before after → Invariant before →
      Invariant after)
    (notes : ∀ {scan outgoing rest}, Invariant (scan, outgoing :: rest) →
      Invariant (scan.setPeer (scan.peer.noteTimeout outgoing), outgoing :: rest))
    (commands : List OutgoingCommand) : ∀ scan : TimeoutScan, Invariant (scan, commands) →
      Invariant ((scanTimeouts serviceTime scan commands).1,
        (scanTimeouts serviceTime scan commands).2.getD []) := by
  induction commands with
  | nil => intro scan holds; exact holds
  | cons outgoing rest ih =>
      intro scan holds
      unfold scanTimeouts
      split
      next early => exact ih _ (keeps (.pass scan outgoing rest early) holds)
      next overdue =>
          dsimp only
          split
          · exact notes holds
          next stays =>
              exact ih _ (keeps (.requeue scan outgoing rest overdue (by simpa using stays)) holds)

/-- A scan that counts the data in transit, of commands that carry packets. -/
structure TimeoutScan.Sound (scan : TimeoutScan) (rest : List OutgoingCommand) : Prop where
  counts : scan.peer.reliableDataInTransit = inTransit (scan.passed ++ rest)
  bounded : scan.peer.reliableDataInTransit ≤ 134217728
  carry : CarryPackets rest

theorem TimeoutScan.putBack_peer (scan : TimeoutScan) (peer : Peer) (outgoing : OutgoingCommand) :
    (scan.putBack peer outgoing).peer = peer ∧
      (scan.putBack peer outgoing).passed = scan.passed := by
  unfold putBack
  split <;> exact ⟨rfl, rfl⟩

/-- **A command put back was counted**: its length is not more than the register. -/
theorem TimeoutScan.Sound.le {scan : TimeoutScan} {outgoing : OutgoingCommand}
    {rest : List OutgoingCommand} (sound : scan.Sound (outgoing :: rest)) :
    outgoing.fragmentLength ≤ scan.peer.reliableDataInTransit := by
  rw [sound.counts, inTransit_append, inTransit_cons]
  omega

theorem noteTimeout_transit (peer : Peer) (outgoing : OutgoingCommand) :
    (peer.noteTimeout outgoing).reliableDataInTransit = peer.reliableDataInTransit :=
  (Alike.noteTimeout peer outgoing).reliableDataInTransit

/-- **A turn of the loop counts the data in transit.** -/
theorem TimeoutTurn.sound {serviceTime : Nat}
    {before after : TimeoutScan × List OutgoingCommand}
    (turn : TimeoutTurn serviceTime before after) (sound : before.1.Sound before.2) :
    after.1.Sound after.2 := by
  cases turn with
  | pass scan outgoing rest early =>
      refine ⟨?_, sound.bounded, fun other member =>
        sound.carry other (List.mem_cons_of_mem _ member)⟩
      unfold TimeoutScan.pass
      rw [List.append_assoc]
      exact sound.counts
  | requeue scan outgoing rest overdue stays =>
      have le := sound.le
      have bare := sound.carry outgoing List.mem_cons_self
      have counts : scan.peer.reliableDataInTransit = inTransit (scan.passed ++ outgoing :: rest) :=
        sound.counts
      have bounded : scan.peer.reliableDataInTransit ≤ 134217728 := sound.bounded
      rw [inTransit_append, inTransit_cons] at counts
      obtain ⟨peer, passed⟩ := scan.putBack_peer
        (((scan.peer.noteTimeout outgoing).requeue outgoing).scheduleNext scan.passed rest) outgoing
      have left : (((scan.peer.noteTimeout outgoing).requeue outgoing).scheduleNext scan.passed
          rest).reliableDataInTransit = inTransit scan.passed + inTransit rest := by
        rw [(Alike.scheduleNext ..).reliableDataInTransit]
        unfold Peer.requeue
        dsimp only
        rw [noteTimeout_transit]
        split
        · unfold sub32
          rw [if_pos le]
          omega
        next none =>
            rw [bare (by simpa using none)] at counts
            omega
      refine ⟨?_, ?_, fun other member => sound.carry other (List.mem_cons_of_mem _ member)⟩
      · dsimp only
        rw [peer, passed, inTransit_append]
        exact left
      · dsimp only
        rw [peer]
        omega

/-- The rest of a scan that gives the peer up is as it was. -/
theorem TimeoutScan.Sound.notes {scan : TimeoutScan} {outgoing : OutgoingCommand}
    {rest : List OutgoingCommand} (sound : scan.Sound (outgoing :: rest)) :
    (scan.setPeer (scan.peer.noteTimeout outgoing)).Sound (outgoing :: rest) := by
  refine ⟨?_, ?_, sound.carry⟩
  · exact (noteTimeout_transit ..).trans sound.counts
  · exact (noteTimeout_transit scan.peer outgoing).trans_le sound.bounded

theorem CountsTransit.start {peer : Peer} (counts : peer.CountsTransit)
    (fitting : peer.Fitting) :
    (⟨peer, [], [], []⟩ : TimeoutScan).Sound peer.sentReliableCommands :=
  ⟨counts.exact, counts.bounded, fitting.carryPackets⟩

/-- **The check of the timeouts counts the data in transit.** -/
theorem CountsTransit.checkTimeouts {peer : Peer} (counts : peer.CountsTransit)
    (fitting : peer.Fitting) (serviceTime : Nat) :
    (peer.checkTimeouts serviceTime).1.CountsTransit := by
  have sound :
      ((scanTimeouts serviceTime ⟨peer, [], [], []⟩ peer.sentReliableCommands).1).Sound _ :=
    scanTimeouts_keeps_of_turns (fun scan => scan.1.Sound scan.2) TimeoutTurn.sound
      TimeoutScan.Sound.notes _ _ (counts.start fitting)
  exact ⟨sound.counts, sound.bounded⟩

/-! ## Acknowledgements -/

/-- Where an acknowledged command is found: in transit, or in an outgoing queue. -/
theorem takeSentReliableCommand_transit {peer : Peer} {number channelID : Nat}
    {outgoing : OutgoingCommand}
    (taken : (peer.takeSentReliableCommand number channelID).2 = some outgoing) :
    (peer.takeSentReliableCommand number channelID).1.reliableDataInTransit =
        peer.reliableDataInTransit ∧
      (peer.isInTransit number channelID = true ∧ outgoing ∈ peer.sentReliableCommands ∧
          inTransit peer.sentReliableCommands = outgoing.fragmentLength + inTransit
            (peer.takeSentReliableCommand number channelID).1.sentReliableCommands ∨
        peer.isInTransit number channelID = false ∧
          (peer.takeSentReliableCommand number channelID).1.sentReliableCommands =
            peer.sentReliableCommands) := by
  unfold isInTransit
  unfold takeSentReliableCommand at taken ⊢
  split
  next place found =>
      rw [found] at taken
      exact ⟨rfl, .inl ⟨by rw [found]; rfl, List.mem_of_getElem? taken,
        inTransit_eraseIdx taken⟩⟩
  next missing =>
      split
      · exact ⟨rfl, .inr ⟨by rw [missing]; rfl, rfl⟩⟩
      · split
        · exact ⟨rfl, .inr ⟨by rw [missing]; rfl, rfl⟩⟩
        · exact ⟨rfl, .inr ⟨by rw [missing]; rfl, rfl⟩⟩

/-- **An acknowledged command in transit was counted.** -/
theorem CountsTransit.le {peer : Peer} (counts : peer.CountsTransit) {number channelID : Nat}
    {outgoing : OutgoingCommand}
    (taken : (peer.takeSentReliableCommand number channelID).2 = some outgoing)
    (sent : peer.isInTransit number channelID = true) :
    outgoing.fragmentLength ≤ peer.reliableDataInTransit := by
  rcases (takeSentReliableCommand_transit taken).2 with ⟨-, -, whole⟩ | ⟨queued, -⟩
  · rw [counts.exact, whole]
    omega
  · rw [queued] at sent
    cases sent

theorem closeCommandWindow_transit (peer : Peer) (number channelID : Nat) :
    (peer.closeCommandWindow number channelID).reliableDataInTransit =
        peer.reliableDataInTransit ∧
      (peer.closeCommandWindow number channelID).sentReliableCommands =
        peer.sentReliableCommands := by
  unfold closeCommandWindow
  split <;> exact ⟨rfl, rfl⟩

/-- **The removal of a command counts the data in transit.** -/
theorem CountsTransit.removeSentReliableCommand {peer : Peer} (counts : peer.CountsTransit)
    (fitting : peer.Fitting) (number channelID : Nat) :
    (peer.removeSentReliableCommand number channelID).1.CountsTransit := by
  unfold Peer.removeSentReliableCommand
  dsimp only
  split
  · exact counts
  next outgoing taken =>
      obtain ⟨still, place⟩ := takeSentReliableCommand_transit taken
      obtain ⟨register, sent⟩ := (peer.takeSentReliableCommand number
        channelID).1.closeCommandWindow_transit number channelID
      have schedules := Alike.scheduleTimeout
        (((peer.takeSentReliableCommand number channelID).1.closeCommandWindow number
          channelID).landReliableData outgoing (peer.isInTransit number channelID))
      have exact := counts.exact
      have bounded := counts.bounded
      have lands : ((((peer.takeSentReliableCommand number channelID).1.closeCommandWindow number
          channelID).landReliableData outgoing
            (peer.isInTransit number channelID)).reliableDataInTransit =
          inTransit (peer.takeSentReliableCommand number channelID).1.sentReliableCommands) ∧
          ((((peer.takeSentReliableCommand number channelID).1.closeCommandWindow number
          channelID).landReliableData outgoing
            (peer.isInTransit number channelID)).sentReliableCommands =
          (peer.takeSentReliableCommand number channelID).1.sentReliableCommands) := by
        unfold landReliableData
        rcases place with ⟨inside, member, whole⟩ | ⟨outside, same⟩
        · have bare := fitting.carryPackets outgoing member
          rw [inside, Bool.and_true]
          split
          · refine ⟨?_, sent⟩
            dsimp only
            rw [register, still]
            unfold sub32
            rw [if_pos (by omega)]
            omega
          next none =>
              rw [bare (by simpa using none)] at whole
              exact ⟨by omega, sent⟩
        · rw [outside, Bool.and_false, if_neg Bool.false_ne_true]
          exact ⟨by rw [register, still, same, exact], sent⟩
      have less : inTransit (peer.takeSentReliableCommand number channelID).1.sentReliableCommands ≤
          inTransit peer.sentReliableCommands := by
        rcases place with ⟨-, -, whole⟩ | ⟨-, same⟩
        · omega
        · rw [same]
      refine ⟨?_, ?_⟩
      · rw [schedules.reliableDataInTransit, schedules.sentReliableCommands, lands.1, lands.2]
      · rw [schedules.reliableDataInTransit, lands.1]
        omega

end Peer

/-! ## Transmission -/

namespace OutgoingScan

/-- A turn of the loop transmits a command that is to be acknowledged. -/
structure Transmits (scan scan' : OutgoingScan) (outgoing : OutgoingCommand) : Prop where
  acknowledge : outgoing.command.acknowledge = true
  allowed : dataBlocked scan.peer outgoing = false
  sent : ∃ sent : OutgoingCommand, sent.core = outgoing.core ∧
    scan'.peer.sentReliableCommands = scan.peer.sentReliableCommands ++ [sent]
  register : scan'.peer.reliableDataInTransit =
    u32 (scan.peer.reliableDataInTransit + outgoing.fragmentLength)

theorem sendReliable_transmits {scan : OutgoingScan} {outgoing : OutgoingCommand}
    (acknowledge : outgoing.command.acknowledge = true)
    (allowed : dataBlocked scan.peer outgoing = false) (serviceTime : Nat) (reliable : Bool) :
    scan.Transmits (scan.forbidPing.sendReliable serviceTime reliable outgoing) outgoing := by
  have opens : (scan.forbidPing.openCommandWindow outgoing).sentReliableCommands =
        scan.peer.sentReliableCommands ∧
      (scan.forbidPing.openCommandWindow outgoing).reliableDataInTransit =
        scan.peer.reliableDataInTransit := by
    unfold openCommandWindow
    split <;> exact ⟨rfl, rfl⟩
  refine ⟨acknowledge, allowed, ⟨transmitted scan.peer serviceTime outgoing, rfl, ?_⟩, ?_⟩
  · exact congrArg (· ++ _) opens.1
  · exact congrArg (fun count => u32 (count + outgoing.fragmentLength)) opens.2

/-- **What a turn of the loop does to the data in transit.** -/
theorem step_transit (scan : OutgoingScan) (serviceTime : Nat) (reliable : Bool)
    (outgoing : OutgoingCommand) :
    ((scan.step serviceTime reliable outgoing).1.peer.sentReliableCommands =
          scan.peer.sentReliableCommands ∧
        (scan.step serviceTime reliable outgoing).1.peer.reliableDataInTransit =
          scan.peer.reliableDataInTransit) ∨
      scan.Transmits (scan.step serviceTime reliable outgoing).1 outgoing := by
  have passes := scan.pass_peer reliable
  unfold OutgoingScan.step
  split
  next acknowledge =>
      split
      · exact .inl ⟨by rw [passes], by rw [passes]⟩
      · split
        · refine .inl ⟨?_, ?_⟩
          · exact congrArg Peer.sentReliableCommands passes
          · exact congrArg Peer.reliableDataInTransit passes
        · split
          · refine .inl ⟨?_, ?_⟩
            · exact congrArg Peer.sentReliableCommands passes
            · exact congrArg Peer.reliableDataInTransit passes
          next allowed =>
              split
              · exact .inl ⟨rfl, rfl⟩
              · exact .inr (sendReliable_transmits acknowledge (by simpa using allowed)
                  serviceTime reliable)
  · refine .inl ?_
    split
    · exact ⟨rfl, rfl⟩
    · unfold sendUnreliable
      dsimp only
      split
      · rw [dropThrottled_peer]
        exact ⟨rfl, rfl⟩
      · rw [transmitUnreliable_peer]
        exact ⟨rfl, rfl⟩

/-- The next turn of the loop puts its command into the datagram. -/
structure Emits (serviceTime : Nat) (scan : OutgoingScan) (outgoing : OutgoingCommand)
    (scan' : OutgoingScan) : Prop where
  turn : ∃ reliable, scan.next = some (reliable, outgoing) ∧
    scan.step serviceTime reliable outgoing = (scan', true)
  placed : scan'.datagram.commandCount = scan.datagram.commandCount + 1

theorem pass_commandCount (scan : OutgoingScan) (reliable : Bool) :
    (scan.pass reliable).datagram.commandCount = scan.datagram.commandCount := by
  cases reliable <;> rfl

/-- A command that is to be acknowledged is emitted where it is transmitted. -/
theorem Emits.transmits {serviceTime : Nat} {scan scan' : OutgoingScan}
    {outgoing : OutgoingCommand} (emits : scan.Emits serviceTime outgoing scan')
    (acknowledge : outgoing.command.acknowledge = true) : scan.Transmits scan' outgoing := by
  obtain ⟨⟨reliable, -, turn⟩, placed⟩ := emits
  have passes := scan.pass_commandCount reliable
  unfold OutgoingScan.step at turn
  rw [if_pos acknowledge] at turn
  split at turn
  · cases turn
    omega
  · split at turn
    · cases turn
      exact absurd (passes.symm.trans placed) (by omega)
    · split at turn
      · cases turn
        exact absurd (passes.symm.trans placed) (by omega)
      next allowed =>
          split at turn
          · cases turn
          · cases turn
            exact sendReliable_transmits acknowledge (by simpa using allowed) serviceTime reliable

/-- A command that is not to be acknowledged is not counted. -/
theorem Emits.uncounted {serviceTime : Nat} {scan scan' : OutgoingScan}
    {outgoing : OutgoingCommand} (emits : scan.Emits serviceTime outgoing scan')
    (unreliable : outgoing.command.acknowledge = false) :
    scan'.peer.reliableDataInTransit = scan.peer.reliableDataInTransit := by
  obtain ⟨reliable, -, turn⟩ := emits.turn
  have steps := scan.step_transit serviceTime reliable outgoing
  rw [turn] at steps
  rcases steps with ⟨-, register⟩ | transmits
  · exact register
  · cases unreliable.symm.trans transmits.acknowledge

/-- **A packet is transmitted within the window**, whatever else is queued. -/
theorem Transmits.bounded {scan scan' : OutgoingScan} {outgoing : OutgoingCommand}
    (transmits : scan.Transmits scan' outgoing) (carried : outgoing.packet.isSome = true) :
    scan'.peer.reliableDataInTransit ≤
      max (u32 (scan.peer.packetThrottle * scan.peer.windowSize) / peerPacketThrottleScale)
        scan.peer.mtu := by
  have allowed := transmits.allowed
  unfold dataBlocked at allowed
  rw [carried, Bool.true_and, decide_eq_false_iff_not, Nat.not_lt] at allowed
  rw [transmits.register]
  exact allowed

/-- **A turn of the loop counts the data in transit.** -/
theorem step_counts {scan : OutgoingScan} (counts : scan.peer.CountsTransit)
    (serviceTime : Nat) (reliable : Bool) {outgoing : OutgoingCommand}
    (fits : outgoing.Fits scan.peer.mtu) :
    (scan.step serviceTime reliable outgoing).1.peer.CountsTransit := by
  rcases scan.step_transit serviceTime reliable outgoing with ⟨sent, register⟩ | transmits
  · refine ⟨?_, ?_⟩
    · rw [sent, register]
      exact counts.exact
    · rw [register]
      exact counts.bounded
  · obtain ⟨sent, core, more⟩ := transmits.sent
    have length : sent.fragmentLength = outgoing.fragmentLength :=
      (congrArg OutgoingCommand.fragmentLength core :)
    have short := fits.short
    have room := counts.bounded
    have wraps : u32 (scan.peer.reliableDataInTransit + outgoing.fragmentLength) =
        scan.peer.reliableDataInTransit + outgoing.fragmentLength :=
      Nat.mod_eq_of_lt (by omega)
    refine ⟨?_, ?_⟩
    · rw [transmits.register, more, inTransit_append, inTransit_cons, length, wraps, counts.exact]
      rfl
    · cases carried : outgoing.packet with
      | none =>
          rw [transmits.register, wraps, fits.bare carried]
          exact room
      | some packet =>
          have carries : outgoing.packet.isSome = true := by rw [carried]; rfl
          have bound := transmits.bounded carries
          have mtu := fits.bounded carries
          have window : u32 (scan.peer.packetThrottle * scan.peer.windowSize) < 4294967296 :=
            Nat.mod_lt _ (by decide)
          simp only [protocolMaximumMtu, peerPacketThrottleScale] at bound mtu
          omega

/-- **The loop counts the data in transit.** -/
theorem run_counts (serviceTime fuel : Nat) : ∀ {scan : OutgoingScan},
    scan.peer.CountsTransit → (∀ outgoing ∈ scan.pending, outgoing.Fits scan.peer.mtu) →
      (run serviceTime fuel scan).peer.CountsTransit := by
  induction fuel with
  | zero => intro scan counts _; exact counts
  | succ fuel ih =>
      intro scan counts fits
      unfold run
      split
      · exact counts
      next reliable outgoing found =>
          have steps := step_counts counts serviceTime reliable
            (fits outgoing.core (next_pending found)).of_core
          dsimp only
          split
          · refine ih steps fun other member => ?_
            rw [(scan.step_sendingOnly serviceTime reliable outgoing).mtu]
            exact fits other (Multiset.mem_of_le (step_pending_le serviceTime found) member)
          · exact steps

end OutgoingScan

/-- **The check of the outgoing commands counts the data in transit.** -/
theorem Peer.CountsTransit.checkOutgoingCommands {peer : Peer} (counts : peer.CountsTransit)
    (fitting : peer.Fitting) (heap : Heap) (datagram : Datagram)
    (sentUnreliable : List OutgoingCommand) (serviceTime : Nat) :
    (peer.checkOutgoingCommands heap datagram sentUnreliable
      serviceTime).finish.CountsTransit := by
  obtain ⟨exact, bounded⟩ := OutgoingScan.run_counts serviceTime
    (peer.outgoingCommands.length + peer.outgoingSendReliableCommands.length)
    (show (OutgoingScan.start peer heap datagram sentUnreliable).peer.CountsTransit from counts)
    fitting.commands
  exact ⟨exact, bounded⟩

/-! ## A peer in a run -/

/-- A peer that is not leaving counts its data in transit. -/
structure Peer.Measured (peer : Peer) : Prop where
  counts : peer.state.isClosing = false → peer.CountsTransit

/-- Two peers with the same data in transit. -/
structure Peer.SameTransit (peer peer' : Peer) : Prop where
  sent : peer'.sentReliableCommands = peer.sentReliableCommands
  register : peer'.reliableDataInTransit = peer.reliableDataInTransit

namespace Peer.SameTransit

variable {peer peer' peer'' : Peer}

theorem refl (peer : Peer) : peer.SameTransit peer := ⟨rfl, rfl⟩

theorem trans (first : peer.SameTransit peer') (second : peer'.SameTransit peer'') :
    peer.SameTransit peer'' :=
  ⟨second.sent.trans first.sent, second.register.trans first.register⟩

theorem counts (same : peer.SameTransit peer') (counts : peer.CountsTransit) :
    peer'.CountsTransit := by
  refine ⟨?_, ?_⟩
  · rw [same.sent, same.register]
    exact counts.exact
  · rw [same.register]
    exact counts.bounded

theorem of_alike (alike : peer.Alike peer') : peer.SameTransit peer' :=
  ⟨alike.sentReliableCommands, alike.reliableDataInTransit⟩

theorem setupOutgoingCommand (peer : Peer) (totalQueued : Nat) (outgoing : OutgoingCommand) :
    peer.SameTransit (peer.setupOutgoingCommand totalQueued outgoing) := by
  have numbers : ∀ peer : Peer, peer.SameTransit (peer.numberOutgoingCommand outgoing).1 := by
    intro peer
    unfold Peer.numberOutgoingCommand
    split
    · exact ⟨rfl, rfl⟩
    · split
      · exact ⟨rfl, rfl⟩
      · split <;> exact ⟨rfl, rfl⟩
  have counted := (of_alike (.countOutgoingData peer outgoing)).trans
    (numbers (peer.countOutgoingData outgoing))
  refine counted.trans ?_
  unfold Peer.setupOutgoingCommand enqueueOutgoing
  dsimp only
  split <;> exact ⟨rfl, rfl⟩

theorem connectingPeer (host : Host) (peer : Peer) (address : Address)
    (channelCount connectID : Nat) :
    peer.SameTransit (host.connectingPeer peer address channelCount connectID) := ⟨rfl, rfl⟩

theorem acceptedPeer (host : Host) (peer : Peer) (fields : Connect) :
    peer.SameTransit (host.acceptedPeer peer fields) := ⟨rfl, rfl⟩

end Peer.SameTransit

theorem Host.queueOutgoingCommand_sameTransit (host : Host) (index : Nat) (command : Protocol)
    (packet : Option Packet) (offset length : Nat) :
    (host.peers index).SameTransit
      ((host.queueOutgoingCommand index command packet offset length).1.peers index) := by
  unfold queueOutgoingCommand
  split
  · exact .refl _
  · dsimp only
    rw [setupOutgoingCommand, setPeer_self]
    exact .setupOutgoingCommand ..

namespace Peer.Measured

variable {host host' : Host} {index : Nat} {peer peer' : Peer}

theorem same (measured : peer.Measured) (state : peer'.state = peer.state)
    (same : peer.SameTransit peer') : peer'.Measured := by
  refine ⟨fun stays => ?_⟩
  rw [state] at stays
  exact same.counts (measured.counts stays)

theorem of_leaving (leaving : peer.state.isClosing = true) : peer.Measured := by
  refine ⟨fun stays => ?_⟩
  rw [leaving] at stays
  cases stays

theorem of_counts (counts : peer.CountsTransit) : peer.Measured := ⟨fun _ => counts⟩

theorem quiet (measured : (host.peers index).Measured) (quiet : Quiet host host') :
    (host'.peers index).Measured :=
  same measured (quiet.peers index).state (.of_alike (quiet.peers index))

theorem receivesFor (measured : (host.peers index).Measured)
    (receives : ReceivesFor index host host') : (host'.peers index).Measured :=
  same measured receives.peer.state
    ⟨receives.peer.sentReliableCommands, receives.peer.reliableDataInTransit⟩

theorem acts {other : Nat} (measured : (host.peers index).Measured)
    (acts : ActsOn other host host')
    (own : (host.peers other).Measured → (host'.peers other).Measured) :
    (host'.peers index).Measured := by
  by_cases equal : index = other
  · subst equal
    exact own measured
  · rw [acts.others index equal]
    exact measured

theorem setPeer (measured : peer.Measured) : ((host.setPeer index peer).peers index).Measured := by
  rw [Host.setPeer_self]
  exact measured

theorem peerReset (host : Host) (index : Nat) : ((host.peerReset index).peers index).Measured := by
  obtain ⟨mtu, reset⟩ := host.peerReset_peer index
  rw [reset]
  exact of_counts ⟨rfl, Nat.zero_le _⟩

/-- A peer that enters another state, on its way out or from a state in which it
counts its data. -/
theorem dispatchState {state : PeerState}
    (counts : state.isClosing = true ∨ (host.peers index).CountsTransit) :
    ((host.dispatchState index state).peers index).Measured := by
  rw [Host.dispatchState_peer]
  rcases counts with leaving | counts
  · exact of_leaving leaving
  · exact of_counts ⟨counts.exact, counts.bounded⟩

theorem changeState {state : PeerState}
    (counts : state.isClosing = true ∨ (host.peers index).CountsTransit) :
    ((host.changeState index state).peers index).Measured := by
  rw [Host.changeState_peer]
  rcases counts with leaving | counts
  · exact of_leaving leaving
  · exact of_counts ⟨counts.exact, counts.bounded⟩

theorem queueOutgoingCommand (measured : (host.peers index).Measured) (command : Protocol) :
    ((host.queueOutgoingCommand index command none 0 0).1.peers index).Measured :=
  same measured (Host.queueOutgoingCommand_sendingOnly ..).state
    (Host.queueOutgoingCommand_sameTransit ..)

theorem startDisconnect (host : Host) (index data : Nat) :
    ((host.startDisconnect index data).peers index).Measured := by
  unfold Host.startDisconnect
  dsimp only
  rw [Host.setPeer_self]
  exact of_leaving rfl

/-! ## Events -/

theorem notifyConnect (counts : (host.peers index).CountsTransit) (event : Option Event) :
    ((host.notifyConnect index event).1.peers index).Measured := by
  cases event with
  | none => exact @dispatchState host.recalculate index _ (.inr counts)
  | some event => exact @changeState host.recalculate index _ (.inr counts)

theorem notifyDisconnect (host : Host) (index : Nat) (event : Option Event) :
    ((host.notifyDisconnect index event).1.peers index).Measured := by
  unfold Host.notifyDisconnect
  dsimp only
  split
  · exact peerReset _ index
  · cases event with
    | some event => exact peerReset _ index
    | none => exact dispatchState (.inl rfl)

/-! ## Received commands -/

theorem removeSent_counts (counts : (host.peers index).CountsTransit)
    (fitting : (host.peers index).Fitting) (number channelID : Nat) :
    ((host.removeSentReliableCommand index number channelID).1.peers index).CountsTransit := by
  have removes := counts.removeSentReliableCommand fitting number channelID
  unfold Host.removeSentReliableCommand
  split
  · exact counts
  next removed =>
      rw [removed] at removes
      dsimp only
      rw [Host.setPeer_self]
      exact removes

theorem settleAcknowledge (measured : (host.peers index).Measured) (event : Option Event)
    (commandNumber : Nat) :
    ((host.settleAcknowledge event index commandNumber).1.peers index).Measured := by
  unfold Host.settleAcknowledge
  split
  next acknowledging =>
      split
      · exact measured
      · exact notifyConnect (measured.counts (by rw [acknowledging]; rfl)) event
  · split
    · exact measured
    · exact notifyDisconnect host index event
  · split
    · exact measured
    · exact startDisconnect ..
  · exact measured

theorem handleAcknowledge (measured : (host.peers index).Measured)
    (fitting : (host.peers index).Fitting) (event : Option Event)
    (channelID received sentTime : Nat) :
    ((host.handleAcknowledge event index channelID received sentTime).1.peers index).Measured := by
  unfold Host.handleAcknowledge
  dsimp only
  split
  · exact measured
  · split
    · exact measured
    · have alike := Peer.Alike.updateRoundTripTime (host.peers index) host.serviceTime
        (max (timeDifference host.serviceTime
          (Host.receivedSentTime host.serviceTime sentTime)) 1)
      generalize updated : host.setPeer index ((host.peers index).updateRoundTripTime
        host.serviceTime _) = timed
      have times : (host.peers index).Alike (timed.peers index) := by
        rw [← updated, Host.setPeer_self]
        exact alike
      refine settleAcknowledge ⟨fun stays => ?_⟩ event _
      rw [(SendsFor.removeSentReliableCommand timed index received channelID).peer.state,
        times.state] at stays
      have counts := (Peer.SameTransit.of_alike times).counts (measured.counts stays)
      refine removeSent_counts counts ?_ _ _
      exact fitting.of_pending times.pending.le times.mtu times.state

theorem handleVerifyConnect (measured : (host.peers index).Measured)
    (fitting : (host.peers index).Fitting) (event : Option Event) (fields : VerifyConnect) :
    ((host.handleVerifyConnect event index fields).1.peers index).Measured := by
  unfold Host.handleVerifyConnect
  dsimp only
  split
  · exact measured
  next connecting =>
      split
      · exact dispatchState (.inl rfl)
      · refine notifyConnect ?_ event
        have counts := measured.counts (by rw [not_not.mp connecting]; rfl)
        have removes := removeSent_counts counts fitting 1 0xFF
        rw [Host.setPeer_self]
        exact ⟨removes.exact, removes.bounded⟩

theorem handleDisconnect (measured : (host.peers index).Measured) (command : Protocol)
    (data : Nat) : ((host.handleDisconnect index command data).1.peers index).Measured := by
  have settles : ∀ before : Host, (before.peers index).Measured →
      ((if (before.peers index).state ≠ .disconnected then
        (before.setPeer index ((before.peers index).setEventData data), false)
        else (before, false)).1.peers index).Measured := by
    intro before measured
    split
    · exact setPeer (same measured rfl ⟨rfl, rfl⟩)
    · exact measured
  unfold Host.handleDisconnect
  dsimp only
  split
  · exact measured
  · refine settles _ ?_
    unfold Host.leaveConnection
    split
    · exact dispatchState (.inl rfl)
    · split
      · split
        · exact peerReset _ index
        · exact peerReset _ index
      · split
        · exact changeState (.inl rfl)
        · exact dispatchState (.inl rfl)

theorem handleCommand (measured : (host.peers index).Measured)
    (fitting : (host.peers index).Fitting) (event : Option Event) (command : Protocol)
    (data : List UInt8) :
    ((host.handleCommand event index command data).1.peers index).Measured := by
  by_cases carries : command.command.isData = true
  · exact receivesFor measured (ReceiveRun.handleCommand host event index command data
      false carries).1.receivesFor
  · unfold Host.handleCommand
    dsimp only
    split
    · exact handleAcknowledge measured fitting ..
    · exact measured
    · exact handleVerifyConnect measured fitting ..
    · exact handleDisconnect measured ..
    · exact measured
    case h_10 =>
      unfold Host.handleBandwidthLimit
      dsimp only
      split
      · exact measured
      · exact setPeer (same measured rfl ⟨rfl, rfl⟩)
    case h_11 =>
      unfold Host.handleThrottleConfigure
      dsimp only
      split
      · exact measured
      · exact setPeer (same measured rfl ⟨rfl, rfl⟩)
    all_goals
      rename_i kind
      rw [kind] at carries
      exact absurd rfl carries

theorem commandStep (measured : (host.peers index).Measured)
    (fitting : (host.peers index).Fitting) (event : Option Event) (sentTime : Option Nat)
    (command : Protocol) (data : List UInt8) :
    ((host.commandStep event index sentTime command data).1.peers index).Measured := by
  have acknowledges : ∀ before : Host, (before.peers index).Measured →
      ((before.acknowledgeStage index command sentTime).1.peers index).Measured := by
    intro before measured
    have acknowledges := Acknowledges.acknowledgeStage before index command sentTime
    generalize (before.acknowledgeStage index command sentTime).1 = after at acknowledges ⊢
    cases acknowledges with
    | kept mallocs => exact measured
    | queued time mallocs allowed => exact setPeer (same measured rfl ⟨rfl, rfl⟩)
  have handles := @handleCommand (host.hear index command data sentTime.isSome) index measured
    fitting event command data
  unfold Host.commandStep
  dsimp only
  split
  next handled => rw [handled] at handles; exact handles
  next handled =>
      rw [handled] at handles
      exact acknowledges _ handles

/-! ## Sending, connecting and dispatching -/

theorem sendAcknowledgements (index : Nat) (acknowledgements : List Acknowledgement) :
    ∀ {host : Host}, (host.peers index).Measured →
      ((Host.sendAcknowledgements index acknowledgements host).peers index).Measured := by
  induction acknowledgements with
  | nil => intro host measured; exact measured
  | cons acknowledgement rest ih =>
      intro host measured
      unfold Host.sendAcknowledgements
      dsimp only
      split
      · exact setPeer (same measured rfl ⟨rfl, rfl⟩)
      · refine ih ?_
        rw [Host.setPeer_self]
        split
        · rw [Host.dispatchState_peer]
          exact of_leaving rfl
        · exact same measured rfl ⟨rfl, rfl⟩

theorem checkOutgoingCommands (measured : (host.peers index).Measured)
    (fitting : (host.peers index).Fitting) (sentUnreliable : List OutgoingCommand) :
    ((host.checkOutgoingCommands index sentUnreliable).1.peers index).Measured := by
  unfold Host.checkOutgoingCommands
  dsimp only
  split
  · exact startDisconnect ..
  · rw [Host.setPeer_self]
    have sends := Peer.SendingOnly.checkOutgoingCommands (host.peers index) host.heap
      host.datagram sentUnreliable host.serviceTime
    refine ⟨fun stays => ?_⟩
    rw [sends.state] at stays
    exact (measured.counts stays).checkOutgoingCommands fitting ..

theorem removeSentUnreliableCommands (measured : (host.peers index).Measured)
    (sentUnreliable : List OutgoingCommand) :
    ((host.removeSentUnreliableCommands index sentUnreliable).peers index).Measured := by
  unfold Host.removeSentUnreliableCommands
  split
  · exact measured
  · dsimp only
    split
    · exact startDisconnect ..
    · exact measured

/-- **A step that sends leaves the data in transit counted.** -/
theorem sendStep {before after : Sending} (step : SendStep before after)
    (measured : (before.1.peers index).Measured) (fitting : Enet.Fitting before.1) :
    (after.1.peers index).Measured := by
  cases step with
  | quiet sentUnreliable quiets => exact quiet measured quiets
  | startDatagram host other used =>
      refine acts measured (.startDatagram host other) fun own => sendAcknowledgements other _ ?_
      exact setPeer (same own rfl ⟨rfl, rfl⟩)
  | queue host sentUnreliable other command maintenance =>
      exact acts measured (.queueOutgoingCommand ..) fun own => queueOutgoingCommand own command
  | checkOutgoing host sentUnreliable other =>
      exact acts measured (.checkOutgoingCommands ..) fun own =>
        checkOutgoingCommands own (fitting.peers other) sentUnreliable
  | removeSent host sentUnreliable other =>
      exact acts measured (.removeSentUnreliableCommands ..) fun own =>
        removeSentUnreliableCommands own sentUnreliable

theorem sendRun {before after : Sending} (run : SendRun before after)
    (measured : (before.1.peers index).Measured) (fitting : Enet.Fitting before.1) :
    (after.1.peers index).Measured := by
  induction run with
  | refl => exact measured
  | tail earlier step ih => exact sendStep step ih (fitting.sendRun earlier)

theorem checkTimeouts (measured : (host.peers index).Measured)
    (fitting : (host.peers index).Fitting) (event : Option Event) :
    ((host.checkTimeouts index event).1.peers index).Measured := by
  unfold Host.checkTimeouts
  dsimp only
  split
  · exact notifyDisconnect _ index event
  · rw [Host.setPeer_self]
    have sends := Peer.SendingOnly.checkTimeouts (host.peers index) host.serviceTime
    refine ⟨fun stays => ?_⟩
    rw [sends.state] at stays
    exact (measured.counts stays).checkTimeouts fitting host.serviceTime

theorem of_taken {before : Peer} (counts : before.CountsTransit)
    (takes : before.SameTransit peer) : peer.Measured := of_counts (takes.counts counts)

theorem hostConnect (measured : (host.peers index).Measured) (address : Address)
    (channelCount data : Nat) :
    ((host.hostConnect address channelCount data).1.peers index).Measured := by
  cases free : host.freePeer with
  | none =>
      unfold Host.hostConnect
      rw [free]
      exact measured
  | some slot =>
      refine acts measured (.hostConnect address channelCount data free) fun own => ?_
      have counts := own.counts (by rw [Host.freePeer_disconnected free]; rfl)
      unfold Host.hostConnect
      rw [free]
      dsimp only
      split
      · exact setPeer (same own rfl ⟨rfl, rfl⟩)
      next heap _ _ =>
          have kept := (Quiet.random (host.setHeap heap)).peers slot
          generalize (host.setHeap heap).random = random at kept ⊢
          refine queueOutgoingCommand ?_ _
          rw [Host.setPeer_self]
          exact of_taken ((Peer.SameTransit.of_alike kept).counts counts) (.connectingPeer ..)

theorem handleConnect (measured : (host.peers index).Measured) (fields : Connect) :
    ((host.handleConnect fields).1.peers index).Measured := by
  cases free : host.freePeer with
  | none =>
      unfold Host.handleConnect
      rw [free]
      split <;> exact measured
  | some slot =>
      refine acts measured (.handleConnect fields free) fun own => ?_
      have counts := own.counts (by rw [Host.freePeer_disconnected free]; rfl)
      unfold Host.handleConnect
      rw [free]
      split
      · exact own
      · dsimp only
        split
        · exact own
        · split
          · exact setPeer (same own rfl ⟨rfl, rfl⟩)
          · refine queueOutgoingCommand ?_ _
            rw [Host.setPeer_self]
            exact of_taken counts (.acceptedPeer ..)

theorem setupOutgoingCommand (measured : (host.peers index).Measured)
    (outgoing : OutgoingCommand) :
    ((host.setupOutgoingCommand index outgoing).peers index).Measured := by
  refine same measured (Host.setupOutgoingCommand_sendingOnly ..).state ?_
  rw [Host.setupOutgoingCommand, Host.setPeer_self]
  exact .setupOutgoingCommand ..

theorem peerSend (measured : (host.peers index).Measured) (channelID : Nat) (packet : Packet) :
    ((host.peerSend index channelID packet).1.peers index).Measured := by
  unfold Host.peerSend
  dsimp only
  split
  · exact measured
  · split
    · unfold Host.sendFragments
      dsimp only
      split
      · exact measured
      · split
        · exact measured
        next heap fragments _ =>
            refine @List.foldlRecOn _ _ (fun host : Host => (host.peers index).Measured) fragments
              (fun host fragment => host.setupOutgoingCommand index fragment) _ ?_
              fun before kept fragment _ => setupOutgoingCommand kept fragment
            exact measured
    · have queues : ((host.queueOutgoingCommand index (Host.sendCommand
          ((host.peers index).channels channelID) channelID packet) (some packet) 0
            packet.dataLength).1.peers index).Measured :=
        same measured (Host.queueOutgoingCommand_sendingOnly ..).state
          (Host.queueOutgoingCommand_sameTransit ..)
      split
      next queued => rw [queued] at queues; exact queues
      next queued => rw [queued] at queues; exact queues

theorem dispatchTurn (measured : (host.peers index).Measured) (event : Event) :
    ((host.dispatchTurn index event).1.peers index).Measured := by
  unfold Host.dispatchTurn
  dsimp only
  generalize taken : (host.setDispatchQueue (host.dispatchQueue.remove (.peer index))).setPeer index
    _ = popped
  have kept : popped.peers index = (host.peers index).setNeedsDispatch false := by
    rw [← taken, Host.setPeer_self]
    rfl
  have takes : (popped.peers index).Measured := by
    rw [kept]
    exact same measured rfl ⟨rfl, rfl⟩
  split
  next state =>
      exact changeState (.inr (takes.counts (by rw [kept]; exact state ▸ rfl)))
  next state =>
      exact changeState (.inr (takes.counts (by rw [kept]; exact state ▸ rfl)))
  · exact peerReset _ index
  · have receives := ReceivesFor.peerReceive popped index
    split
    next received =>
        rw [received] at receives
        exact receivesFor takes receives
    next received =>
        rw [received] at receives
        have still := receivesFor takes receives
        dsimp only
        split
        · exact still
        · rw [Host.scheduleDispatch_peer]
          exact same still rfl ⟨rfl, rfl⟩
  · exact takes

/-- **A step leaves the data in transit of every peer counted.** -/
theorem step {before after : Activity} (step : Step before after)
    (measured : (before.1.peers index).Measured) (fitting : Enet.Fitting before.1) :
    (after.1.peers index).Measured := by
  cases step with
  | send event sends => exact sendRun sends measured fitting
  | command host event other sentTime command data current =>
      exact acts measured (.commandStep ..) fun own =>
        commandStep own (fitting.peers other) event sentTime command data
  | accept host event fields fresh => exact handleConnect measured fields
  | timeouts host event other fresh =>
      exact acts measured (.checkTimeouts ..) fun own =>
        checkTimeouts own (fitting.peers other) event
  | dispatch host event other first fresh =>
      exact acts measured (.dispatchTurn ..) fun own => dispatchTurn own event
  | connect host address channelCount data => exact hostConnect measured address channelCount data
  | packet host other channelID packet =>
      exact acts measured (.peerSend ..) fun own => peerSend own channelID packet
  | receive host other =>
      exact acts measured (.peerReceive ..) fun own => receivesFor own (.peerReceive host other)
  | reset host other => exact acts measured (.peerReset ..) fun _ => peerReset host other
  | startDisconnect host other data connected =>
      exact acts measured (.startDisconnect ..) fun _ => startDisconnect host other data
  | disconnectLater host other data connected =>
      refine acts measured (.setPeer ..) fun own => setPeer (of_counts ?_)
      have counts := own.counts (by cases same : (host.peers other).state <;>
        first | rfl | (rw [same] at connected; cases connected))
      exact ⟨counts.exact, counts.bounded⟩
  | abandon host other data sends =>
      by_cases equal : index = other
      · subst equal
        exact peerReset _ index
      · have leaves := (ActsOn.resetQueues host other).trans
          (.queueOutgoingCommand _ other (Host.disconnectCommand data) none 0 0)
        have queued : Enet.Fitting ((host.resetQueues other).queueOutgoingCommand other
            (Host.disconnectCommand data) none 0 0).1 :=
          (fitting.edit (@Edit.resetQueues other host)).queueOutgoingCommand _
        have before : (((host.resetQueues other).queueOutgoingCommand other
            (Host.disconnectCommand data) none 0 0).1.peers index).Measured := by
          rw [leaves.others index equal]
          exact measured
        have kept := sendRun sends before queued
        exact acts kept (.peerReset ..) fun _ => peerReset _ other
  | discard host packet unreferenced => exact measured
  | configure host => exact measured

/-- **The data in transit is counted wherever calls pass through.** -/
theorem visited {activity : Activity} (visited : Visited activity) (index : Nat) :
    (activity.1.peers index).Measured := by
  refine (Visited.keeps (fun activity => (activity.1.peers index).Measured ∧
    Enet.Fitting activity.1) ?_ (fun holds _ => holds) ?_ visited).1
  · intro heap world randomSeed peerCount channelLimit incomingBandwidth outgoingBandwidth event
      fresh
    refine ⟨of_counts ⟨rfl, Nat.zero_le _⟩, ?_⟩
    exact Enet.Fitting.visited (.of_reachable (.create ..) fresh)
  · intro before after taken holds
    exact ⟨step taken holds.1 holds.2, Enet.Fitting.maintained.step taken holds.2⟩

end Peer.Measured

/-- **A connected peer counts its data in transit** at every point of a call. -/
theorem Peer.CountsTransit.passed {sending : Sending} (passed : Passed sending) (index : Nat) :
    (sending.1.peers index).state.isConnected = true →
      (sending.1.peers index).CountsTransit := by
  induction passed with
  | @visited activity visited =>
      intro connected
      exact (Measured.visited visited index).counts (PeerState.isClosing_of_isConnected connected)
  | @abandons host other data visited unconnected =>
      have acts := (ActsOn.resetQueues host other).trans
        (.queueOutgoingCommand _ other (Host.disconnectCommand data) none 0 0)
      intro connected
      rcases eq_or_ne index other with rfl | different
      · have still : (((host.resetQueues index).queueOutgoingCommand index
            (Host.disconnectCommand data) none 0 0).1.peers index).state =
            (host.peers index).state := by
          rw [(Host.queueOutgoingCommand_sendingOnly ..).state, Host.resetQueues_peer]
          rfl
        dsimp only at connected
        rw [still, unconnected] at connected
        cases connected
      · dsimp only at connected ⊢
        rw [acts.others index different] at connected ⊢
        exact (Measured.visited visited index).counts
          (PeerState.isClosing_of_isConnected connected)
  | observes observation passed ih => exact ih
  | @sends before after passed step ih =>
      intro connected
      rcases @StaysOrLeaves.sendStep index _ _ step with same | leaving
      · have counts := ih (same ▸ connected)
        exact (Measured.sendStep step (.of_counts counts) (.passed passed)).counts
          (PeerState.isClosing_of_isConnected connected)
      · rw [PeerState.isConnected_of_isClosing leaving] at connected
        cases connected

/-! ## At every point of a call -/

/-- The register of a peer is exact, whatever acknowledgement arrives and whatever
times out it does not wrap around, and the commands of a kind that carry a packet
are emitted within the window. -/
structure Host.CountsTransit (host : Host) (sentUnreliable : List OutgoingCommand) (index : Nat)
    (Counted : OutgoingCommand → Prop) : Prop where
  exact : (host.peers index).reliableDataInTransit =
    inTransit (host.peers index).sentReliableCommands
  acknowledged : ∀ number channelID outgoing,
    ((host.peers index).takeSentReliableCommand number channelID).2 = some outgoing →
      (host.peers index).isInTransit number channelID = true →
        outgoing.fragmentLength ≤ (host.peers index).reliableDataInTransit
  timedOut : ∀ scan outgoing rest,
    ReflTransGen (Peer.TimeoutTurn host.serviceTime)
        (⟨host.peers index, [], [], []⟩, (host.peers index).sentReliableCommands)
        (scan, outgoing :: rest) →
      outgoing.fragmentLength ≤ scan.peer.reliableDataInTransit
  within : ∀ (scan scan' : OutgoingScan) (outgoing : OutgoingCommand),
    ReflTransGen (OutgoingScan.Turn host.serviceTime)
        (.start (host.peers index) host.heap host.datagram sentUnreliable) scan →
      scan.Emits host.serviceTime outgoing scan' → outgoing.packet.isSome = true →
        Counted outgoing →
          scan'.peer.reliableDataInTransit ≤
            max (scan.peer.packetThrottle * scan.peer.windowSize / peerPacketThrottleScale)
              scan.peer.mtu

end Enet
