import Enet.Library.Prefixes
import Enet.Runs.Calls

/-!
# What a throttled packet takes with it

`enet_protocol_check_outgoing_commands` drops a throttled packet with the
commands behind the first one that have the same two sequence numbers. Those are
the rest of its fragments only where the numbers tell packets apart: unsequenced
packets all have the numbers (0, 0), channels number their commands apart, and
the numbers of control commands wrap around.
-/

set_option autoImplicit false

namespace Enet

open Relation

namespace OutgoingCommand

/-- Whether a command carries a packet. -/
def carries (packet : Packet) (outgoing : OutgoingCommand) : Bool :=
  decide (outgoing.packet.map Packet.address = some packet.address)

/-- Whether a command has the two sequence numbers of another. -/
def sharesNumbers (outgoing other : OutgoingCommand) : Bool :=
  decide (other.reliableSequenceNumber = outgoing.reliableSequenceNumber ∧
    other.unreliableSequenceNumber = outgoing.unreliableSequenceNumber)

end OutgoingCommand

namespace OutgoingScan

/-- `outgoingCommands` while the loop walks it. -/
def queue (scan : OutgoingScan) : List OutgoingCommand := scan.passed ++ scan.rest

/-- A turn of the loop that another one follows. -/
def Turn (serviceTime : Nat) (scan scan' : OutgoingScan) : Prop :=
  ∃ reliable outgoing, scan.next = some (reliable, outgoing) ∧
    scan.step serviceTime reliable outgoing = (scan', true)

/-- The next turn of the loop drops a packet, of which this is the first command. -/
structure Drops (scan : OutgoingScan) (outgoing : OutgoingCommand) (packet : Packet) : Prop where
  next : scan.next = some (false, outgoing)
  unreliable : outgoing.command.acknowledge = false
  room : scan.isFull outgoing = false
  carried : outgoing.packet = some packet
  first : outgoing.fragmentOffset = 0
  throttled : scan.peer.packetThrottle < throttleCounter scan.peer outgoing

/-- The drop removes the commands that carry the packet and no others. -/
def DropsPacket (serviceTime : Nat) (scan : OutgoingScan) (outgoing : OutgoingCommand)
    (packet : Packet) : Prop :=
  (scan.step serviceTime false outgoing).1.queue =
    scan.queue.filter fun other => !other.carries packet

/-- The commands of a packet lie directly behind its first one, with the same two
numbers, and the command behind them has other numbers. -/
structure Separated (scan : OutgoingScan) (outgoing : OutgoingCommand) (packet : Packet) :
    Prop where
  numbered : ∀ other ∈ scan.rest.tail.takeWhile (OutgoingCommand.carries packet),
    outgoing.sharesNumbers other = true
  ended : ∀ other ∈ (scan.rest.tail.dropWhile (OutgoingCommand.carries packet)).head?,
    outgoing.sharesNumbers other = false
  elsewhere : ∀ other ∈ scan.rest.tail.dropWhile (OutgoingCommand.carries packet),
    other.carries packet = false
  before : ∀ other ∈ scan.passed, other.carries packet = false

/-! ## One drop -/

/-- What the loop over the commands behind the first one leaves. -/
theorem dropPacket_rest (outgoing : OutgoingCommand) (commands : List OutgoingCommand) :
    ∀ heap : Heap,
      (dropPacket outgoing.reliableSequenceNumber outgoing.unreliableSequenceNumber heap
        commands).2 = commands.dropWhile outgoing.sharesNumbers := by
  induction commands with
  | nil => intro heap; rfl
  | cons other rest ih =>
      intro heap
      unfold dropPacket
      split
      next shares =>
          have same : outgoing.sharesNumbers other = true := decide_eq_true shares
          rw [ih, List.dropWhile_cons_of_pos same]
      next differs =>
          have other : outgoing.sharesNumbers other = false := decide_eq_false differs
          rw [List.dropWhile_cons_of_neg (by simp [other])]

/-- The command that the iterator of `outgoingCommands` is at. -/
theorem rest_of_next {scan : OutgoingScan} {outgoing : OutgoingCommand}
    (next : scan.next = some (false, outgoing)) : scan.rest = outgoing :: scan.rest.tail := by
  unfold OutgoingScan.next at next
  split at next
  · cases next
  · cases next
  next same _ =>
      cases next
      rw [same, List.tail_cons]
  next same _ =>
      split at next
      · cases next
      · cases next
        rw [same, List.tail_cons]

/-- The queue that a drop leaves. -/
theorem Drops.queue {scan : OutgoingScan} {outgoing : OutgoingCommand} {packet : Packet}
    (drops : scan.Drops outgoing packet) (serviceTime : Nat) :
    (scan.step serviceTime false outgoing).1.queue =
      scan.passed ++ scan.rest.tail.dropWhile outgoing.sharesNumbers := by
  have first : isThrottled outgoing = true := by
    unfold isThrottled
    rw [drops.carried, drops.first]
    rfl
  unfold step
  rw [drops.unreliable, if_neg Bool.false_ne_true, drops.room, if_neg Bool.false_ne_true]
  dsimp only
  unfold sendUnreliable
  dsimp only
  have throttled : decide ((scan.setPeer (scan.peer.setThrottleCounter
      (throttleCounter scan.peer outgoing))).peer.packetThrottle <
        throttleCounter scan.peer outgoing) = true := decide_eq_true drops.throttled
  rw [first, throttled, Bool.and_self, if_pos rfl]
  unfold OutgoingScan.queue dropThrottled
  refine congrArg (scan.passed ++ ·) ?_
  refine (dropPacket_rest outgoing _ _).trans ?_
  exact congrArg (List.dropWhile _) (List.drop_one)

/-- **A drop removes the commands of the packet exactly if they are separated.** -/
theorem Drops.dropsPacket_iff {scan : OutgoingScan} {outgoing : OutgoingCommand} {packet : Packet}
    (drops : scan.Drops outgoing packet) (serviceTime : Nat) :
    scan.DropsPacket serviceTime outgoing packet ↔ scan.Separated outgoing packet := by
  have own : outgoing.carries packet = true := by
    unfold OutgoingCommand.carries
    rw [drops.carried]
    exact decide_eq_true rfl
  have behind : scan.queue.filter (fun other => !other.carries packet) =
      scan.passed.filter (fun other => !other.carries packet) ++
        scan.rest.tail.filter (fun other => !other.carries packet) := by
    rw [OutgoingScan.queue, rest_of_next drops.next, List.tail_cons, List.filter_append,
      List.filter_cons_of_neg (by simp [own])]
  have prefixes := @Library.filter_eq_dropWhile_iff _ (OutgoingCommand.carries packet)
    outgoing.sharesNumbers scan.rest.tail
  unfold DropsPacket
  rw [drops.queue, behind]
  constructor
  · intro same
    have before : ∀ other ∈ scan.passed, other.carries packet = false := by
      intro other member
      have left : other ∈ scan.passed.filter (fun other => !other.carries packet) ++
          scan.rest.tail.filter (fun other => !other.carries packet) :=
        same ▸ List.mem_append_left _ member
      rw [← List.filter_append] at left
      simpa using (List.mem_filter.mp left).2
    rw [List.filter_eq_self.mpr (by simpa using before)] at same
    obtain ⟨numbered, ended, elsewhere⟩ := prefixes.mp (List.append_cancel_left same).symm
    exact ⟨numbered, ended, elsewhere, before⟩
  · intro separated
    rw [List.filter_eq_self.mpr (by simpa using separated.before),
      prefixes.mpr ⟨separated.numbered, separated.ended, separated.elsewhere⟩]

/-! ## Several turns -/

variable {scan scan' : OutgoingScan} {serviceTime : Nat}

theorem Turn.unique {scan'' : OutgoingScan} (first : Turn serviceTime scan scan')
    (second : Turn serviceTime scan scan'') : scan' = scan'' := by
  obtain ⟨reliable, outgoing, next, steps⟩ := first
  obtain ⟨reliable', outgoing', next', steps'⟩ := second
  rw [next] at next'
  cases next'
  rw [steps] at steps'
  cases steps'
  rfl

/-- What is reached from a state is the state itself, or reached from the next one. -/
theorem reached_iff {goal : OutgoingScan} (turn : Turn serviceTime scan scan') :
    ReflTransGen (Turn serviceTime) scan goal ↔
      goal = scan ∨ ReflTransGen (Turn serviceTime) scan' goal := by
  constructor
  · intro reached
    rcases ReflTransGen.cases_head reached with same | ⟨next, first, rest⟩
    · exact .inl same.symm
    · exact .inr (turn.unique first ▸ rest)
  · rintro (rfl | rest)
    · exact .refl
    · exact .head turn rest

theorem reached_iff_of_last {goal : OutgoingScan} (last : ∀ next, ¬Turn serviceTime scan next) :
    ReflTransGen (Turn serviceTime) scan goal ↔ goal = scan := by
  constructor
  · intro reached
    rcases ReflTransGen.cases_head reached with same | ⟨next, first, -⟩
    · exact same.symm
    · exact absurd first (last next)
  · rintro rfl
    exact .refl

/-- The commands that the loop has not got to. -/
def left (scan : OutgoingScan) : Nat := scan.rest.length + scan.restReliable.length

theorem unlink_left {reliable : Bool} {outgoing : OutgoingCommand}
    (next : scan.next = some (reliable, outgoing)) : (scan.unlink reliable).left < scan.left := by
  unfold OutgoingScan.next at next
  unfold left unlink
  split at next
  · cases next
  next nothing found =>
      cases next
      rw [nothing, found]
      simp
  next found nothing =>
      cases next
      rw [nothing, found]
      simp
  next found foundReliable =>
      split at next
      all_goals
        cases next
        rw [found, foundReliable]
        simp

theorem pass_left {reliable : Bool} {outgoing : OutgoingCommand}
    (next : scan.next = some (reliable, outgoing)) : (scan.pass reliable).left < scan.left := by
  have same : (scan.pass reliable).left = (scan.unlink reliable).left := by
    cases reliable <;> rfl
  rw [same]
  exact unlink_left next

/-- A turn that another one follows gets one command further. -/
theorem Turn.left_lt (turn : Turn serviceTime scan scan') : scan'.left < scan.left := by
  obtain ⟨reliable, outgoing, next, steps⟩ := turn
  have passes := pass_left next
  have unlinks := unlink_left next
  have skips : ∀ scan : OutgoingScan, scan.skipReliable.left ≤ scan.left := by
    intro scan
    exact Nat.le_add_right _ _
  unfold step at steps
  split at steps
  · split at steps
    · cases steps
      exact passes
    · split at steps
      · cases steps
        exact Nat.lt_of_le_of_lt (skips (scan.pass reliable)) passes
      · split at steps
        · cases steps
          exact Nat.lt_of_le_of_lt (skips (scan.pass reliable)) passes
        · split at steps
          · cases steps
          · cases steps
            cases reliable <;> exact unlinks
  · split at steps
    · cases steps
    · cases steps
      unfold sendUnreliable
      dsimp only
      split
      · refine Nat.lt_of_le_of_lt ?_ unlinks
        have shorter : ∀ heap commands, (dropPacket outgoing.reliableSequenceNumber
            outgoing.unreliableSequenceNumber heap commands).2.length ≤ commands.length := by
          intro heap commands
          rw [dropPacket_rest]
          exact List.length_dropWhile_le _ _
        cases reliable <;> exact Nat.add_le_add_right (shorter _ _) _
      · unfold transmitUnreliable
        dsimp only
        split
        · cases reliable <;> exact unlinks
        · cases reliable <;> exact unlinks

end OutgoingScan

/-! ## A check of the outgoing commands -/

/-- **When the drops of a check are exact.** Whatever the queues of a peer hold,
and whatever its throttle: each packet that the check drops takes exactly its own
commands with it if and only if each is separated where it is dropped. -/
theorem checkOutgoingCommands_drops_iff (peer : Peer) (heap : Heap) (datagram : Datagram)
    (sentUnreliable : List OutgoingCommand) (serviceTime : Nat) :
    (∀ scan outgoing packet,
        ReflTransGen (OutgoingScan.Turn serviceTime)
          (OutgoingScan.start peer heap datagram sentUnreliable) scan →
        scan.Drops outgoing packet → scan.DropsPacket serviceTime outgoing packet) ↔
      ∀ scan outgoing packet,
        ReflTransGen (OutgoingScan.Turn serviceTime)
          (OutgoingScan.start peer heap datagram sentUnreliable) scan →
        scan.Drops outgoing packet → scan.Separated outgoing packet := by
  constructor
  · intro exact scan outgoing packet reached drops
    exact (drops.dropsPacket_iff serviceTime).mp (exact scan outgoing packet reached drops)
  · intro separated scan outgoing packet reached drops
    exact (drops.dropsPacket_iff serviceTime).mpr (separated scan outgoing packet reached drops)

/-- Datagrams that connect a peer, and acknowledge a later command of the host. -/
def throttlingDatagrams : List (Address × List UInt8) :=
  connectDatagrams ++
    [(⟨7, 9⟩, [0, 0] ++ (⟨.acknowledge 2 101, false, false, 0xFF, 0⟩ : Protocol).encode)]

/-- An unsequenced packet of one byte. -/
def unsequencedPacket (address : Nat) (byte : UInt8) : Packet :=
  ⟨address, ⟨false, true, false, false⟩, [byte]⟩

/-- A host whose only peer is throttled to zero by a slow acknowledgement, with
two unsequenced packets queued. -/
def throttledHost : Option Host :=
  calledHost
    (.create .ample (.delivering (fun call => [1, 101, 101, 351].getD call 351) throttlingDatagrams)
      0 1 1 0 0)
    [.service (some noEvent) 0, .service (some noEvent) 0, .throttleConfigure 0 5000 2 32, .flush,
      .service (some noEvent) 0, .send 0 0 (unsequencedPacket 1000 1),
      .send 0 0 (unsequencedPacket 1001 2)]

/-- The command of an unsequenced packet as `enet_peer_send` queues it. -/
def unsequencedCommand (packet : Packet) (address queueTime group : Nat) : OutgoingCommand where
  address := address
  reliableSequenceNumber := 0
  unreliableSequenceNumber := 0
  sentTime := 0
  roundTripTimeout := 0
  queueTime := queueTime
  fragmentOffset := 0
  fragmentLength := 1
  sendAttempts := 0
  command := ⟨.sendUnsequenced group 1, false, true, 0, 0⟩
  packet := some packet

/-- **A throttled packet takes another one with it.** -/
theorem checkOutgoingCommands_drops_other :
    ∃ host, throttledHost = some host ∧ Host.Reachable host ∧
      ¬∀ scan outgoing packet,
        ReflTransGen (OutgoingScan.Turn host.serviceTime)
          (OutgoingScan.start (host.peers 0) host.heap Datagram.start []) scan →
        scan.Drops outgoing packet → scan.DropsPacket host.serviceTime outgoing packet := by
  have evaluated : throttledHost.map (fun host =>
      ((host.peers 0).outgoingCommands, (host.peers 0).outgoingSendReliableCommands,
        (host.peers 0).packetThrottle, (host.peers 0).packetThrottleCounter, (host.peers 0).mtu)) =
      some ([unsequencedCommand (unsequencedPacket 1000 1) 3 3 1,
        unsequencedCommand (unsequencedPacket 1001 2) 4 4 2], [], 0, 0, 1392) := by
    decide +kernel
  obtain ⟨host, called, queues⟩ := Option.map_eq_some_iff.mp evaluated
  simp only [Prod.mk.injEq] at queues
  obtain ⟨commands, reliable, throttle, counter, mtu⟩ := queues
  refine ⟨host, called, calledHost_reachable (.create ..) called, fun exact => ?_⟩
  have drops : (OutgoingScan.start (host.peers 0) host.heap Datagram.start []).Drops
      (unsequencedCommand (unsequencedPacket 1000 1) 3 3 1) (unsequencedPacket 1000 1) := by
    refine ⟨?_, rfl, ?_, rfl, rfl, ?_⟩
    · simp only [OutgoingScan.next, OutgoingScan.start, commands, reliable]
    · simp only [OutgoingScan.isFull, OutgoingScan.start, mtu]
      rfl
    · simp only [OutgoingScan.start, OutgoingScan.throttleCounter, throttle, counter]
      decide
  have separated := (drops.dropsPacket_iff host.serviceTime).mp (exact _ _ _ .refl drops)
  have shares : OutgoingCommand.sharesNumbers (unsequencedCommand (unsequencedPacket 1000 1) 3 3 1)
      (unsequencedCommand (unsequencedPacket 1001 2) 4 4 2) = false := by
    refine separated.ended _ ?_
    simp only [OutgoingScan.start, commands, List.tail_cons]
    decide
  cases shares

end Enet
