import Enet.Runs.Cuts
import Enet.Runs.Drivers
import Enet.Runs.Points
import Enet.Timing.Throttle

/-!
# A turn of a connected peer

A turn of `enet_protocol_send_outgoing_commands` puts acknowledgements into the
datagram of a peer, queues again what is overdue, and cuts a datagram off the queue.
A PING is added where nothing is in flight behind that. What the next turn finds
is read off here.
-/

set_option autoImplicit false

namespace Enet

open Relation

/-! ## Pings -/

/-- Whether a command is a PING. -/
def OutgoingCommand.isPing (outgoing : OutgoingCommand) : Bool :=
  match outgoing.command.command with
  | .ping => true
  | _ => false

/-- The PING commands in the queues of a peer. -/
def Peer.pingsWaiting (peer : Peer) : Nat :=
  peer.outgoingCommands.countP OutgoingCommand.isPing +
    peer.outgoingSendReliableCommands.countP OutgoingCommand.isPing

/-- The PING commands that `enet_peer_ping` adds to the queues of a peer, where it is
called while the datagram is filled. -/
def Host.pingsAdded (host : Host) (index : Nat) : Nat :=
  let waiting := host.checkWaitingCommands index
  if waiting.2.2 && waiting.1.needsPing index then
    ((waiting.1.peerPing index).peers index).pingsWaiting - (waiting.1.peers index).pingsWaiting
  else 0

/-! ## What a call finds -/

namespace Peer

/-- Whether the timeouts of a peer are checked in its turn. -/
def timeoutsDue (peer : Peer) (serviceTime : Nat) (checkForTimeouts : Bool) : Bool :=
  checkForTimeouts && !peer.sentReliableCommands.isEmpty &&
    timeGreaterEqual serviceTime peer.nextTimeout

/-- The peer once its timeouts are checked, where that is due: the commands in flight
that are overdue are queued again. -/
def dueTimeouts (peer : Peer) (serviceTime : Nat) (checkForTimeouts : Bool) : Peer :=
  if peer.timeoutsDue serviceTime checkForTimeouts then (peer.checkTimeouts serviceTime).1
  else peer

/-- A ping is due: a connected peer has nothing in flight, and its ping interval is over. -/
structure AwaitsPing (serviceTime : Nat) (peer : Peer) : Prop where
  connected : peer.state = .connected
  nothingSent : peer.sentReliableCommands = []
  due : peer.pingInterval ≤ timeDifference serviceTime peer.lastReceiveTime

/-- The number of the next PING. -/
def pingNumber (peer : Peer) : Nat := u16 (peer.outgoingReliableSequenceNumber + 1)

/-- The queue of a peer is cut with room for a PING once at most. -/
def CutOnce (peer : Peer) : Prop := ∀ datagrams, peer.packer.roomyCuts datagrams peer.line ≤ 1

/-- No packet that is dropped at the end of the queue has the numbers of the PING behind
it. The source would free that PING as a part of the packet, through a null pointer. -/
def SparesPing (peer : Peer) : Prop :=
  ∀ datagrams dropped, peer.packer.roomyCuts datagrams peer.line = 1 →
    peer.packer.ending datagrams peer.line = .finished (some dropped) →
    ¬(dropped.reliableSequenceNumber = peer.pingNumber ∧ dropped.unreliableSequenceNumber = 0)

/-- What a peer holds when a call begins lets the call queue one PING at most: if a PING
is due behind the check of the timeouts, the queue is cut once. -/
def PingsOnce (serviceTime : Nat) (checkForTimeouts : Bool) (peer : Peer) : Prop :=
  (peer.dueTimeouts serviceTime checkForTimeouts).AwaitsPing serviceTime →
    (peer.dueTimeouts serviceTime checkForTimeouts).CutOnce

end Peer

/-! ## Commands in flight -/

namespace Peer

variable {peer peer' : Peer} {serviceTime : Nat} {checkForTimeouts : Bool}

/-- Whether a command in flight is not overdue. -/
def isEarly (serviceTime : Nat) (outgoing : OutgoingCommand) : Bool :=
  decide (timeDifference serviceTime outgoing.sentTime < outgoing.roundTripTimeout)

/-- Commands are in flight, and a check of the timeouts leaves one of them there. -/
structure InFlight (serviceTime : Nat) (checkForTimeouts : Bool) (peer : Peer) : Prop where
  sent : peer.sentReliableCommands ≠ []
  stays : checkForTimeouts = false ∨ timeGreaterEqual serviceTime peer.nextTimeout = false ∨
    ∃ outgoing ∈ peer.sentReliableCommands, isEarly serviceTime outgoing = true

/-- The check of the timeouts puts back what is overdue. -/
theorem scanTimeouts_early (commands : List OutgoingCommand) : ∀ scan : TimeoutScan,
    (scanTimeouts serviceTime scan commands).2 = none →
      (scanTimeouts serviceTime scan commands).1.passed =
        scan.passed ++ commands.filter (isEarly serviceTime) := by
  induction commands with
  | nil => exact fun scan _ => (List.append_nil _).symm
  | cons outgoing rest ih =>
      intro scan kept
      unfold scanTimeouts at kept ⊢
      split at kept
      next early =>
          have stays : isEarly serviceTime outgoing = true := decide_eq_true early
          rw [if_pos early, ih _ kept, List.filter_cons_of_pos stays]
          unfold TimeoutScan.pass
          rw [List.append_assoc, List.singleton_append]
      next overdue =>
          have leaves : ¬isEarly serviceTime outgoing = true := fun early =>
            overdue (of_decide_eq_true early)
          dsimp only at kept ⊢
          rw [if_neg overdue]
          split at kept
          · cases kept
          next within =>
              rw [if_neg within, ih _ kept, List.filter_cons_of_neg leaves,
                (TimeoutScan.putBack_peer ..).2]

theorem checkTimeouts_sent (kept : (peer.checkTimeouts serviceTime).2 = false) :
    (peer.checkTimeouts serviceTime).1.sentReliableCommands =
      peer.sentReliableCommands.filter (isEarly serviceTime) := by
  unfold checkTimeouts at kept ⊢
  dsimp only at kept ⊢
  have whole : (scanTimeouts serviceTime ⟨peer, [], [], []⟩ peer.sentReliableCommands).2 = none :=
    Option.isSome_eq_false_iff.mp kept |> Option.isNone_iff_eq_none.mp
  have passed := scanTimeouts_early peer.sentReliableCommands ⟨peer, [], [], []⟩ whole
  unfold TimeoutScan.finish
  rw [whole]
  change (scanTimeouts serviceTime ⟨peer, [], [], []⟩ peer.sentReliableCommands).1.passed ++ [] = _
  rw [passed, List.nil_append, List.append_nil]

/-- A peer that is given up has commands in flight. -/
theorem scanTimeouts_givenUp (commands : List OutgoingCommand) : ∀ scan : TimeoutScan,
    (scanTimeouts serviceTime scan commands).2 ≠ some [] := by
  induction commands with
  | nil => intro scan given; cases given
  | cons outgoing rest ih =>
      intro scan
      unfold scanTimeouts
      split
      · exact ih _
      · dsimp only
        split
        · intro given
          cases given
        · exact ih _

theorem checkTimeouts_givenUp (given : (peer.checkTimeouts serviceTime).2 = true) :
    (peer.checkTimeouts serviceTime).1.sentReliableCommands ≠ [] := by
  have stops := @scanTimeouts_givenUp serviceTime peer.sentReliableCommands ⟨peer, [], [], []⟩
  unfold checkTimeouts at given ⊢
  dsimp only at given ⊢
  obtain ⟨left, some⟩ := Option.isSome_iff_exists.mp given
  rw [some] at stops ⊢
  intro nothing
  have none : _ ++ left = [] := nothing
  rw [(List.append_eq_nil_iff.mp none).2] at stops
  exact stops rfl

theorem dueTimeouts_of_nil (nothing : peer.sentReliableCommands = []) :
    peer.dueTimeouts serviceTime checkForTimeouts = peer := by
  unfold dueTimeouts timeoutsDue
  rw [nothing]
  simp

/-- What is still in flight behind a check of the timeouts stays there. -/
theorem inFlight_of_dueTimeouts (kept : peer.timeoutsDue serviceTime checkForTimeouts = true →
      (peer.checkTimeouts serviceTime).2 = false)
    (sent : (peer.dueTimeouts serviceTime checkForTimeouts).sentReliableCommands ≠ []) :
    (peer.dueTimeouts serviceTime checkForTimeouts).InFlight serviceTime checkForTimeouts := by
  refine ⟨sent, ?_⟩
  unfold dueTimeouts at sent ⊢
  split at sent
  next due =>
      rw [if_pos due]
      rw [checkTimeouts_sent (kept due)] at sent ⊢
      obtain ⟨outgoing, member⟩ := List.exists_mem_of_ne_nil _ sent
      exact .inr (.inr ⟨outgoing, member, (List.mem_filter.mp member).2⟩)
  next idle =>
      rw [if_neg idle]
      cases checks : checkForTimeouts with
      | false => exact .inl rfl
      | true =>
          refine .inr (.inl (Bool.eq_false_iff.mpr fun due => idle ?_))
          unfold timeoutsDue
          rw [checks, due, Bool.true_and, Bool.and_true, Bool.not_eq_true',
            List.isEmpty_eq_false_iff]
          exact sent

theorem InFlight.dueTimeouts (inFlight : peer.InFlight serviceTime checkForTimeouts)
    (kept : peer.timeoutsDue serviceTime checkForTimeouts = true →
      (peer.checkTimeouts serviceTime).2 = false) :
    (peer.dueTimeouts serviceTime checkForTimeouts).InFlight serviceTime checkForTimeouts := by
  refine inFlight_of_dueTimeouts kept ?_
  unfold Peer.dueTimeouts
  split
  next due =>
      obtain ⟨checks, late⟩ := Bool.and_eq_true_iff.mp due
      rcases inFlight.stays with off | early | ⟨outgoing, member, early⟩
      · rw [off] at checks
        cases checks
      · rw [early] at late
        cases late
      · rw [checkTimeouts_sent (kept due)]
        exact List.ne_nil_of_mem (List.mem_filter.mpr ⟨member, early⟩)
  · exact inFlight.sent

/-- A check of the timeouts has nothing to do with the PING interval. -/
theorem scanTimeouts_interval (commands : List OutgoingCommand) : ∀ scan : TimeoutScan,
    (scanTimeouts serviceTime scan commands).1.peer.pingInterval = scan.peer.pingInterval ∧
      (scanTimeouts serviceTime scan commands).1.peer.lastReceiveTime =
        scan.peer.lastReceiveTime := by
  induction commands with
  | nil => exact fun scan => ⟨rfl, rfl⟩
  | cons outgoing rest ih =>
      intro scan
      have notes : (scan.peer.noteTimeout outgoing).pingInterval = scan.peer.pingInterval ∧
          (scan.peer.noteTimeout outgoing).lastReceiveTime = scan.peer.lastReceiveTime := by
        unfold noteTimeout
        split <;> exact ⟨rfl, rfl⟩
      have schedules : ∀ peer : Peer,
          (peer.scheduleNext scan.passed rest).pingInterval = peer.pingInterval ∧
            (peer.scheduleNext scan.passed rest).lastReceiveTime = peer.lastReceiveTime := by
        intro peer
        unfold scheduleNext
        split <;> exact ⟨rfl, rfl⟩
      unfold scanTimeouts
      split
      · exact ih (scan.pass outgoing)
      · dsimp only
        split
        · exact notes
        · obtain ⟨interval, received⟩ := ih (scan.putBack
            (((scan.peer.noteTimeout outgoing).requeue outgoing).scheduleNext scan.passed rest)
            outgoing)
          rw [(TimeoutScan.putBack_peer ..).1] at interval received
          exact ⟨(interval.trans (schedules _).1).trans notes.1,
            (received.trans (schedules _).2).trans notes.2⟩

theorem dueTimeouts_interval (peer : Peer) :
    (peer.dueTimeouts serviceTime checkForTimeouts).pingInterval = peer.pingInterval ∧
      (peer.dueTimeouts serviceTime checkForTimeouts).lastReceiveTime = peer.lastReceiveTime := by
  unfold dueTimeouts
  split
  · exact scanTimeouts_interval peer.sentReliableCommands ⟨peer, [], [], []⟩
  · exact ⟨rfl, rfl⟩

theorem dueTimeouts_state (peer : Peer) :
    (peer.dueTimeouts serviceTime checkForTimeouts).state = peer.state := by
  unfold dueTimeouts
  split
  · exact (SendingOnly.checkTimeouts ..).state
  · rfl

/-- What the next turn of a peer depends on. -/
structure Outlook where
  state : PeerState
  sentReliableCommands : List OutgoingCommand
  nextTimeout : Nat
  pingInterval : Nat
  lastReceiveTime : Nat
  pingNumber : Nat
  packer : Packer
  line : Line

/-- What the next turn of this peer depends on. -/
def outlook (peer : Peer) : Outlook where
  state := peer.state
  sentReliableCommands := peer.sentReliableCommands
  nextTimeout := peer.nextTimeout
  pingInterval := peer.pingInterval
  lastReceiveTime := peer.lastReceiveTime
  pingNumber := peer.pingNumber
  packer := peer.packer
  line := peer.line

/-- The peer with some of its acknowledgements sent. -/
def acknowledge (peer : Peer) (rest : List Acknowledgement) (more : Bool) : Peer :=
  (peer.setAcknowledgements rest).setContinueSending more

theorem noteTimeout_acknowledge (peer : Peer) (outgoing : OutgoingCommand)
    (rest : List Acknowledgement) (more : Bool) :
    (peer.acknowledge rest more).noteTimeout outgoing =
      (peer.noteTimeout outgoing).acknowledge rest more := by
  by_cases earlier :
      (peer.earliestTimeout = 0 || timeLess outgoing.sentTime peer.earliestTimeout) = true
  · have notes : peer.noteTimeout outgoing = { peer with earliestTimeout := outgoing.sentTime } :=
      if_pos earlier
    rw [notes]
    exact (if_pos earlier).trans rfl
  · have notes : peer.noteTimeout outgoing = peer := if_neg earlier
    rw [notes]
    exact if_neg earlier

theorem scheduleNext_acknowledge (peer : Peer) (passed behind : List OutgoingCommand)
    (rest : List Acknowledgement) (more : Bool) :
    (peer.acknowledge rest more).scheduleNext passed behind =
      (peer.scheduleNext passed behind).acknowledge rest more := by
  unfold scheduleNext
  split <;> rfl

/-- The timeouts have nothing to do with the acknowledgements. -/
theorem scanTimeouts_acknowledge (rest : List Acknowledgement) (more : Bool)
    (commands : List OutgoingCommand) : ∀ scan : TimeoutScan,
      scanTimeouts serviceTime (scan.setPeer (scan.peer.acknowledge rest more)) commands =
        ((scanTimeouts serviceTime scan commands).1.setPeer
            ((scanTimeouts serviceTime scan commands).1.peer.acknowledge rest more),
          (scanTimeouts serviceTime scan commands).2) := by
  induction commands with
  | nil => exact fun scan => rfl
  | cons outgoing behind ih =>
      intro scan
      unfold scanTimeouts
      split
      · exact ih (scan.pass outgoing)
      · dsimp only
        have notes : (scan.setPeer (scan.peer.acknowledge rest more)).peer.noteTimeout outgoing =
            (scan.peer.noteTimeout outgoing).acknowledge rest more :=
          noteTimeout_acknowledge ..
        have back : (scan.setPeer (scan.peer.acknowledge rest more)).putBack
            ((((scan.peer.noteTimeout outgoing).acknowledge rest more).requeue
              outgoing).scheduleNext scan.passed behind) outgoing =
            (scan.putBack (((scan.peer.noteTimeout outgoing).requeue outgoing).scheduleNext
              scan.passed behind) outgoing).setPeer
              ((((scan.peer.noteTimeout outgoing).requeue outgoing).scheduleNext
                scan.passed behind).acknowledge rest more) := by
          rw [← scheduleNext_acknowledge]
          unfold TimeoutScan.putBack
          split <;> rfl
        rw [notes]
        change (if (scan.peer.noteTimeout outgoing).isTimedOut serviceTime outgoing = true then _
          else _) = _
        split
        · rfl
        · refine (congrArg (scanTimeouts serviceTime · behind) back).trans ?_
          have next := ih (scan.putBack (((scan.peer.noteTimeout outgoing).requeue
            outgoing).scheduleNext scan.passed behind) outgoing)
          rwa [(TimeoutScan.putBack_peer ..).1] at next

theorem dueTimeouts_acknowledge (peer : Peer) (rest : List Acknowledgement) (more : Bool) :
    (peer.acknowledge rest more).dueTimeouts serviceTime checkForTimeouts =
      (peer.dueTimeouts serviceTime checkForTimeouts).acknowledge rest more := by
  have scanned := @scanTimeouts_acknowledge serviceTime rest more peer.sentReliableCommands
    ⟨peer, [], [], []⟩
  unfold dueTimeouts
  change (if peer.timeoutsDue serviceTime checkForTimeouts = true then _ else _) = _
  split
  · unfold checkTimeouts
    dsimp only
    exact (congrArg (fun scanned : TimeoutScan × Option (List OutgoingCommand) =>
      scanned.1.finish (scanned.2.getD [])) scanned).trans rfl
  · rfl

end Peer

/-! ## Acknowledgements -/

namespace Host

variable {host : Host} {index : Nat}

/-- The acknowledgements in the datagram of a peer, and those that are left. -/
structure Begins (peer : Peer) (index : Nat) (host : Host) : Prop where
  acknowledged : ∃ rest more, host.peers index = peer.acknowledge rest more ∧
    rest.length = (Load.empty.acknowledge peer.mtu peer.acknowledgements.length).2
  load : host.datagram.load =
    (Load.empty.acknowledge peer.mtu peer.acknowledgements.length).1

theorem sendAcknowledgements_load (index : Nat) (acknowledgements : List Acknowledgement) :
    ∀ host : Host, (host.peers index).acknowledgements = acknowledgements →
      ¬(host.peers index).AcknowledgesDisconnect →
      (∃ rest more, (sendAcknowledgements index acknowledgements host).peers index =
          (host.peers index).acknowledge rest more ∧
        rest.length = (host.datagram.load.acknowledge (host.peers index).mtu
          acknowledgements.length).2) ∧
      (sendAcknowledgements index acknowledgements host).datagram.load =
        (host.datagram.load.acknowledge (host.peers index).mtu acknowledgements.length).1 := by
  induction acknowledgements with
  | nil =>
      intro host queue _
      exact ⟨⟨[], (host.peers index).continueSending,
        congrArg (fun rest => (host.peers index).acknowledge rest
          (host.peers index).continueSending) queue, rfl⟩, rfl⟩
  | cons acknowledgement rest ih =>
      intro host queue unowed
      have full : host.datagram.load.isFullOfAcknowledgements (host.peers index).mtu =
          decide (protocolMaximumPacketCommands ≤ host.datagram.commandCount ∨
            bufferMaximum ≤ host.datagram.bufferCount ∨
            sub64 (host.peers index).mtu host.datagram.packetSize < commandSizes 1) := rfl
      unfold sendAcknowledgements
      rw [List.length_cons]
      unfold Load.acknowledge
      dsimp only
      split
      next stops =>
          rw [full, if_pos (decide_eq_true stops)]
          refine ⟨⟨acknowledgement :: rest, true, ?_, rfl⟩, rfl⟩
          rw [setPeer_self]
          exact congrArg (fun rest => (host.peers index).acknowledge rest true) queue
      next room =>
          rw [full, if_neg (by rw [decide_eq_true_iff]; exact room)]
          split
          next disconnects =>
              have owed : acknowledgement.command.command.isDisconnect = true := by
                rw [disconnects]
                rfl
              exact absurd ⟨acknowledgement, by rw [queue]; exact List.mem_cons_self, owed⟩ unowed
          · generalize next : setPeer (host.setDatagram (host.datagram.push _ _)) index _ = later
            have peer : later.peers index = (host.peers index).setAcknowledgements rest := by
              rw [← next, setPeer_self]
              rfl
            have load : later.datagram.load = ⟨host.datagram.load.size + commandSizes 1,
                host.datagram.load.commands + 1, host.datagram.load.buffers + 1⟩ := by
              rw [← next]
              unfold Datagram.load Datagram.push Datagram.commandCount Datagram.bufferCount
              simp
              omega
            obtain ⟨⟨left, more, acknowledged, short⟩, filled⟩ := ih later (by rw [peer]; rfl) (by
              rw [peer]
              exact fun ⟨owed, member, disconnect⟩ => unowed ⟨owed, by
                rw [queue]
                exact List.mem_cons_of_mem _ member, disconnect⟩)
            rw [peer] at acknowledged short filled
            rw [load] at short filled
            exact ⟨⟨left, more, acknowledged, short⟩, filled⟩

theorem startDatagram_begins (unowed : ¬(host.peers index).AcknowledgesDisconnect) :
    (host.startDatagram index).Begins (host.peers index) index := by
  generalize started : (host.setDatagram Datagram.start).setPeer index
    ((host.peers index).setContinueSending false) = empty
  have peer : empty.peers index = (host.peers index).setContinueSending false := by
    rw [← started, setPeer_self]
  have load : empty.datagram.load = Load.empty := by
    rw [← started]
    rfl
  obtain ⟨⟨rest, more, acknowledged, short⟩, filled⟩ :=
    sendAcknowledgements_load index (host.peers index).acknowledgements empty
      (by rw [peer]; rfl) (by rw [peer]; exact unowed)
  rw [peer] at acknowledged short filled
  rw [load] at short filled
  have same : host.startDatagram index =
      sendAcknowledgements index (host.peers index).acknowledgements empty := by
    unfold startDatagram
    rw [started]
    dsimp only
    rw [peer]
    rfl
  rw [← same] at acknowledged filled
  exact ⟨⟨rest, more, acknowledged, short⟩, filled⟩

/-! ## Timeouts -/

variable {event : Option Event} {checkForTimeouts : Bool}

/-- What a check of the timeouts leaves, where it does not give the peer up. -/
theorem checkDueTimeouts_kept
    (kept : (host.checkDueTimeouts event checkForTimeouts index).2.2 = false) :
    (host.checkDueTimeouts event checkForTimeouts index).1.peers index =
        (host.peers index).dueTimeouts host.serviceTime checkForTimeouts ∧
      (host.checkDueTimeouts event checkForTimeouts index).1.datagram = host.datagram ∧
      ((host.peers index).timeoutsDue host.serviceTime checkForTimeouts = true →
        ((host.peers index).checkTimeouts host.serviceTime).2 = false) := by
  unfold Peer.dueTimeouts
  by_cases due : (host.peers index).timeoutsDue host.serviceTime checkForTimeouts = true
  · have checks : host.checkDueTimeouts event checkForTimeouts index =
        host.checkTimeouts index event := if_pos due
    rw [checks] at kept ⊢
    rw [if_pos due]
    unfold checkTimeouts at kept ⊢
    dsimp only at kept ⊢
    split at kept
    · cases kept
    next stays =>
        rw [if_neg stays, setPeer_self]
        exact ⟨rfl, rfl, fun _ => Bool.eq_false_iff.mpr stays⟩
  · have idles : host.checkDueTimeouts event checkForTimeouts index = (host, event, false) :=
      if_neg due
    rw [idles, if_neg due]
    exact ⟨rfl, rfl, fun timed => absurd timed due⟩

/-- The acknowledgements in the datagram change no timeout. -/
theorem startDatagram_checkTimeouts (unowed : ¬(host.peers index).AcknowledgesDisconnect) :
    ((host.startDatagram index).peers index).timeoutsDue (host.startDatagram index).serviceTime
          checkForTimeouts = (host.peers index).timeoutsDue host.serviceTime checkForTimeouts ∧
      (((host.startDatagram index).peers index).checkTimeouts
          (host.startDatagram index).serviceTime).2 =
        ((host.peers index).checkTimeouts host.serviceTime).2 := by
  obtain ⟨⟨rest, more, acknowledged, -⟩, -⟩ := startDatagram_begins unowed
  rw [acknowledged, (SameSettings.startDatagram host index).serviceTime]
  exact ⟨rfl, congrArg (fun scanned => scanned.2.isSome)
    (@Peer.scanTimeouts_acknowledge host.serviceTime rest more
      (host.peers index).sentReliableCommands ⟨host.peers index, [], [], []⟩)⟩

/-- The datagram of a peer with the commands in it that its own turn finds. -/
theorem checkDueTimeouts_begins (unowed : ¬(host.peers index).AcknowledgesDisconnect)
    (kept : ((host.startDatagram index).checkDueTimeouts event checkForTimeouts index).2.2 =
      false) :
    (((host.startDatagram index).checkDueTimeouts event checkForTimeouts index).1).Begins
        ((host.peers index).dueTimeouts host.serviceTime checkForTimeouts) index ∧
      ((host.peers index).timeoutsDue host.serviceTime checkForTimeouts = true →
        ((host.peers index).checkTimeouts host.serviceTime).2 = false) := by
  obtain ⟨due, gives⟩ := @startDatagram_checkTimeouts _ _ checkForTimeouts unowed
  obtain ⟨⟨rest, more, acknowledged, short⟩, filled⟩ := startDatagram_begins unowed
  obtain ⟨peer, datagram, whole⟩ := checkDueTimeouts_kept kept
  have clock := (SameSettings.startDatagram host index).serviceTime
  have sending : (host.peers index).SendingOnly
      ((host.peers index).dueTimeouts host.serviceTime checkForTimeouts) := by
    unfold Peer.dueTimeouts
    split
    · exact .checkTimeouts ..
    · exact .refl _
  rw [due, gives] at whole
  rw [acknowledged, clock] at peer
  refine ⟨⟨⟨rest, more, ?_, ?_⟩, ?_⟩, whole⟩
  · rw [peer, Peer.dueTimeouts_acknowledge]
  · rw [sending.mtu, sending.acknowledgements]
    exact short
  · rw [datagram, sending.mtu, sending.acknowledgements]
    exact filled

/-! ## The datagram -/

/-- What the loop over the commands of a connected peer rests on. -/
structure Packable (peer : Peer) : Prop where
  connected : peer.state = .connected
  sorted : peer.Sorted
  few : peer.channelCount ≤ protocolMaximumChannelCount
  timeout : 0 < u32 (peer.roundTripTime + 4 * peer.roundTripTimeVariance)

/-- A check of the outgoing commands, with the loop as it ends. -/
structure Scanned (host : Host) (index : Nat) (checked : Host × List OutgoingCommand × Bool)
    (scan : OutgoingScan) : Prop where
  fills : scan.Fills (host.peers index) host.serviceTime
    ((host.peers index).packer.pack host.datagram.load (host.peers index).packetThrottleCounter
      none (host.peers index).outgoingCommands)
  peer : checked.1.peers index = scan.finish
  datagram : checked.1.datagram = scan.datagram
  canPing : checked.2.2 = scan.canPing
  connected : scan.finish.state = .connected

/-- A connected peer is not disconnected by a check of its commands. -/
theorem checkOutgoingCommands_connected (connected : (host.peers index).state = .connected)
    (sentUnreliable : List OutgoingCommand) :
    host.checkOutgoingCommands index sentUnreliable =
        (host.installScan index (host.scanOutgoing index sentUnreliable),
          (host.scanOutgoing index sentUnreliable).sentUnreliable,
          (host.scanOutgoing index sentUnreliable).canPing) ∧
      (host.scanOutgoing index sentUnreliable).finish.state = .connected := by
  have stays : (host.scanOutgoing index sentUnreliable).finish.state = .connected :=
    (Peer.SendingOnly.checkOutgoingCommands (host.peers index) host.heap host.datagram
      sentUnreliable host.serviceTime).state.trans connected
  refine ⟨?_, stays⟩
  unfold checkOutgoingCommands
  dsimp only
  refine Prod.ext (if_neg fun later => ?_) rfl
  have state : (host.scanOutgoing index sentUnreliable).finish.state = .disconnectLater := later.1
  rw [stays] at state
  cases state

theorem checkOutgoingCommands_fills (packable : Packable (host.peers index))
    (sentUnreliable : List OutgoingCommand) :
    host.Scanned index (host.checkOutgoingCommands index sentUnreliable)
      (host.scanOutgoing index sentUnreliable) := by
  have packs := OutgoingScan.Packing.start packable.sorted host.heap host.datagram sentUnreliable
  obtain ⟨installs, connected⟩ := checkOutgoingCommands_connected packable.connected sentUnreliable
  rw [installs]
  exact ⟨packs.run packable.few packable.timeout _ (Nat.le_refl _), setPeer_self .., rfl, rfl,
    connected⟩

theorem checkWaitingCommands_fills (packable : Packable (host.peers index)) :
    ∃ scan, host.Scanned index (host.checkWaitingCommands index) scan := by
  unfold checkWaitingCommands
  dsimp only
  split
  next nothing =>
      obtain ⟨outgoing, reliable⟩ := Bool.and_eq_true_iff.mp nothing
      have packs := OutgoingScan.Packing.start packable.sorted host.heap host.datagram []
      refine ⟨.start (host.peers index) host.heap host.datagram [],
        ⟨?_, rfl, rfl, rfl, packable.connected⟩⟩
      exact packs.fills_of_end (List.isEmpty_iff.mp outgoing) (List.isEmpty_iff.mp reliable)
  · exact ⟨_, checkOutgoingCommands_fills packable []⟩

theorem Packable.of_passed {sentUnreliable : List OutgoingCommand}
    (passed : Passed (host, sentUnreliable)) (sampled : Sampled host)
    (connected : (host.peers index).state = .connected) : Packable (host.peers index) where
  connected := connected
  sorted := Sorted.passed passed index
  few := ((Fitting.passed passed).ranged index).channelCount
  timeout := (sampled index).timeout

/-! ## The PING -/

/-- The PING of a number. -/
structure IsPing (number : Nat) (outgoing : OutgoingCommand) : Prop where
  ping : outgoing.isPing = true
  acknowledge : outgoing.command.acknowledge = true
  reliable : outgoing.reliableSequenceNumber = number
  unreliable : outgoing.unreliableSequenceNumber = 0

/-- The peer with a PING queued, and the bytes of it counted. -/
def addPing (peer : Peer) (total : Nat) (ping : OutgoingCommand) : Peer :=
  { peer with
    outgoingDataTotal := total
    outgoingReliableSequenceNumber := peer.pingNumber
    outgoingCommands := peer.outgoingCommands ++ [ping] }

/-- A connected peer is pinged where there is memory for the command. -/
theorem peerPing_peer (connected : (host.peers index).state = .connected) :
    (∃ ping total, IsPing (host.peers index).pingNumber ping ∧
      (host.peerPing index).peers index = addPing (host.peers index) total ping) ∨
    ¬host.Ample ∧ (host.peerPing index).peers index = host.peers index := by
  unfold peerPing
  rw [if_pos connected]
  unfold queueOutgoingCommand
  split
  next heap failed =>
      refine .inr ⟨fun ample => ?_, rfl⟩
      rw [ample.malloc] at failed
      cases failed
  next heap address allocated =>
      refine .inl ⟨_, _, ?_, setPeer_self ..⟩
      exact ⟨rfl, rfl, rfl, rfl⟩

end Host

/-! ## What a turn leaves -/

namespace Peer

variable {peer before after after' : Peer} {serviceTime pings : Nat} {ample : Prop}

/-- The datagram that the queue of a peer fills. -/
abbrev packed (peer : Peer) : Packed := peer.packer.packLine peer.line

/-- The queue of a peer behind its next datagram. -/
abbrev nextLine (peer : Peer) : Line := peer.packer.nextLine peer.line

/-- What the datagram of a connected peer leaves, with the PING commands that were queued
meanwhile. -/
inductive After (serviceTime : Nat) (ample : Prop) (before : Peer) : Nat → Peer → Prop where
  /-- A command that is to be acknowledged is sent. -/
  | sends {after : Peer} (answered : before.packed.ending = .answered)
      (sent : after.SentNow serviceTime) : After serviceTime ample before 0 after
  /-- No command that is to be acknowledged is sent, and no PING is queued. -/
  | rests {after : Peer} (same : after.outlook = { before.outlook with line := before.nextLine })
      (more : before.packed.ending = .cut → after.continueSending = true)
      (barred : ample → before.AwaitsPing serviceTime → before.packed.ending ≠ .answered →
        before.packed.load.leavesRoom before.mtu = false) :
      After serviceTime ample before 0 after
  /-- A PING is queued, and waits for the next datagram. -/
  | waits {after : Peer} {ping : OutgoingCommand} {number : Nat}
      (awaits : before.AwaitsPing serviceTime) (unanswered : before.packed.ending ≠ .answered)
      (room : before.packed.load.leavesRoom before.mtu = true)
      (isPing : Host.IsPing before.pingNumber ping)
      (same : after.outlook =
        { before.outlook with line := before.nextLine.push ping, pingNumber := number })
      (more : before.packed.ending = .cut → after.continueSending = true) :
      After serviceTime ample before 1 after
  /-- A PING is queued and sent. -/
  | pings {after : Peer} {dropped : Option OutgoingCommand}
      (awaits : before.AwaitsPing serviceTime) (finished : before.packed.ending = .finished dropped)
      (room : before.packed.load.leavesRoom before.mtu = true)
      (sent : after.SentNow serviceTime) : After serviceTime ample before 1 after

theorem After.congr (goes : After serviceTime ample before pings after)
    (same : after'.outlook = after.outlook)
    (more : after'.continueSending = after.continueSending) :
    After serviceTime ample before pings after' := by
  have sent : after.SentNow serviceTime → after'.SentNow serviceTime := by
    intro sent
    have queue : after'.sentReliableCommands = after.sentReliableCommands :=
      congrArg Outlook.sentReliableCommands same
    unfold SentNow
    rw [queue]
    exact sent
  cases goes with
  | sends answered now => exact .sends answered (sent now)
  | rests kept goesOn barred =>
      exact .rests (same.trans kept) (fun cut => more.trans (goesOn cut)) barred
  | waits awaits unanswered room isPing kept goesOn =>
      exact .waits awaits unanswered room isPing (same.trans kept)
        fun cut => more.trans (goesOn cut)
  | pings awaits finished room now => exact .pings awaits finished room (sent now)

end Peer

namespace Host

variable {host : Host} {index : Nat} {event : Option Event} {checkForTimeouts : Bool}

/-- What the datagram leaves, as the loop over the outgoing commands does. -/
theorem Begins.leaves {before : Peer} {scan : OutgoingScan} (begins : host.Begins before index)
    (leaves : scan.Leaves (host.peers index) before.packed) :
    scan.finish.outlook = { before.outlook with line := before.nextLine } := by
  obtain ⟨rest, more, acknowledged, short⟩ := begins.acknowledged
  rw [leaves.left, acknowledged]
  have line : before.nextLine =
      ⟨rest.length, before.packed.throttleCounter, before.packed.rest⟩ := by
    rw [short]
    rfl
  rw [line]
  rfl

/-- The loop packs the queue that the turn finds. -/
theorem Begins.packed {before : Peer} (begins : host.Begins before index) :
    (host.peers index).packer.pack host.datagram.load (host.peers index).packetThrottleCounter
      none (host.peers index).outgoingCommands = before.packed := by
  obtain ⟨rest, more, acknowledged, -⟩ := begins.acknowledged
  rw [acknowledged, begins.load]
  rfl

/-- A check that takes nothing out of the queue changes nothing that the next turn
depends on. -/
theorem outlook_of_leaves {peer : Peer} {packed : Packed} {scan : OutgoingScan}
    (leaves : scan.Leaves peer packed) (rest : packed.rest = peer.outgoingCommands)
    (counter : packed.throttleCounter = peer.packetThrottleCounter) :
    scan.finish.outlook = peer.outlook := by
  rw [leaves.left, rest, counter]
  rfl

/-- A check in which the loop gets to no command to be acknowledged and takes nothing
out of the queue. -/
theorem Scanned.outlook {checked : Host × List OutgoingCommand × Bool} {scan : OutgoingScan}
    {packed : Packed} (scanned : host.Scanned index checked scan)
    (fills : scan.Fills (host.peers index) host.serviceTime packed)
    (unanswered : packed.ending ≠ .answered)
    (rest : packed.rest = (host.peers index).outgoingCommands)
    (counter : packed.throttleCounter = (host.peers index).packetThrottleCounter) :
    (checked.1.peers index).outlook = (host.peers index).outlook ∧
      (packed.ending = .cut → (checked.1.peers index).continueSending = true) := by
  rw [scanned.peer]
  cases fills with
  | waits _ canPing leaves more => exact ⟨outlook_of_leaves leaves rest counter, more⟩
  | stops answered => exact absurd answered unanswered
  | sends answered => exact absurd answered unanswered

theorem needsPing_iff {before : Peer} {line : Line}
    (same : (host.peers index).outlook = { before.outlook with line := line })
    (load : host.datagram.load = before.packed.load) (connected : before.state = .connected) :
    host.needsPing index = true ↔
      before.AwaitsPing host.serviceTime ∧ before.packed.load.leavesRoom before.mtu = true := by
  have sent : (host.peers index).sentReliableCommands = before.sentReliableCommands :=
    congrArg Peer.Outlook.sentReliableCommands same
  have interval : (host.peers index).pingInterval = before.pingInterval :=
    congrArg Peer.Outlook.pingInterval same
  have received : (host.peers index).lastReceiveTime = before.lastReceiveTime :=
    congrArg Peer.Outlook.lastReceiveTime same
  have mtu : (host.peers index).mtu = before.mtu :=
    congrArg (fun outlook => outlook.packer.mtu) same
  have size : host.datagram.packetSize = before.packed.load.size := congrArg Load.size load
  unfold needsPing Load.leavesRoom
  dsimp only
  rw [sent, interval, received, mtu, size, Bool.and_eq_true, Bool.and_eq_true,
    List.isEmpty_iff, decide_eq_true_iff, decide_eq_true_iff]
  exact ⟨fun ⟨⟨nothing, due⟩, room⟩ => ⟨⟨connected, nothing, due⟩, room⟩,
    fun ⟨⟨_, nothing, due⟩, room⟩ => ⟨⟨nothing, due⟩, room⟩⟩

theorem peerPing_connected (connected : (host.peers index).state = .connected) :
    ((host.peerPing index).peers index).state = .connected := by
  rcases peerPing_peer connected with ⟨ping, total, -, peer⟩ | ⟨-, peer⟩
  · rw [peer]
    exact connected
  · rw [peer]
    exact connected

/-- What the next turn depends on, with a PING at the end of the queue. -/
theorem addPing_outlook (peer : Peer) (total : Nat) (ping : OutgoingCommand) :
    (addPing peer total ping).outlook =
      { peer.outlook with
        line := peer.line.push ping
        pingNumber := (addPing peer total ping).pingNumber } := rfl

theorem addPing_pingsWaiting (peer : Peer) (total : Nat) {number : Nat} {ping : OutgoingCommand}
    (isPing : IsPing number ping) :
    (addPing peer total ping).pingsWaiting - peer.pingsWaiting = 1 := by
  unfold addPing Peer.pingsWaiting
  dsimp only
  rw [List.countP_append, List.countP_singleton, if_pos isPing.ping]
  omega

/-- What the second check leaves, where the peer is pinged. -/
theorem pinged_after {before : Peer} {sentUnreliable : List OutgoingCommand} {ample : Prop}
    (enough : ample → host.Ample) (passed : Passed (host, sentUnreliable)) (sampled : Sampled host)
    (same : (host.peers index).outlook = { before.outlook with line := before.nextLine })
    (load : host.datagram.load = before.packed.load)
    (awaits : before.AwaitsPing host.serviceTime)
    (room : before.packed.load.leavesRoom before.mtu = true)
    (unanswered : before.packed.ending ≠ .answered) :
    before.After host.serviceTime ample
      (((host.peerPing index).peers index).pingsWaiting - (host.peers index).pingsWaiting)
      (((host.peerPing index).checkOutgoingCommands index sentUnreliable).1.peers index) := by
  have stops : before.packer.Stops before.packed := Packer.pack_stops ..
  have connected : (host.peers index).state = .connected :=
    (congrArg Peer.Outlook.state same).trans awaits.connected
  have packer : (host.peers index).packer = before.packer := congrArg Peer.Outlook.packer same
  have line : (host.peers index).line = before.nextLine := congrArg Peer.Outlook.line same
  have counter : (host.peers index).packetThrottleCounter = before.packed.throttleCounter :=
    congrArg Line.throttleCounter line
  have commands : (host.peers index).outgoingCommands = before.packed.rest :=
    congrArg Line.commands line
  have number : (host.peers index).pingNumber = before.pingNumber :=
    congrArg Peer.Outlook.pingNumber same
  have settings := SameSettings.peerPing host index
  have passed' := passed.sendRun (SendRun.peerPing host sentUnreliable index)
  have sampled' : Sampled (host.peerPing index) := fun other => by
    rw [settings.peers other]
    exact sampled other
  have clock := settings.serviceTime
  have datagram := peerPing_datagram host index
  have scanned := checkOutgoingCommands_fills
    (Packable.of_passed passed' sampled' (peerPing_connected connected)) sentUnreliable
  have fills := scanned.fills
  rcases peerPing_peer connected with ⟨ping, total, isPing, peer⟩ | ⟨short, peer⟩
  · have outlook' : ((host.peerPing index).peers index).outlook =
        { before.outlook with
          line := before.nextLine.push ping
          pingNumber := ((host.peerPing index).peers index).pingNumber } := by
      rw [peer, addPing_outlook, same, line]
    have packer' : ((host.peerPing index).peers index).packer = before.packer :=
      congrArg Peer.Outlook.packer outlook'
    have line' : ((host.peerPing index).peers index).line = before.nextLine.push ping :=
      congrArg Peer.Outlook.line outlook'
    have counter' : ((host.peerPing index).peers index).packetThrottleCounter =
        before.packed.throttleCounter := congrArg Line.throttleCounter line'
    have commands' : ((host.peerPing index).peers index).outgoingCommands =
        before.packed.rest ++ [ping] := congrArg Line.commands line'
    have one : ((host.peerPing index).peers index).pingsWaiting -
        (host.peers index).pingsWaiting = 1 := by
      rw [peer]
      exact addPing_pingsWaiting _ total isPing
    rw [datagram, load, packer', counter', commands'] at fills
    obtain ⟨ending, again, cuts, answers⟩ := stops.pack_push isPing.acknowledge unanswered
    rw [again] at fills
    rw [one]
    rw [number] at isPing
    cases fills with
    | waits stays canPing leaves more =>
        have kept := (outlook_of_leaves leaves commands'.symm counter'.symm).trans outlook'
        rw [← scanned.peer] at kept
        refine .waits awaits unanswered room isPing kept fun cut => ?_
        rw [scanned.peer]
        exact more (cuts cut)
    | stops answered canPing leaves =>
        have kept := (outlook_of_leaves leaves commands'.symm counter'.symm).trans outlook'
        rw [← scanned.peer] at kept
        refine .waits awaits unanswered room isPing kept fun cut => ?_
        rw [cuts cut] at answered
        cases answered
    | sends answered canPing sent =>
        cases ends : before.packed.ending with
        | answered => exact absurd ends unanswered
        | cut =>
            rw [cuts ends] at answered
            cases answered
        | finished dropped =>
            refine .pings awaits ends room ?_
            rw [scanned.peer, ← clock]
            exact sent
  · rw [datagram, load, peer, packer, counter, commands] at fills
    obtain ⟨ending, again, stays, cuts⟩ := stops.pack_rest unanswered
    rw [again] at fills
    obtain ⟨outlook, more⟩ := scanned.outlook (by rw [peer]; exact fills) stays
      (by rw [peer]; exact commands.symm) (by rw [peer]; exact counter.symm)
    rw [peer] at outlook ⊢
    rw [Nat.sub_self]
    exact .rests (outlook.trans same) (fun cut => more (cuts cut))
      fun ample => absurd (enough ample) short

/-- **What the datagram of a connected peer leaves**, and the PING commands that are queued
while it is filled. -/
theorem Begins.after {before : Peer} (begins : host.Begins before index)
    {ample : Prop} (enough : ample → host.Ample) (passed : Passed (host, []))
    (sampled : Sampled host) (connected : before.state = .connected) :
    before.After host.serviceTime ample (host.pingsAdded index)
        ((host.fillDatagram index).1.peers index) ∧
      ((host.fillDatagram index).1.peers index).state = .connected := by
  have here : (host.peers index).state = .connected := by
    obtain ⟨rest, more, acknowledged, -⟩ := begins.acknowledged
    rw [acknowledged]
    exact connected
  obtain ⟨scan, scanned⟩ := checkWaitingCommands_fills (.of_passed passed sampled here)
  have fills := scanned.fills
  rw [begins.packed] at fills
  have settings := SameSettings.checkWaitingCommands host index
  have clock := settings.serviceTime
  have sends := SendRun.checkWaitingCommands host index
  unfold fillDatagram pingsAdded
  dsimp only
  have acts := ActsOn.checkWaitingCommands host index
  generalize host.checkWaitingCommands index = waiting at scanned settings clock sends acts ⊢
  have stays : (waiting.1.peers index).state = .connected := by
    rw [scanned.peer]
    exact scanned.connected
  -- the first check is the last one, where the loop does not allow a PING
  have refuses : scan.canPing = false → (waiting.2.2 && waiting.1.needsPing index) = false := by
    intro canPing
    rw [scanned.canPing, canPing, Bool.false_and]
  cases fills with
  | sends answered canPing sent =>
      rw [refuses canPing]
      refine ⟨.sends answered ?_, stays⟩
      rw [if_neg Bool.false_ne_true, scanned.peer]
      exact sent
  | stops answered canPing leaves =>
      rw [refuses canPing]
      refine ⟨.rests ?_ (fun cut => ?_) fun _ _ unanswered => absurd answered unanswered, stays⟩
      · exact (congrArg Peer.outlook scanned.peer).trans (begins.leaves leaves)
      · rw [answered] at cut
        cases cut
  | waits unanswered canPing leaves more =>
      have same := (congrArg Peer.outlook scanned.peer).trans (begins.leaves leaves)
      have load : waiting.1.datagram.load = before.packed.load := by
        rw [scanned.datagram]
        exact leaves.load
      rw [scanned.canPing, canPing, Bool.true_and]
      have needs := needsPing_iff same load connected
      rw [clock] at needs
      split
      next ping =>
          obtain ⟨awaits, room⟩ := needs.mp ping
          have sampled' : Sampled waiting.1 := fun other => by
            rw [settings.peers other]
            exact sampled other
          have pinged := pinged_after (fun ample => (enough ample).of_acts acts)
            (passed.sendRun sends) sampled' same load (clock ▸ awaits) room unanswered
          rw [clock] at pinged
          obtain ⟨installs, connected'⟩ := checkOutgoingCommands_connected
            (peerPing_connected stays) waiting.2.1
          refine ⟨pinged, ?_⟩
          dsimp only
          rw [installs]
          dsimp only [installScan]
          rw [setPeer_self]
          exact connected'
      next quiet =>
          refine ⟨.rests same (fun cut => ?_) fun _ awaits _ => ?_, stays⟩
          · rw [scanned.peer]
            exact more cut
          · exact Bool.eq_false_iff.mpr fun room => quiet (needs.mpr ⟨awaits, room⟩)

/-! ## The turn -/

/-- What is sent of a connected peer leaves what its next turn depends on. -/
theorem sendDatagram_peer (connected : (host.peers index).state = .connected)
    (sentUnreliable : List OutgoingCommand) :
    (host.sendDatagram index sentUnreliable).1.peers index =
      ((host.peers index).updatePacketLoss host.serviceTime).setLastSendTime host.serviceTime := by
  have lost : ((host.peers index).updatePacketLoss host.serviceTime).state = .connected := by
    rw [← connected]
    unfold Peer.updatePacketLoss
    split
    · rfl
    · split <;> rfl
  have removes : ∀ later : Host, (later.peers index).state = .connected →
      (later.removeSentUnreliableCommands index sentUnreliable).peers index =
        later.peers index := by
    intro later stays
    unfold removeSentUnreliableCommands
    split
    · rfl
    · dsimp only
      split
      next closes =>
          have state : (later.peers index).state = .disconnectLater := closes.1
          rw [stays] at state
          cases state
      · rfl
  unfold sendDatagram
  dsimp only
  split
  · rw [removes _ (by rw [setPeer_self, setPeer_self]; exact lost), setPeer_self, setPeer_self]
    rfl
  · refine (removes _ (by rw [setPeer_self, setPeer_self]; exact lost)).trans ?_
    rw [setPeer_self, setPeer_self]
    rfl

theorem updatePacketLoss_outlook (peer : Peer) (serviceTime : Nat) :
    (peer.updatePacketLoss serviceTime).outlook = peer.outlook ∧
      (peer.updatePacketLoss serviceTime).continueSending = peer.continueSending := by
  unfold Peer.updatePacketLoss
  split
  · exact ⟨rfl, rfl⟩
  · split <;> exact ⟨rfl, rfl⟩

theorem sendFilled_peer (connected : ((host.fillDatagram index).1.peers index).state = .connected) :
    ((host.sendFilled event index).1.peers index).outlook =
        ((host.fillDatagram index).1.peers index).outlook ∧
      ((host.sendFilled event index).1.peers index).continueSending =
        ((host.fillDatagram index).1.peers index).continueSending := by
  have sent := sendDatagram_peer connected (host.fillDatagram index).2
  have loses := updatePacketLoss_outlook ((host.fillDatagram index).1.peers index)
    (host.fillDatagram index).1.serviceTime
  have passes : (((host.fillDatagram index).1.sendDatagram index
          (host.fillDatagram index).2).1.peers index).outlook =
        ((host.fillDatagram index).1.peers index).outlook ∧
      (((host.fillDatagram index).1.sendDatagram index
          (host.fillDatagram index).2).1.peers index).continueSending =
        ((host.fillDatagram index).1.peers index).continueSending := by
    rw [sent]
    exact loses
  unfold sendFilled
  dsimp only
  split
  · exact ⟨rfl, rfl⟩
  · split
    next goes => rw [goes] at passes; exact passes
    next fails => rw [fails] at passes; exact passes

/-- **A turn of a connected peer** that is not given up leaves what its datagram does. -/
theorem sendPeer_after {sendPass : Nat} (visited : Visited (host, event))
    (fresh : isStored event = false) (connected : (host.peers index).state = .connected)
    (served : ¬((host.peers index).state = .disconnected ∨ (host.peers index).state = .zombie ∨
      (0 < sendPass ∧ (host.peers index).continueSending = false)))
    (unowed : ¬(host.peers index).AcknowledgesDisconnect)
    (kept : ((host.startDatagram index).checkDueTimeouts event checkForTimeouts index).2.2 =
      false) :
    ((host.peers index).dueTimeouts host.serviceTime checkForTimeouts).After host.serviceTime
        host.Ample
        (((host.startDatagram index).checkDueTimeouts event checkForTimeouts
          index).1.pingsAdded index)
        ((host.sendPeer event checkForTimeouts sendPass index).1.peers index) ∧
      ((host.peers index).timeoutsDue host.serviceTime checkForTimeouts = true →
        ((host.peers index).checkTimeouts host.serviceTime).2 = false) := by
  obtain ⟨begins, whole⟩ := checkDueTimeouts_begins unowed kept
  have starts : Run (host, event) (host.startDatagram index, event) :=
    Sends.run (.single (.startDatagram host index fun free => served (.inl free))) event
  have checks : Run (host.startDatagram index, event) _ :=
    (checkDueTimeouts_run (host.startDatagram index) fresh checkForTimeouts index).1
  have visited' := visited.run (starts.trans checks)
  have acts := (ActsOn.startDatagram host index).trans
    (.checkDueTimeouts (host.startDatagram index) event checkForTimeouts index)
  have settings := (SameSettings.startDatagram host index).trans (.checkDueTimeouts kept)
  have connected' : ((host.peers index).dueTimeouts host.serviceTime checkForTimeouts).state =
      .connected := (Peer.dueTimeouts_state _).trans connected
  obtain ⟨goes, stays⟩ := begins.after (fun ample : host.Ample => ample.of_acts acts)
    (.visited visited') (Sampled.visited visited') connected'
  obtain ⟨outlook, more⟩ := @sendFilled_peer _ index
    ((host.startDatagram index).checkDueTimeouts event checkForTimeouts index).2.1 stays
  rw [settings.serviceTime] at goes
  have sends : host.sendPeer event checkForTimeouts sendPass index =
      ((host.startDatagram index).checkDueTimeouts event checkForTimeouts index).1.sendFilled
        ((host.startDatagram index).checkDueTimeouts event checkForTimeouts index).2.1 index := by
    unfold sendPeer
    dsimp only
    rw [if_neg served, kept]
    rfl
  rw [sends]
  exact ⟨goes.congr outlook more, whole⟩

end Host

/-! ## What the next turn finds -/

namespace Peer

variable {peer before after : Peer} {serviceTime pings : Nat} {checkForTimeouts : Bool}
  {ample : Prop}

/-- A peer for which no turn queues a PING: it is not connected, or no PING is due, or
commands are in flight, or its queue leaves no room for one. -/
inductive Settled (serviceTime : Nat) (checkForTimeouts : Bool) (peer : Peer) : Prop where
  | unconnected (state : peer.state ≠ .connected)
  | early (early : ¬peer.pingInterval ≤ timeDifference serviceTime peer.lastReceiveTime)
  | inFlight (inFlight : peer.InFlight serviceTime checkForTimeouts)
  | answered (nothingSent : peer.sentReliableCommands = [])
      (answers : peer.packer.Answers peer.line)

/-- A command that was sent just now is in flight. -/
theorem SentNow.inFlight (sent : peer.SentNow serviceTime) :
    peer.InFlight serviceTime checkForTimeouts := by
  obtain ⟨outgoing, member, now, timeout⟩ := sent
  refine ⟨List.ne_nil_of_mem member, .inr (.inr ⟨outgoing, member, decide_eq_true ?_⟩)⟩
  rw [now]
  have same : timeDifference serviceTime serviceTime = 0 := by
    unfold timeDifference
    split <;> exact (if_pos (Nat.le_refl _)).trans (Nat.sub_self _)
  rw [same]
  exact timeout

/-- A settled peer stays so. -/
theorem After.settled (goes : After serviceTime ample before pings after)
    (settled : before.Settled serviceTime checkForTimeouts) :
    pings = 0 ∧ after.Settled serviceTime checkForTimeouts := by
  have never : before.AwaitsPing serviceTime → before.packed.ending ≠ .answered →
      before.packed.load.leavesRoom before.mtu = true → False := by
    intro awaits unanswered room
    cases settled with
    | unconnected state => exact state awaits.connected
    | early early => exact early awaits.due
    | inFlight inFlight => exact inFlight.sent awaits.nothingSent
    | answered nothingSent answers =>
        have full : before.packed.load.leavesRoom before.mtu = false := answers.full unanswered
        rw [full] at room
        cases room
  cases goes with
  | sends answered sent => exact ⟨rfl, .inFlight sent.inFlight⟩
  | waits awaits unanswered room isPing same more => exact (never awaits unanswered room).elim
  | pings awaits finished room sent => exact (never awaits (by rw [finished]; simp) room).elim
  | rests same more barred =>
      refine ⟨rfl, ?_⟩
      have state : after.state = before.state := congrArg Outlook.state same
      have sent : after.sentReliableCommands = before.sentReliableCommands :=
        congrArg Outlook.sentReliableCommands same
      have timeout : after.nextTimeout = before.nextTimeout := congrArg Outlook.nextTimeout same
      have interval : after.pingInterval = before.pingInterval :=
        congrArg Outlook.pingInterval same
      have received : after.lastReceiveTime = before.lastReceiveTime :=
        congrArg Outlook.lastReceiveTime same
      have packer : after.packer = before.packer := congrArg Outlook.packer same
      have line : after.line = before.nextLine := congrArg Outlook.line same
      cases settled with
      | unconnected other => exact .unconnected (state ▸ other)
      | early early => exact .early (by rw [interval, received]; exact early)
      | inFlight inFlight =>
          exact .inFlight ⟨sent ▸ inFlight.sent, by rw [sent, timeout]; exact inFlight.stays⟩
      | answered nothingSent answers =>
          exact .answered (sent.trans nothingSent) (by rw [packer, line]; exact answers.next)

theorem Settled.dueTimeouts (settled : peer.Settled serviceTime checkForTimeouts)
    (kept : peer.timeoutsDue serviceTime checkForTimeouts = true →
      (peer.checkTimeouts serviceTime).2 = false) :
    (peer.dueTimeouts serviceTime checkForTimeouts).Settled serviceTime checkForTimeouts := by
  cases settled with
  | unconnected state => exact .unconnected (by rw [dueTimeouts_state]; exact state)
  | early early =>
      obtain ⟨interval, received⟩ := @dueTimeouts_interval serviceTime checkForTimeouts peer
      exact .early (by rw [interval, received]; exact early)
  | inFlight inFlight => exact .inFlight (inFlight.dueTimeouts kept)
  | answered nothingSent answers =>
      rw [dueTimeouts_of_nil nothingSent]
      exact .answered nothingSent answers

/-- A peer is settled, or it awaits a PING. -/
theorem settled_of_dueTimeouts (kept : peer.timeoutsDue serviceTime checkForTimeouts = true →
      (peer.checkTimeouts serviceTime).2 = false)
    (other : ¬(peer.dueTimeouts serviceTime checkForTimeouts).AwaitsPing serviceTime) :
    (peer.dueTimeouts serviceTime checkForTimeouts).Settled serviceTime checkForTimeouts := by
  by_cases connected : (peer.dueTimeouts serviceTime checkForTimeouts).state = .connected
  · by_cases nothing : (peer.dueTimeouts serviceTime checkForTimeouts).sentReliableCommands = []
    · exact .early fun due => other ⟨connected, nothing, due⟩
    · exact .inFlight (inFlight_of_dueTimeouts kept nothing)
  · exact .unconnected connected

/-- What a turn leaves awaits a PING where the queue did. -/
theorem AwaitsPing.next {line : Line} {number : Nat} (awaits : before.AwaitsPing serviceTime)
    (same : after.outlook = { before.outlook with line := line, pingNumber := number }) :
    after.AwaitsPing serviceTime where
  connected := (congrArg Outlook.state same).trans awaits.connected
  nothingSent := (congrArg Outlook.sentReliableCommands same).trans awaits.nothingSent
  due := by
    have interval : after.pingInterval = before.pingInterval :=
      congrArg Outlook.pingInterval same
    have received : after.lastReceiveTime = before.lastReceiveTime :=
      congrArg Outlook.lastReceiveTime same
    rw [interval, received]
    exact awaits.due

/-- A PING is queued for a peer whose queue is cut once, and the peer is settled then. -/
theorem After.once (goes : After serviceTime ample before pings after)
    (awaits : before.AwaitsPing serviceTime) (once : before.CutOnce)
    (spares : before.SparesPing) :
    pings = 0 ∧ after.AwaitsPing serviceTime ∧ after.CutOnce ∧ after.SparesPing ∨
      pings ≤ 1 ∧ after.Settled serviceTime checkForTimeouts := by
  have stops : before.packer.Stops before.packed := Packer.pack_stops ..
  cases goes with
  | sends answered sent => exact .inr ⟨Nat.zero_le 1, .inFlight sent.inFlight⟩
  | pings _ finished room sent => exact .inr ⟨Nat.le_refl 1, .inFlight sent.inFlight⟩
  | rests same more barred =>
      have packer : after.packer = before.packer := congrArg Outlook.packer same
      have line : after.line = before.nextLine := congrArg Outlook.line same
      have number : after.pingNumber = before.pingNumber := congrArg Outlook.pingNumber same
      cases ends : before.packed.ending with
      | answered =>
          refine .inr ⟨Nat.zero_le 1, .answered (awaits.next same).nothingSent ?_⟩
          rw [packer, line]
          exact .of_answered (stops.pack_of_answered ends _ _)
      | cut =>
          refine .inl ⟨rfl, awaits.next same, fun datagrams => ?_, fun datagrams dropped => ?_⟩
          · rw [packer, line]
            exact (Packer.roomyCuts_next_le ends datagrams).trans (once _)
          · rw [packer, line, number]
            intro roomy finished
            have within := Packer.roomyCuts_next_le ends datagrams
            refine spares (datagrams + 1) dropped ?_ ?_
            · exact Nat.le_antisymm (once _) (roomy ▸ within)
            · rw [Packer.ending_of_cut ends]
              exact finished
      | finished last =>
          have uncut := fun datagrams =>
            (Packer.roomyCuts_of_nil (stops.of_finished ends).2 datagrams :
              before.packer.roomyCuts datagrams before.nextLine = 0 ∧ _).1
          refine .inl ⟨rfl, awaits.next same, fun datagrams => ?_, fun datagrams dropped => ?_⟩
          · rw [packer, line, uncut]
            exact Nat.zero_le 1
          · rw [packer, line, uncut]
            intro roomy
            cases roomy
  | @waits _ ping _ _ unanswered room isPing same more =>
      refine .inr ⟨Nat.le_refl 1, .answered (awaits.next same).nothingSent ?_⟩
      have packer : after.packer = before.packer := congrArg Outlook.packer same
      have line : after.line = before.nextLine.push ping := congrArg Outlook.line same
      rw [packer, line]
      cases ends : before.packed.ending with
      | answered => exact absurd ends unanswered
      | cut =>
          have roomy := Packer.roomyCuts_of_room ends room
          have uncut : ∀ datagrams, before.packer.roomyCuts datagrams before.nextLine = 0 := by
            intro datagrams
            have within := once (datagrams + 1)
            rw [roomy datagrams] at within
            exact Nat.le_zero.mp (Nat.le_of_add_le_add_left within)
          refine .push isPing.acknowledge uncut fun datagrams dropped finished => ?_
          cases dropped with
          | none => rfl
          | some last =>
              have apart := spares (datagrams + 1) last
                ((roomy datagrams).trans (by rw [uncut]))
                ((Packer.ending_of_cut ends _).trans finished)
              refine decide_eq_false fun numbers => apart ?_
              rw [isPing.reliable, isPing.unreliable] at numbers
              exact ⟨numbers.1.symm, numbers.2.symm⟩
      | finished last =>
          have nothing := fun datagrams =>
            (Packer.roomyCuts_of_nil (stops.of_finished ends).2 datagrams :
              before.packer.roomyCuts datagrams before.nextLine = 0 ∧ _)
          refine .push isPing.acknowledge (fun datagrams => (nothing datagrams).1)
            fun datagrams dropped finished => ?_
          rw [(nothing datagrams).2 dropped finished]
          rfl

/-- Where there is memory, a PING is queued at each cut with room, and the turn asks for
another one. -/
theorem After.owes (goes : After serviceTime ample before pings after) (memory : ample)
    (awaits : before.AwaitsPing serviceTime) {datagrams : Nat}
    (cuts : 0 < before.packer.roomyCuts datagrams before.line) :
    after.continueSending = true ∧ after.AwaitsPing serviceTime ∧
      ∃ left, before.packer.roomyCuts datagrams before.line ≤
        pings + after.packer.roomyCuts left after.line := by
  cases datagrams with
  | zero => exact absurd cuts (Nat.lt_irrefl 0)
  | succ left =>
      have cut : before.packed.ending = .cut := by
        by_contra whole
        rw [(Packer.roomyCuts_of_whole whole _).1] at cuts
        exact Nat.lt_irrefl 0 cuts
      cases goes with
      | sends answered sent =>
          rw [cut] at answered
          cases answered
      | pings _ finished room sent =>
          rw [cut] at finished
          cases finished
      | rests same more barred =>
          have full := barred memory awaits (by rw [cut]; simp)
          have packer : after.packer = before.packer := congrArg Outlook.packer same
          have line : after.line = before.nextLine := congrArg Outlook.line same
          refine ⟨more cut, awaits.next same, left, ?_⟩
          rw [Packer.roomyCuts_of_full cut full, packer, line, Nat.zero_add]
      | @waits _ ping _ _ unanswered room isPing same more =>
          have packer : after.packer = before.packer := congrArg Outlook.packer same
          have line : after.line = before.nextLine.push ping := congrArg Outlook.line same
          refine ⟨more cut, awaits.next same, left, ?_⟩
          rw [Packer.roomyCuts_of_room cut room, packer, line,
            Packer.roomyCuts_push isPing.acknowledge]

end Peer

end Enet
