import Enet.Runs.Transit

/-!
# The timeout gate

`enet_protocol_send_outgoing_commands` looks for overdue commands only from
`nextTimeout` on. That is the time at which the first command in transit is due.
The first one is not always the first to expire: a command that was sent again
waits twice as long, and stands in front of commands sent after it.
-/

set_option autoImplicit false

namespace Enet

/-- The time at which a command in transit is due. -/
def OutgoingCommand.dueTime (outgoing : OutgoingCommand) : Nat :=
  u32 (outgoing.sentTime + outgoing.roundTripTimeout)

/-- A command in transit whose acknowledgement is overdue. -/
def OutgoingCommand.IsOverdue (outgoing : OutgoingCommand) (serviceTime : Nat) : Prop :=
  outgoing.roundTripTimeout ≤ timeDifference serviceTime outgoing.sentTime

/-! ## The next timeout -/

/-- The next timeout of a list of commands in transit. -/
def IsNextTimeout (nextTimeout : Nat) : List OutgoingCommand → Prop
  | [] => True
  | first :: _ => nextTimeout = first.dueTime

/-- The next timeout of a peer is the time at which its first command is due. -/
def Peer.Timed (peer : Peer) : Prop := IsNextTimeout peer.nextTimeout peer.sentReliableCommands

namespace Peer

/-- Two peers with the same commands in transit and the same next timeout. -/
structure SameTimeouts (peer peer' : Peer) : Prop where
  sentReliableCommands : peer'.sentReliableCommands = peer.sentReliableCommands
  nextTimeout : peer'.nextTimeout = peer.nextTimeout

namespace SameTimeouts

variable {peer peer' peer'' : Peer}

theorem refl (peer : Peer) : peer.SameTimeouts peer := ⟨rfl, rfl⟩

theorem trans (first : peer.SameTimeouts peer') (second : peer'.SameTimeouts peer'') :
    peer.SameTimeouts peer'' :=
  ⟨second.sentReliableCommands.trans first.sentReliableCommands,
    second.nextTimeout.trans first.nextTimeout⟩

theorem timed (same : peer.SameTimeouts peer') (timed : peer.Timed) : peer'.Timed := by
  unfold Timed
  rw [same.sentReliableCommands, same.nextTimeout]
  exact timed

theorem numberOutgoingCommand (peer : Peer) (outgoing : OutgoingCommand) :
    peer.SameTimeouts (peer.numberOutgoingCommand outgoing).1 := by
  unfold Peer.numberOutgoingCommand
  split
  · exact ⟨rfl, rfl⟩
  · split
    · exact ⟨rfl, rfl⟩
    · split <;> exact ⟨rfl, rfl⟩

theorem setupOutgoingCommand (peer : Peer) (totalQueued : Nat) (outgoing : OutgoingCommand) :
    peer.SameTimeouts (peer.setupOutgoingCommand totalQueued outgoing) := by
  have counted : peer.SameTimeouts (peer.countOutgoingData outgoing) := ⟨rfl, rfl⟩
  refine (counted.trans (numberOutgoingCommand _ outgoing)).trans ?_
  unfold Peer.setupOutgoingCommand enqueueOutgoing
  dsimp only
  split <;> exact ⟨rfl, rfl⟩

theorem throttle (peer : Peer) (roundTripTime : Nat) :
    (peer.throttle roundTripTime).nextTimeout = peer.nextTimeout := by
  unfold Peer.throttle
  split
  · rfl
  · split
    · rfl
    · split <;> rfl

theorem updateRoundTripTime (peer : Peer) (serviceTime roundTripTime : Nat) :
    (peer.updateRoundTripTime serviceTime roundTripTime).nextTimeout = peer.nextTimeout := by
  have tracks : ∀ peer : Peer, (peer.trackRoundTripTime serviceTime).nextTimeout =
      peer.nextTimeout := by
    intro peer
    unfold Peer.trackRoundTripTime
    dsimp only
    split <;> rfl
  have averages : (peer.averageRoundTripTime roundTripTime).nextTimeout = peer.nextTimeout := by
    have throttles := throttle peer roundTripTime
    unfold Peer.averageRoundTripTime
    split
    · dsimp only
      split <;> exact throttles
    · rfl
  exact (tracks (peer.averageRoundTripTime roundTripTime)).trans averages

theorem move (move : peer.Move peer') : peer.SameTimeouts peer' := by
  refine ⟨move.alike.sentReliableCommands, ?_⟩
  cases move with
  | packetLoss serviceTime =>
      unfold Peer.updatePacketLoss
      split
      · rfl
      · split <;> rfl
  | roundTripTime serviceTime roundTripTime => exact updateRoundTripTime ..
  | _ => rfl

theorem moves (moves : peer.Moves peer') : peer.SameTimeouts peer' :=
  Library.runs_relate SameTimeouts refl (fun first => first.trans) move moves

end SameTimeouts

/-! ## Commands that leave the transit -/

theorem Timed.scheduleTimeout (peer : Peer) : peer.scheduleTimeout.Timed := by
  unfold Peer.scheduleTimeout
  split
  next none =>
      unfold Timed
      rw [none]
      trivial
  next first rest found =>
      have still : ∀ time, (peer.setNextTimeout time).sentReliableCommands =
          peer.sentReliableCommands := fun _ => rfl
      unfold Timed
      rw [still, found]
      rfl

theorem Timed.removeSentReliableCommand {peer : Peer} (timed : peer.Timed)
    (number channelID : Nat) : (peer.removeSentReliableCommand number channelID).1.Timed := by
  unfold Peer.removeSentReliableCommand
  dsimp only
  split
  · exact timed
  · exact scheduleTimeout _

/-- A scan of the timeouts keeps the next one that of the first command. -/
def TimeoutScan.Timed (scan : TimeoutScan) (rest : List OutgoingCommand) : Prop :=
  IsNextTimeout scan.peer.nextTimeout (scan.passed ++ rest)

theorem noteTimeout_nextTimeout (peer : Peer) (outgoing : OutgoingCommand) :
    (peer.noteTimeout outgoing).nextTimeout = peer.nextTimeout := by
  unfold noteTimeout
  split <;> rfl

theorem TimeoutTurn.timed {serviceTime : Nat} {before after : TimeoutScan × List OutgoingCommand}
    (turn : TimeoutTurn serviceTime before after) (timed : before.1.Timed before.2) :
    after.1.Timed after.2 := by
  cases turn with
  | pass scan outgoing rest early =>
      unfold TimeoutScan.Timed TimeoutScan.pass
      rw [List.append_assoc]
      exact timed
  | requeue scan outgoing rest overdue stays =>
      obtain ⟨peer, passed⟩ := scan.putBack_peer
        (((scan.peer.noteTimeout outgoing).requeue outgoing).scheduleNext scan.passed rest) outgoing
      have still : ((scan.peer.noteTimeout outgoing).requeue outgoing).nextTimeout =
          scan.peer.nextTimeout := noteTimeout_nextTimeout scan.peer outgoing
      unfold TimeoutScan.Timed at timed ⊢
      rw [peer, passed]
      unfold scheduleNext
      cases held : scan.passed with
      | nil =>
          cases rest with
          | nil => trivial
          | cons next others => rfl
      | cons first others =>
          dsimp only at timed ⊢
          rw [held] at timed
          rw [still]
          exact timed

theorem TimeoutScan.Timed.notes {scan : TimeoutScan} {outgoing : OutgoingCommand}
    {rest : List OutgoingCommand} (timed : scan.Timed (outgoing :: rest)) :
    (scan.setPeer (scan.peer.noteTimeout outgoing)).Timed (outgoing :: rest) := by
  unfold TimeoutScan.Timed at timed ⊢
  rw [show (scan.setPeer (scan.peer.noteTimeout outgoing)).peer.nextTimeout =
    scan.peer.nextTimeout from noteTimeout_nextTimeout scan.peer outgoing]
  exact timed

/-- **A scan of the timeouts sets the next one from the command then in front.** -/
theorem Timed.checkTimeouts {peer : Peer} (timed : peer.Timed) (serviceTime : Nat) :
    (peer.checkTimeouts serviceTime).1.Timed :=
  scanTimeouts_keeps_of_turns (fun scan => scan.1.Timed scan.2) TimeoutTurn.timed
    TimeoutScan.Timed.notes peer.sentReliableCommands ⟨peer, [], [], []⟩ timed

end Peer

/-! ## Transmission -/

namespace OutgoingScan

/-- A command appended to those in transit sets the next timeout where it is the first. -/
theorem addSentReliable_timed {peer : Peer} (timed : peer.Timed) {serviceTime : Nat}
    {outgoing : OutgoingCommand} (sent : outgoing.sentTime = serviceTime) :
    (addSentReliable peer serviceTime outgoing).Timed := by
  unfold Peer.Timed at timed
  unfold addSentReliable Peer.Timed
  dsimp only
  cases commands : peer.sentReliableCommands with
  | nil => exact congrArg (fun time => u32 (time + outgoing.roundTripTimeout)) sent.symm
  | cons first rest =>
      rw [commands] at timed
      exact timed

theorem step_timed {scan : OutgoingScan} (timed : scan.peer.Timed) (serviceTime : Nat)
    (reliable : Bool) (outgoing : OutgoingCommand) :
    (scan.step serviceTime reliable outgoing).1.peer.Timed := by
  have passes : (scan.pass reliable).peer.Timed := by
    rw [pass_peer]
    exact timed
  unfold step
  split
  · split
    · exact passes
    · split
      · exact passes
      · split
        · exact passes
        · split
          · exact timed
          · have opens : (scan.forbidPing.openCommandWindow outgoing).Timed := by
              unfold openCommandWindow
              split <;> exact timed
            exact addSentReliable_timed opens rfl
  · split
    · exact timed
    · unfold sendUnreliable
      dsimp only
      split
      · rw [dropThrottled_peer]
        exact timed
      · rw [transmitUnreliable_peer]
        exact timed

theorem run_timed (serviceTime fuel : Nat) : ∀ scan : OutgoingScan,
    scan.peer.Timed → (run serviceTime fuel scan).peer.Timed := by
  induction fuel with
  | zero => intro scan timed; exact timed
  | succ fuel ih =>
      intro scan timed
      unfold run
      split
      · exact timed
      next reliable outgoing _ =>
          have steps := step_timed timed serviceTime reliable outgoing
          dsimp only
          split
          · exact ih _ steps
          · exact steps

end OutgoingScan

/-! ## Hosts -/

/-- Every next timeout is the time at which the first command is due. -/
def Timed (host : Host) : Prop := ∀ index, (host.peers index).Timed

namespace Timed

variable {host host' : Host} {index : Nat}

theorem acts (timed : Timed host) (acts : ActsOn index host host')
    (own : (host.peers index).Timed → (host'.peers index).Timed) : Timed host' := by
  intro other
  rcases eq_or_ne other index with same | different
  · rw [same]
    exact own (timed index)
  · rw [acts.others other different]
    exact timed other

theorem setPeer (timed : Timed host) {peer : Peer} (own : peer.Timed) :
    Timed (host.setPeer index peer) := by
  refine timed.acts (.setPeer host index peer) fun _ => ?_
  rw [Host.setPeer_self]
  exact own

/-- A change of one peer that leaves its commands in transit and its next timeout. -/
theorem keep (timed : Timed host) {peer : Peer} (same : (host.peers index).SameTimeouts peer) :
    Timed (host.setPeer index peer) := timed.setPeer (same.timed (timed index))

theorem receivesFor (timed : Timed host) (receives : ReceivesFor index host host') :
    Timed host' :=
  timed.acts receives.acts fun own =>
    Peer.SameTimeouts.timed ⟨receives.peer.sentReliableCommands, receives.peer.nextTimeout⟩ own

theorem queueOutgoingCommand (timed : Timed host) (index : Nat) (command : Protocol)
    (packet : Option Packet) (offset length : Nat) :
    Timed (host.queueOutgoingCommand index command packet offset length).1 := by
  unfold Host.queueOutgoingCommand
  split
  · exact timed
  next heap address _ =>
      exact @keep (host.setHeap heap).countQueued index timed _ (.setupOutgoingCommand _ _ _)

theorem foldl_setupOutgoingCommand (index : Nat) (fragments : List OutgoingCommand) :
    ∀ {host : Host}, Timed host → Timed (fragments.foldl
      (fun host fragment => host.setupOutgoingCommand index fragment) host) := by
  induction fragments with
  | nil => intro host timed; exact timed
  | cons fragment fragments ih =>
      intro host timed
      exact ih (@keep host.countQueued index timed _ (.setupOutgoingCommand _ _ _))

theorem peerSend (timed : Timed host) (index channelID : Nat) (packet : Packet) :
    Timed (host.peerSend index channelID packet).1 := by
  have queues := timed.queueOutgoingCommand index
    (Host.sendCommand ((host.peers index).channels channelID) channelID packet) (some packet) 0
    packet.dataLength
  unfold Host.peerSend
  dsimp only
  split
  · exact timed
  · split
    · unfold Host.sendFragments
      dsimp only
      split
      · exact timed
      · split
        · exact timed
        · exact foldl_setupOutgoingCommand index _ timed
    · split
      next queued => rw [queued] at queues; exact queues
      next queued => rw [queued] at queues; exact queues

theorem removeSentReliableCommand (timed : Timed host) (index number channelID : Nat) :
    Timed (host.removeSentReliableCommand index number channelID).1 := by
  have removes := (timed index).removeSentReliableCommand number channelID
  unfold Host.removeSentReliableCommand
  split
  · exact timed
  next peer outgoing removed =>
      rw [removed] at removes
      exact @setPeer (host.setHeap (host.heap.removeOutgoing outgoing)) index timed _ removes

/-- **An edit keeps every next timeout that of the first command.** -/
theorem edit (edit : Edit index host host') (timed : Timed host) : Timed host' := by
  cases edit with
  | quiet quiet =>
      exact fun other => (Peer.SameTimeouts.moves (quiet.moves other)).timed (timed other)
  | malloc => exact timed
  | observe observation about fresh => exact timed
  | schedule => exact timed.receivesFor (.scheduleDispatch host index)
  | unschedule => exact @keep (host.setDispatchQueue _) index timed _ ⟨rfl, rfl⟩
  | changeState state used stays may =>
      refine timed.acts (.changeState host index state) fun own => ?_
      rw [Host.changeState_peer]
      exact own
  | eventData data => exact timed.keep ⟨rfl, rfl⟩
  | resetQueues =>
      refine timed.acts (.resetQueues host index) fun _ => ?_
      rw [Host.resetQueues_peer]
      trivial
  | reset =>
      refine timed.acts (.peerReset host index) fun _ => ?_
      obtain ⟨mtu, same⟩ := Host.peerReset_peer host index
      rw [same]
      trivial
  | clearChannels free => exact timed.keep ⟨rfl, rfl⟩
  | connecting address channelCount connectID slot free locally => exact timed.keep ⟨rfl, rfl⟩
  | accepted fields slot free channels admits => exact timed.keep ⟨rfl, rfl⟩
  | verified fields waits => exact timed.keep ⟨rfl, rfl⟩
  | bandwidth incomingBandwidth outgoingBandwidth =>
      unfold Host.handleBandwidthLimit
      dsimp only
      split
      · exact timed
      · exact @keep (host.setBandwidthLimitedPeers _ _) index timed _ ⟨rfl, rfl⟩
  | queue command control bare => exact timed.queueOutgoingCommand index command none 0 0
  | removeSent number channelID => exact timed.removeSentReliableCommand index number channelID
  | scanTimeouts => exact timed.setPeer ((timed index).checkTimeouts host.serviceTime)
  | receive step heard => exact timed.receivesFor step.receivesFor
  | acknowledge acknowledgement => exact timed.keep ⟨rfl, rfl⟩
  | acknowledged rest => exact timed.keep ⟨rfl, rfl⟩

theorem maintained : Maintained fun host _ => Timed host where
  edit := edit
  scan := by
    intro host index sentUnreliable timed
    have scanned : Timed ((host.setHeap (host.scanOutgoing index sentUnreliable).heap).setDatagram
        (host.scanOutgoing index sentUnreliable).datagram) := timed
    exact scanned.setPeer (OutgoingScan.run_timed host.serviceTime _
      (.start (host.peers index) host.heap host.datagram sentUnreliable) (timed index))
  free := fun _ _ timed => timed
  take := fun host index timed => timed.receivesFor (.peerReceive host index)
  packet := fun _ index channelID packet timed => timed.peerSend index channelID packet
  discard := fun _ _ _ timed => timed
  configure := fun _ _ _ _ _ _ _ _ timed => timed

/-- **Every next timeout is that of the first command, wherever calls pass through.** -/
theorem visited {activity : Activity} (visited : Visited activity) : Timed activity.1 :=
  maintained.visited (fun _ _ _ _ _ _ _ _ => trivial) visited

end Timed

/-! ## The gate -/

/-- **A first command that is overdue opens the gate**, within a day. -/
theorem OutgoingCommand.IsOverdue.opens {first : OutgoingCommand} {serviceTime : Nat}
    (overdue : first.IsOverdue serviceTime) (clock : serviceTime < 4294967296)
    (sent : first.sentTime < 4294967296)
    (recent : sub32 serviceTime first.sentTime < timeOverflow) :
    timeGreaterEqual serviceTime first.dueTime = true := by
  have late : first.roundTripTimeout ≤ sub32 serviceTime first.sentTime := by
    unfold OutgoingCommand.IsOverdue timeDifference at overdue
    rw [if_neg (Nat.not_le.mpr recent)] at overdue
    exact overdue
  have past : ¬timeOverflow ≤ sub32 serviceTime first.dueTime := by
    unfold OutgoingCommand.dueTime u32
    unfold sub32 at late recent ⊢
    simp only [timeOverflow] at recent ⊢
    split at late
    next before =>
        rw [if_pos before] at recent
        split <;> omega
    next after =>
        rw [if_neg after] at recent
        split <;> omega
  unfold timeGreaterEqual timeLess
  rw [decide_eq_false past]
  rfl

namespace Peer

/-- A scan without an overdue command passes over all of them. -/
theorem scanTimeouts_of_early {serviceTime : Nat} {commands : List OutgoingCommand} :
    ∀ scan : TimeoutScan, (∀ outgoing ∈ commands, ¬outgoing.IsOverdue serviceTime) →
      scanTimeouts serviceTime scan commands =
        ({ scan with passed := scan.passed ++ commands }, none) := by
  induction commands with
  | nil =>
      intro scan early
      rw [List.append_nil]
      rfl
  | cons outgoing rest ih =>
      intro scan early
      have first := early outgoing List.mem_cons_self
      unfold OutgoingCommand.IsOverdue at first
      unfold scanTimeouts
      rw [if_pos (Nat.lt_of_not_le first),
        ih _ fun other member => early other (List.mem_cons_of_mem _ member)]
      unfold TimeoutScan.pass
      dsimp only
      rw [List.append_assoc]
      rfl

theorem checkTimeouts_of_early {peer : Peer} {serviceTime : Nat}
    (early : ∀ outgoing ∈ peer.sentReliableCommands, ¬outgoing.IsOverdue serviceTime) :
    peer.checkTimeouts serviceTime = (peer, false) := by
  unfold checkTimeouts
  rw [scanTimeouts_of_early _ early]
  exact Prod.ext (by
    unfold TimeoutScan.finish
    dsimp only
    rw [List.nil_append, Option.getD_none, List.append_nil]
    rfl) rfl

/-- A scan that ends keeps no overdue command in transit. -/
theorem scanTimeouts_passed {serviceTime : Nat} {commands : List OutgoingCommand} :
    ∀ scan : TimeoutScan, (scanTimeouts serviceTime scan commands).2 = none →
      ∀ outgoing ∈ (scanTimeouts serviceTime scan commands).1.passed,
        outgoing ∈ scan.passed ∨ ¬outgoing.IsOverdue serviceTime := by
  induction commands with
  | nil => intro scan _ outgoing member; exact .inl member
  | cons first rest ih =>
      intro scan ends outgoing member
      unfold scanTimeouts at ends member
      split at ends
      next early =>
          rw [if_pos early] at member
          rcases ih _ ends outgoing member with before | after
          · rcases List.mem_append.mp before with before | same
            · exact .inl before
            · rw [List.mem_singleton.mp same]
              exact .inr (Nat.not_le.mpr early)
          · exact .inr after
      next overdue =>
          rw [if_neg overdue] at member
          dsimp only at ends member
          split at ends
          · cases ends
          next stays =>
              rw [if_neg stays] at member
              rcases ih _ ends outgoing member with before | after
              · rw [(scan.putBack_peer _ first).2] at before
                exact .inl before
              · exact .inr after

theorem TimeoutScan.finish_sentReliableCommands (scan : TimeoutScan)
    (rest : List OutgoingCommand) :
    (scan.finish rest).sentReliableCommands = scan.passed ++ rest := rfl

/-- **A scan changes nothing exactly where no command is overdue.** -/
theorem checkTimeouts_eq_iff (peer : Peer) (serviceTime : Nat) :
    peer.checkTimeouts serviceTime = (peer, false) ↔
      ∀ outgoing ∈ peer.sentReliableCommands, ¬outgoing.IsOverdue serviceTime := by
  refine ⟨fun same outgoing member => ?_, checkTimeouts_of_early⟩
  have ends := congrArg Prod.snd same
  have still := congrArg (fun checked => checked.1.sentReliableCommands) same
  unfold checkTimeouts at ends still
  dsimp only at ends still
  have none := Option.isSome_eq_false_iff.mp ends
  rw [Option.isNone_iff_eq_none] at none
  rw [none] at still
  rw [← still, TimeoutScan.finish_sentReliableCommands, Option.getD_none, List.append_nil]
    at member
  rcases scanTimeouts_passed _ none outgoing member with nothing | early
  · cases nothing
  · exact early

/-- The gate in front of the scan: the first command opens it when it is due, and a
scan that it holds back would have changed something only where a command behind
the first one is overdue. -/
structure GatesTimeouts (peer : Peer) (serviceTime : Nat) : Prop where
  due : ∀ first rest, peer.sentReliableCommands = first :: rest →
    peer.nextTimeout = first.dueTime
  opens : ∀ first rest, peer.sentReliableCommands = first :: rest →
    first.sentTime < 4294967296 → sub32 serviceTime first.sentTime < timeOverflow →
      first.IsOverdue serviceTime → timeGreaterEqual serviceTime peer.nextTimeout = true
  hides : peer.checkTimeouts serviceTime = (peer, false) ↔
    ∀ outgoing ∈ peer.sentReliableCommands, ¬outgoing.IsOverdue serviceTime

theorem Timed.gatesTimeouts {peer : Peer} (timed : peer.Timed) {serviceTime : Nat}
    (clock : serviceTime < 4294967296) : peer.GatesTimeouts serviceTime := by
  have due : ∀ first rest, peer.sentReliableCommands = first :: rest →
      peer.nextTimeout = first.dueTime := by
    intro first rest commands
    unfold Timed at timed
    rw [commands] at timed
    exact timed
  refine ⟨due, fun first rest commands sent recent overdue => ?_, checkTimeouts_eq_iff ..⟩
  rw [due first rest commands]
  exact overdue.opens clock sent recent

end Peer

/-- **The gate follows the first command in transit, in every reachable state.** -/
theorem timeouts_gated (activity : Activity) (index serviceTime : Nat)
    (visited : Visited activity) (clock : serviceTime < 4294967296) :
    (activity.1.peers index).GatesTimeouts serviceTime :=
  (Timed.visited visited index).gatesTimeouts clock

/-- A host whose request to connect is sent again, with twice the timeout, in front
of a command that is sent later and due earlier. -/
def delayedHost : Option Host :=
  calledHost
    (.create .ample (.delivering (fun call => [1, 501, 600, 1200].getD call 1200) []) 0 1 1 0 0)
    [.connect ⟨7, 9⟩ 1 0, .service none 0, .service none 0, .throttleConfigure 0 5000 2 2,
      .service none 0, .service none 0]

/-- A host whose request to connect was sent more than a day before. -/
def idleHost : Option Host :=
  calledHost
    (.create .ample (.delivering (fun call => [1, 90000001].getD call 90000001) []) 0 1 1 0 0)
    [.connect ⟨7, 9⟩ 1 0, .service none 0, .service none 0]

/-- The clock, the next timeout and the commands in transit of the first peer. -/
def Host.timeouts (host : Host) : Nat × Nat × List (Nat × Nat) :=
  (host.serviceTime, (host.peers 0).nextTimeout,
    (host.peers 0).sentReliableCommands.map fun outgoing =>
      (outgoing.sentTime, outgoing.roundTripTimeout))

theorem delayedHost_timeouts :
    delayedHost.map Host.timeouts = some (1200, 1501, [(501, 1000), (600, 500)]) := by
  decide +kernel

theorem timeouts_gated_delayed :
    ∃ host, delayedHost = some host ∧ (host.peers 0).GatesTimeouts 1200 := by
  obtain ⟨host, called, timeouts⟩ := Option.map_eq_some_iff.mp delayedHost_timeouts
  exact ⟨host, called, timeouts_gated (host, none) 0 1200
    (.of_reachable (calledHost_reachable (.create ..) called) rfl) (by decide)⟩

/-- The gate holds back a scan that would find an overdue command. -/
def Peer.HidesTimeout (peer : Peer) (serviceTime : Nat) : Prop :=
  timeGreaterEqual serviceTime peer.nextTimeout = false ∧
    ∃ outgoing ∈ peer.sentReliableCommands, outgoing.IsOverdue serviceTime

/-- **An overdue command is hidden behind a first one that waits longer**, and by a
clock that has moved on by more than a day. -/
theorem delayedHost_hides :
    (∃ host, delayedHost = some host ∧ Host.Reachable host ∧
      (host.peers 0).HidesTimeout host.serviceTime ∧
      (host.peers 0).checkTimeouts host.serviceTime ≠ (host.peers 0, false)) ∧
    ∃ host, idleHost = some host ∧ Host.Reachable host ∧
      (host.peers 0).HidesTimeout host.serviceTime := by
  have idle : idleHost.map Host.timeouts = some (90000001, 501, [(1, 500)]) := by decide +kernel
  have hidden : ∀ {host : Host} {clock next : Nat} {commands : List (Nat × Nat)},
      host.timeouts = (clock, next, commands) → timeGreaterEqual clock next = false →
        (∃ command ∈ commands, command.2 ≤ timeDifference clock command.1) →
        (host.peers 0).HidesTimeout host.serviceTime := by
    intro host clock next commands timeouts early overdue
    simp only [Host.timeouts, Prod.mk.injEq] at timeouts
    obtain ⟨rfl, rfl, rfl⟩ := timeouts
    obtain ⟨command, member, late⟩ := overdue
    obtain ⟨outgoing, inside, rfl⟩ := List.mem_map.mp member
    exact ⟨early, outgoing, inside, late⟩
  constructor
  · obtain ⟨host, called, timeouts⟩ := Option.map_eq_some_iff.mp delayedHost_timeouts
    have hides := hidden timeouts (by decide) ⟨(600, 500), by decide, by decide⟩
    refine ⟨host, called, calledHost_reachable (.create ..) called, hides, fun same => ?_⟩
    obtain ⟨outgoing, member, overdue⟩ := hides.2
    exact (Peer.checkTimeouts_eq_iff _ _).mp same outgoing member overdue
  · obtain ⟨host, called, timeouts⟩ := Option.map_eq_some_iff.mp idle
    exact ⟨host, called, calledHost_reachable (.create ..) called,
      hidden timeouts (by decide) ⟨(1, 500), by decide, by decide⟩⟩

end Enet
