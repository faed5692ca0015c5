import Enet.Runs.Events
import Enet.Runs.Turns

/-!
# Pings in one call

`enet_protocol_send_outgoing_commands` queues a PING in a turn of a peer that has
nothing in flight. A PING queued behind unreliable data that does not fit into
the datagram is not in flight after that turn, so the next turn of the same call
may queue another one. How many it queues is read here off the queue before the
call: off the datagrams that it is cut into.
-/

set_option autoImplicit false

namespace Enet

open Relation

/-! ## The turns of a peer -/

/-- The state in which a peer has its turn in a pass. -/
structure SendTurn where
  host : Host
  event : Option Event
  sendPass : Nat

namespace Host

/-- The turns of one peer in a pass, over the peers left. -/
def turnsInPass (index : Nat) (checkForTimeouts : Bool) (sendPass : Nat) :
    List Nat → Host → Option Event → List SendTurn
  | [], _, _ => []
  | other :: rest, host, event =>
    let here := if other = index then [⟨host, event, sendPass⟩] else []
    match host.sendPeer event checkForTimeouts sendPass other with
    | (_, _, .return _) => here
    | (host, event, _) => here ++ turnsInPass index checkForTimeouts sendPass rest host event

/-- The turns of one peer in the passes of `enet_protocol_send_outgoing_commands`. -/
def turnsInPasses (index : Nat) (checkForTimeouts : Bool) :
    (fuel sendPass : Nat) → Host → Option Event → List SendTurn
  | 0, _, _, _ => []
  | fuel + 1, sendPass, host, event =>
    turnsInPass index checkForTimeouts sendPass (List.range host.peerCount) host event ++
      match sendPeers checkForTimeouts sendPass (List.range host.peerCount) host event false with
      | (_, _, _, .return _) => []
      | (host, event, true, _) =>
        turnsInPasses index checkForTimeouts fuel (sendPass + 1) host event
      | (_, _, false, _) => []

/-- The turns of one peer in a call of `enet_protocol_send_outgoing_commands`. -/
def turnsOf (index fuel : Nat) (host : Host) (event : Option Event) (checkForTimeouts : Bool) :
    List SendTurn :=
  turnsInPasses index checkForTimeouts fuel 0 host event

end Host

namespace SendTurn

/-- Whether the peer is served in its turn. -/
def serves (index : Nat) (turn : SendTurn) : Bool :=
  let peer := turn.host.peers index
  !decide (peer.state = .disconnected ∨ peer.state = .zombie ∨
    (0 < turn.sendPass ∧ peer.continueSending = false))

/-- The host once the acknowledgements are in the datagram and the timeouts are checked,
and whether the peer was given up. -/
def checked (index : Nat) (checkForTimeouts : Bool) (turn : SendTurn) :
    Host × Option Event × Bool :=
  (turn.host.startDatagram index).checkDueTimeouts turn.event checkForTimeouts index

end SendTurn

/-- The PING commands that a turn adds to the queues. -/
def SendTurn.pings (index : Nat) (checkForTimeouts : Bool) (turn : SendTurn) : Nat :=
  if turn.serves index && !(turn.checked index checkForTimeouts).2.2 then
    (turn.checked index checkForTimeouts).1.pingsAdded index
  else 0

/-- The PING commands that a call adds to the queues of a peer. -/
def pingsQueued (index fuel : Nat) (host : Host) (event : Option Event) (checkForTimeouts : Bool) :
    Nat :=
  ((host.turnsOf index fuel event checkForTimeouts).map
    (SendTurn.pings index checkForTimeouts)).sum

/-! ## What a turn keeps -/

/-- What a turn that does not end the call keeps. -/
structure GoesOn (before after : Activity) : Prop where
  visited : Visited before → Visited after
  serviceTime : after.1.serviceTime = before.1.serviceTime
  peerCount : after.1.peerCount = before.1.peerCount
  ample : before.1.Ample → after.1.Ample

namespace GoesOn

theorem refl (activity : Activity) : GoesOn activity activity := ⟨id, rfl, rfl, id⟩

theorem trans {before between after : Activity} (first : GoesOn before between)
    (second : GoesOn between after) : GoesOn before after :=
  ⟨second.visited ∘ first.visited, second.serviceTime.trans first.serviceTime,
    second.peerCount.trans first.peerCount, second.ample ∘ first.ample⟩

end GoesOn

namespace Host

variable {host : Host} {index other : Nat} {event : Option Event} {checkForTimeouts : Bool}
  {sendPass : Nat}

theorem notifyDisconnect_serviceTime (host : Host) (index : Nat) (event : Option Event) :
    (host.notifyDisconnect index event).1.serviceTime = host.serviceTime := by
  have recalculates : (host.recalculateFrom (host.peers index).state).serviceTime =
      host.serviceTime := by
    unfold recalculateFrom
    split <;> rfl
  have resets : ∀ later : Host, (later.peerReset index).serviceTime = later.serviceTime := by
    intro later
    obtain ⟨before, same, after⟩ := SameSettings.peerReset later index
    exact after.serviceTime.trans same.serviceTime
  unfold notifyDisconnect
  dsimp only
  split
  · exact (resets _).trans recalculates
  · cases event with
    | none => exact ((SameSettings.dispatchState _ index _).serviceTime).trans recalculates
    | some event => exact (resets _).trans recalculates

/-- A peer that is given up is not connected. -/
theorem notifyDisconnect_unconnected (host : Host) (index : Nat) (event : Option Event) :
    ((host.notifyDisconnect index event).1.peers index).state ≠ .connected := by
  have resets : ∀ later : Host, ((later.peerReset index).peers index).state ≠ .connected := by
    intro later
    obtain ⟨mtu, same⟩ := peerReset_peer later index
    rw [same]
    exact PeerState.noConfusion
  unfold notifyDisconnect
  dsimp only
  split
  · exact resets _
  · cases event with
    | none =>
        dsimp only
        rw [dispatchState_peer]
        exact PeerState.noConfusion
    | some event => exact resets _

theorem checkDueTimeouts_serviceTime (host : Host) (event : Option Event)
    (checkForTimeouts : Bool) (index : Nat) :
    (host.checkDueTimeouts event checkForTimeouts index).1.serviceTime = host.serviceTime := by
  unfold checkDueTimeouts
  dsimp only
  split
  · unfold checkTimeouts
    dsimp only
    split
    · exact notifyDisconnect_serviceTime _ index event
    · rfl
  · rfl

theorem sendPeer_serviceTime (host : Host) (event : Option Event) (checkForTimeouts : Bool)
    (sendPass index : Nat) :
    (host.sendPeer event checkForTimeouts sendPass index).1.serviceTime = host.serviceTime := by
  have checks := (checkDueTimeouts_serviceTime (host.startDatagram index) event checkForTimeouts
    index).trans (SameSettings.startDatagram host index).serviceTime
  have fills : ∀ (later : Host) (event : Option Event),
      (later.sendFilled event index).1.serviceTime = later.serviceTime := by
    intro later event
    have same := (SameSettings.fillDatagram later index).serviceTime
    have sends := (SameSettings.sendDatagram (later.fillDatagram index).1 index
      (later.fillDatagram index).2).serviceTime
    unfold sendFilled
    dsimp only
    split
    · exact same
    · split
      next goes => rw [goes] at sends; exact sends.trans same
      next fails => rw [fails] at sends; exact sends.trans same
  unfold sendPeer
  dsimp only
  split
  · rfl
  · split
    · exact checks
    · exact (fills _ _).trans checks

/-- A turn that does not end the call. -/
theorem sendPeer_goesOn (fresh : isStored event = false)
    (goesOn : ∀ value, (host.sendPeer event checkForTimeouts sendPass index).2.2 ≠ .return value) :
    GoesOn (host, event) ((host.sendPeer event checkForTimeouts sendPass index).1,
        (host.sendPeer event checkForTimeouts sendPass index).2.1) ∧
      isStored (host.sendPeer event checkForTimeouts sendPass index).2.1 = false := by
  have turned : Turned (fun _ _ => True) host event _ :=
    sendPeer_turned host fresh checkForTimeouts sendPass index
  have acts := ActsOn.sendPeer host event checkForTimeouts sendPass index
  exact ⟨⟨fun visited => visited.run turned.run, sendPeer_serviceTime .., acts.peerCount,
    fun ample => ample.of_acts acts⟩, turned.fresh (goesOn 1)⟩

/-- Where a peer is given up, its timeouts are checked, and it is not connected
afterwards. -/
theorem checkDueTimeouts_givenUp
    (given : (host.checkDueTimeouts event checkForTimeouts index).2.2 = true) :
    (host.peers index).timeoutsDue host.serviceTime checkForTimeouts = true ∧
      ((host.peers index).checkTimeouts host.serviceTime).2 = true ∧
      ((host.checkDueTimeouts event checkForTimeouts index).1.peers index).state ≠
        .connected := by
  by_cases due : (host.peers index).timeoutsDue host.serviceTime checkForTimeouts = true
  · have checks : host.checkDueTimeouts event checkForTimeouts index =
        host.checkTimeouts index event := if_pos due
    rw [checks] at given ⊢
    unfold checkTimeouts at given ⊢
    dsimp only at given ⊢
    split at given
    next gives =>
        rw [if_pos gives]
        exact ⟨due, gives, notifyDisconnect_unconnected _ index event⟩
    · cases given
  · have idles : host.checkDueTimeouts event checkForTimeouts index = (host, event, false) :=
      if_neg due
    rw [idles] at given
    cases given

/-- Sending connects no peer. -/
theorem unconnected_of_sendRun {before after : Sending} (run : SendRun before after)
    (unconnected : (before.1.peers index).state ≠ .connected) :
    (after.1.peers index).state ≠ .connected :=
  Library.runs_keep (fun sending : Sending => (sending.1.peers index).state ≠ .connected)
    (fun step unconnected connected => by
      rcases StaysOrLeaves.sendStep step with same | leaves
      · exact unconnected (same ▸ connected)
      · rw [connected] at leaves
        cases leaves) run unconnected

theorem pingsAdded_of_unconnected (unconnected : (host.peers index).state ≠ .connected) :
    host.pingsAdded index = 0 := by
  have stays := unconnected_of_sendRun (SendRun.checkWaitingCommands host index) unconnected
  have same : (host.checkWaitingCommands index).1.peerPing index =
      (host.checkWaitingCommands index).1 := if_neg stays
  unfold pingsAdded
  dsimp only
  rw [same, Nat.sub_self, ite_self]

/-- What becomes of a peer in its turn. -/
inductive Serves (index : Nat) (checkForTimeouts : Bool) (turn : SendTurn) : Prop where
  | skips (idle : (turn.host.peers index).state = .disconnected ∨
        (turn.host.peers index).state = .zombie ∨
          (0 < turn.sendPass ∧ (turn.host.peers index).continueSending = false))
      (none : turn.pings index checkForTimeouts = 0)
      (same : turn.host.sendPeer turn.event checkForTimeouts turn.sendPass index =
        (turn.host, turn.event, .skip))
  | givesUp (given : (turn.checked index checkForTimeouts).2.2 = true)
      (none : turn.pings index checkForTimeouts = 0)
      (same : (turn.host.sendPeer turn.event checkForTimeouts turn.sendPass index).1 =
        (turn.checked index checkForTimeouts).1)
  | fills (served : ¬((turn.host.peers index).state = .disconnected ∨
        (turn.host.peers index).state = .zombie ∨
          (0 < turn.sendPass ∧ (turn.host.peers index).continueSending = false)))
      (kept : (turn.checked index checkForTimeouts).2.2 = false)
      (pings : turn.pings index checkForTimeouts =
        (turn.checked index checkForTimeouts).1.pingsAdded index)
      (same : turn.host.sendPeer turn.event checkForTimeouts turn.sendPass index =
        (turn.checked index checkForTimeouts).1.sendFilled (turn.checked index checkForTimeouts).2.1
          index)

theorem serves (index : Nat) (checkForTimeouts : Bool) (turn : SendTurn) :
    Serves index checkForTimeouts turn := by
  by_cases idle : (turn.host.peers index).state = .disconnected ∨
      (turn.host.peers index).state = .zombie ∨
        (0 < turn.sendPass ∧ (turn.host.peers index).continueSending = false)
  · have unserved : turn.serves index = false := congrArg not (decide_eq_true idle)
    refine .skips idle ?_ (if_pos idle)
    unfold SendTurn.pings
    rw [unserved]
    rfl
  · have served : turn.serves index = true := congrArg not (decide_eq_false idle)
    have turns : turn.host.sendPeer turn.event checkForTimeouts turn.sendPass index =
        if (turn.checked index checkForTimeouts).2.2 then
          ((turn.checked index checkForTimeouts).1, (turn.checked index checkForTimeouts).2.1,
            if isStored (turn.checked index checkForTimeouts).2.1 then .return 1 else .next)
        else (turn.checked index checkForTimeouts).1.sendFilled
          (turn.checked index checkForTimeouts).2.1 index := if_neg idle
    cases given : (turn.checked index checkForTimeouts).2.2 with
    | true =>
        rw [given, if_pos rfl] at turns
        refine .givesUp given ?_ (congrArg Prod.fst turns)
        unfold SendTurn.pings
        rw [given, Bool.not_true, Bool.and_false]
        rfl
    | false =>
        rw [given, if_neg Bool.false_ne_true] at turns
        refine .fills idle given ?_ turns
        unfold SendTurn.pings
        rw [served, given]
        rfl

/-- A peer that is not connected is not pinged, and stays so. -/
theorem sendPeer_unconnected (unconnected : (host.peers index).state ≠ .connected) :
    SendTurn.pings index checkForTimeouts ⟨host, event, sendPass⟩ = 0 ∧
      ((host.sendPeer event checkForTimeouts sendPass index).1.peers index).state ≠
        .connected := by
  cases serves index checkForTimeouts ⟨host, event, sendPass⟩ with
  | skips idle none same =>
      dsimp only at same
      rw [same]
      exact ⟨none, unconnected⟩
  | givesUp given none same =>
      dsimp only at same
      rw [same]
      exact ⟨none, (checkDueTimeouts_givenUp given).2.2⟩
  | fills served kept pings same =>
      dsimp only at same
      have started : ((host.startDatagram index).peers index).state ≠ .connected := by
        intro connected
        rcases StaysOrLeaves.startDatagram host index with stays | leaves
        · exact unconnected (stays ▸ connected)
        · rw [connected] at leaves
          cases leaves
      have checked : ((SendTurn.checked index checkForTimeouts
          ⟨host, event, sendPass⟩).1.peers index).state ≠ .connected := by
        unfold SendTurn.checked
        rw [(checkDueTimeouts_kept kept).1, Peer.dueTimeouts_state]
        exact started
      rw [same, pings]
      exact ⟨pingsAdded_of_unconnected checked,
        unconnected_of_sendRun (sendFilled_run _ _ index).1 checked⟩

end Host

/-! ## At most one PING -/

/-- What a peer holds lets this many PING commands be queued, at most one of them. -/
def Peer.Allows (serviceTime : Nat) (checkForTimeouts : Bool) (pings : Nat) (peer : Peer) :
    Prop :=
  peer.Settled serviceTime checkForTimeouts ∨
    0 < pings ∧ peer.PingsOnce serviceTime checkForTimeouts ∧
      ((peer.dueTimeouts serviceTime checkForTimeouts).AwaitsPing serviceTime →
        (peer.dueTimeouts serviceTime checkForTimeouts).SparesPing)

theorem Peer.Allows.after {peer after : Peer} {serviceTime pings queued : Nat}
    {checkForTimeouts : Bool} {ample : Prop}
    (allows : peer.Allows serviceTime checkForTimeouts pings)
    (kept : peer.timeoutsDue serviceTime checkForTimeouts = true →
      (peer.checkTimeouts serviceTime).2 = false)
    (goes : (peer.dueTimeouts serviceTime checkForTimeouts).After serviceTime ample queued after) :
    ∃ left, queued + left ≤ pings ∧ after.Allows serviceTime checkForTimeouts left := by
  have settles : (peer.dueTimeouts serviceTime checkForTimeouts).Settled serviceTime
      checkForTimeouts →
      ∃ left, queued + left ≤ pings ∧ after.Allows serviceTime checkForTimeouts left := by
    intro settled
    obtain ⟨none, stays⟩ := goes.settled settled
    rw [none]
    exact ⟨0, Nat.zero_le pings, .inl stays⟩
  rcases allows with settled | ⟨more, once, spares⟩
  · exact settles (settled.dueTimeouts kept)
  · by_cases awaits : (peer.dueTimeouts serviceTime checkForTimeouts).AwaitsPing serviceTime
    · rcases goes.once awaits (once awaits) (spares awaits) with
        ⟨none, still, once', spares'⟩ | ⟨few, settled⟩
      · have same := @dueTimeouts_of_nil _ serviceTime checkForTimeouts still.nothingSent
        rw [none]
        refine ⟨pings, (Nat.zero_add pings).le, .inr ⟨more, ?_, ?_⟩⟩
        · unfold PingsOnce
          rw [same]
          exact fun _ => once'
        · rw [same]
          exact fun _ => spares'
      · exact ⟨0, few.trans more, .inl settled⟩
    · exact settles (settled_of_dueTimeouts kept awaits)

namespace Host

variable {host : Host} {index other : Nat} {event : Option Event} {checkForTimeouts : Bool}
  {sendPass : Nat}

/-- **A turn queues no more PING commands than are allowed.** -/
theorem sendPeer_allows {pings : Nat} (visited : Visited (host, event))
    (fresh : isStored event = false)
    (allows : (host.peers index).Allows host.serviceTime checkForTimeouts pings) :
    ∃ left, SendTurn.pings index checkForTimeouts ⟨host, event, sendPass⟩ + left ≤ pings ∧
      ((host.sendPeer event checkForTimeouts sendPass index).1.peers index).Allows
        host.serviceTime checkForTimeouts left := by
  by_cases connected : (host.peers index).state = .connected
  · cases serves index checkForTimeouts ⟨host, event, sendPass⟩ with
    | skips idle none same =>
        dsimp only at same
        rw [same, none]
        exact ⟨pings, (Nat.zero_add pings).le, allows⟩
    | givesUp given none same =>
        dsimp only at same
        rw [same, none]
        exact ⟨0, Nat.zero_le pings, .inl (.unconnected (checkDueTimeouts_givenUp given).2.2)⟩
    | fills served kept queued same =>
        have unowed := visited.unowed (by rw [connected]; rfl)
        obtain ⟨goes, whole⟩ := sendPeer_after visited fresh connected served unowed kept
        rw [queued]
        exact allows.after whole goes
  · obtain ⟨none, stays⟩ := sendPeer_unconnected connected
    rw [none]
    exact ⟨0, Nat.zero_le pings, .inl (.unconnected stays)⟩

/-- A call before one of its turns, with the PING commands that may still be queued. -/
structure Allowing (index clock : Nat) (checkForTimeouts : Bool) (pings : Nat) (host : Host)
    (event : Option Event) : Prop where
  visited : Visited (host, event)
  fresh : isStored event = false
  serviceTime : host.serviceTime = clock
  allows : (host.peers index).Allows clock checkForTimeouts pings

variable {clock : Nat}

/-- The turns of a peer among those of the others. -/
theorem Allowing.turn {pings : Nat}
    (allowing : Allowing index clock checkForTimeouts pings host event)
    (sendPass other : Nat) :
    ∃ left, ((if other = index then [SendTurn.mk host event sendPass] else []).map
          (SendTurn.pings index checkForTimeouts)).sum + left ≤ pings ∧
      ((∀ value, (host.sendPeer event checkForTimeouts sendPass other).2.2 ≠ .return value) →
        Allowing index clock checkForTimeouts left
          (host.sendPeer event checkForTimeouts sendPass other).1
          (host.sendPeer event checkForTimeouts sendPass other).2.1) := by
  have goesOn : ∀ left, ((host.sendPeer event checkForTimeouts sendPass other).1.peers
        index).Allows clock checkForTimeouts left →
      (∀ value, (host.sendPeer event checkForTimeouts sendPass other).2.2 ≠ .return value) →
      Allowing index clock checkForTimeouts left
        (host.sendPeer event checkForTimeouts sendPass other).1
        (host.sendPeer event checkForTimeouts sendPass other).2.1 := by
    intro left allows goesOn
    obtain ⟨continues, fresh⟩ := sendPeer_goesOn allowing.fresh goesOn
    exact ⟨continues.visited allowing.visited, fresh,
      continues.serviceTime.trans allowing.serviceTime, allows⟩
  by_cases same : other = index
  · rw [if_pos same]
    subst same
    obtain ⟨left, within, allows⟩ := @sendPeer_allows host other event checkForTimeouts sendPass
      pings allowing.visited allowing.fresh (allowing.serviceTime ▸ allowing.allows)
    rw [allowing.serviceTime] at allows
    exact ⟨left, by rw [List.map_singleton, List.sum_singleton]; exact within, goesOn left allows⟩
  · rw [if_neg same]
    refine ⟨pings, (Nat.zero_add pings).le, goesOn pings ?_⟩
    rw [(ActsOn.sendPeer host event checkForTimeouts sendPass other).others index
      fun equal => same equal.symm]
    exact allowing.allows

theorem Allowing.pass (sendPass : Nat) (rest : List Nat) :
    ∀ {host : Host} {event : Option Event} {pings : Nat} (more : Bool),
      Allowing index clock checkForTimeouts pings host event →
      ∃ left, ((turnsInPass index checkForTimeouts sendPass rest host event).map
            (SendTurn.pings index checkForTimeouts)).sum + left ≤ pings ∧
        ((∀ value, (sendPeers checkForTimeouts sendPass rest host event more).2.2.2 ≠
            .return value) →
          Allowing index clock checkForTimeouts left
            (sendPeers checkForTimeouts sendPass rest host event more).1
            (sendPeers checkForTimeouts sendPass rest host event more).2.1) := by
  induction rest with
  | nil => exact fun more allowing => ⟨_, (Nat.zero_add _).le, fun _ => allowing⟩
  | cons other rest ih =>
      intro host event pings more allowing
      obtain ⟨left, within, goesOn⟩ := allowing.turn sendPass other
      rcases turned : host.sendPeer event checkForTimeouts sendPass other with
        ⟨host', event', turn⟩
      rw [turned] at goesOn
      dsimp only at goesOn
      have follows : ∀ more', (∀ value, turn ≠ .return value) →
          ∃ left, (((if other = index then [SendTurn.mk host event sendPass] else []) ++
                turnsInPass index checkForTimeouts sendPass rest host' event').map
                (SendTurn.pings index checkForTimeouts)).sum + left ≤ pings ∧
            ((∀ value, (sendPeers checkForTimeouts sendPass rest host' event' more').2.2.2 ≠
                .return value) →
              Allowing index clock checkForTimeouts left
                (sendPeers checkForTimeouts sendPass rest host' event' more').1
                (sendPeers checkForTimeouts sendPass rest host' event' more').2.1) := by
        intro more' other
        obtain ⟨last, fits, ends⟩ := ih more' (goesOn other)
        refine ⟨last, ?_, ends⟩
        rw [List.map_append, List.sum_append]
        omega
      unfold turnsInPass sendPeers
      rw [turned]
      rcases turn with _ | _ | value
      · exact follows more (by simp)
      · exact follows _ (by simp)
      · exact ⟨left, within, fun ends => absurd rfl (ends value)⟩

theorem Allowing.passes (fuel : Nat) : ∀ {host : Host} {event : Option Event} {pings : Nat}
    (sendPass : Nat), Allowing index clock checkForTimeouts pings host event →
      ((turnsInPasses index checkForTimeouts fuel sendPass host event).map
        (SendTurn.pings index checkForTimeouts)).sum ≤ pings := by
  induction fuel with
  | zero => exact fun _ _ => Nat.zero_le _
  | succ fuel ih =>
      intro host event pings sendPass allowing
      obtain ⟨left, within, goesOn⟩ :=
        allowing.pass sendPass (List.range host.peerCount) false
      unfold turnsInPasses
      rw [List.map_append, List.sum_append]
      rcases passed : sendPeers checkForTimeouts sendPass (List.range host.peerCount) host event
        false with ⟨host', event', more, turn⟩
      rw [passed] at goesOn
      dsimp only at goesOn
      have nothing : ∀ turns : List SendTurn, turns = [] →
          ((turnsInPass index checkForTimeouts sendPass (List.range host.peerCount) host
                event).map (SendTurn.pings index checkForTimeouts)).sum +
              (turns.map (SendTurn.pings index checkForTimeouts)).sum ≤ pings := by
        intro turns none
        rw [none, List.map_nil, List.sum_nil]
        omega
      have again : (∀ value, turn ≠ .return value) →
          ((turnsInPass index checkForTimeouts sendPass (List.range host.peerCount) host
                event).map (SendTurn.pings index checkForTimeouts)).sum +
              ((turnsInPasses index checkForTimeouts fuel (sendPass + 1) host' event').map
                (SendTurn.pings index checkForTimeouts)).sum ≤ pings := by
        intro other
        have rest := ih (sendPass + 1) (goesOn other)
        omega
      rcases turn with _ | _ | value
      · cases more with
        | false => exact nothing [] rfl
        | true => exact again (by simp)
      · cases more with
        | false => exact nothing [] rfl
        | true => exact again (by simp)
      · exact nothing [] rfl

/-- A call queues no more PING commands than are allowed. -/
theorem pingsQueued_le {pings : Nat} (visited : Visited (host, event))
    (fresh : isStored event = false) (fuel : Nat)
    (allows : (host.peers index).Allows host.serviceTime checkForTimeouts pings) :
    pingsQueued index fuel host event checkForTimeouts ≤ pings :=
  Allowing.passes fuel 0 ⟨visited, fresh, rfl, allows⟩

end Host

/-! ## One PING for each cut with room -/

/-- This many datagrams of a peer that awaits a PING are cut with room. -/
def Peer.Owes (serviceTime : Nat) (checkForTimeouts : Bool) (cuts : Nat) (peer : Peer) : Prop :=
  cuts = 0 ∨ (peer.dueTimeouts serviceTime checkForTimeouts).AwaitsPing serviceTime ∧
    ∃ datagrams, cuts ≤ (peer.dueTimeouts serviceTime checkForTimeouts).packer.roomyCuts datagrams
      (peer.dueTimeouts serviceTime checkForTimeouts).line

theorem Peer.Owes.after {peer after : Peer} {serviceTime cuts queued datagrams : Nat}
    {checkForTimeouts : Bool} {ample : Prop} (memory : ample)
    (awaits : (peer.dueTimeouts serviceTime checkForTimeouts).AwaitsPing serviceTime)
    (roomy : cuts ≤ (peer.dueTimeouts serviceTime checkForTimeouts).packer.roomyCuts datagrams
      (peer.dueTimeouts serviceTime checkForTimeouts).line)
    (goes : (peer.dueTimeouts serviceTime checkForTimeouts).After serviceTime ample queued after) :
    ∃ left, cuts ≤ queued + left ∧ (left = 0 ∨ after.continueSending = true) ∧
      after.Owes serviceTime checkForTimeouts left := by
  by_cases none : cuts = 0
  · exact ⟨0, by omega, .inl rfl, .inl rfl⟩
  · obtain ⟨more, still, next, within⟩ :=
      goes.owes memory awaits (Nat.lt_of_lt_of_le (Nat.pos_of_ne_zero none) roomy)
    refine ⟨after.packer.roomyCuts next after.line, roomy.trans within, .inr more,
      .inr ⟨?_, next, ?_⟩⟩
    · rw [dueTimeouts_of_nil still.nothingSent]
      exact still
    · rw [dueTimeouts_of_nil still.nothingSent]

namespace Host

variable {host : Host} {index other : Nat} {event : Option Event} {checkForTimeouts : Bool}
  {sendPass clock cuts : Nat}

theorem sendFilled_served (host : Host) (event : Option Event) (index : Nat) :
    (host.sendFilled event index).2.2 ≠ .skip := by
  unfold sendFilled
  dsimp only
  split
  · simp
  · split <;> simp

/-- **A turn queues a PING for each cut with room**, or leaves the rest to the next turn. -/
theorem sendPeer_owes (visited : Visited (host, event)) (fresh : isStored event = false)
    (ample : host.Ample) (going : sendPass = 0 ∨ (host.peers index).continueSending = true)
    (owes : (host.peers index).Owes host.serviceTime checkForTimeouts cuts) :
    ∃ left, cuts ≤ SendTurn.pings index checkForTimeouts ⟨host, event, sendPass⟩ + left ∧
      (left = 0 ∨
        ((host.sendPeer event checkForTimeouts sendPass index).1.peers index).continueSending =
            true ∧
          (host.sendPeer event checkForTimeouts sendPass index).2.2 ≠ .skip) ∧
      ((host.sendPeer event checkForTimeouts sendPass index).1.peers index).Owes
        host.serviceTime checkForTimeouts left := by
  rcases owes with none | ⟨awaits, datagrams, roomy⟩
  · exact ⟨0, by omega, .inl rfl, .inl rfl⟩
  · have connected : (host.peers index).state = .connected := by
      rw [← Peer.dueTimeouts_state]
      exact awaits.connected
    have unowed := visited.unowed (by rw [connected]; rfl)
    cases serves index checkForTimeouts ⟨host, event, sendPass⟩ with
    | skips idle none same =>
        dsimp only at idle
        rw [connected] at idle
        rcases idle with other | other | ⟨later, stopped⟩
        · cases other
        · cases other
        · rcases going with first | continues
          · omega
          · rw [continues] at stopped
            cases stopped
    | givesUp given none same =>
        obtain ⟨due, gives, -⟩ := checkDueTimeouts_givenUp given
        obtain ⟨timed, given'⟩ := @startDatagram_checkTimeouts host index checkForTimeouts unowed
        dsimp only at due gives
        rw [timed] at due
        rw [given'] at gives
        have sent := awaits.nothingSent
        unfold Peer.dueTimeouts at sent
        rw [if_pos due] at sent
        exact absurd sent (Peer.checkTimeouts_givenUp gives)
    | fills served kept queued same =>
        obtain ⟨goes, -⟩ := sendPeer_after visited fresh connected served unowed kept
        obtain ⟨left, within, more, owes⟩ := Peer.Owes.after ample awaits roomy goes
        rw [queued]
        refine ⟨left, within, more.imp_right fun continues => ⟨continues, ?_⟩, owes⟩
        dsimp only at same
        rw [same]
        exact sendFilled_served _ _ index

/-- A call before one of its turns, with the cuts that are left. -/
structure Owing (index clock : Nat) (checkForTimeouts : Bool) (cuts : Nat) (host : Host)
    (event : Option Event) : Prop where
  visited : Visited (host, event)
  fresh : isStored event = false
  serviceTime : host.serviceTime = clock
  ample : host.Ample
  owes : (host.peers index).Owes clock checkForTimeouts cuts

/-- A pass that does not return goes on behind its first turn. -/
theorem sendPeers_goesOn {rest : List Nat} {more : Bool}
    (goesOn : ∀ value, (sendPeers checkForTimeouts sendPass (other :: rest) host event
      more).2.2.2 ≠ .return value) :
    ∃ host' event' turn more',
      host.sendPeer event checkForTimeouts sendPass other = (host', event', turn) ∧
      (∀ value, turn ≠ .return value) ∧
      (more' = true ↔
        more = true ∨ turn ≠ .skip ∧ (host'.peers other).continueSending = true) ∧
      sendPeers checkForTimeouts sendPass (other :: rest) host event more =
        sendPeers checkForTimeouts sendPass rest host' event' more' ∧
      turnsInPass index checkForTimeouts sendPass (other :: rest) host event =
        (if other = index then [SendTurn.mk host event sendPass] else []) ++
          turnsInPass index checkForTimeouts sendPass rest host' event' := by
  rcases turned : host.sendPeer event checkForTimeouts sendPass other with ⟨host', event', turn⟩
  rcases turn with _ | _ | value
  · refine ⟨host', event', .skip, more, rfl, by simp, by simp, ?_, ?_⟩
    · simp only [sendPeers, turned]
    · simp only [turnsInPass, turned]
  · refine ⟨host', event', .next, more || (host'.peers other).continueSending, rfl, by simp,
      by simp, ?_, ?_⟩
    · simp only [sendPeers, turned]
    · simp only [turnsInPass, turned]
  · refine absurd ?_ (goesOn value)
    simp only [sendPeers, turned]

/-- The turns of the other peers leave a peer alone. -/
theorem sendPeers_others (rest : List Nat) : ∀ {host : Host} {event : Option Event} (more : Bool),
    isStored event = false →
    (∀ value, (sendPeers checkForTimeouts sendPass rest host event more).2.2.2 ≠ .return value) →
    GoesOn (host, event) ((sendPeers checkForTimeouts sendPass rest host event more).1,
        (sendPeers checkForTimeouts sendPass rest host event more).2.1) ∧
      isStored (sendPeers checkForTimeouts sendPass rest host event more).2.1 = false ∧
      (more = true →
        (sendPeers checkForTimeouts sendPass rest host event more).2.2.1 = true) ∧
      (index ∉ rest → (sendPeers checkForTimeouts sendPass rest host event more).1.peers index =
        host.peers index) := by
  induction rest with
  | nil => exact fun more fresh _ => ⟨.refl _, fresh, id, fun _ => rfl⟩
  | cons other rest ih =>
      intro host event more fresh goesOn
      have continues := @sendPeer_goesOn host other event checkForTimeouts sendPass fresh
      have acts := ActsOn.sendPeer host event checkForTimeouts sendPass other
      obtain ⟨host', event', turn, more', turned, stays, flag, same, -⟩ :=
        @sendPeers_goesOn host index other _ _ _ _ _ goesOn
      rw [turned] at continues acts
      rw [same] at goesOn ⊢
      obtain ⟨first, fresh'⟩ := continues stays
      obtain ⟨behind, fresh'', keeps, unchanged⟩ := ih more' fresh' goesOn
      refine ⟨first.trans behind, fresh'', fun set => keeps (flag.mpr (.inl set)),
        fun absent => ?_⟩
      exact (unchanged (List.not_mem_of_not_mem_cons absent)).trans
        (acts.others index (List.ne_of_not_mem_cons absent))

/-- The turns that the others have leave what a peer still owes. -/
theorem Owing.goesOn {host host' : Host} {event event' : Option Event}
    (owing : Owing index clock checkForTimeouts cuts host event)
    (goes : GoesOn (host, event) (host', event')) (fresh : isStored event' = false) {left : Nat}
    (owes : (host'.peers index).Owes clock checkForTimeouts left) :
    Owing index clock checkForTimeouts left host' event' :=
  ⟨goes.visited owing.visited, fresh, goes.serviceTime.trans owing.serviceTime,
    goes.ample owing.ample, owes⟩

/-- **A pass queues a PING for each cut with room**, or leaves the rest to the next one. -/
theorem Owing.pass (rest : List Nat) : ∀ {host : Host} {event : Option Event} {cuts : Nat}
    (more : Bool), Owing index clock checkForTimeouts cuts host event →
      (sendPass = 0 ∨ (host.peers index).continueSending = true) → rest.Nodup → index ∈ rest →
      (∀ value, (sendPeers checkForTimeouts sendPass rest host event more).2.2.2 ≠
        .return value) →
      ∃ left, cuts ≤ ((turnsInPass index checkForTimeouts sendPass rest host event).map
            (SendTurn.pings index checkForTimeouts)).sum + left ∧
        (left = 0 ∨ (sendPeers checkForTimeouts sendPass rest host event more).2.2.1 = true ∧
          ((sendPeers checkForTimeouts sendPass rest host event more).1.peers
            index).continueSending = true) ∧
        Owing index clock checkForTimeouts left
          (sendPeers checkForTimeouts sendPass rest host event more).1
          (sendPeers checkForTimeouts sendPass rest host event more).2.1 := by
  induction rest with
  | nil => exact fun _ _ _ _ member => absurd member List.not_mem_nil
  | cons other rest ih =>
      intro host event cuts more owing going distinct member goesOn
      obtain ⟨absent, distinct'⟩ := List.nodup_cons.mp distinct
      have continues := @sendPeer_goesOn host other event checkForTimeouts sendPass owing.fresh
      have acts := ActsOn.sendPeer host event checkForTimeouts sendPass other
      obtain ⟨host', event', turn, more', turned, stays, flag, same, turns⟩ :=
        @sendPeers_goesOn host index other _ _ _ _ _ goesOn
      rw [turned] at continues acts
      rw [same] at goesOn
      rw [same, turns]
      obtain ⟨first, fresh⟩ := continues stays
      by_cases here : other = index
      · -- the peer has no other turn in this pass
        subst here
        obtain ⟨left, within, asks, owes⟩ := @sendPeer_owes host other event checkForTimeouts
          sendPass cuts owing.visited owing.fresh owing.ample going
          (owing.serviceTime ▸ owing.owes)
        rw [turned, owing.serviceTime] at owes
        rw [turned] at asks
        obtain ⟨behind, fresh', keeps, unchanged⟩ :=
          @sendPeers_others other checkForTimeouts sendPass rest host' event' more' fresh goesOn
        have peer := unchanged absent
        refine ⟨left, ?_, ?_, owing.goesOn (first.trans behind) fresh' (by rw [peer]; exact owes)⟩
        · rw [if_pos rfl, List.map_append, List.sum_append, List.map_singleton,
            List.sum_singleton]
          omega
        · rw [peer]
          exact asks.imp_right fun set => ⟨keeps (flag.mpr (.inr ⟨set.2, set.1⟩)), set.1⟩
      · have elsewhere : index ∈ rest := (List.mem_cons.mp member).resolve_left
          fun equal => here equal.symm
        have unchanged := acts.others index fun equal => here equal.symm
        dsimp only at unchanged
        rw [if_neg here]
        exact ih more' (owing.goesOn first fresh (by rw [unchanged]; exact owing.owes))
          (unchanged ▸ going) distinct' elsewhere goesOn

/-- A call that a turn ends returns no 0. -/
theorem sendPeers_return (rest : List Nat) : ∀ {host : Host} {event : Option Event} {value : Int}
    (more : Bool),
    (sendPeers checkForTimeouts sendPass rest host event more).2.2.2 = .return value →
      value ≠ 0 := by
  have turns : ∀ (host : Host) (event : Option Event) (other : Nat) (value : Int),
      (host.sendPeer event checkForTimeouts sendPass other).2.2 = .return value → value ≠ 0 := by
    intro host event other value
    unfold sendPeer sendFilled
    dsimp only
    split
    · intro ends
      cases ends
    · split
      · split <;> intro ends <;> cases ends
        simp
      · split
        · intro ends
          cases ends
        · split <;> intro ends <;> cases ends
          simp
  induction rest with
  | nil => intro host event value more ends; cases ends
  | cons other rest ih =>
      intro host event value more
      have turn := turns host event other value
      unfold sendPeers
      split
      next stops =>
          rw [stops] at turn
          exact turn
      · exact ih _
      · exact ih _

theorem Owing.passes (fuel : Nat) : ∀ {host host' : Host} {event event' : Option Event}
    {cuts : Nat} (sendPass : Nat), Owing index clock checkForTimeouts cuts host event →
      (sendPass = 0 ∨ (host.peers index).continueSending = true) → index < host.peerCount →
      sendPasses checkForTimeouts fuel sendPass host event = some (host', event', 0) →
      cuts ≤ ((turnsInPasses index checkForTimeouts fuel sendPass host event).map
        (SendTurn.pings index checkForTimeouts)).sum := by
  induction fuel with
  | zero => exact fun _ _ _ _ returns => by cases returns
  | succ fuel ih =>
      intro host host' event event' cuts sendPass owing going within returns
      have ends := @sendPeers_return checkForTimeouts sendPass (List.range host.peerCount) host
        event
      have passes := @Owing.pass index checkForTimeouts sendPass clock (List.range host.peerCount)
        host event cuts false owing going List.nodup_range (List.mem_range.mpr within)
      have counts := @sendPeers_others index checkForTimeouts sendPass (List.range host.peerCount)
        host event false owing.fresh
      unfold sendPasses at returns
      unfold turnsInPasses
      rw [List.map_append, List.sum_append]
      rcases passed : sendPeers checkForTimeouts sendPass (List.range host.peerCount) host event
        false with ⟨later, event'', more, turn⟩
      rw [passed] at passes counts returns
      have goesOn : ∀ value, turn ≠ .return value := by
        intro value stops
        rw [stops] at returns
        cases returns
        exact ends false (congrArg (fun result => result.2.2.2) passed |>.trans stops) rfl
      obtain ⟨left, most, asks, owing'⟩ := passes goesOn
      have count := (counts goesOn).1.peerCount
      dsimp only at asks owing' count
      rcases asks with none | ⟨again, continues⟩
      · rw [none] at most
        exact most.trans (Nat.add_le_add_left (Nat.zero_le _) _)
      · rw [again] at returns ⊢
        have rest : left ≤ ((turnsInPasses index checkForTimeouts fuel (sendPass + 1) later
            event'').map (SendTurn.pings index checkForTimeouts)).sum := by
          refine @ih later host' event'' event' left (sendPass + 1) owing' (.inr continues)
            (by rw [count]; exact within) ?_
          rcases turn with _ | _ | value
          · exact returns
          · exact returns
          · exact absurd rfl (goesOn value)
        refine most.trans (Nat.add_le_add_left ?_ _)
        rcases turn with _ | _ | value
        · exact rest
        · exact rest
        · exact absurd rfl (goesOn value)

/-- A call that comes to its end queues a PING for each cut with room. -/
theorem roomyCuts_le_pingsQueued {host' : Host} {event' : Option Event} {fuel : Nat}
    (visited : Visited (host, event)) (fresh : isStored event = false) (ample : host.Ample)
    (within : index < host.peerCount)
    (returns : host.sendOutgoingCommands fuel event checkForTimeouts = some (host', event', 0))
    (awaits : ((host.peers index).dueTimeouts host.serviceTime checkForTimeouts).AwaitsPing
      host.serviceTime) (datagrams : Nat) :
    ((host.peers index).dueTimeouts host.serviceTime checkForTimeouts).packer.roomyCuts datagrams
        ((host.peers index).dueTimeouts host.serviceTime checkForTimeouts).line ≤
      pingsQueued index fuel host event checkForTimeouts :=
  Owing.passes fuel 0
    ⟨visited, fresh, rfl, ample, .inr ⟨awaits, datagrams, Nat.le_refl _⟩⟩ (.inl rfl) within returns

end Host

/-- **A call queues at most one PING for a peer if its queue is cut once**: if no more than
one of the datagrams that the acknowledgements and the commands ahead of the first command
to be acknowledged fill is cut with room for a PING. Where there is memory, and the call
comes to its end, it queues at most one only then. -/
theorem pingsQueued_le_one_iff {host : Host} {event : Option Event}
    (visited : Visited (host, event)) (fresh : Host.isStored event = false) (index fuel : Nat)
    (checkForTimeouts : Bool) :
    ((host.peers index).PingsOnce host.serviceTime checkForTimeouts →
        (((host.peers index).dueTimeouts host.serviceTime checkForTimeouts).AwaitsPing
            host.serviceTime →
          ((host.peers index).dueTimeouts host.serviceTime checkForTimeouts).SparesPing) →
        pingsQueued index fuel host event checkForTimeouts ≤ 1) ∧
      ∀ host' event', host.Ample → index < host.peerCount →
        host.sendOutgoingCommands fuel event checkForTimeouts = some (host', event', 0) →
        pingsQueued index fuel host event checkForTimeouts ≤ 1 →
        (host.peers index).PingsOnce host.serviceTime checkForTimeouts := by
  refine ⟨fun once spares => ?_, fun host' event' ample within returns few awaits datagrams => ?_⟩
  · exact Host.pingsQueued_le visited fresh fuel (.inr ⟨Nat.zero_lt_one, once, spares⟩)
  · exact (Host.roomyCuts_le_pingsQueued visited fresh ample within returns awaits
      datagrams).trans few

/-- An unreliable packet of 700 bytes. -/
def unreliablePacket (address : Nat) : Packet :=
  ⟨address, ⟨false, false, false, false⟩, List.replicate 700 0⟩

/-- A connected host that is due to ping, with unreliable packets queued of which one
fills a datagram. -/
def pingingHost (packets : Nat) : Option Host :=
  calledHost
    (.create .ample (.delivering (fun call => [1, 1, 300].getD call 300) connectDatagrams)
      0 1 1 0 0)
    ([.service (some noEvent) 0, .service (some noEvent) 0, .service (some noEvent) 0,
      .pingInterval 0 1] ++
      (List.range packets).map fun place => .send 0 0 (unreliablePacket (1000 + place)))

/-- The queue of two packets is cut once, and one PING is queued. -/
theorem pingsQueued_le_one_iff_sent : ∃ host host' event', pingingHost 2 = some host ∧
    host.sendOutgoingCommands 5 none false = some (host', event', 0) ∧
    (host.peers 0).AwaitsPing host.serviceTime ∧
    (host.peers 0).packer.roomyCuts 1 (host.peers 0).line = 1 ∧
    0 < pingsQueued 0 5 host none false ∧ pingsQueued 0 5 host none false ≤ 1 ∧
    (host.peers 0).PingsOnce host.serviceTime false := by
  have evaluated : (pingingHost 2).map (fun host =>
      let peer := host.peers 0
      (decide (peer.state = .connected ∧ peer.sentReliableCommands.isEmpty = true ∧
          peer.pingInterval ≤ timeDifference host.serviceTime peer.lastReceiveTime),
        decide (peer.packed.ending = .cut ∧ peer.packed.load.leavesRoom peer.mtu = true ∧
          (peer.packer.packLine peer.nextLine).ending = .finished none),
        pingsQueued 0 5 host none false, host.peerCount,
        (host.sendOutgoingCommands 5 none false).map fun result => result.2.2)) =
          some (true, true, 1, 1, some 0) := by decide +kernel
  obtain ⟨host, called, same⟩ := Option.map_eq_some_iff.mp evaluated
  rw [Prod.mk.injEq, Prod.mk.injEq, Prod.mk.injEq, Prod.mk.injEq, decide_eq_true_iff,
    decide_eq_true_iff] at same
  obtain ⟨⟨connected, nothing, due⟩, ⟨cut, room, finished⟩, one, slots, sent⟩ := same
  obtain ⟨⟨host', event', value⟩, returns, zero⟩ := Option.map_eq_some_iff.mp sent
  cases zero
  have reachable := calledHost_reachable (.create ..) called
  have ample := calledHost_ample (fun _ => rfl) called
  have awaits : (host.peers 0).AwaitsPing host.serviceTime :=
    ⟨connected, List.isEmpty_iff.mp nothing, due⟩
  have whole := @Packer.roomyCuts_of_whole (host.peers 0).packer (host.peers 0).nextLine
    (by rw [finished]; simp)
  have cuts : ∀ datagrams, (host.peers 0).packer.roomyCuts (datagrams + 1) (host.peers 0).line =
      1 := fun datagrams =>
    (Packer.roomyCuts_of_room cut room datagrams).trans (by rw [(whole datagrams).1])
  have same := @Peer.dueTimeouts_of_nil _ host.serviceTime false awaits.nothingSent
  refine ⟨host, host', event', called, returns, awaits, cuts 0,
    by rw [one]; exact Nat.zero_lt_one,
    (pingsQueued_le_one_iff (Visited.of_reachable reachable rfl) rfl 0 5 false).1 ?_ ?_,
    (pingsQueued_le_one_iff (Visited.of_reachable reachable rfl) rfl 0 5 false).2 host' event'
      ample (by rw [slots]; exact Nat.zero_lt_one) returns one.le⟩
  · unfold Peer.PingsOnce
    rw [same]
    intro _ datagrams
    cases datagrams with
    | zero => exact Nat.zero_le 1
    | succ datagrams => exact (cuts datagrams).le
  · rw [same]
    intro _ datagrams dropped _ ends
    cases datagrams with
    | zero => cases ends
    | succ datagrams =>
        rw [Packer.ending_of_cut cut] at ends
        have last := (whole datagrams).2 _ ends
        rw [finished] at last
        cases last

/-- **A call queues a second PING behind data that does not fit.** -/
theorem pingsQueued_two : ∃ host, pingingHost 3 = some host ∧ Host.Reachable host ∧
    ¬∀ (index fuel : Nat) (event : Option Event) (checkForTimeouts : Bool),
      pingsQueued index fuel host event checkForTimeouts ≤ 1 := by
  have evaluated : (pingingHost 3).map (fun host => pingsQueued 0 5 host none false) = some 2 := by
    decide +kernel
  obtain ⟨host, called, two⟩ := Option.map_eq_some_iff.mp evaluated
  refine ⟨host, called, calledHost_reachable (.create ..) called, fun once => ?_⟩
  have few := once 0 5 none false
  rw [two] at few
  exact absurd few (by decide)

end Enet
