import Enet.Runs.Fitting

/-!
# The points of a call

A call passes through more states than those between its steps: the datagrams of
all peers are filled one after the other, an acknowledgement updates the round
trip time before it removes its command, and a peer that is given up at once has
lost its queues before its last datagram is sent.
-/

set_option autoImplicit false

namespace Enet

open Relation

/-- The states of a peer that is on its way out. -/
def PeerState.isClosing : PeerState → Bool
  | disconnecting | acknowledgingDisconnect | zombie => true
  | _ => false

theorem PeerState.isClosing_of_isConnected {state : PeerState}
    (connected : state.isConnected = true) : state.isClosing = false := by
  cases state <;> first | rfl | cases connected

theorem PeerState.isConnected_of_isClosing {state : PeerState}
    (leaving : state.isClosing = true) : state.isConnected = false := by
  cases state <;> first | rfl | cases leaving

/-- A host that a call passes through, with the unreliable commands in the datagram
of a peer. -/
inductive Passed : Sending → Prop where
  | visited {activity : Activity} (visited : Visited activity) : Passed (activity.1, [])
  | abandons {host : Host} (index data : Nat) (visited : Visited (host, none))
      (unconnected : (host.peers index).state.isConnected = false) :
      Passed (((host.resetQueues index).queueOutgoingCommand index
        (Host.disconnectCommand data) none 0 0).1, [])
  | observes {host : Host} {sentUnreliable : List OutgoingCommand} (observation : Observation)
      (passed : Passed (host, sentUnreliable)) : Passed (host.observe observation, sentUnreliable)
  | sends {before after : Sending} (passed : Passed before) (step : SendStep before after) :
      Passed after

theorem Passed.sendRun {before after : Sending} (passed : Passed before)
    (run : SendRun before after) : Passed after := by
  induction run with
  | refl => exact passed
  | tail _ step ih => exact .sends ih step

/-- **What holds of a new host and is maintained holds at every point of a call.** -/
theorem MaintainedUnder.passed {Invariant : Host → List OutgoingCommand → Prop}
    (maintained : Maintained Invariant)
    (creates : ∀ heap world randomSeed peerCount channelLimit incomingBandwidth outgoingBandwidth,
      Invariant (Host.create heap world randomSeed peerCount channelLimit incomingBandwidth
        outgoingBandwidth) [])
    (observes : ∀ host sentUnreliable observation, Invariant host sentUnreliable →
      Invariant (host.observe observation) sentUnreliable)
    {sending : Sending} (passed : Passed sending) : Invariant sending.1 sending.2 := by
  induction passed with
  | visited visited => exact maintained.visited creates visited
  | @abandons host index data visited unconnected =>
      have resets := maintained.edit (@Edit.resetQueues index host)
        (maintained.visited creates visited)
      exact maintained.edit (@Edit.queue index _ (Host.disconnectCommand data) rfl rfl) resets
  | @observes host sentUnreliable observation passed ih =>
      exact observes host sentUnreliable observation ih
  | sends passed step ih =>
      exact Library.runs_keep (fun sending : Sending => Invariant sending.1 sending.2)
        maintained.work (Works.sendStep step) ih

/-- **Every command fits at every point of a call.** -/
theorem Fitting.passed {sending : Sending} (passed : Passed sending) : Fitting sending.1 :=
  maintained.passed (fun _ _ _ _ _ _ _ => ⟨Ranged.create _ _ _ _ _ _ _, fun _ =>
    .of_none (Peer.pending_eq_zero rfl rfl rfl)⟩)
    (fun _ _ _ fitting => ⟨fitting.ranged, fitting.peers⟩) passed

/-! ## What sending does to the state of a peer -/

/-- A peer keeps its state, or is on its way out. -/
def StaysOrLeaves (host host' : Host) (index : Nat) : Prop :=
  (host'.peers index).state = (host.peers index).state ∨
    (host'.peers index).state.isClosing = true

namespace StaysOrLeaves

variable {host host' host'' : Host} {index : Nat}

theorem trans (first : StaysOrLeaves host host' index)
    (second : StaysOrLeaves host' host'' index) : StaysOrLeaves host host'' index := by
  rcases second with same | leaving
  · rcases first with before | left
    · exact .inl (same.trans before)
    · exact .inr (same ▸ left)
  · exact .inr leaving

theorem acts {other : Nat} (acts : ActsOn other host host')
    (own : StaysOrLeaves host host' other) : StaysOrLeaves host host' index := by
  rcases eq_or_ne index other with same | different
  · rw [same]
    exact own
  · exact .inl (congrArg Peer.state (acts.others index different))

theorem startDisconnect (host : Host) (index data : Nat) :
    StaysOrLeaves host (host.startDisconnect index data) index := by
  refine .inr ?_
  unfold Host.startDisconnect
  dsimp only
  rw [Host.setPeer_self]
  rfl

theorem sendAcknowledgements (index : Nat) (acknowledgements : List Acknowledgement) :
    ∀ host : Host, StaysOrLeaves host
      (Host.sendAcknowledgements index acknowledgements host) index := by
  induction acknowledgements with
  | nil => intro host; exact .inl rfl
  | cons acknowledgement rest ih =>
      intro host
      unfold Host.sendAcknowledgements
      dsimp only
      split
      · refine .inl ?_
        rw [Host.setPeer_self]
        rfl
      · refine trans ?_ (ih _)
        split
        · refine .inr ?_
          rw [Host.setPeer_self, Host.dispatchState_peer]
          rfl
        · refine .inl ?_
          rw [Host.setPeer_self]
          rfl

theorem startDatagram (host : Host) (index : Nat) :
    StaysOrLeaves host (host.startDatagram index) index := by
  refine trans (.inl ?_) (sendAcknowledgements index _ _)
  rw [Host.setPeer_self]
  rfl

theorem checkOutgoingCommands (host : Host) (index : Nat)
    (sentUnreliable : List OutgoingCommand) :
    StaysOrLeaves host (host.checkOutgoingCommands index sentUnreliable).1 index := by
  unfold Host.checkOutgoingCommands
  dsimp only
  split
  · refine .inr ?_
    unfold Host.startDisconnect
    dsimp only
    rw [Host.setPeer_self]
    rfl
  · refine .inl ?_
    rw [Host.setPeer_self]
    exact (Peer.SendingOnly.checkOutgoingCommands (host.peers index) host.heap host.datagram
      sentUnreliable host.serviceTime).state

theorem removeSentUnreliableCommands (host : Host) (index : Nat)
    (sentUnreliable : List OutgoingCommand) :
    StaysOrLeaves host (host.removeSentUnreliableCommands index sentUnreliable) index := by
  unfold Host.removeSentUnreliableCommands
  split
  · exact .inl rfl
  · dsimp only
    split
    · exact trans (.inl rfl) (startDisconnect _ index _)
    · exact .inl rfl

/-- **A step that sends moves peers on their way out only.** -/
theorem sendStep {before after : Sending} (step : SendStep before after) :
    StaysOrLeaves before.1 after.1 index := by
  cases step with
  | quiet sentUnreliable quiet => exact .inl (quiet.peers index).state
  | startDatagram host other used =>
      exact acts (.startDatagram host other) (startDatagram host other)
  | queue host sentUnreliable other command maintenance =>
      exact acts (.queueOutgoingCommand ..)
        (.inl (Host.queueOutgoingCommand_sendingOnly ..).state)
  | checkOutgoing host sentUnreliable other =>
      exact acts (.checkOutgoingCommands ..) (checkOutgoingCommands host other sentUnreliable)
  | removeSent host sentUnreliable other =>
      exact acts (.removeSentUnreliableCommands ..)
        (removeSentUnreliableCommands host other sentUnreliable)

end StaysOrLeaves

end Enet
