import Enet.Model.Lists
import Enet.Model.Receive

/-!
# The unreliable dispatch on its nodes

`enet_peer_dispatch_incoming_unreliable_commands` on the nodes of the lists that
it splices. The model of a channel keeps its lists as sequences; here the three
iterators are pointers into a heap of nodes, and every step reads and writes the
links that the source does. A sentinel is no command: there is no answer once one
is read as a command, or while a loop has not ended.
-/

set_option autoImplicit false

namespace Enet

open Library (Links)

/-- The lists that a dispatch splices: `channel->incomingUnreliableCommands` and
`peer->dispatchedCommands`. -/
inductive IncomingList where
  | unreliable
  | dispatched
  deriving DecidableEq, Repr

/-- The nodes of these lists: their sentinels, and the commands at their addresses. -/
inductive IncomingNode where
  | sentinel (list : IncomingList)
  | command (address : Nat)
  deriving DecidableEq, Repr

/-- What a dispatch writes: the links of the nodes, the number of the channel, and the
place of the peer in the dispatch queue. -/
structure UnreliableDispatch where
  links : Links IncomingNode
  incomingUnreliableSequenceNumber : Nat
  needsDispatch : Bool
  dispatchQueue : Links DispatchNode

namespace UnreliableDispatch

/-- Install the links. -/
def setLinks (state : UnreliableDispatch) (links : Links IncomingNode) : UnreliableDispatch :=
  { state with links := links }

/-- Install `channel->incomingUnreliableSequenceNumber`. -/
def setNumber (state : UnreliableDispatch) (number : Nat) : UnreliableDispatch :=
  { state with incomingUnreliableSequenceNumber := number }

/-- Insert the peer at the end of the dispatch queue, unless it is flagged. -/
def schedule (state : UnreliableDispatch) (peer : Nat) : UnreliableDispatch :=
  if state.needsDispatch then state
  else
    { state with
      dispatchQueue := (listInsert state.dispatchQueue .sentinel (.peer peer)).1
      needsDispatch := true }

/-- Move the commands from `startCommand` to the one before `currentCommand` to the end of
`dispatchedCommands`. -/
def moveRun (state : UnreliableDispatch) (peer : Nat) (startCommand currentCommand : IncomingNode) :
    UnreliableDispatch :=
  (state.setLinks (listMove state.links (.sentinel .dispatched) startCommand
    (state.links.previous currentCommand)).1).schedule peer

/-- The iterators of the loop. -/
structure Iterators where
  droppedCommand : IncomingNode
  startCommand : IncomingNode
  currentCommand : IncomingNode

/-- The iterators behind `currentCommand`, where it is skipped. -/
def Iterators.skip (iterators : Iterators) (links : Links IncomingNode) : Iterators :=
  { iterators with currentCommand := links.next iterators.currentCommand }

/-- The iterators behind `currentCommand`, at the end of the body of the loop. -/
def Iterators.advance (links : Links IncomingNode) (droppedCommand currentCommand : IncomingNode) :
    Iterators :=
  ⟨droppedCommand, links.next currentCommand, links.next currentCommand⟩

/-- The branch of the loop for an incomplete command with the current number, up to the
store of `startCommand`. -/
def passIncomplete (state : UnreliableDispatch) (peer : Nat) (iterators : Iterators) :
    UnreliableDispatch × IncomingNode :=
  if iterators.startCommand ≠ iterators.currentCommand then
    (state.moveRun peer iterators.startCommand iterators.currentCommand, iterators.currentCommand)
  else if iterators.droppedCommand ≠ iterators.currentCommand then
    (state, state.links.previous iterators.currentCommand)
  else (state, iterators.droppedCommand)

/-- The branch of the loop for a command with another number that is not taken, up to
the store of `startCommand`. -/
def passOld (state : UnreliableDispatch) (peer : Nat) (iterators : Iterators) :
    UnreliableDispatch × IncomingNode :=
  let droppedCommand := state.links.next iterators.currentCommand
  if iterators.startCommand ≠ iterators.currentCommand then
    (state.moveRun peer iterators.startCommand iterators.currentCommand, droppedCommand)
  else (state, droppedCommand)

/-- The loop over the commands, with `channel->incomingReliableSequenceNumber` and what
the memory of a command holds. -/
def scan (peer incomingReliable : Nat) (memory : Nat → IncomingCommand) :
    (fuel : Nat) → UnreliableDispatch → Iterators → Option (UnreliableDispatch × Iterators)
  | 0, _, _ => none
  | fuel + 1, state, iterators =>
    match iterators.currentCommand with
    | .sentinel .unreliable => some (state, iterators)
    | .sentinel .dispatched => none
    | .command address =>
      let incomingCommand := memory address
      if Channel.isUnsequenced incomingCommand then
        scan peer incomingReliable memory fuel state (iterators.skip state.links)
      else if incomingCommand.reliableSequenceNumber = incomingReliable then
        if incomingCommand.fragmentsRemaining ≤ 0 then
          scan peer incomingReliable memory fuel
            (state.setNumber incomingCommand.unreliableSequenceNumber)
            (iterators.skip state.links)
        else
          let passed := state.passIncomplete peer iterators
          scan peer incomingReliable memory fuel passed.1
            (.advance passed.1.links passed.2 iterators.currentCommand)
      else if Channel.inWindow incomingReliable incomingCommand.reliableSequenceNumber then
        some (state, iterators)
      else
        let passed := state.passOld peer iterators
        scan peer incomingReliable memory fuel passed.1
          (.advance passed.1.links passed.2 iterators.currentCommand)

/-- The move of the last run behind the loop, and `droppedCommand`. -/
def finishRun (state : UnreliableDispatch) (peer : Nat) (iterators : Iterators) :
    UnreliableDispatch × IncomingNode :=
  if iterators.startCommand ≠ iterators.currentCommand then
    (state.moveRun peer iterators.startCommand iterators.currentCommand, iterators.currentCommand)
  else (state, iterators.droppedCommand)

/-- The function up to the removal: what it has written, and `droppedCommand`. -/
def splice (peer incomingReliable : Nat) (memory : Nat → IncomingCommand) (fuel : Nat)
    (state : UnreliableDispatch) : Option (UnreliableDispatch × IncomingNode) :=
  let first := state.links.next (.sentinel .unreliable)
  (scan peer incomingReliable memory fuel state ⟨first, first, first⟩).map fun scanned =>
    scanned.1.finishRun peer scanned.2

/-- `enet_peer_remove_incoming_commands`: the links it leaves, and the addresses of the
commands it frees, in order. -/
def removeCommands (excludeCommand : Option Nat) (endCommand : IncomingNode) :
    (fuel : Nat) → Links IncomingNode → (currentCommand : IncomingNode) → List Nat →
      Option (Links IncomingNode × List Nat)
  | 0, _, _, _ => none
  | fuel + 1, links, currentCommand, freed =>
    if currentCommand = endCommand then some (links, freed)
    else
      match currentCommand with
      | .sentinel _ => none
      | .command address =>
        let next := links.next currentCommand
        if some address = excludeCommand then
          removeCommands excludeCommand endCommand fuel links next freed
        else
          removeCommands excludeCommand endCommand fuel (listRemove links currentCommand).1 next
            (freed ++ [address])

/-- `enet_peer_dispatch_incoming_unreliable_commands`: what it has written, and the
addresses of the commands it has freed. -/
def dispatch (peer incomingReliable : Nat) (memory : Nat → IncomingCommand)
    (queuedCommand : Option Nat) (fuel : Nat) (state : UnreliableDispatch) :
    Option (UnreliableDispatch × List Nat) :=
  match splice peer incomingReliable memory fuel state with
  | none => none
  | some (state, droppedCommand) =>
    (removeCommands queuedCommand droppedCommand fuel state.links
      (state.links.next (.sentinel .unreliable)) []).map fun removed =>
        (state.setLinks removed.1, removed.2)

end UnreliableDispatch

end Enet
