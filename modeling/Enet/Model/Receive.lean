import Enet.Model.Peer

/-!
# Incoming commands

The functions of `peer.c` that keep the two lists of received commands of a
channel, move what can be delivered to `dispatchedCommands`, and hand packets to
the application.

The lists are searched from their end. The comparison that decides each step of
a search is one function for each list; the same comparisons are made by the two
fragment handlers.
-/

set_option autoImplicit false

namespace Enet

namespace Channel

/-! ## Searching a list of received commands -/

/-- How a search from the end of `incomingReliableCommands` for `number` treats
a command with number `other`: past the place (`gt`), before it (`lt`), or at it. -/
def compareReliable (current number other : Nat) : Ordering :=
  if current ≤ number ∧ other < current then .gt
  else if number < current ∧ current ≤ other then .lt
  else if other ≤ number then
    if other < number then .lt else .eq
  else .gt

/-- How a search from the end of `incomingUnreliableCommands` treats a command. -/
def compareUnreliable (current number unreliableNumber other unreliableOther : Nat) : Ordering :=
  if current ≤ number ∧ other < current then .gt
  else if number < current ∧ current ≤ other then .lt
  else if other < number then .lt
  else if number < other then .gt
  else if unreliableOther ≤ unreliableNumber then
    if unreliableOther < unreliableNumber then .lt else .eq
  else .gt

/-- The outcome of a search: the two parts of the list around the place of a
new command, or the command that is already there. -/
inductive Search where
  | place (before after : List IncomingCommand)
  | found (command : IncomingCommand)

/-- Search a list, given from its end, with the commands already passed. -/
def searchReversed (compare : IncomingCommand → Ordering) :
    List IncomingCommand → List IncomingCommand → Search
  | [], passed => .place [] passed
  | command :: rest, passed =>
    match compare command with
    | .gt => searchReversed compare rest (command :: passed)
    | .lt => .place (command :: rest).reverse passed
    | .eq => .found command

/-- Search a list from its end. -/
def search (compare : IncomingCommand → Ordering) (commands : List IncomingCommand) : Search :=
  searchReversed compare commands.reverse []

/-! ## Dispatching -/

/-- The windows ahead in which a received number is taken. -/
def inWindow (current number : Nat) : Bool :=
  let reliableWindow := Peer.receivedWindow number current
  let currentWindow := current / peerReliableWindowSize
  decide (currentWindow ≤ reliableWindow) &&
    decide (reliableWindow < currentWindow + peerFreeReliableWindows - 1)

/-- What a dispatch takes out of a channel: the commands moved to
`dispatchedCommands`, in order, and those removed and freed. For the history, how
`enet_peer_dispatch_incoming_unreliable_commands` was entered, where it was. -/
structure Dispatched where
  channel : Channel
  moved : List IncomingCommand
  removed : List IncomingCommand
  entered : List Dispatching

/-- The state of the loop of `enet_peer_dispatch_incoming_unreliable_commands`
at `currentCommand`, the head of `rest`. The list is `passed ++ run ++ rest`
with `startCommand` at the head of `run`; `dropped` counts the commands before
`droppedCommand`. -/
structure UnreliableScan where
  incomingUnreliableSequenceNumber : Nat
  passed : List IncomingCommand
  run : List IncomingCommand
  rest : List IncomingCommand
  moved : List IncomingCommand
  dropped : Nat

/-- The commands the loop passes over as part of a run: those of unsequenced
packets, and complete ones at the current reliable number. -/
def isUnsequenced (command : IncomingCommand) : Bool :=
  match command.command.command with
  | .sendUnsequenced .. => true
  | _ => false

/-- The loop of `enet_peer_dispatch_incoming_unreliable_commands`. -/
def scanUnreliable (current : Nat) :
    (incomingUnreliable : Nat) → (passed run rest moved : List IncomingCommand) →
      (dropped : Nat) → UnreliableScan
  | incomingUnreliable, passed, run, [], moved, dropped =>
    ⟨incomingUnreliable, passed, run, [], moved, dropped⟩
  | incomingUnreliable, passed, run, command :: rest, moved, dropped =>
    if isUnsequenced command then
      scanUnreliable current incomingUnreliable passed (run ++ [command]) rest moved dropped
    else if command.reliableSequenceNumber = current then
      if command.fragmentsRemaining ≤ 0 then
        scanUnreliable current command.unreliableSequenceNumber passed (run ++ [command]) rest
          moved dropped
      else
        -- an incomplete command ends the run and starts the next one behind itself
        let dropped :=
          if !run.isEmpty then passed.length
          else if dropped ≠ passed.length then passed.length - 1
          else dropped
        scanUnreliable current incomingUnreliable (passed ++ [command]) [] rest (moved ++ run)
          dropped
    else if inWindow current command.reliableSequenceNumber then
      ⟨incomingUnreliable, passed, run, command :: rest, moved, dropped⟩
    else
      scanUnreliable current incomingUnreliable (passed ++ [command]) [] rest (moved ++ run)
        (passed.length + 1)

/-- `enet_peer_dispatch_incoming_unreliable_commands`; `queuedCommand` is the
address of the command that is not to be removed. -/
def dispatchUnreliable (channel : Channel) (queuedCommand : Option Nat) : Dispatched :=
  let scan :=
    scanUnreliable channel.incomingReliableSequenceNumber
      channel.incomingUnreliableSequenceNumber [] [] channel.incomingUnreliableCommands [] 0
  let dropped := if !scan.run.isEmpty then scan.passed.length else scan.dropped
  let remaining := scan.passed ++ scan.rest
  let kept (command : IncomingCommand) : Bool := decide (some command.address = queuedCommand)
  { channel :=
      { channel with
        incomingUnreliableSequenceNumber := scan.incomingUnreliableSequenceNumber
        incomingUnreliableCommands :=
          (remaining.take dropped).filter kept ++ remaining.drop dropped }
    moved := scan.moved ++ scan.run
    removed := (remaining.take dropped).filter fun command => !kept command
    entered := [⟨channel, queuedCommand⟩] }

/-- The loop of `enet_peer_dispatch_incoming_reliable_commands`: the commands
that can be delivered in order, the rest, and the new current number. -/
def takeReliable : (current : Nat) → List IncomingCommand →
    List IncomingCommand × List IncomingCommand × Nat
  | current, [] => ([], [], current)
  | current, command :: rest =>
    if 0 < command.fragmentsRemaining ∨ command.reliableSequenceNumber ≠ u16 (current + 1) then
      ([], command :: rest, current)
    else
      let next :=
        if 0 < command.fragmentCount then
          u16 (command.reliableSequenceNumber + (command.fragmentCount - 1))
        else command.reliableSequenceNumber
      let taken := takeReliable next rest
      (command :: taken.1, taken.2.1, taken.2.2)

/-- `enet_peer_dispatch_incoming_reliable_commands`. -/
def dispatchReliable (channel : Channel) (queuedCommand : Option Nat) : Dispatched :=
  let taken :=
    takeReliable channel.incomingReliableSequenceNumber channel.incomingReliableCommands
  if taken.1.isEmpty then ⟨channel, [], [], []⟩
  else
    let channel :=
      { channel with
        incomingReliableSequenceNumber := taken.2.2
        incomingReliableCommands := taken.2.1
        incomingUnreliableSequenceNumber := 0 }
    if channel.incomingUnreliableCommands.isEmpty then ⟨channel, taken.1, [], []⟩
    else
      let dispatched := channel.dispatchUnreliable queuedCommand
      ⟨dispatched.channel, taken.1 ++ dispatched.moved, dispatched.removed, dispatched.entered⟩

end Channel
/-! ## Queueing a received command -/

/-- Where `enet_peer_queue_incoming_command` puts a command. -/
inductive Placement where
  | discard
  | reliable (before after : List IncomingCommand)
  | unreliable (before after : List IncomingCommand)

namespace Channel

/-- The search for the place of a reliable command or of a reliable fragment. -/
def searchReliable (channel : Channel) (number : Nat) : Search :=
  search
    (fun other =>
      compareReliable channel.incomingReliableSequenceNumber number other.reliableSequenceNumber)
    channel.incomingReliableCommands

/-- The search for the place of an unreliable command or fragment. -/
def searchUnreliable (channel : Channel) (number unreliableNumber : Nat) : Search :=
  search
    (fun other =>
      compareUnreliable channel.incomingReliableSequenceNumber number unreliableNumber
        other.reliableSequenceNumber other.unreliableSequenceNumber)
    channel.incomingUnreliableCommands

/-- The place of a reliable command, by its number. -/
def placeReliable (channel : Channel) (number : Nat) : Placement :=
  if !inWindow channel.incomingReliableSequenceNumber number then .discard
  else if number = channel.incomingReliableSequenceNumber then .discard
  else
    match channel.searchReliable number with
    | .place before after => .reliable before after
    | .found _ => .discard

/-- The place of an unreliable command, by its two numbers. -/
def placeUnreliable (channel : Channel) (number unreliableNumber : Nat) : Placement :=
  if !inWindow channel.incomingReliableSequenceNumber number then .discard
  else if number = channel.incomingReliableSequenceNumber ∧
      unreliableNumber ≤ channel.incomingUnreliableSequenceNumber then .discard
  else
    match channel.searchUnreliable number unreliableNumber with
    | .place before after => .unreliable before after
    | .found _ => .discard

/-- The part of `enet_peer_queue_incoming_command` before its allocations. -/
def place (channel : Channel) (command : Protocol) : Placement :=
  match command.command with
  | .sendFragment _ | .sendReliable _ => channel.placeReliable command.reliableSequenceNumber
  | .sendUnreliable .. | .sendUnreliableFragment _ =>
    channel.placeUnreliable command.reliableSequenceNumber command.unreliableSequenceNumber
  | .sendUnsequenced .. => .unreliable [] channel.incomingUnreliableCommands
  | _ => .discard

/-- Insert a command at its place and dispatch what can be delivered. -/
def insertIncoming (channel : Channel) (command : IncomingCommand) : Placement → Dispatched
  | .discard => ⟨channel, [], [], []⟩
  | .reliable before after =>
    { channel with incomingReliableCommands := before ++ command :: after }.dispatchReliable
      (some command.address)
  | .unreliable before after =>
    { channel with incomingUnreliableCommands := before ++ command :: after }.dispatchUnreliable
      (some command.address)

end Channel

namespace Heap

/-- `enet_packet_create`. Memory for the bytes is allocated only for a positive
length, and holds what it held before where no data is given. -/
def createPacket (heap : Heap) (data : Option (List UInt8)) (dataLength : Nat)
    (flags : PacketFlags) : Heap × Option Packet :=
  match heap.malloc with
  | (heap, none) => (heap, none)
  | (heap, some address) =>
    if dataLength = 0 then (heap, some ⟨address, flags, []⟩)
    else
      match heap.malloc with
      | (heap, none) => (heap.free address, none)
      | (heap, some bytes) =>
        let contents :=
          match data with
          | some data => data
          | none => (List.range dataLength).map (heap.uninitialised bytes)
        (heap, some ⟨address, flags, contents⟩)

/-- Free a received command and drop its reference to its packet. -/
def removeIncoming (heap : Heap) (command : IncomingCommand) : Heap :=
  (heap.release command.packet).free command.address

end Heap

/-- What `enet_peer_queue_incoming_command` returns: a null pointer, the dummy
command, or the new command. -/
inductive Queued where
  | rejected
  | dummy
  | command (address : Nat)
  deriving DecidableEq, Repr

namespace Host

/-- Insert the peer at the end of the dispatch queue, unless it is flagged. -/
def scheduleDispatch (host : Host) (index : Nat) : Host :=
  if (host.peers index).needsDispatch then host
  else
    (host.setDispatchQueue (host.dispatchQueue.insert .sentinel (.peer index))).setPeer index
      ((host.peers index).setNeedsDispatch true)

/-- `enet_peer_remove_incoming_commands`, for the commands it removes. -/
def removeIncomingCommands (host : Host) (removed : List IncomingCommand) : Host :=
  host.setHeap (removed.foldl Heap.removeIncoming host.heap)

/-- Free the commands that a dispatch removes, and note how it was entered. -/
def removeDispatched (host : Host) (index : Nat) (dispatched : Channel.Dispatched) : Host :=
  (host.removeIncomingCommands dispatched.removed).observeAll
    (dispatched.entered.map (Observation.dispatching index))

/-- Install what a dispatch did to a channel. -/
def installDispatched (host : Host) (index channelID : Nat) (dispatched : Channel.Dispatched) :
    Host :=
  let peer := host.peers index
  let host :=
    (host.removeDispatched index dispatched).setPeer index
      ((peer.setChannel channelID dispatched.channel).setDispatched
        (peer.dispatchedCommands ++ dispatched.moved) peer.totalWaitingData)
  if dispatched.moved.isEmpty then host else host.scheduleDispatch index

/-- `enet_peer_dispatch_incoming_unreliable_commands`. -/
def dispatchIncomingUnreliableCommands (host : Host) (index channelID : Nat)
    (queuedCommand : Option Nat) : Host :=
  host.installDispatched index channelID
    (((host.peers index).channels channelID).dispatchUnreliable queuedCommand)

/-- `enet_peer_dispatch_incoming_reliable_commands`. -/
def dispatchIncomingReliableCommands (host : Host) (index channelID : Nat)
    (queuedCommand : Option Nat) : Host :=
  host.installDispatched index channelID
    (((host.peers index).channels channelID).dispatchReliable queuedCommand)

/-- The allocations of `enet_peer_queue_incoming_command`: the packet, the
command and the bitmap of its fragments. -/
def allocateIncoming (heap : Heap) (command : Protocol) (data : Option (List UInt8))
    (dataLength : Nat) (flags : PacketFlags) (fragmentCount : Nat) :
    Heap × Option IncomingCommand :=
  match heap.createPacket data dataLength flags with
  | (heap, none) => (heap, none)
  | (heap, some packet) =>
    match heap.malloc with
    | (heap, none) => (heap.destroy packet, none)
    | (heap, some address) =>
      let incoming : IncomingCommand :=
        { address := address
          reliableSequenceNumber := command.reliableSequenceNumber
          unreliableSequenceNumber :=
            match command.command with
            | .sendUnreliable .. | .sendUnreliableFragment _ => command.unreliableSequenceNumber
            | _ => 0
          command := command
          fragmentCount := fragmentCount
          fragmentsRemaining := fragmentCount
          fragments := fun _ => false
          packet := packet }
      if fragmentCount = 0 then (heap.acquire packet, some incoming)
      else if protocolMaximumFragmentCount < fragmentCount then
        ((heap.free address).destroy packet, none)
      else
        match heap.malloc with
        | (heap, none) => ((heap.free address).destroy packet, none)
        | (heap, some _) => (heap.acquire packet, some incoming)

/-- `enet_peer_queue_incoming_command`. -/
def queueIncomingCommand (host : Host) (index : Nat) (command : Protocol)
    (data : Option (List UInt8)) (dataLength : Nat) (flags : PacketFlags) (fragmentCount : Nat) :
    Host × Queued :=
  let peer := host.peers index
  let channel := peer.channels command.channelID
  let discard := if 0 < fragmentCount then Queued.rejected else Queued.dummy
  if peer.state = .disconnectLater then (host, discard)
  else
    match channel.place command with
    | .discard => (host, discard)
    | placement =>
      if host.maximumWaitingData ≤ peer.totalWaitingData then (host, .rejected)
      else
        match allocateIncoming host.heap command data dataLength flags fragmentCount with
        | (heap, none) => (host.setHeap heap, .rejected)
        | (heap, some incoming) =>
          let host :=
            (host.setHeap heap).setPeer index
              (peer.setDispatched peer.dispatchedCommands
                (peer.totalWaitingData + incoming.packet.dataLength))
          (host.installDispatched index command.channelID
            (channel.insertIncoming incoming placement), .command incoming.address)

/-- `enet_peer_receive`: the packet and its channel. -/
def peerReceive (host : Host) (index : Nat) : Host × Option (Packet × Nat) :=
  let peer := host.peers index
  match peer.dispatchedCommands with
  | [] => (host, none)
  | command :: rest =>
    ((host.setHeap ((host.heap.unreference command.packet).free command.address)).setPeer index
        (peer.setDispatched rest (sub64 peer.totalWaitingData command.packet.dataLength)),
      some (command.packet, command.command.channelID))

end Host

end Enet
