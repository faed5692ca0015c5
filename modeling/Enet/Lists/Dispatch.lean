import Enet.Channels.Partition
import Enet.Library.RingFamily
import Enet.Model.Splices

/-!
# The unreliable dispatch splices its lists

The nodes of the two lists are rings throughout the dispatch, and the iterators of
its loop are places of the list of the channel: `startCommand` the place of the
current run, and `droppedCommand` a place before it. So each move takes a run
that is in the list, the loops end, and the removal does not leave the list. What
the nodes hold at the end is what the dispatch makes of the sequence of commands.
-/

set_option autoImplicit false

namespace Enet

open Library (Links)
open Library.Links (AreRings IsRing IsSegment)

/-! ## Nodes and places -/

/-- The nodes of commands. -/
def commandNodes (commands : List IncomingCommand) : List IncomingNode :=
  commands.map fun command => .command command.address

/-- The nodes of the two lists. -/
def incomingLists (incoming dispatched : List IncomingNode) : IncomingList → List IncomingNode
  | .unreliable => incoming
  | .dispatched => dispatched

/-- The node at a place of the list of a channel: behind the last command, the sentinel. -/
def nodeAt (commands : List IncomingCommand) (place : Nat) : IncomingNode :=
  (commandNodes commands)[place]?.getD (.sentinel .unreliable)

theorem commandNodes_append (first second : List IncomingCommand) :
    commandNodes (first ++ second) = commandNodes first ++ commandNodes second := List.map_append

@[simp] theorem length_commandNodes (commands : List IncomingCommand) :
    (commandNodes commands).length = commands.length := List.length_map ..

theorem update_unreliable (incoming dispatched incoming' : List IncomingNode) :
    Function.update (incomingLists incoming dispatched) .unreliable incoming' =
      incomingLists incoming' dispatched := by
  funext list
  cases list <;> rfl

theorem update_dispatched (incoming dispatched dispatched' : List IncomingNode) :
    Function.update (incomingLists incoming dispatched) .dispatched dispatched' =
      incomingLists incoming dispatched' := by
  funext list
  cases list <;> rfl

theorem nodeAt_append (before after : List IncomingCommand) (place : Nat) :
    nodeAt (before ++ after) (before.length + place) = nodeAt after place := by
  unfold nodeAt
  rw [commandNodes_append, List.getElem?_append_right (by simp), length_commandNodes,
    Nat.add_sub_cancel_left]

theorem nodeAt_length (before after : List IncomingCommand) :
    nodeAt (before ++ after) before.length = nodeAt after 0 := nodeAt_append before after 0

theorem nodeAt_cons (command : IncomingCommand) (rest : List IncomingCommand) :
    nodeAt (command :: rest) 0 = .command command.address := rfl

theorem head?_getD_eq_nodeAt (commands : List IncomingCommand) :
    (commandNodes commands).head?.getD (.sentinel .unreliable) = nodeAt commands 0 := by
  cases commands <;> rfl

/-- Two places of a list without repetitions have different nodes. -/
theorem nodeAt_injective {commands : List IncomingCommand} {one other : Nat}
    (distinct : (commandNodes commands).Nodup) (oneWithin : one ≤ commands.length)
    (otherWithin : other ≤ commands.length) (same : nodeAt commands one = nodeAt commands other) :
    one = other := by
  have here : ∀ place (within : place < commands.length),
      (commandNodes commands)[place]? = some (.command commands[place].address) := by
    intro place within
    rw [commandNodes, List.getElem?_map, List.getElem?_eq_getElem within]
    rfl
  have behind : (commandNodes commands)[commands.length]? = none :=
    List.getElem?_eq_none (by simp)
  unfold nodeAt at same
  rcases Nat.lt_or_ge one commands.length with oneInside | oneEnd
  · rcases Nat.lt_or_ge other commands.length with otherInside | otherEnd
    · refine (List.getElem?_inj (by simpa using oneInside) distinct).mp ?_
      rw [here one oneInside, here other otherInside] at same ⊢
      exact congrArg some same
    · have ends : other = commands.length := by omega
      rw [here one oneInside, ends, behind] at same
      cases same
  · have ends : one = commands.length := by omega
    rcases Nat.lt_or_ge other commands.length with otherInside | otherEnd
    · rw [ends, behind, here other otherInside] at same
      cases same
    · omega

section Places

variable {links : Links IncomingNode} {commands : List IncomingCommand}

theorem next_sentinel (ring : IsRing links (.sentinel .unreliable) (commandNodes commands)) :
    links.next (.sentinel .unreliable) = nodeAt commands 0 := by
  rw [ring.next_sentinel, head?_getD_eq_nodeAt]

/-- The node behind a place is that of the next place. -/
theorem next_nodeAt (ring : IsRing links (.sentinel .unreliable) (commandNodes commands))
    {place : Nat} (within : place < commands.length) :
    links.next (nodeAt commands place) = nodeAt commands (place + 1) := by
  obtain ⟨before, command, after, whole, length⟩ :
      ∃ before command after, commands = before ++ command :: after ∧ before.length = place :=
    ⟨commands.take place, commands[place], commands.drop (place + 1), by simp, by simp; omega⟩
  rw [whole, commandNodes_append] at ring
  have next := ring.next_node
  rw [whole, ← length, nodeAt_length, nodeAt_append before (command :: after) 1, nodeAt_cons, next]
  cases after <;> rfl

/-- The node before a place is that of the place before. -/
theorem previous_nodeAt (ring : IsRing links (.sentinel .unreliable) (commandNodes commands))
    {place : Nat} (within : place < commands.length) :
    links.previous (nodeAt commands (place + 1)) = nodeAt commands place := by
  obtain ⟨before, command, after, whole, length⟩ :
      ∃ before command after, commands = before ++ command :: after ∧ before.length = place :=
    ⟨commands.take place, commands[place], commands.drop (place + 1), by simp, by simp; omega⟩
  subst whole
  rw [← length, nodeAt_length, nodeAt_append before (command :: after) 1, nodeAt_cons]
  rw [commandNodes_append] at ring
  cases after with
  | nil =>
      have last := ring.previous_sentinel
      rw [nodeAt, show (commandNodes [command])[1]?.getD (.sentinel .unreliable) =
        .sentinel .unreliable from rfl, last]
      simp [commandNodes]
  | cons next after =>
      have split : commandNodes before ++ commandNodes (command :: next :: after) =
          (commandNodes before ++ [.command command.address]) ++
            .command next.address :: commandNodes after := by
        simp [commandNodes]
      rw [split] at ring
      have previous := ring.previous_node
      rw [nodeAt, show (commandNodes (command :: next :: after))[1]?.getD
        (.sentinel .unreliable) = .command next.address from rfl, previous]
      simp

end Places

namespace UnreliableDispatch

variable {state : UnreliableDispatch} {peer : Nat}

/-! ## One move -/

/-- The peer is in the dispatch queue once something was moved, as it was before. -/
structure Schedules (peer : Nat) (moved : List IncomingCommand)
    (before after : UnreliableDispatch) : Prop where
  needsDispatch : after.needsDispatch =
    (if moved.isEmpty then before else before.schedule peer).needsDispatch
  dispatchQueue : after.dispatchQueue =
    (if moved.isEmpty then before else before.schedule peer).dispatchQueue

theorem Schedules.refl (peer : Nat) (state : UnreliableDispatch) :
    Schedules peer [] state state := ⟨rfl, rfl⟩

theorem schedule_needsDispatch (state : UnreliableDispatch) (peer : Nat) :
    (state.schedule peer).needsDispatch = true := by
  unfold schedule
  split
  next flagged => exact flagged
  · rfl

/-- Another move leaves the peer where the first one has put it. -/
theorem Schedules.moveRun {initial : UnreliableDispatch} {moved run : List IncomingCommand}
    (schedules : Schedules peer moved initial state) (nonempty : run ≠ [])
    (startCommand currentCommand : IncomingNode) :
    Schedules peer (moved ++ run) initial (state.moveRun peer startCommand currentCommand) := by
  obtain ⟨needsDispatch, dispatchQueue⟩ := schedules
  have some : (moved ++ run).isEmpty = false := by
    cases run with
    | nil => exact absurd rfl nonempty
    | cons command run => simp
  cases moved with
  | nil =>
      have flag : state.needsDispatch = initial.needsDispatch := needsDispatch
      have queue : state.dispatchQueue = initial.dispatchQueue := dispatchQueue
      constructor
      · rw [some]
        exact (schedule_needsDispatch ..).trans (schedule_needsDispatch ..).symm
      · rw [some]
        unfold UnreliableDispatch.moveRun schedule setLinks
        dsimp only
        rw [flag]
        split
        · exact queue
        · exact congrArg (fun links => (listInsert links .sentinel (.peer peer)).1) queue
  | cons command moved =>
      have flag : state.needsDispatch = true :=
        needsDispatch.trans (schedule_needsDispatch initial peer)
      have still : ∀ links, (state.setLinks links).schedule peer = state.setLinks links :=
        fun links => if_pos flag
      unfold UnreliableDispatch.moveRun
      rw [still]
      exact ⟨needsDispatch, dispatchQueue⟩

theorem schedule_links (state : UnreliableDispatch) (peer : Nat) :
    (state.schedule peer).links = state.links := by
  unfold schedule
  split <;> rfl

/-- **A run is moved to the end of `dispatchedCommands`.** -/
theorem moveRun_areRings {passed run rest : List IncomingCommand} {others : List IncomingNode}
    (rings : AreRings state.links .sentinel
      (incomingLists (commandNodes (passed ++ run ++ rest)) others)) (nonempty : run ≠ []) :
    AreRings (state.moveRun peer (nodeAt (passed ++ run ++ rest) passed.length)
        (nodeAt (passed ++ run ++ rest) (passed.length + run.length))).links .sentinel
      (incomingLists (commandNodes (passed ++ rest)) (others ++ commandNodes run)) := by
  have ring : IsRing state.links (.sentinel .unreliable) (commandNodes (passed ++ run ++ rest)) :=
    rings.ring .unreliable
  obtain ⟨before, last, rfl⟩ := (List.eq_nil_or_concat' run).resolve_left nonempty
  have within : passed.length + before.length < (passed ++ (before ++ [last]) ++ rest).length := by
    simp only [List.length_append, List.length_singleton]
    omega
  have length : (before ++ [last]).length = before.length + 1 := by simp
  have lastNode : state.links.previous (nodeAt (passed ++ (before ++ [last]) ++ rest)
      (passed.length + (before ++ [last]).length)) = .command last.address := by
    rw [length, ← Nat.add_assoc, previous_nodeAt ring within, List.append_assoc, nodeAt_append,
      List.append_assoc, nodeAt_length]
    rfl
  have firstNode : (commandNodes (before ++ [last])).head? =
      some (nodeAt (passed ++ (before ++ [last]) ++ rest) passed.length) := by
    rw [List.append_assoc, nodeAt_length]
    cases before <;> rfl
  have ends : IsSegment (nodeAt (passed ++ (before ++ [last]) ++ rest) passed.length)
      (.command last.address) (commandNodes (before ++ [last])) := by
    refine ⟨firstNode, ?_⟩
    rw [commandNodes_append]
    exact List.getLast?_concat
  have split : incomingLists (commandNodes (passed ++ (before ++ [last]) ++ rest)) others
      .unreliable =
        commandNodes passed ++ commandNodes (before ++ [last]) ++ commandNodes rest := by
    rw [← commandNodes_append, ← commandNodes_append]
    rfl
  have left : Function.update (incomingLists (commandNodes (passed ++ (before ++ [last]) ++ rest))
      others) .unreliable (commandNodes passed ++ commandNodes rest) .dispatched =
        others ++ [] := by
    rw [update_unreliable, List.append_nil]
    rfl
  have moves := rings.move split ends left rfl
  rw [update_unreliable, update_dispatched, List.append_nil, ← commandNodes_append] at moves
  unfold moveRun
  rw [schedule_links, lastNode]
  exact moves

/-! ## The loop -/

/-- The iterators at the places of a scan. -/
def iteratorsOf (scanned : Channel.UnreliableScan) : Iterators :=
  let commands := scanned.passed ++ scanned.run ++ scanned.rest
  ⟨nodeAt commands scanned.dropped, nodeAt commands scanned.passed.length,
    nodeAt commands (scanned.passed.length + scanned.run.length)⟩

/-- The nodes hold what a scan of the sequence says; `others` were dispatched before. -/
structure Mirrors (peer : Nat) (initial : UnreliableDispatch) (others : List IncomingNode)
    (state : UnreliableDispatch) (scanned : Channel.UnreliableScan) : Prop where
  rings : AreRings state.links .sentinel
    (incomingLists (commandNodes (scanned.passed ++ scanned.run ++ scanned.rest))
      (others ++ commandNodes scanned.moved))
  number : state.incomingUnreliableSequenceNumber = scanned.incomingUnreliableSequenceNumber
  schedules : Schedules peer scanned.moved initial state

section Loop

variable {incomingReliable number dropped fuel : Nat} {memory : Nat → IncomingCommand}
  {initial : UnreliableDispatch} {others : List IncomingNode} {command : IncomingCommand}
  {passed run rest moved : List IncomingCommand} {iterators : Iterators}

/-- The loop at the end of the list. -/
theorem scan_end (ends : iterators.currentCommand = .sentinel .unreliable) :
    scan peer incomingReliable memory (fuel + 1) state iterators = some (state, iterators) := by
  unfold scan
  rw [ends]

/-- The body of the loop for a command. -/
theorem scan_command (here : iterators.currentCommand = .command command.address)
    (known : memory command.address = command) :
    scan peer incomingReliable memory (fuel + 1) state iterators =
      if Channel.isUnsequenced command then
        scan peer incomingReliable memory fuel state (iterators.skip state.links)
      else if command.reliableSequenceNumber = incomingReliable then
        if command.fragmentsRemaining ≤ 0 then
          scan peer incomingReliable memory fuel
            (state.setNumber command.unreliableSequenceNumber) (iterators.skip state.links)
        else
          scan peer incomingReliable memory fuel (state.passIncomplete peer iterators).1
            (.advance (state.passIncomplete peer iterators).1.links
              (state.passIncomplete peer iterators).2 iterators.currentCommand)
      else if Channel.inWindow incomingReliable command.reliableSequenceNumber then
        some (state, iterators)
      else
        scan peer incomingReliable memory fuel (state.passOld peer iterators).1
          (.advance (state.passOld peer iterators).1.links (state.passOld peer iterators).2
            iterators.currentCommand) := by
  conv => lhs; unfold scan
  rw [here]
  dsimp only
  rw [known]

/-- The command at `currentCommand`. -/
theorem iteratorsOf_currentCommand :
    (iteratorsOf ⟨number, passed, run, command :: rest, moved, dropped⟩).currentCommand =
      .command command.address := by
  unfold iteratorsOf
  dsimp only
  rw [← List.length_append, nodeAt_length, nodeAt_cons]

/-- A command that is skipped belongs to the run. -/
theorem Mirrors.skip
    (mirrors : Mirrors peer initial others state
      ⟨number, passed, run, command :: rest, moved, dropped⟩) (number' : Nat) :
    (iteratorsOf ⟨number, passed, run, command :: rest, moved, dropped⟩).skip state.links =
      iteratorsOf ⟨number', passed, run ++ [command], rest, moved, dropped⟩ := by
  have ring : IsRing state.links (.sentinel .unreliable)
      (commandNodes (passed ++ run ++ command :: rest)) := mirrors.rings.ring .unreliable
  have whole : passed ++ run ++ command :: rest = passed ++ (run ++ [command]) ++ rest := by simp
  have within : passed.length + run.length < (passed ++ run ++ command :: rest).length := by simp
  have next := next_nodeAt ring within
  unfold Iterators.skip iteratorsOf
  dsimp only
  rw [next, whole, List.length_append, List.length_singleton, Nat.add_assoc]

/-- Whether the run is empty is seen from the iterators. -/
theorem Mirrors.startCommand_eq_iff
    (mirrors : Mirrors peer initial others state ⟨number, passed, run, rest, moved, dropped⟩) :
    (iteratorsOf ⟨number, passed, run, rest, moved, dropped⟩).startCommand =
      (iteratorsOf ⟨number, passed, run, rest, moved, dropped⟩).currentCommand ↔ run = [] := by
  have distinct : (commandNodes (passed ++ run ++ rest)).Nodup :=
    (List.nodup_cons.mp (mirrors.rings.ring .unreliable).distinct).2
  constructor
  · intro same
    have front : passed.length ≤ (passed ++ run ++ rest).length := by simp
    have back : passed.length + run.length ≤ (passed ++ run ++ rest).length := by simp
    have places := nodeAt_injective distinct front back same
    exact List.length_eq_zero_iff.mp (by omega)
  · rintro rfl
    rfl

/-- What a passed command leaves, once the run before it is moved. -/
theorem Mirrors.moveRun
    (mirrors : Mirrors peer initial others state ⟨number, passed, run, rest, moved, dropped⟩)
    (nonempty : run ≠ []) (dropped' : Nat) :
    Mirrors peer initial others
      (state.moveRun peer
        (iteratorsOf ⟨number, passed, run, rest, moved, dropped⟩).startCommand
        (iteratorsOf ⟨number, passed, run, rest, moved, dropped⟩).currentCommand)
      ⟨number, passed, [], rest, moved ++ run, dropped'⟩ := by
  refine ⟨?_, ?_, mirrors.schedules.moveRun nonempty _ _⟩
  · have moves := @moveRun_areRings state peer passed run rest _ mirrors.rings nonempty
    rw [List.append_assoc others, ← commandNodes_append] at moves
    dsimp only
    rw [List.append_nil]
    exact moves
  · have same : ∀ (state : UnreliableDispatch) (start current : IncomingNode),
        (state.moveRun peer start current).incomingUnreliableSequenceNumber =
          state.incomingUnreliableSequenceNumber := by
      intro state start current
      unfold UnreliableDispatch.moveRun schedule
      split <;> rfl
    exact (same ..).trans mirrors.number

/-- The iterators behind a passed command, in a list whose run before it is empty. -/
theorem Mirrors.advance
    (mirrors : Mirrors peer initial others state
      ⟨number, passed, [], command :: rest, moved, dropped⟩) (droppedCommand : IncomingNode)
    (here : droppedCommand = nodeAt (passed ++ command :: rest) dropped) :
    Iterators.advance state.links droppedCommand (.command command.address) =
        iteratorsOf ⟨number, passed ++ [command], [], rest, moved, dropped⟩ ∧
      Mirrors peer initial others state
        ⟨number, passed ++ [command], [], rest, moved, dropped⟩ := by
  have whole : passed ++ [] ++ command :: rest = passed ++ [command] ++ [] ++ rest := by simp
  have ring : IsRing state.links (.sentinel .unreliable)
      (commandNodes (passed ++ [] ++ command :: rest)) := mirrors.rings.ring .unreliable
  have own : nodeAt (passed ++ [] ++ command :: rest) passed.length = .command command.address := by
    rw [List.append_nil, nodeAt_length, nodeAt_cons]
  have within : passed.length < (passed ++ [] ++ command :: rest).length := by simp
  have next := next_nodeAt ring within
  rw [own] at next
  constructor
  · unfold Iterators.advance iteratorsOf
    dsimp only
    rw [next, here, whole]
    simp
  · refine ⟨?_, mirrors.number, mirrors.schedules⟩
    have rings := mirrors.rings
    dsimp only at rings ⊢
    rw [← whole]
    exact rings

/-- A run that is empty is none to move. -/
theorem Mirrors.keepRun
    (mirrors : Mirrors peer initial others state ⟨number, passed, [], rest, moved, dropped⟩)
    (dropped' : Nat) :
    Mirrors peer initial others state ⟨number, passed, [], rest, moved ++ [], dropped'⟩ := by
  rw [List.append_nil]
  exact ⟨mirrors.rings, mirrors.number, mirrors.schedules⟩

/-- The branch for an incomplete command. -/
theorem Mirrors.passIncomplete
    (mirrors : Mirrors peer initial others state
      ⟨number, passed, run, command :: rest, moved, dropped⟩) (within : dropped ≤ passed.length) :
    let iterators := iteratorsOf ⟨number, passed, run, command :: rest, moved, dropped⟩
    let dropped' := if !run.isEmpty then passed.length
      else if dropped ≠ passed.length then passed.length - 1 else dropped
    Mirrors peer initial others (state.passIncomplete peer iterators).1
        ⟨number, passed, [], command :: rest, moved ++ run, dropped'⟩ ∧
      (state.passIncomplete peer iterators).2 = nodeAt (passed ++ command :: rest) dropped' := by
  dsimp only
  have runs := mirrors.startCommand_eq_iff
  have here := @iteratorsOf_currentCommand number dropped command passed run rest moved
  unfold UnreliableDispatch.passIncomplete
  cases run with
  | cons head run =>
      rw [if_pos fun same => nomatch runs.mp same]
      refine ⟨mirrors.moveRun (by simp) _, ?_⟩
      have some : (!(head :: run).isEmpty) = true := rfl
      rw [here, if_pos some, nodeAt_length, nodeAt_cons]
  | nil =>
      rw [if_neg (not_not.mpr (runs.mpr rfl))]
      have distinct : (commandNodes (passed ++ [] ++ command :: rest)).Nodup :=
        (List.nodup_cons.mp (mirrors.rings.ring .unreliable).distinct).2
      have whole : passed ++ [] ++ command :: rest = passed ++ command :: rest := by
        rw [List.append_nil]
      have front : dropped ≤ (passed ++ [] ++ command :: rest).length := by
        simp only [List.append_nil, List.length_append]
        omega
      have back : passed.length ≤ (passed ++ [] ++ command :: rest).length := by simp
      have apart : (iteratorsOf ⟨number, passed, [], command :: rest, moved,
          dropped⟩).droppedCommand ≠ (iteratorsOf ⟨number, passed, [], command :: rest, moved,
            dropped⟩).currentCommand ↔ dropped ≠ passed.length := by
        refine not_congr ⟨nodeAt_injective distinct front back, ?_⟩
        rintro rfl
        rfl
      by_cases ends : dropped = passed.length
      · rw [if_neg (not_congr apart |>.mpr (not_not.mpr ends)), if_neg (by simp),
          if_neg (not_not.mpr ends)]
        exact ⟨mirrors.keepRun _, congrArg (nodeAt · dropped) whole⟩
      · rw [if_pos (apart.mpr ends), if_neg (by simp), if_pos ends]
        refine ⟨mirrors.keepRun _, ?_⟩
        have ring : IsRing state.links (.sentinel .unreliable)
            (commandNodes (passed ++ [] ++ command :: rest)) := mirrors.rings.ring .unreliable
        have inside : passed.length - 1 < (passed ++ [] ++ command :: rest).length := by
          simp only [List.append_nil, List.length_append, List.length_cons]
          omega
        have previous := previous_nodeAt ring inside
        have last : passed.length - 1 + 1 = passed.length + ([] : List IncomingCommand).length := by
          simp only [List.length_nil]
          omega
        rw [last] at previous
        exact previous.trans (congrArg (nodeAt · (passed.length - 1)) whole)

/-- The branch for an old command. -/
theorem Mirrors.passOld
    (mirrors : Mirrors peer initial others state
      ⟨number, passed, run, command :: rest, moved, dropped⟩) :
    let iterators := iteratorsOf ⟨number, passed, run, command :: rest, moved, dropped⟩
    Mirrors peer initial others (state.passOld peer iterators).1
        ⟨number, passed, [], command :: rest, moved ++ run, passed.length + 1⟩ ∧
      (state.passOld peer iterators).2 =
        nodeAt (passed ++ command :: rest) (passed.length + 1) := by
  dsimp only
  have runs := mirrors.startCommand_eq_iff
  have ring : IsRing state.links (.sentinel .unreliable)
      (commandNodes (passed ++ run ++ command :: rest)) := mirrors.rings.ring .unreliable
  have within : passed.length + run.length < (passed ++ run ++ command :: rest).length := by simp
  have next : state.links.next (iteratorsOf ⟨number, passed, run, command :: rest, moved,
      dropped⟩).currentCommand = nodeAt (passed ++ command :: rest) (passed.length + 1) := by
    unfold iteratorsOf
    dsimp only
    rw [next_nodeAt ring within, ← List.length_append, nodeAt_append, nodeAt_append]
  unfold UnreliableDispatch.passOld
  dsimp only
  cases run with
  | cons head run =>
      rw [if_pos fun same => nomatch runs.mp same]
      exact ⟨mirrors.moveRun (by simp) _, next⟩
  | nil =>
      rw [if_neg (not_not.mpr (runs.mpr rfl))]
      exact ⟨mirrors.keepRun _, next⟩

/-- **The loop on the nodes is the loop on the sequence.** -/
theorem scan_refines (incomingReliable : Nat) (rest : List IncomingCommand) :
    ∀ {fuel : Nat} {state : UnreliableDispatch} {number dropped : Nat}
      {passed run moved : List IncomingCommand}, rest.length < fuel →
      (∀ command ∈ rest, memory command.address = command) → dropped ≤ passed.length →
      Mirrors peer initial others state ⟨number, passed, run, rest, moved, dropped⟩ →
      ∃ state', scan peer incomingReliable memory fuel state
            (iteratorsOf ⟨number, passed, run, rest, moved, dropped⟩) =
          some (state', iteratorsOf
            (Channel.scanUnreliable incomingReliable number passed run rest moved dropped)) ∧
        Mirrors peer initial others state'
          (Channel.scanUnreliable incomingReliable number passed run rest moved dropped) := by
  induction rest with
  | nil =>
      intro fuel state number dropped passed run moved enough known within mirrors
      cases fuel with
      | zero => exact absurd enough (Nat.not_lt_zero _)
      | succ fuel =>
          refine ⟨state, scan_end ?_, mirrors⟩
          unfold iteratorsOf
          dsimp only
          rw [← List.length_append, nodeAt_length]
          rfl
  | cons command rest ih =>
      intro fuel state number dropped passed run moved enough known within mirrors
      cases fuel with
      | zero => exact absurd enough (Nat.not_lt_zero _)
      | succ fuel =>
          have enough : rest.length < fuel := Nat.lt_of_succ_lt_succ enough
          have own := known command List.mem_cons_self
          have known : ∀ command ∈ rest, memory command.address = command :=
            fun other member => known other (List.mem_cons_of_mem _ member)
          have whole : passed ++ run ++ command :: rest =
              passed ++ (run ++ [command]) ++ rest := by simp
          have here := @iteratorsOf_currentCommand number dropped command passed run rest moved
          rw [scan_command here own]
          unfold Channel.scanUnreliable
          split
          · rw [mirrors.skip number]
            exact ih enough known within ⟨whole ▸ mirrors.rings, mirrors.number, mirrors.schedules⟩
          · split
            next equal =>
                split
                · rw [mirrors.skip command.unreliableSequenceNumber]
                  exact ih enough known within ⟨whole ▸ mirrors.rings, rfl,
                    mirrors.schedules.needsDispatch, mirrors.schedules.dispatchQueue⟩
                · obtain ⟨passes, droppedCommand⟩ := mirrors.passIncomplete within
                  obtain ⟨advances, mirrors'⟩ := passes.advance _ droppedCommand
                  rw [here, advances]
                  refine ih enough known ?_ mirrors'
                  rw [List.length_append, List.length_singleton]
                  split
                  · omega
                  · split <;> omega
            · split
              · exact ⟨state, rfl, mirrors⟩
              · obtain ⟨passes, droppedCommand⟩ := mirrors.passOld
                obtain ⟨advances, mirrors'⟩ := passes.advance _ droppedCommand
                rw [here, advances]
                refine ih enough known ?_ mirrors'
                rw [List.length_append, List.length_singleton]

/-- The move behind the loop. -/
theorem Mirrors.finishRun
    (mirrors : Mirrors peer initial others state ⟨number, passed, run, rest, moved, dropped⟩) :
    let iterators := iteratorsOf ⟨number, passed, run, rest, moved, dropped⟩
    let dropped' := if !run.isEmpty then passed.length else dropped
    Mirrors peer initial others (state.finishRun peer iterators).1
        ⟨number, passed, [], rest, moved ++ run, dropped'⟩ ∧
      (state.finishRun peer iterators).2 = nodeAt (passed ++ rest) dropped' := by
  dsimp only
  have runs := mirrors.startCommand_eq_iff
  unfold UnreliableDispatch.finishRun
  cases run with
  | cons head run =>
      rw [if_pos fun same => nomatch runs.mp same]
      refine ⟨mirrors.moveRun (by simp) _, ?_⟩
      have some : (!(head :: run).isEmpty) = true := rfl
      rw [if_pos some, nodeAt_length]
      unfold iteratorsOf
      dsimp only
      rw [← List.length_append, nodeAt_length]
  | nil =>
      rw [if_neg (not_not.mpr (runs.mpr rfl)), if_neg (by simp)]
      have whole : passed ++ [] ++ rest = passed ++ rest := by rw [List.append_nil]
      exact ⟨mirrors.keepRun _, congrArg (nodeAt · dropped) whole⟩

end Loop

/-! ## The removal -/

/-- **The removal frees the commands of a part of the list**, but for the one just queued. -/
theorem removeCommands_refines (queuedCommand : Option Nat) (after : List IncomingCommand)
    {others : List IncomingNode} (todo : List IncomingCommand) :
    ∀ {fuel : Nat} {links : Links IncomingNode} {kept : List IncomingCommand} (freed : List Nat),
      todo.length < fuel →
      AreRings links .sentinel (incomingLists (commandNodes (kept ++ todo ++ after)) others) →
      ∃ links', removeCommands queuedCommand (nodeAt after 0) fuel links
            (nodeAt (todo ++ after) 0) freed =
          some (links', freed ++ (todo.filter fun command =>
            !decide (some command.address = queuedCommand)).map IncomingCommand.address) ∧
        AreRings links' .sentinel (incomingLists (commandNodes (kept ++ todo.filter
          (fun command => decide (some command.address = queuedCommand)) ++ after)) others) := by
  induction todo with
  | nil =>
      intro fuel links kept freed enough rings
      cases fuel with
      | zero => exact absurd enough (Nat.not_lt_zero _)
      | succ fuel =>
          refine ⟨links, ?_, rings⟩
          unfold removeCommands
          rw [List.nil_append, if_pos rfl, List.filter_nil, List.map_nil, List.append_nil]
  | cons command todo ih =>
      intro fuel links kept freed enough rings
      cases fuel with
      | zero => exact absurd enough (Nat.not_lt_zero _)
      | succ fuel =>
          have enough : todo.length < fuel := Nat.lt_of_succ_lt_succ enough
          have ring : IsRing links (.sentinel .unreliable)
              (commandNodes (kept ++ command :: todo ++ after)) := rings.ring .unreliable
          have split : kept ++ command :: todo ++ after = kept ++ command :: (todo ++ after) := by
            simp
          have here : nodeAt (kept ++ command :: todo ++ after) kept.length =
              .command command.address := by
            rw [split, nodeAt_length, nodeAt_cons]
          have within : kept.length < (kept ++ command :: todo ++ after).length := by
            rw [split]
            simp
          have next : links.next (.command command.address) = nodeAt (todo ++ after) 0 := by
            rw [← here, next_nodeAt ring within, split, nodeAt_append]
            exact nodeAt_append [command] (todo ++ after) 0
          have ends : nodeAt (kept ++ command :: todo ++ after)
              (kept ++ command :: todo).length = nodeAt after 0 := nodeAt_length ..
          have apart : IncomingNode.command command.address ≠ nodeAt after 0 := by
            intro same
            rw [← here, ← ends] at same
            have places := nodeAt_injective (List.nodup_cons.mp ring.distinct).2 within.le
              (by simp) same
            rw [List.length_append, List.length_cons] at places
            omega
          unfold removeCommands
          rw [List.cons_append, nodeAt_cons, if_neg apart]
          dsimp only
          rw [next]
          split
          next same =>
              rw [List.filter_cons_of_neg (by simp [same]),
                List.filter_cons_of_pos (by simp [same])]
              have whole : kept ++ command :: todo ++ after =
                  kept ++ [command] ++ todo ++ after := by
                simp
              obtain ⟨links', removes, rings'⟩ :=
                @ih fuel links (kept ++ [command]) freed enough (whole ▸ rings)
              refine ⟨links', removes, ?_⟩
              simpa using rings'
          next different =>
              rw [List.filter_cons_of_pos (by simp [different]),
                List.filter_cons_of_neg (by simp [different])]
              have at_ : incomingLists (commandNodes (kept ++ command :: todo ++ after)) others
                  .unreliable = commandNodes kept ++ .command command.address ::
                    commandNodes (todo ++ after) := by
                rw [split]
                simp [incomingLists, commandNodes]
              have removed := rings.remove at_
              rw [update_unreliable, ← commandNodes_append, ← List.append_assoc] at removed
              obtain ⟨links', removes, rings'⟩ :=
                @ih fuel _ kept (freed ++ [command.address]) enough removed
              refine ⟨links', removes.trans ?_, rings'⟩
              simp

/-! ## The whole dispatch -/

section Dispatch

variable {channel : Channel} {memory : Nat → IncomingCommand} {others : List IncomingNode}
  {fuel : Nat}

/-- The nodes up to the removal: `droppedCommand` is a node of the list, or its end. -/
theorem splice_refines
    (rings : AreRings state.links .sentinel
      (incomingLists (commandNodes channel.incomingUnreliableCommands) others))
    (number : state.incomingUnreliableSequenceNumber = channel.incomingUnreliableSequenceNumber)
    (known : ∀ command ∈ channel.incomingUnreliableCommands, memory command.address = command)
    (enough : channel.incomingUnreliableCommands.length < fuel) (queuedCommand : Option Nat) :
    ∃ spliced, splice peer channel.incomingReliableSequenceNumber memory fuel state =
        some (spliced, nodeAt channel.remaining.1 channel.remaining.2) ∧
      Mirrors peer state others spliced
        ⟨(channel.dispatchUnreliable queuedCommand).channel.incomingUnreliableSequenceNumber,
          channel.remaining.1, [], [], (channel.dispatchUnreliable queuedCommand).moved,
          channel.remaining.2⟩ := by
  have starts : Mirrors peer state others state
      ⟨channel.incomingUnreliableSequenceNumber, [], [], channel.incomingUnreliableCommands, [],
        0⟩ := by
    refine ⟨?_, number, .refl peer state⟩
    have none : others ++ commandNodes [] = others := List.append_nil others
    dsimp only
    rw [none]
    exact rings
  obtain ⟨scanned, scans, mirrors⟩ := scan_refines channel.incomingReliableSequenceNumber
    channel.incomingUnreliableCommands enough known (Nat.le_refl 0) starts
  obtain ⟨finishes, droppedCommand⟩ := mirrors.finishRun
  refine ⟨_, ?_, ?_, finishes.number, finishes.schedules⟩
  · unfold splice
    dsimp only
    rw [next_sentinel (rings.ring .unreliable)]
    refine (congrArg (Option.map _) scans).trans ?_
    exact congrArg some (Prod.ext rfl droppedCommand)
  · have held := finishes.rings
    dsimp only at held ⊢
    rw [List.append_nil] at held
    rw [List.append_nil, List.append_nil]
    exact held

/-- **The dispatch on the nodes is the dispatch of the sequence.** -/
theorem dispatch_refines
    (rings : AreRings state.links .sentinel
      (incomingLists (commandNodes channel.incomingUnreliableCommands) others))
    (number : state.incomingUnreliableSequenceNumber = channel.incomingUnreliableSequenceNumber)
    (known : ∀ command ∈ channel.incomingUnreliableCommands, memory command.address = command)
    (enough : channel.incomingUnreliableCommands.length < fuel) (queuedCommand : Option Nat) :
    ∃ dispatched, dispatch peer channel.incomingReliableSequenceNumber memory queuedCommand fuel
          state =
        some (dispatched, (channel.dispatchUnreliable queuedCommand).removed.map
          IncomingCommand.address) ∧
      AreRings dispatched.links .sentinel (incomingLists
        (commandNodes (channel.dispatchUnreliable queuedCommand).channel.incomingUnreliableCommands)
        (others ++ commandNodes (channel.dispatchUnreliable queuedCommand).moved)) ∧
      dispatched.incomingUnreliableSequenceNumber =
        (channel.dispatchUnreliable queuedCommand).channel.incomingUnreliableSequenceNumber ∧
      Schedules peer (channel.dispatchUnreliable queuedCommand).moved state dispatched := by
  obtain ⟨spliced, splices, mirrors⟩ :=
    @splice_refines state peer channel memory others fuel rings number known enough queuedCommand
  have held := mirrors.rings
  dsimp only at held
  rw [List.append_nil, List.append_nil] at held
  have ring : IsRing spliced.links (.sentinel .unreliable) (commandNodes channel.remaining.1) :=
    held.ring .unreliable
  have parts := List.take_append_drop channel.remaining.2 channel.remaining.1
  have short : channel.remaining.1.length ≤ channel.incomingUnreliableCommands.length := by
    have sublist := Channel.scanUnreliable_sublist channel.incomingReliableSequenceNumber
      channel.incomingUnreliableCommands channel.incomingUnreliableSequenceNumber [] [] [] 0
    exact sublist.length_le
  have within : channel.remaining.2 ≤ channel.remaining.1.length := by
    have drops := channel.remaining_drops.within
    rw [Channel.remaining_eq, List.length_append]
    omega
  have taken : (channel.remaining.1.take channel.remaining.2).length = channel.remaining.2 :=
    List.length_take_of_le within
  have ends : nodeAt channel.remaining.1 channel.remaining.2 =
      nodeAt (channel.remaining.1.drop channel.remaining.2) 0 := by
    conv => lhs; rw [← parts]
    refine Eq.trans ?_ (nodeAt_length (channel.remaining.1.take channel.remaining.2) _)
    rw [taken]
  obtain ⟨links, removes, rings'⟩ := @removeCommands_refines queuedCommand
    (channel.remaining.1.drop channel.remaining.2) (others ++ commandNodes
      (channel.dispatchUnreliable queuedCommand).moved)
    (channel.remaining.1.take channel.remaining.2) fuel spliced.links [] [] (by omega)
    (by rw [List.nil_append, parts]; exact held)
  refine ⟨spliced.setLinks links, ?_, rings', mirrors.number, mirrors.schedules.needsDispatch,
    mirrors.schedules.dispatchQueue⟩
  unfold dispatch
  rw [splices]
  dsimp only
  rw [next_sentinel ring, ends]
  rw [parts] at removes
  rw [removes]
  rfl

/-- **The unreliable dispatch partitions its list.** Whatever the list of the channel
holds: the loops end; `droppedCommand` is a node of what is left in the list, or its end,
when the removal starts; every command is moved to the end of `dispatchedCommands`, freed
once, or left, each in order, as the dispatch of the sequence says; moved are exactly the
deliverable commands before the first one ahead; the one just queued is not freed. In the
order in which commands are queued, neither an unsequenced nor an old command is left. -/
theorem unreliableDispatch_partitions
    (rings : AreRings state.links .sentinel
      (incomingLists (commandNodes channel.incomingUnreliableCommands) others))
    (number : state.incomingUnreliableSequenceNumber = channel.incomingUnreliableSequenceNumber)
    (known : ∀ command ∈ channel.incomingUnreliableCommands, memory command.address = command)
    (enough : channel.incomingUnreliableCommands.length < fuel) (queuedCommand : Option Nat) :
    let sequence := channel.dispatchUnreliable queuedCommand
    let left := sequence.channel.incomingUnreliableCommands
    (∃ spliced droppedCommand,
        splice peer channel.incomingReliableSequenceNumber memory fuel state =
            some (spliced, droppedCommand) ∧
          AreRings spliced.links .sentinel (incomingLists (commandNodes channel.remaining.1)
            (others ++ commandNodes sequence.moved)) ∧
          droppedCommand ∈ .sentinel .unreliable :: commandNodes channel.remaining.1) ∧
      (∃ dispatched, dispatch peer channel.incomingReliableSequenceNumber memory queuedCommand
            fuel state = some (dispatched, sequence.removed.map IncomingCommand.address) ∧
          AreRings dispatched.links .sentinel
            (incomingLists (commandNodes left) (others ++ commandNodes sequence.moved)) ∧
          Schedules peer sequence.moved state dispatched) ∧
      Channel.Partitions channel.incomingReliableSequenceNumber queuedCommand
        channel.incomingUnreliableCommands sequence.moved sequence.removed left ∧
      ((sequence.moved ++ sequence.removed ++ left).map IncomingCommand.address).Nodup := by
  intro sequence left
  have partitions := channel.dispatchUnreliable_partitions queuedCommand
  obtain ⟨spliced, splices, mirrors⟩ :=
    @splice_refines state peer channel memory others fuel rings number known enough queuedCommand
  obtain ⟨dispatched, dispatches, rings', -, schedules⟩ :=
    @dispatch_refines state peer channel memory others fuel rings number known enough queuedCommand
  have held := mirrors.rings
  dsimp only at held
  rw [List.append_nil, List.append_nil] at held
  refine ⟨⟨spliced, _, splices, held, ?_⟩, ⟨dispatched, dispatches, rings', schedules⟩,
    partitions, ?_⟩
  · unfold nodeAt
    cases found : (commandNodes channel.remaining.1)[channel.remaining.2]? with
    | none => exact List.mem_cons_self
    | some node => exact List.mem_cons_of_mem _ (List.mem_of_getElem? found)
  · have distinct : (commandNodes channel.incomingUnreliableCommands).Nodup :=
      (List.nodup_cons.mp (rings.ring .unreliable).distinct).2
    have apart : (channel.incomingUnreliableCommands.map IncomingCommand.address).Nodup := by
      refine List.Nodup.of_map IncomingNode.command ?_
      rw [List.map_map]
      exact distinct
    exact ((partitions.each.map _).nodup_iff).mpr apart

end Dispatch

/-- Commands linked into the list of a channel, one after the other. -/
def linkCommands (commands : List IncomingCommand) : Links IncomingNode :=
  commands.foldl (fun links command =>
    (listInsert links (.sentinel .unreliable) (.command command.address)).1) ⟨id, id⟩

theorem linkCommands_areRings {commands : List IncomingCommand}
    (distinct : (commandNodes commands).Nodup) :
    AreRings (linkCommands commands) .sentinel (incomingLists (commandNodes commands) []) := by
  induction commands using List.reverseRecOn with
  | nil =>
      refine ⟨fun list => ?_, fun list other different node member inOther => ?_⟩
      · cases list <;> exact ⟨by simp [incomingLists, commandNodes], rfl, rfl⟩
      · cases list <;> cases other <;> simp_all [incomingLists, commandNodes]
  | append_singleton commands command ih =>
      rw [commandNodes_append, List.nodup_append] at distinct
      obtain ⟨distinct, -, apart⟩ := distinct
      have rings := ih distinct
      have fresh : ∀ list, IncomingNode.command command.address ∉
          .sentinel list :: incomingLists (commandNodes commands) [] list := by
        intro list member
        cases list with
        | unreliable =>
            rcases List.mem_cons.mp member with same | member
            · cases same
            · exact apart _ member _ List.mem_cons_self rfl
        | dispatched => simp [incomingLists] at member
      have whole : incomingLists (commandNodes commands) [] .unreliable =
          commandNodes commands ++ [] := (List.append_nil _).symm
      have inserted := rings.insert whole fresh rfl
      rw [update_unreliable] at inserted
      unfold linkCommands
      rw [List.foldl_append, commandNodes_append]
      exact inserted

end UnreliableDispatch

/-- A received unreliable command. -/
def sampleCommand (address number fragmentsRemaining : Nat) (command : Command) :
    IncomingCommand where
  address := address
  reliableSequenceNumber := number
  unreliableSequenceNumber := address
  command := ⟨command, false, false, 0, number⟩
  fragmentCount := fragmentsRemaining
  fragmentsRemaining := fragmentsRemaining
  fragments := fun _ => false
  packet := ⟨address, ⟨false, false, false, false⟩, []⟩

/-- A channel at the reliable number 5: an old command, two complete ones around one that
waits for a fragment, and one ahead. -/
def sampleChannel : Channel :=
  { Channel.empty with
    incomingReliableSequenceNumber := 5
    incomingUnreliableCommands := [sampleCommand 1 3 0 (.sendUnreliable 1 0),
      sampleCommand 2 5 0 (.sendUnreliable 2 0), sampleCommand 3 5 1 (.sendUnreliable 3 0),
      sampleCommand 4 5 0 (.sendUnreliable 4 0), sampleCommand 5 6 0 (.sendUnreliable 5 0)] }

/-- The nodes of the sample channel, before its peer has anything dispatched. -/
def sampleDispatch : UnreliableDispatch where
  links := UnreliableDispatch.linkCommands sampleChannel.incomingUnreliableCommands
  incomingUnreliableSequenceNumber := 0
  needsDispatch := false
  dispatchQueue := Links.clear ⟨id, id⟩ .sentinel

/-- The memory of the sample channel. -/
def sampleMemory (address : Nat) : IncomingCommand :=
  sampleChannel.incomingUnreliableCommands.getD (address - 1)
    (sampleCommand address 0 0 (.sendUnreliable 0 0))

/-- The old command is freed, and the two complete ones are moved. -/
theorem unreliableDispatch_partitions_sample :
    ∃ dispatched, UnreliableDispatch.dispatch 0 5 sampleMemory (some 3) 6 sampleDispatch =
        some (dispatched, [1]) ∧
      AreRings dispatched.links .sentinel
        (incomingLists [.command 3, .command 5] [.command 2, .command 4]) := by
  have rings := UnreliableDispatch.linkCommands_areRings
    (show (commandNodes sampleChannel.incomingUnreliableCommands).Nodup by decide)
  have known : ∀ command ∈ sampleChannel.incomingUnreliableCommands,
      sampleMemory command.address = command := by
    simp [sampleChannel, sampleMemory, sampleCommand]
  obtain ⟨-, ⟨dispatched, dispatches, held, -⟩, -⟩ :=
    @UnreliableDispatch.unreliableDispatch_partitions sampleDispatch 0 sampleChannel sampleMemory []
      6 rings rfl known (by decide) (some 3)
  refine ⟨dispatched, dispatches, ?_⟩
  exact held

end Enet
