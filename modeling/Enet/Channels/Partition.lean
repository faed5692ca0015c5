import Mathlib.Data.List.TakeWhile
import Enet.Channels.Dispatch
import Enet.Channels.Windows

/-!
# What an unreliable dispatch does with each command

The loop of the unreliable dispatch ends at the first command ahead of the
current reliable number in the accepted windows. Of the commands before it, the
deliverable ones are moved and the others stay. `droppedCommand` is behind every
command that stays although it is old, so that the removal frees all of those.
-/

set_option autoImplicit false

namespace Enet.Channel

/-! ## Where a command stands -/

/-- A command ahead of the current reliable number, in the accepted windows. -/
def isAhead (current : Nat) (command : IncomingCommand) : Bool :=
  !isUnsequenced command && decide (command.reliableSequenceNumber ≠ current) &&
    inWindow current command.reliableSequenceNumber

/-- A command behind the current reliable number: neither at it nor accepted. -/
def isBehind (current : Nat) (command : IncomingCommand) : Bool :=
  !isUnsequenced command && decide (command.reliableSequenceNumber ≠ current) &&
    !inWindow current command.reliableSequenceNumber

/-- A command of an unsequenced packet, or a complete one at the current number. -/
def isDeliverable (current : Nat) (command : IncomingCommand) : Bool :=
  isUnsequenced command ||
    (decide (command.reliableSequenceNumber = current) &&
      decide (command.fragmentsRemaining ≤ 0))

/-- The commands before the first one ahead. -/
def reached (current : Nat) (commands : List IncomingCommand) : List IncomingCommand :=
  commands.takeWhile fun command => !isAhead current command

/-- The first command ahead and those behind it in the list. -/
def unreached (current : Nat) (commands : List IncomingCommand) : List IncomingCommand :=
  commands.dropWhile fun command => !isAhead current command

/-- The order of a list of unreliable commands: those ahead come last. -/
def InOrder (current : Nat) (commands : List IncomingCommand) : Prop :=
  commands.Pairwise fun first second =>
    isAhead current first = true → isAhead current second = true

theorem reached_append_unreached (current : Nat) (commands : List IncomingCommand) :
    reached current commands ++ unreached current commands = commands :=
  List.takeWhile_append_dropWhile

/-- In order, nothing but commands ahead is behind the first one ahead. -/
theorem isAhead_of_unreached {current : Nat} {commands : List IncomingCommand}
    (ordered : InOrder current commands) :
    ∀ command ∈ unreached current commands, isAhead current command = true := by
  induction commands with
  | nil => intro command member; cases member
  | cons first rest ih =>
      intro command member
      obtain ⟨later, orderedRest⟩ := List.pairwise_cons.mp ordered
      unfold unreached at ih member
      by_cases ahead : isAhead current first = true
      · rw [List.dropWhile_cons_of_neg (by simp [ahead])] at member
        rcases List.mem_cons.mp member with rfl | member
        · exact ahead
        · exact later command member ahead
      · rw [List.dropWhile_cons_of_pos (by simp [ahead])] at member
        exact ih orderedRest command member

/-- A search past one number goes down from another. -/
theorem offset_le_of_compareUnreliable {current number unreliableNumber other unreliableOther : Nat}
    (typed : current < 65536 ∧ number < 65536 ∧ other < 65536)
    (before : compareUnreliable current number unreliableNumber other unreliableOther = .lt) :
    (other + 65536 - current) % 65536 ≤ (number + 65536 - current) % 65536 := by
  unfold compareUnreliable at before
  split at before
  · cases before
  · split at before
    · omega
    · split at before
      · omega
      · split at before
        · cases before
        · omega

/-- **The order in which commands are queued.** Commands in the order in which the
search of the unreliable list keeps them, at an earlier current number from which
their numbers and the current one now are accepted, are in order. -/
theorem inOrder_of_queued {queuedAt current : Nat} {commands : List IncomingCommand}
    (typed : (queuedAt < 65536 ∧ current < 65536) ∧
      ∀ command ∈ commands, command.reliableSequenceNumber < 65536)
    (sequenced : ∀ command ∈ commands, isUnsequenced command = false)
    (accepted : ∀ command ∈ commands, inWindow queuedAt command.reliableSequenceNumber = true)
    (reaches : inWindow queuedAt current = true)
    (sorted : commands.Pairwise fun first second =>
      compareUnreliable queuedAt second.reliableSequenceNumber second.unreliableSequenceNumber
        first.reliableSequenceNumber first.unreliableSequenceNumber = .lt) :
    InOrder current commands := by
  refine sorted.imp_of_mem fun {first second} inFirst inSecond before ahead => ?_
  have firstTyped := typed.2 first inFirst
  have secondTyped := typed.2 second inSecond
  have order := offset_le_of_compareUnreliable ⟨typed.1.1, secondTyped, firstTyped⟩ before
  unfold isAhead at ahead ⊢
  simp only [sequenced second inSecond, Bool.and_eq_true, decide_eq_true_eq, Bool.not_false,
    true_and] at ahead ⊢
  exact inWindow_later ⟨typed.1, firstTyped, secondTyped⟩ order (accepted second inSecond) reaches
    ahead.2 ahead.1.2

/-- A command of an unsequenced packet is put in front of the others. -/
theorem InOrder.unsequenced {current : Nat} {command : IncomingCommand}
    {commands : List IncomingCommand} (ordered : InOrder current commands)
    (unsequenced : isUnsequenced command = true) : InOrder current (command :: commands) := by
  refine List.pairwise_cons.mpr ⟨fun other _ ahead => ?_, ordered⟩
  unfold isAhead at ahead
  rw [unsequenced] at ahead
  cases ahead

/-! ## The loop -/

/-- What the loop does with the commands it reaches: the deliverable ones are moved, or
are in the last run, and the others are passed. -/
theorem scanUnreliable_splits (current : Nat) (rest : List IncomingCommand) :
    ∀ (number : Nat) (passed run moved : List IncomingCommand) (dropped : Nat),
      (scanUnreliable current number passed run rest moved dropped).moved ++
          (scanUnreliable current number passed run rest moved dropped).run =
        moved ++ run ++ (reached current rest).filter (isDeliverable current) ∧
      (scanUnreliable current number passed run rest moved dropped).passed =
        passed ++ (reached current rest).filter (fun command => !isDeliverable current command) ∧
      (scanUnreliable current number passed run rest moved dropped).rest =
        unreached current rest := by
  induction rest with
  | nil => intro number passed run moved dropped; simp [scanUnreliable, reached, unreached]
  | cons command rest ih =>
      intro number passed run moved dropped
      have reaches : ∀ (sequenced : isAhead current command = false),
          reached current (command :: rest) = command :: reached current rest ∧
            unreached current (command :: rest) = unreached current rest := by
        intro notAhead
        exact ⟨List.takeWhile_cons_of_pos (by simp [notAhead]),
          List.dropWhile_cons_of_pos (by simp [notAhead])⟩
      unfold scanUnreliable
      split
      next unsequenced =>
          have notAhead : isAhead current command = false := by simp [isAhead, unsequenced]
          have delivers : isDeliverable current command = true := by
            simp [isDeliverable, unsequenced]
          obtain ⟨takes, leaves⟩ := reaches notAhead
          obtain ⟨movedRun, passes, rests⟩ := ih number passed (run ++ [command]) moved dropped
          rw [takes, leaves, List.filter_cons_of_pos delivers, List.filter_cons_of_neg
            (by simp [delivers])]
          refine ⟨movedRun.trans ?_, passes, rests⟩
          simp
      next sequenced =>
          have sequenced : isUnsequenced command = false := by simpa using sequenced
          split
          next equal =>
              have notAhead : isAhead current command = false := by simp [isAhead, equal]
              obtain ⟨takes, leaves⟩ := reaches notAhead
              split
              next complete =>
                  have delivers : isDeliverable current command = true := by
                    simpa [isDeliverable, equal] using Or.inr complete
                  obtain ⟨movedRun, passes, rests⟩ :=
                    ih command.unreliableSequenceNumber passed (run ++ [command]) moved dropped
                  rw [takes, leaves, List.filter_cons_of_pos delivers, List.filter_cons_of_neg
                    (by simp [delivers])]
                  refine ⟨movedRun.trans ?_, passes, rests⟩
                  simp
              next incomplete =>
                  have stays : isDeliverable current command = false := by
                    simpa [isDeliverable, sequenced, equal] using incomplete
                  dsimp only
                  obtain ⟨movedRun, passes, rests⟩ :=
                    ih number (passed ++ [command]) [] (moved ++ run) (if !run.isEmpty then
                      passed.length else if dropped ≠ passed.length then passed.length - 1
                      else dropped)
                  rw [takes, leaves, List.filter_cons_of_neg (by simp [stays]),
                    List.filter_cons_of_pos (by simp [stays])]
                  refine ⟨movedRun.trans ?_, passes.trans ?_, rests⟩
                  · simp
                  · simp
          next different =>
              split
              next accepted =>
                  have ahead : isAhead current command = true := by
                    simp [isAhead, sequenced, different, accepted]
                  have takes : reached current (command :: rest) = [] :=
                    List.takeWhile_cons_of_neg (by simp [ahead])
                  have leaves : unreached current (command :: rest) = command :: rest :=
                    List.dropWhile_cons_of_neg (by simp [ahead])
                  rw [takes, leaves]
                  simp
              next old =>
                  have notAhead : isAhead current command = false := by simp [isAhead, old]
                  have stays : isDeliverable current command = false := by
                    simp [isDeliverable, sequenced, different]
                  obtain ⟨takes, leaves⟩ := reaches notAhead
                  obtain ⟨movedRun, passes, rests⟩ :=
                    ih number (passed ++ [command]) [] (moved ++ run) (passed.length + 1)
                  rw [takes, leaves, List.filter_cons_of_neg (by simp [stays]),
                    List.filter_cons_of_pos (by simp [stays])]
                  refine ⟨movedRun.trans ?_, passes.trans ?_, rests⟩
                  · simp
                  · simp

/-- `droppedCommand` is behind every old command that the loop has passed. -/
structure Drops (current : Nat) (passed : List IncomingCommand) (dropped : Nat) : Prop where
  within : dropped ≤ passed.length
  fresh : ∀ command ∈ passed.drop dropped, isBehind current command = false

theorem Drops.start (current : Nat) : Drops current [] 0 :=
  ⟨Nat.le_refl 0, fun _ member => nomatch member⟩

/-- The iterators that the loop stores once a command is passed. -/
theorem Drops.all {current : Nat} (passed : List IncomingCommand) :
    Drops current passed passed.length := by
  refine ⟨Nat.le_refl _, fun command member => ?_⟩
  rw [List.drop_length] at member
  cases member

/-- An incomplete command is passed, which is not old. -/
theorem Drops.incomplete {current : Nat} {passed : List IncomingCommand} {dropped : Nat}
    {command : IncomingCommand} (drops : Drops current passed dropped)
    (equal : command.reliableSequenceNumber = current) (run : List IncomingCommand) :
    Drops current (passed ++ [command])
      (if !run.isEmpty then passed.length
        else if dropped ≠ passed.length then passed.length - 1 else dropped) := by
  have own : isBehind current command = false := by simp [isBehind, equal]
  have last : ∀ other ∈ (passed ++ [command]).drop passed.length,
      isBehind current other = false := by
    intro other member
    rw [List.drop_left, List.mem_singleton] at member
    exact member ▸ own
  obtain ⟨within, fresh⟩ := drops
  have longer : (passed ++ [command]).length = passed.length + 1 := by simp
  split
  · exact ⟨by omega, last⟩
  · split
    next short =>
        refine ⟨by omega, fun other member => ?_⟩
        rw [List.drop_append_of_le_length (by omega), List.mem_append,
          List.mem_singleton] at member
        rcases member with inPassed | rfl
        · refine fresh other (List.mem_of_mem_drop (i := passed.length - 1 - dropped) ?_)
          rw [List.drop_drop]
          have whole : dropped + (passed.length - 1 - dropped) = passed.length - 1 := by omega
          rw [whole]
          exact inPassed
        · exact own
    next equalLength =>
        have same : dropped = passed.length := not_not.mp equalLength
        exact ⟨by omega, same ▸ last⟩

/-- **The loop leaves `droppedCommand` behind every old command.** -/
theorem scanUnreliable_drops (current : Nat) (rest : List IncomingCommand) :
    ∀ (number : Nat) (passed run moved : List IncomingCommand) (dropped : Nat),
      Drops current passed dropped →
      Drops current (scanUnreliable current number passed run rest moved dropped).passed
        (scanUnreliable current number passed run rest moved dropped).dropped := by
  induction rest with
  | nil => intro number passed run moved dropped drops; exact drops
  | cons command rest ih =>
      intro number passed run moved dropped drops
      unfold scanUnreliable
      split
      · exact ih _ _ _ _ _ drops
      · split
        next equal =>
            split
            · exact ih _ _ _ _ _ drops
            · exact ih _ _ _ _ _ (drops.incomplete equal run)
        · split
          · exact drops
          · refine ih _ _ _ _ _ ?_
            have longer : (passed ++ [command]).length = passed.length + 1 := by simp
            rw [← longer]
            exact .all _

/-! ## The whole dispatch -/

/-- What a dispatch does with the commands of a list: it moves some, frees some and
leaves the others. -/
structure Partitions (current : Nat) (queuedCommand : Option Nat)
    (commands moved removed left : List IncomingCommand) : Prop where
  each : (moved ++ removed ++ left).Perm commands
  removedInOrder : removed.Sublist commands
  leftInOrder : left.Sublist commands
  delivered : moved = (reached current commands).filter (isDeliverable current)
  queued : ∀ command ∈ removed, some command.address ≠ queuedCommand
  settled : InOrder current commands →
    (∀ command ∈ commands, some command.address = queuedCommand →
      isBehind current command = false) →
    ∀ command ∈ left, isUnsequenced command = false ∧ isBehind current command = false

/-- The commands in the list when the removal starts, and how many of them are before
`droppedCommand`. -/
def remaining (channel : Channel) : List IncomingCommand × Nat :=
  let scanned := scanUnreliable channel.incomingReliableSequenceNumber
    channel.incomingUnreliableSequenceNumber [] [] channel.incomingUnreliableCommands [] 0
  (scanned.passed ++ scanned.rest,
    if !scanned.run.isEmpty then scanned.passed.length else scanned.dropped)

theorem remaining_eq (channel : Channel) :
    channel.remaining.1 =
      (reached channel.incomingReliableSequenceNumber channel.incomingUnreliableCommands).filter
          (fun command => !isDeliverable channel.incomingReliableSequenceNumber command) ++
        unreached channel.incomingReliableSequenceNumber channel.incomingUnreliableCommands := by
  obtain ⟨-, passes, rests⟩ := scanUnreliable_splits channel.incomingReliableSequenceNumber
    channel.incomingUnreliableCommands channel.incomingUnreliableSequenceNumber [] [] [] 0
  unfold remaining
  dsimp only
  rw [passes, rests, List.nil_append]

/-- `droppedCommand` is in the part of the list that the loop has passed, behind every
old command of that part. -/
theorem remaining_drops (channel : Channel) :
    Drops channel.incomingReliableSequenceNumber
      ((reached channel.incomingReliableSequenceNumber channel.incomingUnreliableCommands).filter
        fun command => !isDeliverable channel.incomingReliableSequenceNumber command)
      channel.remaining.2 := by
  have drops := scanUnreliable_drops channel.incomingReliableSequenceNumber
    channel.incomingUnreliableCommands channel.incomingUnreliableSequenceNumber [] [] [] 0
    (.start _)
  obtain ⟨-, passes, -⟩ := scanUnreliable_splits channel.incomingReliableSequenceNumber
    channel.incomingUnreliableCommands channel.incomingUnreliableSequenceNumber [] [] [] 0
  rw [List.nil_append] at passes
  rw [← passes]
  unfold remaining
  dsimp only
  split
  · exact .all _
  · exact drops

/-- **An unreliable dispatch partitions its list.** -/
theorem dispatchUnreliable_partitions (channel : Channel) (queuedCommand : Option Nat) :
    Partitions channel.incomingReliableSequenceNumber queuedCommand
      channel.incomingUnreliableCommands (channel.dispatchUnreliable queuedCommand).moved
      (channel.dispatchUnreliable queuedCommand).removed
      (channel.dispatchUnreliable queuedCommand).channel.incomingUnreliableCommands := by
  have delivered : (channel.dispatchUnreliable queuedCommand).moved =
      (reached channel.incomingReliableSequenceNumber channel.incomingUnreliableCommands).filter
        (isDeliverable channel.incomingReliableSequenceNumber) :=
    (scanUnreliable_splits channel.incomingReliableSequenceNumber
      channel.incomingUnreliableCommands channel.incomingUnreliableSequenceNumber [] [] [] 0).1
  have removed : (channel.dispatchUnreliable queuedCommand).removed =
      (channel.remaining.1.take channel.remaining.2).filter
        fun command => !decide (some command.address = queuedCommand) := rfl
  have left : (channel.dispatchUnreliable queuedCommand).channel.incomingUnreliableCommands =
      (channel.remaining.1.take channel.remaining.2).filter
          (fun command => decide (some command.address = queuedCommand)) ++
        channel.remaining.1.drop channel.remaining.2 := rfl
  have whole : channel.remaining.1.Sublist channel.incomingUnreliableCommands := by
    rw [remaining_eq, ← reached_append_unreached channel.incomingReliableSequenceNumber
      channel.incomingUnreliableCommands]
    conv => lhs; rw [reached_append_unreached]
    exact List.filter_sublist.append_right _
  refine ⟨?_, ?_, dispatchUnreliable_sublist channel queuedCommand, delivered, ?_, ?_⟩
  · have rest : ((channel.dispatchUnreliable queuedCommand).removed ++ (channel.dispatchUnreliable
        queuedCommand).channel.incomingUnreliableCommands).Perm channel.remaining.1 := by
      rw [removed, left, ← List.append_assoc]
      refine List.Perm.trans (List.Perm.append_right _ ?_)
        (List.Perm.of_eq (List.take_append_drop channel.remaining.2 channel.remaining.1))
      refine List.perm_append_comm.trans ?_
      simpa using List.filter_append_perm
        (fun command : IncomingCommand => decide (some command.address = queuedCommand))
        (channel.remaining.1.take channel.remaining.2)
    rw [List.append_assoc]
    refine (List.Perm.append_left _ rest).trans ?_
    rw [delivered, remaining_eq, ← List.append_assoc]
    refine (List.Perm.append_right _ (List.filter_append_perm _ _)).trans ?_
    exact .of_eq (reached_append_unreached ..)
  · rw [removed]
    exact List.filter_sublist.trans ((List.take_sublist ..).trans whole)
  · intro command member
    rw [removed] at member
    simpa using (List.mem_filter.mp member).2
  · intro ordered queued command member
    obtain ⟨within, fresh⟩ := channel.remaining_drops
    have stays : ∀ other ∈ (reached channel.incomingReliableSequenceNumber
        channel.incomingUnreliableCommands).filter
          (fun command => !isDeliverable channel.incomingReliableSequenceNumber command),
        isUnsequenced other = false := by
      intro other inReached
      have kept := (List.mem_filter.mp inReached).2
      unfold isDeliverable at kept
      simp only [Bool.not_or, Bool.and_eq_true, Bool.not_eq_true'] at kept
      exact kept.1
    have aheads : ∀ other ∈ unreached channel.incomingReliableSequenceNumber
        channel.incomingUnreliableCommands, isUnsequenced other = false ∧
          isBehind channel.incomingReliableSequenceNumber other = false := by
      intro other inUnreached
      have ahead := isAhead_of_unreached ordered other inUnreached
      unfold isAhead at ahead
      simp only [Bool.and_eq_true, Bool.not_eq_true'] at ahead
      refine ⟨ahead.1.1, ?_⟩
      unfold isBehind
      rw [ahead.2, Bool.not_true, Bool.and_false]
    rw [left, List.mem_append] at member
    rcases member with kept | behind
    · obtain ⟨taken, same⟩ := List.mem_filter.mp kept
      have inWhole := List.mem_of_mem_take taken
      have notBehind := queued command (whole.subset inWhole) (of_decide_eq_true same)
      rw [remaining_eq, List.mem_append] at inWhole
      rcases inWhole with inReached | inUnreached
      · exact ⟨stays command inReached, notBehind⟩
      · exact aheads command inUnreached
    · rw [remaining_eq, List.drop_append_of_le_length within, List.mem_append] at behind
      rcases behind with inReached | inUnreached
      · exact ⟨stays command (List.mem_of_mem_drop inReached), fresh command inReached⟩
      · exact aheads command inUnreached

end Enet.Channel
