import Enet.Channels.Search

/-!
# What a dispatch leaves in a channel

The loop over the reliable commands takes a prefix of its list, all of it
complete. The loop over the unreliable commands takes runs out of its list; what
is left keeps its order, and an incomplete command is left, unless it is before
`droppedCommand` and not the one just queued.
-/

set_option autoImplicit false

namespace Enet.Channel

/-- One of the two lists of received commands. -/
def incomingCommands (channel : Channel) (reliable : Bool) : List IncomingCommand :=
  if reliable then channel.incomingReliableCommands else channel.incomingUnreliableCommands

/-! ## Reliable commands -/

theorem takeReliable_append (commands : List IncomingCommand) : ∀ current : Nat,
    (takeReliable current commands).1 ++ (takeReliable current commands).2.1 = commands := by
  induction commands with
  | nil => intro current; rfl
  | cons command rest ih =>
      intro current
      unfold takeReliable
      split
      · rfl
      · exact congrArg (command :: ·) (ih _)

theorem takeReliable_complete (commands : List IncomingCommand) : ∀ current : Nat,
    ∀ command ∈ (takeReliable current commands).1, command.fragmentsRemaining = 0 := by
  induction commands with
  | nil => intro current command member; cases member
  | cons head rest ih =>
      intro current command member
      unfold takeReliable at member
      split at member
      · cases member
      next complete =>
          rcases List.mem_cons.mp member with same | member
          · rw [same]
            omega
          · exact ih _ command member

/-- An incomplete reliable command is left. -/
theorem takeReliable_keeps {commands : List IncomingCommand} {command : IncomingCommand}
    (member : command ∈ commands) (incomplete : 0 < command.fragmentsRemaining) (current : Nat) :
    command ∈ (takeReliable current commands).2.1 := by
  rw [← takeReliable_append commands current] at member
  rcases List.mem_append.mp member with taken | kept
  · have complete := takeReliable_complete commands current command taken
    omega
  · exact kept

/-! ## Unreliable commands -/

/-- What the loop leaves keeps its order. -/
theorem scanUnreliable_sublist (current : Nat) (rest : List IncomingCommand) :
    ∀ (incomingUnreliable : Nat) (passed run moved : List IncomingCommand) (dropped : Nat),
      ((scanUnreliable current incomingUnreliable passed run rest moved dropped).passed ++
        (scanUnreliable current incomingUnreliable passed run rest moved dropped).rest).Sublist
          (passed ++ rest) := by
  induction rest with
  | nil => intro incomingUnreliable passed run moved dropped; exact .refl _
  | cons command rest ih =>
      intro incomingUnreliable passed run moved dropped
      have taken : (passed ++ rest).Sublist (passed ++ command :: rest) :=
        (List.sublist_cons_self command rest).append_left passed
      have kept : (passed ++ [command]) ++ rest = passed ++ command :: rest := by
        rw [List.append_assoc, List.singleton_append]
      unfold scanUnreliable
      split
      · exact (ih ..).trans taken
      · split
        · split
          · exact (ih ..).trans taken
          · exact kept ▸ ih ..
        · split
          · exact .refl _
          · exact kept ▸ ih ..

/-- What the loop has passed is left. -/
theorem scanUnreliable_passed (current : Nat) (rest : List IncomingCommand) :
    ∀ (incomingUnreliable : Nat) (passed run moved : List IncomingCommand) (dropped : Nat),
      ∀ command ∈ passed, command ∈
        (scanUnreliable current incomingUnreliable passed run rest moved dropped).passed := by
  induction rest with
  | nil => intro incomingUnreliable passed run moved dropped command member; exact member
  | cons head rest ih =>
      intro incomingUnreliable passed run moved dropped command member
      unfold scanUnreliable
      split
      · exact ih _ _ _ _ _ command member
      · split
        · split
          · exact ih _ _ _ _ _ command member
          · exact ih _ _ _ _ _ command (List.mem_append_left _ member)
        · split
          · exact member
          · exact ih _ _ _ _ _ command (List.mem_append_left _ member)

/-- An incomplete command is left. -/
theorem scanUnreliable_keeps {command : IncomingCommand}
    (sequenced : isUnsequenced command = false) (incomplete : 0 < command.fragmentsRemaining)
    (current : Nat) (rest : List IncomingCommand) :
    ∀ (incomingUnreliable : Nat) (passed run moved : List IncomingCommand) (dropped : Nat),
      command ∈ rest → command ∈
        (scanUnreliable current incomingUnreliable passed run rest moved dropped).passed ++
          (scanUnreliable current incomingUnreliable passed run rest moved dropped).rest := by
  induction rest with
  | nil => intro _ _ _ _ _ member; cases member
  | cons head rest ih =>
      intro incomingUnreliable passed run moved dropped member
      have follow : command ≠ head → command ∈ rest := fun different =>
        (List.mem_cons.mp member).resolve_left different
      have stays : ∀ (incomingUnreliable : Nat) (run moved : List IncomingCommand) (dropped : Nat),
          command ∈
            (scanUnreliable current incomingUnreliable (passed ++ [head]) run rest moved
              dropped).passed ++
            (scanUnreliable current incomingUnreliable (passed ++ [head]) run rest moved
              dropped).rest := by
        intro incomingUnreliable run moved dropped
        rcases List.mem_cons.mp member with same | member
        · have passes : command ∈ passed ++ [head] := by simp [same]
          exact List.mem_append_left _ (scanUnreliable_passed _ _ _ _ _ _ _ command passes)
        · exact ih _ _ _ _ _ member
      unfold scanUnreliable
      split
      next unsequenced =>
          refine ih _ _ _ _ _ (follow fun same => ?_)
          rw [same, unsequenced] at sequenced
          cases sequenced
      · split
        · split
          next complete =>
              refine ih _ _ _ _ _ (follow fun same => ?_)
              rw [same] at incomplete
              omega
          · exact stays ..
        · split
          · exact List.mem_append_right _ member
          · exact stays ..

/-- What a dispatch leaves of the unreliable commands keeps its order. -/
theorem dispatchUnreliable_sublist (channel : Channel) (queuedCommand : Option Nat) :
    (channel.dispatchUnreliable queuedCommand).channel.incomingUnreliableCommands.Sublist
      channel.incomingUnreliableCommands := by
  have scans := scanUnreliable_sublist channel.incomingReliableSequenceNumber
    channel.incomingUnreliableCommands channel.incomingUnreliableSequenceNumber [] [] [] 0
  refine List.Sublist.trans ?_ scans
  unfold dispatchUnreliable
  dsimp only
  refine List.Sublist.trans (List.Sublist.append_right List.filter_sublist _) ?_
  rw [List.take_append_drop]

/-- An incomplete command that was just queued is left. -/
theorem dispatchUnreliable_keeps {channel : Channel} {command : IncomingCommand}
    (member : command ∈ channel.incomingUnreliableCommands)
    (sequenced : isUnsequenced command = false) (incomplete : 0 < command.fragmentsRemaining) :
    command ∈ (channel.dispatchUnreliable
      (some command.address)).channel.incomingUnreliableCommands := by
  have kept := scanUnreliable_keeps sequenced incomplete channel.incomingReliableSequenceNumber
    channel.incomingUnreliableCommands channel.incomingUnreliableSequenceNumber [] [] [] 0 member
  unfold dispatchUnreliable
  dsimp only
  generalize scanUnreliable _ _ _ _ _ _ _ = scan at kept ⊢
  rw [← List.take_append_drop (if !scan.run.isEmpty then scan.passed.length else scan.dropped)
    (scan.passed ++ scan.rest)] at kept
  rcases List.mem_append.mp kept with before | behind
  · exact List.mem_append_left _ (List.mem_filter.mpr ⟨before, by simp⟩)
  · exact List.mem_append_right _ behind

/-! ## Both lists -/

/-- What a reliable dispatch leaves of each list keeps its order. -/
theorem dispatchReliable_sublist (channel : Channel) (queuedCommand : Option Nat)
    (reliable : Bool) :
    ((channel.dispatchReliable queuedCommand).channel.incomingCommands reliable).Sublist
      (channel.incomingCommands reliable) := by
  have taken := takeReliable_append channel.incomingReliableCommands
    channel.incomingReliableSequenceNumber
  have left : (takeReliable channel.incomingReliableSequenceNumber
      channel.incomingReliableCommands).2.1.Sublist channel.incomingReliableCommands := by
    conv => rhs; rw [← taken]
    exact List.sublist_append_right ..
  unfold dispatchReliable
  dsimp only
  split
  · exact .refl _
  · split
    · cases reliable with
      | true => exact left
      | false => exact .refl _
    · cases reliable with
      | true => exact left
      | false => exact dispatchUnreliable_sublist _ queuedCommand

/-- An incomplete reliable command is left by a dispatch. -/
theorem dispatchReliable_keeps {channel : Channel} {command : IncomingCommand}
    (member : command ∈ channel.incomingReliableCommands)
    (incomplete : 0 < command.fragmentsRemaining) (queuedCommand : Option Nat) :
    command ∈ (channel.dispatchReliable queuedCommand).channel.incomingReliableCommands := by
  have kept := takeReliable_keeps member incomplete channel.incomingReliableSequenceNumber
  unfold dispatchReliable
  dsimp only
  split
  · exact member
  · split
    · exact kept
    · exact kept

end Enet.Channel
