import Enet.Channels.Partition

/-!
# Which commands an unreliable dispatch frees

The commands in front of `droppedCommand` are freed. Where the loop ends,
`droppedCommand` is behind every command that stays, but for the incomplete ones
with which the reached part of the list ends: of these the last two stay, or the
only one.
-/

set_option autoImplicit false

namespace Enet

namespace Channel

/-- A command at the current reliable number with fragments missing. -/
def isIncomplete (current : Nat) (command : IncomingCommand) : Bool :=
  !isUnsequenced command && decide (command.reliableSequenceNumber = current) &&
    decide (0 < command.fragmentsRemaining)

/-- A command that is neither ahead nor deliverable nor incomplete is old. -/
theorem isBehind_of_stays {current : Nat} {command : IncomingCommand}
    (reached : isAhead current command = false) (stays : isDeliverable current command = false)
    (complete : isIncomplete current command = false) : isBehind current command = true := by
  unfold isAhead at reached
  unfold isDeliverable at stays
  unfold isIncomplete at complete
  unfold isBehind
  simp only [Bool.or_eq_false_iff] at stays
  rw [stays.1] at reached complete ⊢
  by_cases equal : command.reliableSequenceNumber = current
  · simp [equal] at stays complete
    omega
  · simpa [equal] using reached

theorem isIncomplete_of_isDeliverable {current : Nat} {command : IncomingCommand}
    (delivers : isDeliverable current command = true) : isIncomplete current command = false := by
  unfold isDeliverable at delivers
  unfold isIncomplete
  grind

theorem isIncomplete_of_isBehind {current : Nat} {command : IncomingCommand}
    (old : isBehind current command = true) : isIncomplete current command = false := by
  unfold isBehind at old
  unfold isIncomplete
  grind

/-! ## The incomplete commands at the end -/

/-- How many incomplete commands a list ends with, behind this many others. -/
def trailing (current : Nat) : Nat → List IncomingCommand → Nat
  | count, [] => count
  | count, command :: rest =>
    trailing current (if isIncomplete current command then count + 1 else 0) rest

theorem trailing_append (current : Nat) (commands others : List IncomingCommand) :
    ∀ count, trailing current count (commands ++ others) =
      trailing current (trailing current count commands) others := by
  induction commands with
  | nil => intro count; rfl
  | cons command commands ih => intro count; exact ih _

/-- Incomplete commands are counted on. -/
theorem trailing_of_incomplete {current : Nat} {commands : List IncomingCommand}
    (incomplete : ∀ command ∈ commands, isIncomplete current command = true) :
    ∀ count, trailing current count commands = count + commands.length := by
  induction commands with
  | nil => intro count; rfl
  | cons command commands ih =>
      intro count
      rw [trailing, if_pos (incomplete command List.mem_cons_self),
        ih fun other member => incomplete other (List.mem_cons_of_mem _ member),
        List.length_cons]
      omega

/-- Behind a command that is not incomplete, the count is of commands behind it. -/
theorem trailing_le {current : Nat} {commands : List IncomingCommand} {other : IncomingCommand}
    (member : other ∈ commands) (complete : isIncomplete current other = false) (count : Nat) :
    trailing current count commands ≤ (commands.filter (isIncomplete current)).length := by
  have counts : ∀ (commands : List IncomingCommand) (count : Nat),
      trailing current count commands ≤
        count + (commands.filter (isIncomplete current)).length := by
    intro commands
    induction commands with
    | nil => intro count; exact Nat.le_refl _
    | cons command commands ih =>
        intro count
        rw [trailing, List.filter_cons]
        have rest := ih (if isIncomplete current command then count + 1 else 0)
        split at rest
        next incomplete => rw [if_pos incomplete, if_pos incomplete, List.length_cons]; omega
        next complete => rw [if_neg complete, if_neg complete]; omega
  obtain ⟨before, after, rfl⟩ := List.append_of_mem member
  rw [trailing_append, trailing, if_neg (by simp [complete]), List.filter_append,
    List.length_append, List.filter_cons_of_neg (by simp [complete])]
  have rest := counts after 0
  omega

/-! ## The place of `droppedCommand` -/

/-- How many commands are in front of `droppedCommand` if the loop ends here: a last run
puts it at the end. -/
def finalDropped (passed run : List IncomingCommand) (dropped : Nat) : Nat :=
  if !run.isEmpty then passed.length else dropped

theorem finalDropped_nil (passed : List IncomingCommand) (dropped : Nat) :
    finalDropped passed [] dropped = dropped := rfl

theorem finalDropped_concat (passed run : List IncomingCommand) (command : IncomingCommand)
    (dropped : Nat) : finalDropped passed (run ++ [command]) dropped = passed.length :=
  if_pos (by simp)

/-- **`droppedCommand` is in front of the last two commands** of those that the loop has
passed last and that are incomplete, or of the only one. -/
theorem scanUnreliable_dropped (current : Nat) (rest : List IncomingCommand) :
    ∀ (number : Nat) (passed run moved : List IncomingCommand) (dropped count : Nat),
      finalDropped passed run dropped + min count 2 = passed.length →
      finalDropped (scanUnreliable current number passed run rest moved dropped).passed
          (scanUnreliable current number passed run rest moved dropped).run
          (scanUnreliable current number passed run rest moved dropped).dropped +
          min (trailing current count (reached current rest)) 2 =
        (scanUnreliable current number passed run rest moved dropped).passed.length := by
  induction rest with
  | nil => intro number passed run moved dropped count settled; exact settled
  | cons command rest ih =>
      intro number passed run moved dropped count settled
      have reaches : isAhead current command = false →
          reached current (command :: rest) = command :: reached current rest :=
        fun notAhead => List.takeWhile_cons_of_pos (by simp [notAhead])
      have longer : (passed ++ [command]).length = passed.length + 1 := by simp
      -- behind a command in the run nothing is counted
      have delivered : finalDropped passed (run ++ [command]) dropped + min 0 2 =
          passed.length := finalDropped_concat ..
      unfold scanUnreliable
      split
      next unsequenced =>
          have complete : ¬isIncomplete current command = true := by
            simp [isIncomplete, unsequenced]
          rw [reaches (by simp [isAhead, unsequenced]), trailing, if_neg complete]
          exact ih _ _ _ _ _ 0 delivered
      next sequenced =>
          have sequenced : isUnsequenced command = false := by simpa using sequenced
          split
          next equal =>
              rw [reaches (by simp [isAhead, equal]), trailing]
              split
              next complete =>
                  have complete : ¬isIncomplete current command = true := by
                    simp [isIncomplete, Nat.le_zero.mp complete]
                  rw [if_neg complete]
                  exact ih _ _ _ _ _ 0 delivered
              next missing =>
                  have incomplete : isIncomplete current command = true := by
                    simp [isIncomplete, sequenced, equal, Nat.lt_of_not_le missing]
                  rw [if_pos incomplete]
                  refine ih _ _ _ _ _ (count + 1) ?_
                  rw [finalDropped_nil, longer]
                  unfold finalDropped at settled
                  split
                  next full =>
                      rw [if_pos full] at settled
                      omega
                  next empty =>
                      rw [if_neg empty] at settled
                      split <;> omega
          next different =>
              split
              next accepted =>
                  have takes : reached current (command :: rest) = [] :=
                    List.takeWhile_cons_of_neg (by simp [isAhead, sequenced, different, accepted])
                  rw [takes]
                  exact settled
              next old =>
                  have complete : ¬isIncomplete current command = true := by
                    simp [isIncomplete, different]
                  rw [reaches (by simp [isAhead, old]), trailing, if_neg complete]
                  exact ih _ _ _ _ _ 0 (by rw [finalDropped_nil, longer]; rfl)

/-! ## The commands that are freed -/

/-- A command among the first ones that a filter keeps. -/
theorem mem_take_filter {keeps : IncomingCommand → Bool} {command : IncomingCommand}
    (commands : List IncomingCommand) : ∀ count,
    command ∈ (commands.filter keeps).take count ↔
      ∃ before after, commands = before ++ command :: after ∧ keeps command = true ∧
        (before.filter keeps).length < count := by
  induction commands with
  | nil => intro count; simp
  | cons head rest ih =>
      intro count
      constructor
      · intro member
        cases kept : keeps head with
        | false =>
            rw [List.filter_cons_of_neg (by simp [kept]), ih] at member
            obtain ⟨before, after, rfl, keeps, fewer⟩ := member
            refine ⟨head :: before, after, rfl, keeps, ?_⟩
            rwa [List.filter_cons_of_neg (by simp [kept])]
        | true =>
            rw [List.filter_cons_of_pos kept] at member
            cases count with
            | zero => cases member
            | succ count =>
                rcases List.mem_cons.mp member with rfl | member
                · exact ⟨[], rest, rfl, kept, Nat.succ_pos _⟩
                · obtain ⟨before, after, rfl, keeps, fewer⟩ := (ih count).mp member
                  refine ⟨head :: before, after, rfl, keeps, ?_⟩
                  rw [List.filter_cons_of_pos kept, List.length_cons]
                  omega
      · rintro ⟨before, after, split, keeps, fewer⟩
        rw [split, List.filter_append, List.filter_cons_of_pos keeps, List.take_append]
        refine List.mem_append_right _ ?_
        obtain ⟨more, positive⟩ := Nat.exists_eq_succ_of_ne_zero
          (Nat.sub_ne_zero_of_lt fewer)
        rw [positive]
        exact List.mem_cons_self

/-- **Which of the commands that stay are in front of `droppedCommand`**, given how many
are: the old ones, and the incomplete ones with something else behind them, or two. -/
theorem dropped_behind_iff {current place : Nat} {commands before after : List IncomingCommand}
    {command : IncomingCommand} (inReach : ∀ other ∈ commands, isAhead current other = false)
    (settled : place + min (trailing current 0 commands) 2 =
      (commands.filter fun other => !isDeliverable current other).length)
    (split : commands = before ++ command :: after)
    (stays : isDeliverable current command = false) :
    (before.filter fun other => !isDeliverable current other).length < place ↔
      isBehind current command = true ∨
        (∃ other ∈ after, isDeliverable current other = true ∨ isBehind current other = true) ∨
        2 ≤ after.length := by
  subst split
  have kept : (!isDeliverable current command) = true := by simp [stays]
  rw [trailing_append, trailing, List.filter_append, List.filter_cons, if_pos kept,
    List.length_append, List.length_cons] at settled
  by_cases complete : ∃ other ∈ after, isIncomplete current other = false
  · -- what is counted is behind that command
    obtain ⟨other, member, complete⟩ := complete
    have fewer : (after.filter (isIncomplete current)).length ≤
        (after.filter fun other => !isDeliverable current other).length := by
      refine (List.monotone_filter_right after fun other incomplete => ?_).length_le
      cases delivers : isDeliverable current other with
      | false => rfl
      | true =>
          rw [isIncomplete_of_isDeliverable delivers] at incomplete
          cases incomplete
    have counted := trailing_le member complete
      (if isIncomplete current command = true then trailing current 0 before + 1 else 0)
    refine iff_of_true (by omega) (.inr (.inl ⟨other, member, ?_⟩))
    cases delivers : isDeliverable current other with
    | true => exact .inl rfl
    | false => exact .inr (isBehind_of_stays (inReach other (by simp [member])) delivers complete)
  · -- the incomplete commands behind are all counted, and this one if it is incomplete
    have incomplete : ∀ other ∈ after, isIncomplete current other = true := by
      intro other member
      by_contra other'
      exact complete ⟨other, member, by simpa using other'⟩
    have whole : after.filter (fun other => !isDeliverable current other) = after := by
      refine List.filter_eq_self.mpr fun other member => ?_
      cases delivers : isDeliverable current other with
      | false => rfl
      | true =>
          have missing := incomplete other member
          rw [isIncomplete_of_isDeliverable delivers] at missing
          cases missing
    have none : ¬∃ other ∈ after, isDeliverable current other = true ∨
        isBehind current other = true := by
      rintro ⟨other, member, delivers | old⟩
      · have missing := incomplete other member
        rw [isIncomplete_of_isDeliverable delivers] at missing
        cases missing
      · have missing := incomplete other member
        rw [isIncomplete_of_isBehind old] at missing
        cases missing
    rw [trailing_of_incomplete incomplete, whole] at settled
    cases missing : isIncomplete current command with
    | true =>
        have recent : ¬isBehind current command = true := by
          intro old
          rw [isIncomplete_of_isBehind old] at missing
          cases missing
        rw [if_pos missing] at settled
        constructor
        · intro fewer
          exact .inr (.inr (by omega))
        · rintro (old | other | two)
          · exact absurd old recent
          · exact absurd other none
          · omega
    | false =>
        have old := isBehind_of_stays (inReach command (by simp)) stays missing
        rw [if_neg (by simp [missing])] at settled
        exact iff_of_true (by omega) (.inl old)

end Channel

namespace Dispatching

open Channel

/-- A command that the dispatch frees: it is reached and neither deliverable nor the one
being queued; and it is old, or incomplete with a command behind it that is reached and
is not incomplete, or with two. -/
def Frees (entered : Dispatching) (command : IncomingCommand) : Prop :=
  let current := entered.channel.incomingReliableSequenceNumber
  isDeliverable current command = false ∧ some command.address ≠ entered.queuedCommand ∧
    ∃ before after,
      reached current entered.channel.incomingUnreliableCommands = before ++ command :: after ∧
      (isBehind current command = true ∨
        (∃ other ∈ after, isDeliverable current other = true ∨ isBehind current other = true) ∨
        2 ≤ after.length)

/-- The commands that the dispatch removes and frees. -/
def removed (entered : Dispatching) : List IncomingCommand :=
  (entered.channel.dispatchUnreliable entered.queuedCommand).removed

/-- **The dispatch frees exactly these commands.** -/
theorem mem_removed_iff (entered : Dispatching) (command : IncomingCommand) :
    command ∈ entered.removed ↔ entered.Frees command := by
  obtain ⟨channel, queuedCommand⟩ := entered
  have settled : channel.remaining.2 + _ = _ :=
    scanUnreliable_dropped channel.incomingReliableSequenceNumber
      channel.incomingUnreliableCommands channel.incomingUnreliableSequenceNumber [] [] [] 0 0 rfl
  obtain ⟨-, passes, -⟩ := scanUnreliable_splits channel.incomingReliableSequenceNumber
    channel.incomingUnreliableCommands channel.incomingUnreliableSequenceNumber [] [] [] 0
  rw [passes, List.nil_append] at settled
  have inReach : ∀ other ∈ reached channel.incomingReliableSequenceNumber
      channel.incomingUnreliableCommands,
      isAhead channel.incomingReliableSequenceNumber other = false := by
    intro other member
    simpa using List.mem_takeWhile_imp member
  have removes : (Dispatching.mk channel queuedCommand).removed =
      (channel.remaining.1.take channel.remaining.2).filter
        fun command => !decide (some command.address = queuedCommand) := rfl
  rw [removes, remaining_eq, List.take_append_of_le_length channel.remaining_drops.within,
    List.mem_filter, mem_take_filter]
  constructor
  · rintro ⟨⟨before, after, split, stays, fewer⟩, apart⟩
    have stays : isDeliverable channel.incomingReliableSequenceNumber command = false := by
      simpa using stays
    exact ⟨stays, by simpa using apart, before, after, split,
      (dropped_behind_iff inReach settled split stays).mp fewer⟩
  · rintro ⟨stays, apart, before, after, split, behind⟩
    exact ⟨⟨before, after, split, by simpa using stays,
      (dropped_behind_iff inReach settled split stays).mpr behind⟩, by simpa using apart⟩

end Dispatching

end Enet
