import Enet.Model.Receive

/-!
# The place of a received command

The searches of `enet_peer_queue_incoming_command` walk a list from its end. What
they return splits the list at the place of the new command, or names a command
that is already there.
-/

set_option autoImplicit false

namespace Enet

namespace Channel

variable {compare : IncomingCommand → Ordering} {commands before after : List IncomingCommand}
  {command : IncomingCommand}

/-- What a search from the end finds: every command behind the place compares
greater, and the one before it less. -/
theorem searchReversed_place (reversed passed : List IncomingCommand)
    (found : searchReversed compare reversed passed = .place before after) :
    ∃ skipped, reversed.reverse = before ++ skipped ∧ after = skipped ++ passed ∧
      (∀ other ∈ skipped, compare other = .gt) ∧
      ∀ last, before.getLast? = some last → compare last = .lt := by
  induction reversed generalizing passed with
  | nil =>
      cases found
      exact ⟨[], rfl, rfl, by simp, by simp⟩
  | cons head rest ih =>
      unfold searchReversed at found
      split at found
      next greater =>
          obtain ⟨skipped, split, same, all, ends⟩ := ih (head :: passed) found
          refine ⟨skipped ++ [head], ?_, ?_, ?_, ends⟩
          · rw [List.reverse_cons, split, List.append_assoc]
          · rw [same, List.append_assoc, List.singleton_append]
          · intro other member
            rcases List.mem_append.mp member with member | member
            · exact all other member
            · rw [List.mem_singleton.mp member]
              exact greater
      next less =>
          cases found
          refine ⟨[], (List.append_nil _).symm, rfl, by simp, ?_⟩
          intro last ends
          rw [List.reverse_cons, List.getLast?_concat] at ends
          cases ends
          exact less
      next equal => cases found

/-- **The place that a search finds splits the list**: every command behind it
compares greater, and the one before it less. -/
theorem search_place (found : search compare commands = .place before after) :
    commands = before ++ after ∧ (∀ other ∈ after, compare other = .gt) ∧
      ∀ last, before.getLast? = some last → compare last = .lt := by
  obtain ⟨skipped, split, same, all, ends⟩ := searchReversed_place _ _ found
  rw [List.reverse_reverse] at split
  rw [List.append_nil] at same
  subst same
  exact ⟨split, all, ends⟩

theorem searchReversed_found (reversed passed : List IncomingCommand)
    (found : searchReversed compare reversed passed = .found command) :
    command ∈ reversed ∧ compare command = .eq := by
  induction reversed generalizing passed with
  | nil => cases found
  | cons head rest ih =>
      unfold searchReversed at found
      split at found
      · obtain ⟨member, equal⟩ := ih _ found
        exact ⟨List.mem_cons_of_mem _ member, equal⟩
      · cases found
      next equal =>
          cases found
          exact ⟨List.mem_cons_self, equal⟩

/-- A command that a search finds is in the list, and compares equal. -/
theorem search_found (found : search compare commands = .found command) :
    command ∈ commands ∧ compare command = .eq := by
  obtain ⟨member, equal⟩ := searchReversed_found _ _ found
  exact ⟨List.mem_reverse.mp member, equal⟩

/-- The only command of a list is found when it compares equal. -/
theorem search_single (equal : compare command = .eq) :
    search compare [command] = .found command := by
  unfold search
  rw [List.reverse_singleton]
  unfold searchReversed
  rw [equal]

/-- A reliable number compares equal with itself. -/
theorem compareReliable_self (current number : Nat) :
    compareReliable current number number = .eq := by
  unfold compareReliable
  grind

/-- Only a number compares equal with itself. -/
theorem eq_of_compareReliable {current number other : Nat}
    (equal : compareReliable current number other = .eq) : other = number := by
  unfold compareReliable at equal
  grind

/-- The two numbers of an unreliable command compare equal with themselves. -/
theorem compareUnreliable_self (current number unreliableNumber : Nat) :
    compareUnreliable current number unreliableNumber number unreliableNumber = .eq := by
  unfold compareUnreliable
  grind

/-! ## Placements -/

theorem placeReliable_ne_unreliable (channel : Channel) (number : Nat) :
    channel.placeReliable number ≠ .unreliable before after := by
  intro placed
  unfold placeReliable at placed
  split at placed
  · cases placed
  · split at placed
    · cases placed
    · split at placed <;> cases placed

theorem placeUnreliable_ne_reliable (channel : Channel) (number unreliableNumber : Nat) :
    channel.placeUnreliable number unreliableNumber ≠ .reliable before after := by
  intro placed
  unfold placeUnreliable at placed
  split at placed
  · cases placed
  · split at placed
    · cases placed
    · split at placed <;> cases placed

theorem placeReliable_append {channel : Channel} {number : Nat}
    (placed : channel.placeReliable number = .reliable before after) :
    channel.incomingReliableCommands = before ++ after := by
  unfold placeReliable at placed
  split at placed
  · cases placed
  · split at placed
    · cases placed
    · split at placed
      next found => cases placed; exact (search_place found).1
      next => cases placed

theorem placeUnreliable_append {channel : Channel} {number unreliableNumber : Nat}
    (placed : channel.placeUnreliable number unreliableNumber = .unreliable before after) :
    channel.incomingUnreliableCommands = before ++ after := by
  unfold placeUnreliable at placed
  split at placed
  · cases placed
  · split at placed
    · cases placed
    · split at placed
      next found => cases placed; exact (search_place found).1
      next => cases placed

theorem place_reliable {channel : Channel} {protocol : Protocol}
    (placed : channel.place protocol = .reliable before after) :
    channel.incomingReliableCommands = before ++ after := by
  unfold place at placed
  split at placed
  · exact placeReliable_append placed
  · exact placeReliable_append placed
  · exact absurd placed (placeUnreliable_ne_reliable _ _ _)
  · exact absurd placed (placeUnreliable_ne_reliable _ _ _)
  · cases placed
  · cases placed

theorem place_unreliable {channel : Channel} {protocol : Protocol}
    (placed : channel.place protocol = .unreliable before after) :
    channel.incomingUnreliableCommands = before ++ after := by
  unfold place at placed
  split at placed
  · exact absurd placed (placeReliable_ne_unreliable _ _)
  · exact absurd placed (placeReliable_ne_unreliable _ _)
  · exact placeUnreliable_append placed
  · exact placeUnreliable_append placed
  · cases placed; rfl
  · cases placed

end Channel

end Enet
