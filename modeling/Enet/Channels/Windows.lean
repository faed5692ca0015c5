import Enet.Model.Receive

/-!
# Windows of sequence numbers

The sixteen windows of the 16-bit reliable numbers, and those of them in which a
received number is taken.
-/

set_option autoImplicit false

namespace Enet.Channel

/-- The current number is taken. -/
theorem inWindow_self (current : Nat) : inWindow current current = true := by
  unfold inWindow Peer.receivedWindow
  rw [if_neg (Nat.lt_irrefl _)]
  simp

/-- The next number is taken, across the wrap-around too. -/
theorem inWindow_next {current : Nat} (typed : current < 65536) :
    inWindow current (u16 (current + 1)) = true := by
  unfold inWindow Peer.receivedWindow
  simp only [u16, peerReliableWindowSize, peerReliableWindows, peerFreeReliableWindows,
    Bool.and_eq_true, decide_eq_true_eq]
  split <;> omega

/-- **When an old number is taken**: with both numbers counted on past 16 bits, an
old number is taken for a new one if the windows between the two are at least ten
modulo sixteen, or none modulo sixteen and the old number is not below. -/
theorem inWindow_old {current old : Nat} (behind : old ≤ current) :
    inWindow (u16 current) (u16 old) = true ↔
      10 ≤ (current / peerReliableWindowSize - old / peerReliableWindowSize) % 16 ∨
        (current / peerReliableWindowSize - old / peerReliableWindowSize) % 16 = 0 ∧
          u16 current ≤ u16 old := by
  unfold inWindow Peer.receivedWindow
  simp only [u16, peerReliableWindowSize, peerReliableWindows, peerFreeReliableWindows,
    Bool.and_eq_true, decide_eq_true_eq]
  split <;> omega

/-- A number is taken where it is fewer than seven windows ahead, counted from the start
of the current window. -/
theorem inWindow_iff {current number : Nat} (typed : current < 65536 ∧ number < 65536) :
    inWindow current number = true ↔
      (number + 65536 - current) % 65536 + current % peerReliableWindowSize <
        7 * peerReliableWindowSize := by
  obtain ⟨typedCurrent, typedNumber⟩ := typed
  unfold inWindow Peer.receivedWindow
  simp only [peerReliableWindowSize, peerReliableWindows, peerFreeReliableWindows,
    Bool.and_eq_true, decide_eq_true_eq]
  split
  · have split : (number + 65536 - current) % 65536 = number + 65536 - current := by omega
    rw [split]
    omega
  · have split : (number + 65536 - current) % 65536 = number - current := by omega
    rw [split]
    omega

/-- **Numbers ahead stay in order.** Of two numbers taken at an earlier current number,
from which the present one was taken too, the later is ahead where the earlier is. -/
theorem inWindow_later {queuedAt current number later : Nat}
    (typed : (queuedAt < 65536 ∧ current < 65536) ∧ number < 65536 ∧ later < 65536)
    (order : (number + 65536 - queuedAt) % 65536 ≤ (later + 65536 - queuedAt) % 65536)
    (accepted : inWindow queuedAt later = true) (reaches : inWindow queuedAt current = true)
    (ahead : inWindow current number = true) (different : number ≠ current) :
    later ≠ current ∧ inWindow current later = true := by
  obtain ⟨⟨typedQueued, typedCurrent⟩, typedNumber, typedLater⟩ := typed
  rw [inWindow_iff (by omega)] at *
  simp only [peerReliableWindowSize] at *
  omega

end Enet.Channel
