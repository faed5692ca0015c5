import Mathlib.Algebra.Order.Group.Multiset
import Mathlib.Tactic.Abel
import Enet.Channels.Dispatch

/-!
# What a dispatch conserves

A dispatch takes commands out of the lists of a channel, but loses none: each is
in the lists still, or moved to the dispatched commands, or removed. A command
that is inserted is among these.
-/

set_option autoImplicit false

namespace Enet

namespace Channel

/-- The received commands of a channel. -/
def commands (channel : Channel) : Multiset IncomingCommand :=
  ↑channel.incomingReliableCommands + ↑channel.incomingUnreliableCommands

/-- The commands of a dispatched channel, with those moved and those removed. -/
def Dispatched.commands (dispatched : Dispatched) : Multiset IncomingCommand :=
  dispatched.channel.commands + ↑dispatched.moved + ↑dispatched.removed

theorem scanUnreliable_conserves (current : Nat) (rest : List IncomingCommand) :
    ∀ (number : Nat) (passed run moved : List IncomingCommand) (dropped : Nat),
      let scan := scanUnreliable current number passed run rest moved dropped
      (↑scan.passed + ↑scan.run + ↑scan.rest + ↑scan.moved : Multiset IncomingCommand) =
        ↑passed + ↑run + ↑rest + ↑moved := by
  induction rest with
  | nil => intro number passed run moved dropped; rfl
  | cons command rest ih =>
      intro number passed run moved dropped
      dsimp only at ih ⊢
      unfold scanUnreliable
      split
      · rw [ih]
        simp only [← Multiset.coe_add, ← Multiset.singleton_add, ← Multiset.cons_coe]
        abel
      · split
        · split
          · rw [ih]
            simp only [← Multiset.coe_add, ← Multiset.singleton_add, ← Multiset.cons_coe]
            abel
          · rw [ih]
            simp only [← Multiset.coe_add, ← Multiset.singleton_add, ← Multiset.cons_coe,
              Multiset.coe_nil]
            abel
        · split
          · rfl
          · rw [ih]
            simp only [← Multiset.coe_add, ← Multiset.singleton_add, ← Multiset.cons_coe,
              Multiset.coe_nil]
            abel

theorem dispatchUnreliable_conserves (channel : Channel) (queuedCommand : Option Nat) :
    (channel.dispatchUnreliable queuedCommand).commands = channel.commands := by
  have scanned := scanUnreliable_conserves channel.incomingReliableSequenceNumber
    channel.incomingUnreliableCommands channel.incomingUnreliableSequenceNumber [] [] [] 0
  unfold dispatchUnreliable Dispatched.commands commands
  dsimp only at scanned ⊢
  generalize scanUnreliable channel.incomingReliableSequenceNumber
    channel.incomingUnreliableSequenceNumber [] [] channel.incomingUnreliableCommands [] 0 = scan
    at scanned ⊢
  generalize (if !scan.run.isEmpty then scan.passed.length else scan.dropped) = dropped
  have filtered : ∀ (keeps : IncomingCommand → Bool) (commands : List IncomingCommand),
      (↑(commands.filter keeps) + ↑(commands.filter fun command => !keeps command) :
        Multiset IncomingCommand) = ↑commands := by
    intro keeps commands
    rw [Multiset.coe_add, Multiset.coe_eq_coe]
    exact List.filter_append_perm keeps commands
  have kept := filtered (fun command => decide (some command.address = queuedCommand))
    ((scan.passed ++ scan.rest).take dropped)
  have split : (↑((scan.passed ++ scan.rest).take dropped) +
      ↑((scan.passed ++ scan.rest).drop dropped) : Multiset IncomingCommand) =
      ↑scan.passed + ↑scan.rest := by
    rw [Multiset.coe_add, List.take_append_drop, Multiset.coe_add]
  simp only [← Multiset.coe_add, Multiset.coe_nil] at scanned ⊢
  rw [zero_add, zero_add, add_zero] at scanned
  rw [← scanned]
  calc _ = (channel.incomingReliableCommands : Multiset IncomingCommand) +
        (↑(((scan.passed ++ scan.rest).take dropped).filter
            fun command => decide (some command.address = queuedCommand)) +
          ↑(((scan.passed ++ scan.rest).take dropped).filter
            fun command => !decide (some command.address = queuedCommand)) +
          ↑((scan.passed ++ scan.rest).drop dropped)) + (↑scan.moved + ↑scan.run) := by abel
    _ = _ := by
      rw [kept, split]
      abel

theorem dispatchReliable_conserves (channel : Channel) (queuedCommand : Option Nat) :
    (channel.dispatchReliable queuedCommand).commands = channel.commands := by
  have taken := congrArg (Multiset.ofList (α := IncomingCommand)) (takeReliable_append
    channel.incomingReliableCommands channel.incomingReliableSequenceNumber)
  rw [← Multiset.coe_add] at taken
  unfold dispatchReliable
  dsimp only
  split
  · unfold Dispatched.commands
    simp
  · split
    · unfold Dispatched.commands commands
      rw [← taken]
      simp only [Multiset.coe_nil]
      abel
    · have dispatched := dispatchUnreliable_conserves
        { channel with
          incomingReliableSequenceNumber :=
            (takeReliable channel.incomingReliableSequenceNumber
              channel.incomingReliableCommands).2.2
          incomingReliableCommands :=
            (takeReliable channel.incomingReliableSequenceNumber
              channel.incomingReliableCommands).2.1
          incomingUnreliableSequenceNumber := 0 } queuedCommand
      generalize dispatchUnreliable _ queuedCommand = result at dispatched ⊢
      unfold Dispatched.commands commands at dispatched ⊢
      dsimp only at dispatched ⊢
      rw [← taken, ← Multiset.coe_add]
      calc _ = (↑(takeReliable channel.incomingReliableSequenceNumber
              channel.incomingReliableCommands).1 : Multiset IncomingCommand) +
            (↑result.channel.incomingReliableCommands +
              ↑result.channel.incomingUnreliableCommands + ↑result.moved +
              ↑result.removed) := by abel
        _ = _ := by
          rw [dispatched]
          abel

/-- **A command inserted at its place is in the lists, moved or removed.** -/
theorem insertIncoming_conserves (channel : Channel) (command : IncomingCommand)
    (protocol : Protocol) (placed : channel.place protocol ≠ .discard) :
    (channel.insertIncoming command (channel.place protocol)).commands =
      command ::ₘ channel.commands := by
  have inserted : ∀ before after : List IncomingCommand,
      (↑(before ++ command :: after) : Multiset IncomingCommand) =
        command ::ₘ ↑(before ++ after) := by
    intro before after
    rw [Multiset.cons_coe, Multiset.coe_eq_coe]
    exact List.perm_middle
  cases place : channel.place protocol with
  | discard => exact absurd place placed
  | reliable before after =>
      refine (dispatchReliable_conserves _ _).trans ?_
      unfold commands
      rw [inserted, ← place_reliable place, Multiset.cons_add]
  | unreliable before after =>
      refine (dispatchUnreliable_conserves _ _).trans ?_
      unfold commands
      rw [inserted, ← place_unreliable place, Multiset.add_cons]

end Channel

end Enet
