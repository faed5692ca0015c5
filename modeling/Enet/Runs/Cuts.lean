import Enet.Runs.Drops
import Enet.Runs.Sorted

/-!
# A queue cut into datagrams

What waits for a peer is sent in one datagram after the other. A datagram begins
with acknowledgements, and goes on with the unreliable commands at the front of
`outgoingCommands` until one does not fit, or until the loop gets to a command to
be acknowledged that it may send. The cuts between the datagrams are found here on
the sizes of the commands, without a host.
-/

set_option autoImplicit false

namespace Enet

open Relation

/-! ## The room in a datagram -/

/-- What the tests of a full datagram read. -/
structure Load where
  size : Nat
  commands : Nat
  buffers : Nat
  deriving DecidableEq, Repr

/-- How full a datagram is. -/
def Datagram.load (datagram : Datagram) : Load :=
  ⟨datagram.packetSize, datagram.commandCount, datagram.bufferCount⟩

namespace Load

/-- A datagram before its first command. -/
def empty : Load := ⟨4, 0, 1⟩

/-- Whether an acknowledgement does not fit. -/
def isFullOfAcknowledgements (load : Load) (mtu : Nat) : Bool :=
  decide (protocolMaximumPacketCommands ≤ load.commands ∨ bufferMaximum ≤ load.buffers ∨
    sub64 mtu load.size < commandSizes 1)

/-- The acknowledgements that fit, and how many are left. -/
def acknowledge (mtu : Nat) : (count : Nat) → Load → Load × Nat
  | 0, load => (load, 0)
  | count + 1, load =>
    if load.isFullOfAcknowledgements mtu then (load, count + 1)
    else acknowledge mtu count ⟨load.size + commandSizes 1, load.commands + 1, load.buffers + 1⟩

/-- Whether a command does not fit. -/
def isFull (load : Load) (mtu : Nat) (outgoing : OutgoingCommand) : Bool :=
  let room := sub64 mtu load.size
  decide (protocolMaximumPacketCommands ≤ load.commands) ||
    decide (bufferMaximum ≤ load.buffers + 1) ||
    decide (room < outgoing.command.size) ||
    (outgoing.packet.isSome &&
      decide (u16 room < u16 (outgoing.command.size + outgoing.fragmentLength)))

/-- A command and its payload. -/
def add (load : Load) (outgoing : OutgoingCommand) : Load where
  size :=
    load.size + (outgoing.command.size +
      if outgoing.packet.isSome then outgoing.fragmentLength else 0)
  commands := load.commands + 1
  buffers := load.buffers + if outgoing.packet.isSome then 2 else 1

/-- Whether a PING fits by its size. -/
def leavesRoom (load : Load) (mtu : Nat) : Bool := decide (4 ≤ sub64 mtu load.size)

end Load

/-! ## The cuts -/

/-- What decides where a queue is cut, besides the commands in it. -/
structure Packer where
  mtu : Nat
  packetThrottle : Nat
  /-- The first command of `outgoingSendReliableCommands`, where it may be sent. -/
  reliable : Option OutgoingCommand

/-- What waits for a peer: the acknowledgements, the throttle counter, and
`outgoingCommands`. -/
structure Line where
  acknowledgements : Nat
  throttleCounter : Nat
  commands : List OutgoingCommand

/-- One more command at the end of a queue. -/
def Line.push (line : Line) (last : OutgoingCommand) : Line :=
  { line with commands := line.commands ++ [last] }

/-- Where the commands of a datagram end. -/
inductive Ending where
  /-- Before an unreliable command that does not fit. -/
  | cut
  /-- Before a command to be acknowledged. -/
  | answered
  /-- With the queue, behind the packet that is dropped last if it is the end of the queue. -/
  | finished (dropped : Option OutgoingCommand)
  deriving DecidableEq

/-- A datagram with its unreliable commands, and what is left behind them. -/
structure Packed where
  load : Load
  throttleCounter : Nat
  rest : List OutgoingCommand
  ending : Ending

namespace Packer

/-- The throttle counter once a command is counted. -/
def count (throttleCounter : Nat) (outgoing : OutgoingCommand) : Nat :=
  if OutgoingScan.isThrottled outgoing then
    u32 (throttleCounter + peerPacketThrottleCounter) % peerPacketThrottleScale
  else throttleCounter

/-- Whether the reliable queue is served before a command. -/
def prefersReliable (packer : Packer) (outgoing : OutgoingCommand) : Bool :=
  packer.reliable.any fun reliable => timeLess reliable.queueTime outgoing.queueTime

/-- The commands of a queue that go into a datagram, or are dropped by the throttle.
Behind the first command of a packet that is dropped go the commands with its numbers. -/
def pack (packer : Packer) : Load → (throttleCounter : Nat) → (dropped : Option OutgoingCommand) →
    List OutgoingCommand → Packed
  | load, counter, dropped, [] =>
    ⟨load, counter, [], if packer.reliable.isSome then .answered else .finished dropped⟩
  | load, counter, dropped, outgoing :: rest =>
    if dropped.any (·.sharesNumbers outgoing) then packer.pack load counter dropped rest
    else if outgoing.command.acknowledge || packer.prefersReliable outgoing then
      ⟨load, counter, outgoing :: rest, .answered⟩
    else if load.isFull packer.mtu outgoing then ⟨load, counter, outgoing :: rest, .cut⟩
    else if OutgoingScan.isThrottled outgoing &&
        decide (packer.packetThrottle < count counter outgoing) then
      packer.pack load (count counter outgoing) (some outgoing) rest
    else packer.pack (load.add outgoing) (count counter outgoing) none rest

/-- The next datagram. -/
def packLine (packer : Packer) (line : Line) : Packed :=
  packer.pack (Load.empty.acknowledge packer.mtu line.acknowledgements).1 line.throttleCounter none
    line.commands

/-- What waits behind the next datagram. -/
def nextLine (packer : Packer) (line : Line) : Line where
  acknowledgements := (Load.empty.acknowledge packer.mtu line.acknowledgements).2
  throttleCounter := (packer.packLine line).throttleCounter
  commands := (packer.packLine line).rest

/-- How many of the first datagrams are cut with room for a PING. -/
def roomyCuts (packer : Packer) : (datagrams : Nat) → Line → Nat
  | 0, _ => 0
  | datagrams + 1, line =>
    match (packer.packLine line).ending with
    | .cut =>
      (if (packer.packLine line).load.leavesRoom packer.mtu then 1 else 0) +
        packer.roomyCuts datagrams (packer.nextLine line)
    | _ => 0

/-- Where the commands end, if they do within the first datagrams. -/
def ending (packer : Packer) : (datagrams : Nat) → Line → Ending
  | 0, _ => .cut
  | datagrams + 1, line =>
    match (packer.packLine line).ending with
    | .cut => packer.ending datagrams (packer.nextLine line)
    | other => other

end Packer

/-! ## What the cuts depend on -/

namespace Packer

variable {packer : Packer} {last : OutgoingCommand}

theorem pack_cons (load : Load) (counter : Nat) (dropped : Option OutgoingCommand)
    (outgoing : OutgoingCommand) (rest : List OutgoingCommand) :
    packer.pack load counter dropped (outgoing :: rest) =
      if dropped.any (·.sharesNumbers outgoing) then packer.pack load counter dropped rest
      else if outgoing.command.acknowledge || packer.prefersReliable outgoing then
        ⟨load, counter, outgoing :: rest, .answered⟩
      else if load.isFull packer.mtu outgoing then ⟨load, counter, outgoing :: rest, .cut⟩
      else if OutgoingScan.isThrottled outgoing &&
          decide (packer.packetThrottle < count counter outgoing) then
        packer.pack load (count counter outgoing) (some outgoing) rest
      else packer.pack (load.add outgoing) (count counter outgoing) none rest := rfl

/-- Behind the first command of a packet that is dropped, the commands with its numbers
are as good as gone. -/
theorem pack_dropWhile (first : OutgoingCommand) (load : Load) (counter : Nat)
    (commands : List OutgoingCommand) :
    packer.pack load counter (some first) commands =
      packer.pack load counter (some first) (commands.dropWhile first.sharesNumbers) := by
  induction commands with
  | nil => rfl
  | cons outgoing rest ih =>
      cases shares : first.sharesNumbers outgoing with
      | false => rw [List.dropWhile_cons_of_neg (by simp [shares])]
      | true =>
          rw [List.dropWhile_cons_of_pos shares, ← ih]
          exact if_pos shares

/-- A datagram as the queue leaves it. -/
inductive Stops (packer : Packer) : Packed → Prop where
  | ends (load : Load) (counter : Nat) (dropped : Option OutgoingCommand) :
      packer.Stops ⟨load, counter, [],
        if packer.reliable.isSome then .answered else .finished dropped⟩
  | answers {outgoing : OutgoingCommand} (load : Load) (counter : Nat)
      (rest : List OutgoingCommand)
      (first : (outgoing.command.acknowledge || packer.prefersReliable outgoing) = true) :
      packer.Stops ⟨load, counter, outgoing :: rest, .answered⟩
  | full {load : Load} {outgoing : OutgoingCommand} (counter : Nat) (rest : List OutgoingCommand)
      (behind : ¬(outgoing.command.acknowledge || packer.prefersReliable outgoing) = true)
      (full : load.isFull packer.mtu outgoing = true) :
      packer.Stops ⟨load, counter, outgoing :: rest, .cut⟩

theorem pack_stops (commands : List OutgoingCommand) :
    ∀ (load : Load) (counter : Nat) (dropped : Option OutgoingCommand),
      packer.Stops (packer.pack load counter dropped commands) := by
  induction commands with
  | nil => exact .ends
  | cons outgoing rest ih =>
      intro load counter dropped
      rw [pack_cons]
      split
      · exact ih _ _ _
      · split
        next first => exact .answers load counter rest first
        next behind =>
            split
            next full => exact .full counter rest behind full
            · split
              · exact ih _ _ _
              · exact ih _ _ _

/-- What is left behind a cut begins with the command that does not fit. -/
theorem Stops.pack_of_cut {packed : Packed} (stops : packer.Stops packed)
    (cut : packed.ending = .cut) :
    packer.pack packed.load packed.throttleCounter none packed.rest = packed := by
  cases stops with
  | ends load counter dropped =>
      dsimp only at cut
      split at cut <;> cases cut
  | answers load counter rest first => cases cut
  | full counter rest behind full =>
      dsimp only
      rw [pack_cons, if_neg (by simp), if_neg behind, if_pos full]

/-- What is left in front of a command to be acknowledged begins with it. -/
theorem Stops.pack_of_answered {packed : Packed} (stops : packer.Stops packed)
    (answered : packed.ending = .answered) (load : Load) (counter : Nat) :
    (packer.pack load counter none packed.rest).ending = .answered := by
  cases stops with
  | ends load' counter' dropped =>
      dsimp only at answered
      split at answered
      next reliable => exact if_pos reliable
      · cases answered
  | answers load' counter' rest first =>
      dsimp only
      rw [pack_cons, if_neg (by simp), if_pos first]
  | full counter' rest behind full => cases answered

/-- Nothing is left at the end of a queue. -/
theorem Stops.of_finished {packed : Packed} {dropped : Option OutgoingCommand}
    (stops : packer.Stops packed) (finished : packed.ending = .finished dropped) :
    packer.reliable = none ∧ packed.rest = [] := by
  cases stops with
  | ends load counter dropped' =>
      dsimp only at finished
      split at finished
      · cases finished
      next none => exact ⟨by simpa using none, rfl⟩
  | answers load counter rest first => cases finished
  | full counter rest behind full => cases finished

/-- A datagram and the same datagram with a command to be acknowledged at the end of
the queue. -/
structure Behind (last : OutgoingCommand) (packed packed' : Packed) : Prop where
  cut : packed.ending = .cut → packed' = { packed with rest := packed.rest ++ [last] }
  whole : packed.ending ≠ .cut → packed'.ending ≠ .cut
  answered : packed.ending ≠ .cut →
    (∀ dropped, packed.ending = .finished dropped →
      dropped.any (·.sharesNumbers last) = false) → packed'.ending = .answered

theorem Behind.of_answered {packed packed' : Packed} (whole : packed.ending ≠ .cut)
    (answered : packed'.ending = .answered) : Behind last packed packed' := by
  refine ⟨fun cut => absurd cut whole, fun _ cut => ?_, fun _ _ => answered⟩
  rw [answered] at cut
  cases cut

/-- **A command to be acknowledged at the end of the queue** is got to where nothing else
is, unless a packet that is dropped takes it along. -/
theorem pack_append (acknowledge : last.command.acknowledge = true)
    (commands : List OutgoingCommand) :
    ∀ (load : Load) (counter : Nat) (dropped : Option OutgoingCommand),
      Behind last (packer.pack load counter dropped commands)
        (packer.pack load counter dropped (commands ++ [last])) := by
  induction commands with
  | nil =>
      intro load counter dropped
      have whole : (packer.pack load counter dropped []).ending ≠ .cut := by
        unfold pack
        dsimp only
        split <;> simp
      rw [List.nil_append, pack_cons]
      cases shares : dropped.any (·.sharesNumbers last) with
      | false =>
          rw [if_neg Bool.false_ne_true, acknowledge, Bool.true_or, if_pos rfl]
          exact .of_answered whole rfl
      | true =>
          rw [if_pos rfl]
          refine ⟨fun cut => absurd cut whole, fun _ => whole, fun _ apart => ?_⟩
          unfold pack at apart ⊢
          dsimp only at apart ⊢
          split
          · rfl
          next reliable =>
              rw [if_neg reliable] at apart
              have differs := apart dropped rfl
              rw [shares] at differs
              cases differs
  | cons outgoing rest ih =>
      intro load counter dropped
      rw [List.cons_append, pack_cons, pack_cons]
      split
      · exact ih _ _ _
      · split
        · exact .of_answered (by simp) rfl
        · split
          · exact ⟨fun _ => rfl, fun other => absurd rfl other, fun other => absurd rfl other⟩
          · split
            · exact ih _ _ _
            · exact ih _ _ _

/-- The loop over what a datagram leaves leaves it again. -/
theorem Stops.pack_rest {packed : Packed} (stops : packer.Stops packed)
    (unanswered : packed.ending ≠ .answered) :
    ∃ ending, packer.pack packed.load packed.throttleCounter none packed.rest =
        { packed with ending := ending } ∧
      ending ≠ .answered ∧ (packed.ending = .cut → ending = .cut) := by
  cases ends : packed.ending with
  | answered => exact absurd ends unanswered
  | cut => exact ⟨.cut, by rw [stops.pack_of_cut ends, ← ends], by simp, fun _ => rfl⟩
  | finished dropped =>
      obtain ⟨none, rest⟩ := stops.of_finished ends
      refine ⟨.finished .none, ?_, by simp, by simp⟩
      rw [rest]
      unfold pack
      rw [none]
      rfl

/-- So it does with a command to be acknowledged behind it, which it gets to at the end. -/
theorem Stops.pack_push {packed : Packed} (stops : packer.Stops packed)
    (acknowledge : last.command.acknowledge = true) (unanswered : packed.ending ≠ .answered) :
    ∃ ending, packer.pack packed.load packed.throttleCounter none (packed.rest ++ [last]) =
        { packed with rest := packed.rest ++ [last], ending := ending } ∧
      (packed.ending = .cut → ending = .cut) ∧ (packed.ending ≠ .cut → ending = .answered) := by
  cases ends : packed.ending with
  | answered => exact absurd ends unanswered
  | cut =>
      have again := stops.pack_of_cut ends
      have behind := (@pack_append packer _ acknowledge packed.rest packed.load
        packed.throttleCounter none).cut (by rw [again]; exact ends)
      refine ⟨.cut, ?_, fun _ => rfl, by simp⟩
      rw [behind, again, ← ends]
  | finished dropped =>
      obtain ⟨-, rest⟩ := stops.of_finished ends
      refine ⟨.answered, ?_, by simp, fun _ => rfl⟩
      rw [rest, List.nil_append, pack_cons, if_neg (by simp), acknowledge, Bool.true_or, if_pos rfl]

/-! ## Several datagrams -/

theorem roomyCuts_of_room {line : Line} (cut : (packer.packLine line).ending = .cut)
    (room : (packer.packLine line).load.leavesRoom packer.mtu = true) (datagrams : Nat) :
    packer.roomyCuts (datagrams + 1) line =
      1 + packer.roomyCuts datagrams (packer.nextLine line) := by
  rw [roomyCuts, cut]
  dsimp only
  rw [if_pos room]

theorem roomyCuts_of_full {line : Line} (cut : (packer.packLine line).ending = .cut)
    (full : (packer.packLine line).load.leavesRoom packer.mtu = false) (datagrams : Nat) :
    packer.roomyCuts (datagrams + 1) line =
      packer.roomyCuts datagrams (packer.nextLine line) := by
  rw [roomyCuts, cut]
  dsimp only
  rw [full, if_neg Bool.false_ne_true, Nat.zero_add]

theorem roomyCuts_next_le {line : Line} (cut : (packer.packLine line).ending = .cut)
    (datagrams : Nat) : packer.roomyCuts datagrams (packer.nextLine line) ≤
      packer.roomyCuts (datagrams + 1) line := by
  rw [roomyCuts, cut]
  exact Nat.le_add_left ..

theorem ending_of_cut {line : Line} (cut : (packer.packLine line).ending = .cut)
    (datagrams : Nat) :
    packer.ending (datagrams + 1) line = packer.ending datagrams (packer.nextLine line) := by
  rw [ending, cut]

/-- Behind a datagram that is not cut nothing is looked at. -/
theorem roomyCuts_of_whole {line : Line} (whole : (packer.packLine line).ending ≠ .cut)
    (datagrams : Nat) : packer.roomyCuts datagrams line = 0 ∧
      ∀ dropped, packer.ending datagrams line = .finished dropped →
        (packer.packLine line).ending = .finished dropped := by
  cases datagrams with
  | zero =>
      refine ⟨rfl, fun dropped finished => ?_⟩
      rw [ending] at finished
      cases finished
  | succ datagrams =>
      unfold roomyCuts ending
      cases ends : (packer.packLine line).ending with
      | cut => exact absurd ends whole
      | answered => exact ⟨rfl, fun _ finished => finished⟩
      | finished last => exact ⟨rfl, fun _ finished => finished⟩

/-- An empty queue is not cut, and nothing in it is dropped. -/
theorem roomyCuts_of_nil {line : Line} (nothing : line.commands = []) (datagrams : Nat) :
    packer.roomyCuts datagrams line = 0 ∧
      ∀ dropped, packer.ending datagrams line = .finished dropped → dropped = none := by
  have ends : (packer.packLine line).ending =
      if packer.reliable.isSome then .answered else .finished none := by
    unfold packLine
    rw [nothing]
    rfl
  have whole : (packer.packLine line).ending ≠ .cut := by
    rw [ends]
    split <;> simp
  refine ⟨(roomyCuts_of_whole whole datagrams).1, fun dropped finished => ?_⟩
  have last := (roomyCuts_of_whole whole datagrams).2 dropped finished
  rw [ends] at last
  split at last
  · cases last
  · cases last
    rfl

theorem nextLine_push (acknowledge : last.command.acknowledge = true) (line : Line)
    (cut : (packer.packLine line).ending = .cut) :
    packer.packLine (line.push last) =
        { packer.packLine line with rest := (packer.packLine line).rest ++ [last] } ∧
      packer.nextLine (line.push last) = (packer.nextLine line).push last := by
  have same : packer.packLine (line.push last) =
      { packer.packLine line with rest := (packer.packLine line).rest ++ [last] } :=
    (pack_append acknowledge line.commands _ _ _).cut cut
  refine ⟨same, ?_⟩
  unfold nextLine
  rw [same]
  rfl

/-- Such a command does not move the cuts. -/
theorem roomyCuts_push (acknowledge : last.command.acknowledge = true) (datagrams : Nat) :
    ∀ line : Line, packer.roomyCuts datagrams (line.push last) =
      packer.roomyCuts datagrams line := by
  induction datagrams with
  | zero => intro line; rfl
  | succ datagrams ih =>
      intro line
      unfold roomyCuts
      cases ends : (packer.packLine line).ending with
      | cut =>
          obtain ⟨same, next⟩ := nextLine_push acknowledge line ends
          rw [same, next, ih]
          dsimp only
          rw [ends]
      | _ =>
          have whole : (packer.packLine (line.push last)).ending ≠ .cut :=
            (pack_append acknowledge line.commands _ _ _).whole (by
              change (packer.packLine line).ending ≠ .cut
              rw [ends]
              simp)
          dsimp only
          split
          next cut => exact absurd cut whole
          · rfl

/-- With such a command the queue does not end unanswered. -/
theorem ending_push (acknowledge : last.command.acknowledge = true) (datagrams : Nat) :
    ∀ line : Line, (∀ dropped, packer.ending datagrams line = .finished dropped →
        dropped.any (·.sharesNumbers last) = false) →
      ∀ dropped, packer.ending datagrams (line.push last) ≠ .finished dropped := by
  induction datagrams with
  | zero => intro line _ dropped same; cases same
  | succ datagrams ih =>
      intro line apart dropped
      unfold ending at apart ⊢
      cases ends : (packer.packLine line).ending with
      | cut =>
          rw [ends] at apart
          obtain ⟨same, next⟩ := nextLine_push acknowledge line ends
          rw [same, next]
          dsimp only
          rw [ends]
          exact ih (packer.nextLine line) apart dropped
      | _ =>
          rw [ends] at apart
          have answered : (packer.packLine (line.push last)).ending = .answered :=
            (pack_append acknowledge line.commands _ _ _).answered (by
              change (packer.packLine line).ending ≠ .cut
              rw [ends]
              simp) fun dropped' same => apart dropped' (by
                change (packer.packLine line).ending = _ at same
                rw [← same, ends])
          rw [answered]
          simp

/-! ## Queues with no room for a PING -/

/-- No datagram is cut with room for a PING, and the loop gets to a command to be
acknowledged before the end of the queue. -/
structure Answers (packer : Packer) (line : Line) : Prop where
  uncut : ∀ datagrams, packer.roomyCuts datagrams line = 0
  unfinished : ∀ datagrams dropped, packer.ending datagrams line ≠ .finished dropped

namespace Answers

theorem of_answered {line : Line} (answered : (packer.packLine line).ending = .answered) :
    packer.Answers line := by
  have whole : (packer.packLine line).ending ≠ .cut := by
    rw [answered]
    simp
  refine ⟨fun datagrams => (roomyCuts_of_whole whole datagrams).1,
    fun datagrams dropped finished => ?_⟩
  have ends := (roomyCuts_of_whole whole datagrams).2 dropped finished
  rw [answered] at ends
  cases ends

theorem full {line : Line} (answers : packer.Answers line)
    (unanswered : (packer.packLine line).ending ≠ .answered) :
    (packer.packLine line).load.leavesRoom packer.mtu = false := by
  cases ends : (packer.packLine line).ending with
  | answered => exact absurd ends unanswered
  | cut =>
      refine Bool.eq_false_iff.mpr fun room => ?_
      have roomy := roomyCuts_of_room ends room 0
      rw [answers.uncut 1] at roomy
      omega
  | finished dropped =>
      refine absurd ?_ (answers.unfinished 1 dropped)
      rw [ending, ends]

/-- So it is with what waits behind the next datagram. -/
theorem next {line : Line} (answers : packer.Answers line) :
    packer.Answers (packer.nextLine line) := by
  have stops : packer.Stops (packer.packLine line) := pack_stops ..
  cases ends : (packer.packLine line).ending with
  | answered => exact of_answered (stops.pack_of_answered ends _ _)
  | cut =>
      refine ⟨fun datagrams => ?_, fun datagrams dropped finished => ?_⟩
      · exact Nat.le_zero.mp ((roomyCuts_next_le ends datagrams).trans
          (answers.uncut (datagrams + 1)).le)
      · rw [← ending_of_cut ends] at finished
        exact answers.unfinished _ dropped finished
  | finished dropped =>
      refine absurd ?_ (answers.unfinished 1 dropped)
      rw [ending, ends]

/-- A command to be acknowledged at the end of a queue is got to. -/
theorem push (acknowledge : last.command.acknowledge = true) {line : Line}
    (uncut : ∀ datagrams, packer.roomyCuts datagrams line = 0)
    (apart : ∀ datagrams dropped, packer.ending datagrams line = .finished dropped →
      dropped.any (·.sharesNumbers last) = false) : packer.Answers (line.push last) :=
  ⟨fun datagrams => (roomyCuts_push acknowledge datagrams line).trans (uncut datagrams),
    fun datagrams => ending_push acknowledge datagrams line (apart datagrams)⟩

end Answers

end Packer

/-! ## The loop packs -/

namespace Peer

/-- Whether a command to be acknowledged is held back at its place in the queue. -/
def holdsBack (peer : Peer) (outgoing : OutgoingCommand) : Bool :=
  decide (outgoing.command.channelID < peer.channelCount) &&
      OutgoingScan.windowBlocked (peer.channels outgoing.command.channelID) outgoing ||
    OutgoingScan.dataBlocked peer outgoing

/-- What decides where the queue of a peer is cut. -/
def packer (peer : Peer) : Packer where
  mtu := peer.mtu
  packetThrottle := peer.packetThrottle
  reliable := peer.outgoingSendReliableCommands.head?.filter fun outgoing =>
    !peer.holdsBack outgoing

/-- What waits for a peer. -/
def line (peer : Peer) : Line :=
  ⟨peer.acknowledgements.length, peer.packetThrottleCounter, peer.outgoingCommands⟩

/-- A command to be acknowledged was sent at this time, and is not overdue at once. -/
def SentNow (peer : Peer) (serviceTime : Nat) : Prop :=
  ∃ outgoing ∈ peer.sentReliableCommands,
    outgoing.sentTime = serviceTime ∧ 0 < outgoing.roundTripTimeout

end Peer

namespace OutgoingScan

variable {peer : Peer} {scan scan' : OutgoingScan} {serviceTime : Nat} {reliable : Bool}
  {outgoing : OutgoingCommand} {dropped : Option OutgoingCommand}

/-- The loop before it gets to a command to be acknowledged that it may send: it has
passed over nothing, or over the reliable queue, whose first command is held back. -/
structure Packing (peer : Peer) (dropped : Option OutgoingCommand) (scan : OutgoingScan) :
    Prop where
  sorted : scan.finish.Sorted
  passed : scan.passed = []
  same : scan.peer =
    { peer with
      packetsSent := scan.peer.packetsSent
      packetThrottleCounter := scan.peer.packetThrottleCounter }
  canPing : scan.canPing = true
  reliable :
    scan.restReliable = peer.outgoingSendReliableCommands ∧ scan.passedReliable = [] ∧
      scan.windowWrap = false ∨
    scan.restReliable = [] ∧ scan.passedReliable = peer.outgoingSendReliableCommands ∧
      peer.packer.reliable = none
  apart : ∀ outgoing ∈ scan.rest.head?, dropped.any (·.sharesNumbers outgoing) = false

/-- What a datagram leaves that holds nothing to be acknowledged. -/
structure Leaves (peer : Peer) (packed : Packed) (scan : OutgoingScan) : Prop where
  load : scan.datagram.load = packed.load
  left : scan.finish =
    { peer with
      outgoingCommands := packed.rest
      packetsSent := scan.peer.packetsSent
      packetThrottleCounter := packed.throttleCounter
      continueSending := scan.peer.continueSending }

/-- What the loop makes of a datagram. -/
inductive Fills (peer : Peer) (serviceTime : Nat) (packed : Packed) (scan : OutgoingScan) :
    Prop where
  | waits (unanswered : packed.ending ≠ .answered) (canPing : scan.canPing = true)
      (leaves : scan.Leaves peer packed)
      (more : packed.ending = .cut → scan.peer.continueSending = true)
  | stops (answered : packed.ending = .answered) (canPing : scan.canPing = false)
      (leaves : scan.Leaves peer packed)
  | sends (answered : packed.ending = .answered) (canPing : scan.canPing = false)
      (sent : scan.peer.SentNow serviceTime)

/-- The datagram that the loop is at, as the queue fills it. -/
abbrev packed (peer : Peer) (dropped : Option OutgoingCommand) (scan : OutgoingScan) : Packed :=
  peer.packer.pack scan.datagram.load scan.peer.packetThrottleCounter dropped scan.rest

theorem Packing.start (sorted : peer.Sorted) (heap : Heap) (datagram : Datagram)
    (sentUnreliable : List OutgoingCommand) :
    (OutgoingScan.start peer heap datagram sentUnreliable).Packing peer none where
  sorted := sorted
  passed := rfl
  same := rfl
  canPing := rfl
  reliable := .inl ⟨rfl, rfl, rfl⟩
  apart := fun _ _ => rfl

theorem Leaves.stopFull {packed : Packed} (leaves : scan.Leaves peer packed) :
    scan.stopFull.Leaves peer packed :=
  ⟨leaves.load, (congrArg (Peer.setContinueSending · true) leaves.left).trans rfl⟩

/-- A command that is put in a datagram. -/
theorem emit_load (scan : OutgoingScan) (outgoing : OutgoingCommand) :
    (scan.emit outgoing).datagram.load = scan.datagram.load.add outgoing := by
  unfold emit Datagram.push Datagram.load Load.add Datagram.commandCount Datagram.bufferCount
    payload
  dsimp only
  rw [List.length_append, List.filter_append, List.length_append]
  cases outgoing.packet with
  | none =>
      simp only [Load.mk.injEq, true_and]
      exact ⟨rfl, by simp; omega⟩
  | some packet =>
      simp only [Load.mk.injEq, true_and]
      exact ⟨rfl, by simp; omega⟩

theorem transmitUnreliable_load (scan : OutgoingScan) (outgoing : OutgoingCommand) :
    (scan.transmitUnreliable false outgoing).datagram.load = scan.datagram.load.add outgoing ∧
      (scan.transmitUnreliable false outgoing).rest = scan.rest.tail := by
  unfold transmitUnreliable
  dsimp only
  split
  · exact ⟨emit_load (scan.unlink false) outgoing, List.drop_one⟩
  · exact ⟨emit_load (scan.unlink false) outgoing, List.drop_one⟩

namespace Packing

/-- The loop as it is now. -/
theorem leaves (packs : scan.Packing peer dropped) (load : Load) (counter : Nat)
    (rest : List OutgoingCommand) (ending : Ending) (here : scan.datagram.load = load)
    (counted : scan.peer.packetThrottleCounter = counter) (left : scan.rest = rest) :
    scan.Leaves peer ⟨load, counter, rest, ending⟩ := by
  refine ⟨here, ?_⟩
  have queue : scan.passedReliable ++ scan.restReliable = peer.outgoingSendReliableCommands := by
    rcases packs.reliable with ⟨rest, passed, -⟩ | ⟨rest, passed, -⟩
    · rw [rest, passed, List.nil_append]
    · rw [rest, passed, List.append_nil]
  unfold finish
  rw [packs.passed, List.nil_append, queue, left, ← counted, packs.same]
  rfl

/-- The end of both queues. -/
theorem fills_of_end (packs : scan.Packing peer dropped) (rest : scan.rest = [])
    (restReliable : scan.restReliable = []) :
    scan.Fills peer serviceTime (scan.packed peer dropped) := by
  have none : peer.packer.reliable = none := by
    rcases packs.reliable with ⟨queue, -⟩ | ⟨-, -, none⟩
    · unfold Peer.packer
      dsimp only
      rw [← queue, restReliable]
      rfl
    · exact none
  have same : scan.packed peer dropped =
      ⟨scan.datagram.load, scan.peer.packetThrottleCounter, [], .finished dropped⟩ := by
    unfold packed
    rw [rest]
    unfold Packer.pack
    rw [none]
    rfl
  rw [same]
  exact .waits (by simp) packs.canPing (packs.leaves _ _ _ _ rfl rfl rest) (by simp)

/-- What holds a command back is the same for as long as nothing to be acknowledged is
sent. -/
theorem holdsBack_eq (packs : scan.Packing peer dropped) (outgoing : OutgoingCommand) :
    (scan.hasChannel outgoing &&
        windowBlocked (scan.peer.channels outgoing.command.channelID) outgoing ||
      dataBlocked scan.peer outgoing) = peer.holdsBack outgoing := by
  unfold hasChannel
  rw [packs.same]
  rfl

/-- The iterator of the reliable queue is at its first command, if it is not at the end. -/
theorem of_reliable (packs : scan.Packing peer dropped)
    (next : scan.next = some (true, outgoing)) :
    scan.restReliable = peer.outgoingSendReliableCommands ∧ scan.passedReliable = [] ∧
      scan.windowWrap = false ∧
      peer.packer.reliable = if peer.holdsBack outgoing then none else some outgoing := by
  have queue := restReliable_of_next next
  rcases packs.reliable with ⟨rest, passed, unwrapped⟩ | ⟨rest, -, -⟩
  · refine ⟨rest, passed, unwrapped, ?_⟩
    unfold Peer.packer
    dsimp only
    rw [← rest, queue, List.head?_cons]
    cases held : peer.holdsBack outgoing with
    | true => simp [held]
    | false => simp [held]
  · rw [rest] at queue
    cases queue

/-- The iterator of the other queue is at a command that the reliable queue does not
precede. -/
theorem prefersReliable_eq_false (packs : scan.Packing peer dropped)
    (next : scan.next = some (false, outgoing)) :
    peer.packer.prefersReliable outgoing = false := by
  unfold Packer.prefersReliable
  rcases packs.reliable with ⟨rest, -, -⟩ | ⟨-, -, none⟩
  · cases queue : scan.restReliable with
    | nil =>
        unfold Peer.packer
        dsimp only
        rw [← rest, queue]
        rfl
    | cons first others =>
        have early : timeLess first.queueTime outgoing.queueTime = false := by
          have rest' := rest_of_next next
          rw [OutgoingScan.next, rest', queue] at next
          dsimp only at next
          split at next
          · cases next
          next late => exact Bool.eq_false_iff.mpr late
        unfold Peer.packer
        dsimp only
        rw [← rest, queue, List.head?_cons]
        cases held : peer.holdsBack first with
        | true => simp [held]
        | false => simp [held, early]
  · rw [none]
    rfl

/-- A command to be acknowledged that is not held back ends the unreliable commands. -/
theorem packed_of_admitted (packs : scan.Packing peer dropped)
    (next : scan.next = some (reliable, outgoing))
    (acknowledge : outgoing.command.acknowledge = true)
    (admitted : peer.holdsBack outgoing = false) :
    scan.packed peer dropped =
      ⟨scan.datagram.load, scan.peer.packetThrottleCounter, scan.rest, .answered⟩ := by
  unfold packed
  cases reliable with
  | true =>
      obtain ⟨-, -, -, first⟩ := packs.of_reliable next
      rw [admitted, if_neg Bool.false_ne_true] at first
      cases rest : scan.rest with
      | nil =>
          unfold Packer.pack
          rw [first]
          rfl
      | cons other others =>
          have early : timeLess outgoing.queueTime other.queueTime = true := by
            have queue := restReliable_of_next next
            rw [OutgoingScan.next, rest, queue] at next
            dsimp only at next
            split at next
            next early => exact early
            · cases next
          have apart := packs.apart other (by rw [rest]; rfl)
          have prefers : peer.packer.prefersReliable other = true := by
            unfold Packer.prefersReliable
            rw [first]
            exact early
          rw [Packer.pack_cons, apart, if_neg Bool.false_ne_true, prefers, Bool.or_true,
            if_pos rfl]
  | false =>
      have rest := rest_of_next next
      have apart := packs.apart outgoing (by rw [rest]; rfl)
      rw [rest, Packer.pack_cons, apart, if_neg Bool.false_ne_true, acknowledge, Bool.true_or,
        if_pos rfl]

/-- Where an unreliable command goes. -/
theorem packed_of_unreliable (packs : scan.Packing peer dropped)
    (next : scan.next = some (false, outgoing))
    (unreliable : outgoing.command.acknowledge = false) :
    scan.packed peer dropped =
      if scan.isFull outgoing then
        ⟨scan.datagram.load, scan.peer.packetThrottleCounter, scan.rest, .cut⟩
      else if isThrottled outgoing &&
          decide (peer.packetThrottle < throttleCounter scan.peer outgoing) then
        peer.packer.pack scan.datagram.load (throttleCounter scan.peer outgoing) (some outgoing)
          scan.rest.tail
      else
        peer.packer.pack (scan.datagram.load.add outgoing) (throttleCounter scan.peer outgoing)
          none scan.rest.tail := by
  have rest := rest_of_next next
  have apart := packs.apart outgoing (by rw [rest]; rfl)
  have full : scan.isFull outgoing = scan.datagram.load.isFull peer.packer.mtu outgoing := by
    unfold isFull
    rw [packs.same]
    rfl
  unfold packed
  rw [full]
  conv_lhs => rw [rest]
  rw [Packer.pack_cons, apart, if_neg Bool.false_ne_true, unreliable,
    packs.prefersReliable_eq_false next, Bool.or_false, if_neg Bool.false_ne_true, ← rest]
  rfl

/-- The loop passes over the reliable queue behind a command that is held back. -/
theorem skips (packs : scan.Packing peer dropped) (next : scan.next = some (true, outgoing))
    (held : peer.holdsBack outgoing = true) (wrap : Bool) :
    ({ (scan.pass true).skipReliable with windowWrap := wrap } : OutgoingScan).Packing peer
      dropped := by
  obtain ⟨rest, passed, -, first⟩ := packs.of_reliable next
  have same : ({ (scan.pass true).skipReliable with windowWrap := wrap } : OutgoingScan).finish =
      scan.finish := (skipReliable_finish _).trans (pass_finish scan true)
  rw [held, if_pos rfl] at first
  refine ⟨?_, packs.passed, packs.same, packs.canPing, .inr ⟨rfl, ?_, first⟩, packs.apart⟩
  · rw [same]
    exact packs.sorted
  · rw [← rest]
    unfold pass skipReliable
    rw [if_pos rfl]
    dsimp only
    rw [passed, List.nil_append, List.take_append_drop]

/-- An unreliable command goes into the datagram, or is dropped with its packet. -/
theorem sendUnreliable (packs : scan.Packing peer dropped)
    (next : scan.next = some (false, outgoing))
    (unreliable : outgoing.command.acknowledge = false) (room : scan.isFull outgoing = false)
    (sorted : (scan.sendUnreliable false outgoing).finish.Sorted) :
    ∃ dropped', (scan.sendUnreliable false outgoing).Packing peer dropped' ∧
      (scan.sendUnreliable false outgoing).packed peer dropped' = scan.packed peer dropped := by
  have before := packs.packed_of_unreliable next unreliable
  have throttle : (scan.setPeer (scan.peer.setThrottleCounter
      (throttleCounter scan.peer outgoing))).peer.packetThrottle = peer.packetThrottle := by
    rw [packs.same]
    rfl
  rw [room, if_neg Bool.false_ne_true] at before
  unfold OutgoingScan.sendUnreliable at sorted ⊢
  dsimp only at sorted ⊢
  rw [throttle] at sorted ⊢
  split at sorted
  next drops =>
      rw [if_pos drops] at before ⊢
      refine ⟨some outgoing, ⟨sorted, packs.passed, ?_, packs.canPing, packs.reliable, ?_⟩, ?_⟩
      · rw [dropThrottled_peer]
        exact (congrArg (Peer.setThrottleCounter · (throttleCounter scan.peer outgoing))
          packs.same).trans rfl
      · rw [dropThrottled_rest]
        intro other first
        have stays := List.head?_dropWhile_not outgoing.sharesNumbers
          ((scan.setPeer (scan.peer.setThrottleCounter
            (throttleCounter scan.peer outgoing))).unlink false).rest
        rw [Option.mem_def.mp first] at stays
        exact stays
      · rw [before, Packer.pack_dropWhile]
        unfold packed
        rw [dropThrottled_rest, dropThrottled_peer]
        exact congrArg (fun rest => peer.packer.pack scan.datagram.load
          (throttleCounter scan.peer outgoing) (some outgoing)
          (List.dropWhile outgoing.sharesNumbers rest)) List.drop_one
  next goes =>
      rw [if_neg goes] at before ⊢
      refine ⟨none, ⟨sorted, ?_, ?_, ?_, ?_, fun _ _ => rfl⟩, ?_⟩
      · unfold transmitUnreliable
        dsimp only
        split <;> exact packs.passed
      · rw [transmitUnreliable_peer]
        exact (congrArg (fun peer : Peer =>
          (peer.setThrottleCounter (throttleCounter scan.peer outgoing)).countPacketSent)
          packs.same).trans rfl
      · unfold transmitUnreliable
        dsimp only
        split <;> exact packs.canPing
      · unfold transmitUnreliable
        dsimp only
        split <;> exact packs.reliable
      · obtain ⟨load, rest⟩ := transmitUnreliable_load (scan.setPeer
          (scan.peer.setThrottleCounter (throttleCounter scan.peer outgoing))) outgoing
        rw [before]
        unfold packed
        rw [load, rest, transmitUnreliable_peer]
        rfl

end Packing

/-- What was sent stays sent. -/
theorem step_sentNow (canPing : scan.canPing = false) (sent : scan.peer.SentNow serviceTime) :
    (scan.step serviceTime reliable outgoing).1.canPing = false ∧
      (scan.step serviceTime reliable outgoing).1.peer.SentNow serviceTime := by
  have passes : (scan.pass reliable).canPing = false ∧
      (scan.pass reliable).peer.SentNow serviceTime := by
    rw [pass_peer]
    cases reliable <;> exact ⟨canPing, sent⟩
  have stepped := scan.step_stepped serviceTime reliable outgoing
  generalize scan.step serviceTime reliable outgoing = after at stepped ⊢
  cases stepped with
  | passes acknowledge channel wrapped => exact passes
  | wraps acknowledge channel unwrapped blocked => exact passes
  | waits acknowledge free blocked => exact passes
  | stops acknowledge free admitted full => exact ⟨rfl, sent⟩
  | stopsUnreliable unreliable full => exact ⟨canPing, sent⟩
  | sends acknowledge free admitted room =>
      obtain ⟨early, member, now⟩ := sent
      refine ⟨by cases reliable <;> rfl, early, ?_, now⟩
      dsimp only
      rw [sendReliable_sent]
      exact List.mem_append_left _ member
  | sendsUnreliable unreliable room =>
      refine ⟨?_, ?_⟩
      · unfold sendUnreliable transmitUnreliable
        dsimp only
        split
        · cases reliable <;> exact canPing
        · split
          · cases reliable <;> exact canPing
          · cases reliable <;> exact canPing
      · unfold Peer.SentNow
        rw [(scan.sendUnreliable_lists reliable outgoing).2.2.2.2]
        exact sent

theorem run_sentNow (fuel : Nat) : ∀ scan : OutgoingScan, scan.canPing = false →
    scan.peer.SentNow serviceTime → (run serviceTime fuel scan).canPing = false ∧
      (run serviceTime fuel scan).peer.SentNow serviceTime := by
  induction fuel with
  | zero => exact fun scan canPing sent => ⟨canPing, sent⟩
  | succ fuel ih =>
      intro scan canPing sent
      unfold run
      split
      · exact ⟨canPing, sent⟩
      next reliable outgoing _ =>
          obtain ⟨canPing', sent'⟩ := @step_sentNow _ _ reliable outgoing canPing sent
          dsimp only
          split
          · exact ih _ canPing' sent'
          · exact ⟨canPing', sent'⟩

/-- A command that is sent is in flight. -/
theorem sendReliable_sentNow
    (timeout : 0 < u32 (scan.peer.roundTripTime + 4 * scan.peer.roundTripTimeVariance)) :
    (scan.forbidPing.sendReliable serviceTime reliable outgoing).peer.SentNow serviceTime := by
  refine ⟨transmitted scan.peer serviceTime outgoing, ?_, rfl, ?_⟩
  · rw [sendReliable_sent]
    exact List.mem_append_right _ (List.mem_singleton.mpr rfl)
  · unfold transmitted
    dsimp only
    split
    · exact timeout
    next set => exact Nat.pos_of_ne_zero set

/-- **The loop fills a datagram as the queue is packed.** -/
theorem Packing.run (few : peer.channelCount ≤ protocolMaximumChannelCount)
    (timeout : 0 < u32 (peer.roundTripTime + 4 * peer.roundTripTimeVariance)) (fuel : Nat) :
    ∀ {scan : OutgoingScan} {dropped : Option OutgoingCommand}, scan.Packing peer dropped →
      scan.left ≤ fuel →
      (run serviceTime fuel scan).Fills peer serviceTime (scan.packed peer dropped) := by
  induction fuel with
  | zero =>
      intro scan dropped packs short
      have lengths : scan.rest.length + scan.restReliable.length = 0 := Nat.le_zero.mp short
      exact packs.fills_of_end (List.eq_nil_of_length_eq_zero (by omega))
        (List.eq_nil_of_length_eq_zero (by omega))
  | succ fuel ih =>
      intro scan dropped packs short
      unfold OutgoingScan.run
      split
      next nothing =>
          unfold OutgoingScan.next at nothing
          split at nothing
          next rest restReliable => exact packs.fills_of_end rest restReliable
          · cases nothing
          · cases nothing
          · split at nothing <;> cases nothing
      next reliable outgoing next =>
          have sorted := @step_sorted _ serviceTime _ _ packs.sorted next
          have turn := fun goesOn : (scan.step serviceTime reliable outgoing).2 = true =>
            Turn.left_lt (⟨reliable, outgoing, next, Prod.ext rfl goesOn⟩ :
              Turn serviceTime scan (scan.step serviceTime reliable outgoing).1)
          have held := packs.holdsBack_eq outgoing
          have fewer : scan.peer.channelCount ≤ protocolMaximumChannelCount := by
            rw [packs.same]
            exact few
          have unheld : (scan.hasChannel outgoing = true → scan.windowWrap = false ∧
              windowBlocked (scan.peer.channels outgoing.command.channelID) outgoing = false) →
              dataBlocked scan.peer outgoing = false → peer.holdsBack outgoing = false := by
            intro free admitted
            rw [← held, admitted, Bool.or_false]
            cases channel : scan.hasChannel outgoing with
            | false => rfl
            | true => exact (free channel).2
          have first : outgoing.command.acknowledge = false → reliable = false := by
            intro unreliable
            cases reliable with
            | false => rfl
            | true =>
                rw [((belongs_of_next packs.sorted next).2.1 rfl).1] at unreliable
                cases unreliable
          have stepped := scan.step_stepped serviceTime reliable outgoing
          generalize scan.step serviceTime reliable outgoing = after at stepped sorted turn ⊢
          cases stepped with
          | passes acknowledge channel wrapped =>
              obtain rfl := reliable_of_channel packs.sorted fewer next acknowledge channel
              rw [(packs.of_reliable next).2.2.1] at wrapped
              cases wrapped
          | wraps acknowledge channel unwrapped blocked =>
              obtain rfl := reliable_of_channel packs.sorted fewer next acknowledge channel
              rw [channel, blocked] at held
              exact ih (packs.skips next held.symm true)
                (Nat.le_of_lt_succ (Nat.lt_of_lt_of_le (turn rfl) short))
          | waits acknowledge free blocked =>
              obtain rfl := reliable_of_packet packs.sorted next acknowledge
                (Bool.and_eq_true_iff.mp blocked).1
              rw [blocked, Bool.or_true] at held
              have skips := packs.skips next held.symm scan.windowWrap
              exact ih skips (Nat.le_of_lt_succ (Nat.lt_of_lt_of_le (turn rfl) short))
          | stops acknowledge free admitted full =>
              rw [packs.packed_of_admitted next acknowledge (unheld free admitted)]
              have leaves := (packs.leaves _ _ _ .answered rfl rfl rfl).stopFull
              exact .stops rfl rfl ⟨leaves.load, leaves.left⟩
          | sends acknowledge free admitted room =>
              have timeout' : 0 < u32 (scan.peer.roundTripTime +
                  4 * scan.peer.roundTripTimeVariance) := by
                rw [packs.same]
                exact timeout
              obtain ⟨canPing, sent⟩ := run_sentNow fuel
                (scan.forbidPing.sendReliable serviceTime reliable outgoing)
                (by cases reliable <;> rfl) (sendReliable_sentNow timeout')
              rw [packs.packed_of_admitted next acknowledge (unheld free admitted)]
              exact .sends rfl canPing sent
          | stopsUnreliable unreliable full =>
              obtain rfl := first unreliable
              rw [packs.packed_of_unreliable next unreliable, full, if_pos rfl]
              exact .waits (by simp) packs.canPing (packs.leaves _ _ _ _ rfl rfl rfl).stopFull
                fun _ => rfl
          | sendsUnreliable unreliable room =>
              obtain rfl := first unreliable
              obtain ⟨dropped', packs', same⟩ := packs.sendUnreliable next unreliable room sorted
              rw [← same]
              exact ih packs' (Nat.le_of_lt_succ (Nat.lt_of_lt_of_le (turn rfl) short))

end OutgoingScan

end Enet
