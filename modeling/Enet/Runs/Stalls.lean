import Enet.Runs.Drops
import Enet.Runs.Sorted

/-!
# Stalled channels

The windows of a channel may hold back its next reliable command. The loop of
`enet_protocol_check_outgoing_commands` then goes to the end of
`outgoingSendReliableCommands`, so it gets to no reliable command behind the one
held back, whatever its channel.
-/

set_option autoImplicit false

namespace Enet

open Relation

/-! ## What a check sends -/

namespace OutgoingScan

/-- The loop is at a command that the windows of its own channel hold back. -/
structure HoldsAt (serviceTime : Nat) (start scan : OutgoingScan) (held : OutgoingCommand) :
    Prop where
  reached : ReflTransGen (Turn serviceTime) start scan
  next : ∃ reliable, scan.next = some (reliable, held)
  acknowledge : held.command.acknowledge = true
  channel : scan.hasChannel held = true
  unwrapped : scan.windowWrap = false
  blocked : windowBlocked (scan.peer.channels held.command.channelID) held = true

/-- A command that the windows of its channel, the limit on the data in transit and the
space of the datagram let pass. -/
structure Admits (scan : OutgoingScan) (outgoing : OutgoingCommand) : Prop where
  channel : scan.hasChannel outgoing = true
  windows : windowBlocked (scan.peer.channels outgoing.command.channelID) outgoing = false
  data : dataBlocked scan.peer outgoing = false
  room : scan.isFull outgoing = false

/-- The place in `outgoingSendReliableCommands` that the loop is at. -/
def place (peer : Peer) (scan : OutgoingScan) : Nat :=
  peer.outgoingSendReliableCommands.length - scan.restReliable.length

/-- A command of another channel than the one held back: it is unsent, next of its
channel, and admitted for as long as the loop runs. -/
structure Frees (serviceTime : Nat) (peer : Peer) (scan : OutgoingScan)
    (held : OutgoingCommand) (place : Nat) (other : OutgoingCommand) : Prop where
  here : peer.outgoingSendReliableCommands[place]? = some other
  unsent : other.sendAttempts < 1
  apart : other.command.channelID ≠ held.command.channelID
  next : ∀ before earlier, peer.outgoingSendReliableCommands[before]? = some earlier →
    scan.place peer ≤ before → before < place →
    earlier.command.channelID ≠ other.command.channelID
  admitted : ∀ later, ReflTransGen (Turn serviceTime) scan later → later.Admits other

/-- This many commands have left `outgoingSendReliableCommands`, from its front, and
are in transit in the order of the queue. -/
structure TransmitsFirst (count : Nat) (peer : Peer) (scan : OutgoingScan) : Prop where
  within : count ≤ peer.outgoingSendReliableCommands.length
  left : scan.finish.outgoingSendReliableCommands = peer.outgoingSendReliableCommands.drop count
  sent : ∃ sent, scan.peer.sentReliableCommands = peer.sentReliableCommands ++ sent ∧
    (sent.filter fun outgoing => outgoing.packet.isSome).map OutgoingCommand.core =
      (peer.outgoingSendReliableCommands.take count).map OutgoingCommand.core

end OutgoingScan

/-- A check that transmits the reliable commands of each channel in their order, and
among them what another channel alone could hold back. -/
def Peer.SendsIndependently (peer : Peer) (heap : Heap) (datagram : Datagram)
    (sentUnreliable : List OutgoingCommand) (serviceTime : Nat) : Prop :=
  ∃ count, OutgoingScan.TransmitsFirst count peer
      (peer.checkOutgoingCommands heap datagram sentUnreliable serviceTime) ∧
    ∀ scan held place other,
      (OutgoingScan.start peer heap datagram sentUnreliable).HoldsAt serviceTime scan held →
      scan.Frees serviceTime peer held place other → place < count

namespace OutgoingScan

variable {peer : Peer} {scan scan' : OutgoingScan} {serviceTime count : Nat} {reliable : Bool}
  {outgoing held : OutgoingCommand}

/-! ## One turn -/

/-- The state of the loop over sorted queues: the iterator of the reliable queue has
passed over nothing, or is at the end. -/
structure Progress (peer : Peer) (count : Nat) (scan : OutgoingScan) : Prop where
  sorted : scan.finish.Sorted
  few : scan.peer.channelCount ≤ protocolMaximumChannelCount
  transmits : scan.TransmitsFirst count peer
  ends : scan.passedReliable = [] ∨ scan.restReliable = []
  wrapped : scan.windowWrap = true → scan.restReliable = []

/-- A command that waits is passed over with all behind it. -/
theorem Progress.skips (progress : scan.Progress peer count) (wrap : Bool) :
    ({ (scan.pass true).skipReliable with windowWrap := wrap } : OutgoingScan).Progress peer
      count := by
  have same : ({ (scan.pass true).skipReliable with windowWrap := wrap } : OutgoingScan).finish =
      scan.finish := (skipReliable_finish _).trans (pass_finish scan true)
  refine ⟨?_, progress.few, ⟨progress.transmits.within, ?_, progress.transmits.sent⟩, .inr rfl,
    fun _ => rfl⟩
  · rw [same]
    exact progress.sorted
  · rw [same]
    exact progress.transmits.left

theorem Progress.sendsReliable (progress : scan.Progress peer count)
    (next : scan.next = some (true, outgoing)) (serviceTime : Nat)
    (sorted : (scan.forbidPing.sendReliable serviceTime true outgoing).finish.Sorted)
    (few : (scan.forbidPing.sendReliable serviceTime true outgoing).peer.channelCount ≤
      protocolMaximumChannelCount) :
    (scan.forbidPing.sendReliable serviceTime true outgoing).Progress peer (count + 1) := by
  have carried := ((belongs_of_next progress.sorted next).2.1 rfl).2
  have queue := restReliable_of_next next
  have none : scan.passedReliable = [] := by
    rcases progress.ends with none | none
    · exact none
    · rw [none] at queue
      cases queue
  obtain ⟨-, -, passedReliable, restReliable⟩ :=
    scan.sendReliable_lists serviceTime true outgoing
  have rest : (scan.unlink true).restReliable = scan.restReliable.tail := List.drop_one
  have drops : peer.outgoingSendReliableCommands.drop count =
      outgoing :: scan.restReliable.tail := by
    rw [← progress.transmits.left, (finish_lists scan).2.1, none, List.nil_append]
    exact queue
  have within : count < peer.outgoingSendReliableCommands.length := by
    by_contra all
    rw [List.drop_eq_nil_of_le (Nat.le_of_not_lt all)] at drops
    cases drops
  rw [List.drop_eq_getElem_cons within] at drops
  obtain ⟨here, behind⟩ := List.cons.inj drops
  refine ⟨sorted, few, ⟨within, ?_, ?_⟩, .inl (passedReliable.trans none), fun wrapped => ?_⟩
  · rw [(finish_lists _).2.1, passedReliable, restReliable, none, rest, List.nil_append]
    exact behind.symm
  · obtain ⟨sent, transit, cores⟩ := progress.transmits.sent
    refine ⟨sent ++ [transmitted scan.peer serviceTime outgoing], ?_, ?_⟩
    · rw [sendReliable_sent, transit, List.append_assoc]
    · have new : [transmitted scan.peer serviceTime outgoing].filter
          (fun outgoing => outgoing.packet.isSome) = [transmitted scan.peer serviceTime outgoing] :=
        List.filter_cons_of_pos carried
      rw [List.filter_append, List.map_append, cores, new,
        List.take_succ_eq_append_getElem within, List.map_append, here]
      rfl
  · rw [progress.wrapped wrapped] at queue
    cases queue

/-- A command of the other queue that leaves it changes nothing of the reliable one. -/
theorem Progress.sendsOther (progress : scan.Progress peer count)
    (sorted : scan'.finish.Sorted) (few : scan'.peer.channelCount ≤ protocolMaximumChannelCount)
    (passedReliable : scan'.passedReliable = scan.passedReliable)
    (restReliable : scan'.restReliable = scan.restReliable)
    (wrap : scan'.windowWrap = scan.windowWrap)
    (sent : ∃ more, scan'.peer.sentReliableCommands = scan.peer.sentReliableCommands ++ more ∧
      ∀ outgoing ∈ more, outgoing.packet = none) : scan'.Progress peer count := by
  refine ⟨sorted, few, ⟨progress.transmits.within, ?_, ?_⟩, ?_, ?_⟩
  · rw [(finish_lists _).2.1, passedReliable, restReliable]
    exact progress.transmits.left
  · obtain ⟨before, transit, cores⟩ := progress.transmits.sent
    obtain ⟨more, added, bare⟩ := sent
    refine ⟨before ++ more, ?_, ?_⟩
    · rw [added, transit, List.append_assoc]
    · have none : more.filter (fun outgoing => outgoing.packet.isSome) = [] := by
        refine List.filter_eq_nil_iff.mpr fun outgoing member => ?_
        rw [bare outgoing member]
        exact Bool.false_ne_true
      rw [List.filter_append, none, List.append_nil, cores]
  · rw [passedReliable, restReliable]
    exact progress.ends
  · rw [wrap, restReliable]
    exact progress.wrapped

/-- **What one turn of the loop does to the reliable queue.** -/
theorem Progress.step (progress : scan.Progress peer count)
    (next : scan.next = some (reliable, outgoing)) (serviceTime : Nat) :
    ∃ count', (scan.step serviceTime reliable outgoing).1.Progress peer count' ∧
      (scan.restReliable = [] → (scan.step serviceTime reliable outgoing).1.restReliable = [] ∧
        count' = count) := by
  have sorted := @step_sorted _ serviceTime _ _ progress.sorted next
  have few : (scan.step serviceTime reliable outgoing).1.peer.channelCount ≤
      protocolMaximumChannelCount := by
    rw [(step_sendingOnly ..).channelCount]
    exact progress.few
  have filled : reliable = true → scan.restReliable ≠ [] := by
    rintro rfl empty
    have queue := restReliable_of_next next
    rw [empty] at queue
    cases queue
  generalize stepped : scan.step serviceTime reliable outgoing = after at sorted few ⊢
  have turn := scan.step_stepped serviceTime reliable outgoing
  rw [stepped] at turn
  cases turn with
  | passes acknowledge channel wrapped =>
      have queue := reliable_of_channel progress.sorted progress.few next acknowledge channel
      exact absurd (progress.wrapped wrapped) (filled queue)
  | wraps acknowledge channel unwrapped blocked =>
      have queue := reliable_of_channel progress.sorted progress.few next acknowledge channel
      subst queue
      exact ⟨count, progress.skips true, fun empty => absurd empty (filled rfl)⟩
  | waits acknowledge free blocked =>
      have carried := (Bool.and_eq_true_iff.mp blocked).1
      have queue := reliable_of_packet progress.sorted next acknowledge carried
      subst queue
      exact ⟨count, progress.skips scan.windowWrap, fun empty => absurd empty (filled rfl)⟩
  | stops acknowledge free admitted full =>
      refine ⟨count, progress.sendsOther sorted few rfl rfl rfl ⟨[], ?_, ?_⟩, fun empty =>
        ⟨empty, rfl⟩⟩
      · exact (List.append_nil _).symm
      · exact fun _ member => (List.not_mem_nil member).elim
  | stopsUnreliable unreliable full =>
      refine ⟨count, progress.sendsOther sorted few rfl rfl rfl ⟨[], ?_, ?_⟩, fun empty =>
        ⟨empty, rfl⟩⟩
      · exact (List.append_nil _).symm
      · exact fun _ member => (List.not_mem_nil member).elim
  | sends acknowledge free admitted room =>
      cases reliable with
      | true =>
          exact ⟨count + 1, progress.sendsReliable next serviceTime sorted few, fun empty =>
            absurd empty (filled rfl)⟩
      | false =>
          obtain ⟨-, -, passedReliable, restReliable⟩ :=
            scan.sendReliable_lists serviceTime false outgoing
          refine ⟨count, progress.sendsOther sorted few passedReliable restReliable rfl
            ⟨[transmitted scan.peer serviceTime outgoing], sendReliable_sent .., ?_⟩, fun empty =>
            ⟨restReliable.trans empty, rfl⟩⟩
          intro other member
          rw [List.mem_singleton.mp member]
          exact ((belongs_of_next progress.sorted next).2.2 rfl acknowledge).1
  | sendsUnreliable unreliable room =>
      cases reliable with
      | true =>
          have acknowledge := ((belongs_of_next progress.sorted next).2.1 rfl).1
          rw [unreliable] at acknowledge
          cases acknowledge
      | false =>
          obtain ⟨-, -, passedReliable, restReliable, sent⟩ :=
            scan.sendUnreliable_lists false outgoing
          have wrap : (scan.sendUnreliable false outgoing).windowWrap = scan.windowWrap := by
            unfold sendUnreliable transmitUnreliable
            dsimp only
            split
            · rfl
            · split <;> rfl
          refine ⟨count, progress.sendsOther sorted few passedReliable restReliable wrap
            ⟨[], ?_, ?_⟩, fun empty => ⟨restReliable.trans empty, rfl⟩⟩
          · rw [sent]
            exact (List.append_nil _).symm
          · exact fun _ member => (List.not_mem_nil member).elim

/-! ## A whole check -/

theorem TransmitsFirst.unique {count' : Nat} (first : scan.TransmitsFirst count peer)
    (second : scan.TransmitsFirst count' peer) : count = count' := by
  have lengths := congrArg List.length (first.left.symm.trans second.left)
  rw [List.length_drop, List.length_drop] at lengths
  have within := first.within
  have within' := second.within
  omega

/-- The loop has transmitted what stands ahead of the command that it is at. -/
theorem Progress.count_eq (progress : scan.Progress peer count)
    (next : scan.next = some (true, outgoing)) : count = scan.place peer := by
  have queue := restReliable_of_next next
  have none : scan.passedReliable = [] := by
    rcases progress.ends with none | none
    · exact none
    · rw [none] at queue
      cases queue
  have lengths := congrArg List.length progress.transmits.left
  rw [(finish_lists scan).2.1, none, List.nil_append, List.length_drop] at lengths
  have within := progress.transmits.within
  unfold place
  omega

/-- At a command held back by its windows the loop goes to the end of the reliable queue. -/
theorem Progress.holds (progress : scan.Progress peer count)
    (holds : scan.HoldsAt serviceTime scan held) :
    ∃ after, Turn serviceTime scan after ∧ after.Progress peer (scan.place peer) ∧
      after.restReliable = [] := by
  obtain ⟨reliable, next⟩ := holds.next
  have queue := reliable_of_channel progress.sorted progress.few next holds.acknowledge
    holds.channel
  subst queue
  refine ⟨(scan.pass true).skipReliable.wrapWindow, ⟨true, held, next, ?_⟩, ?_, rfl⟩
  · unfold OutgoingScan.step
    rw [holds.acknowledge, if_pos rfl, holds.channel, holds.unwrapped, holds.blocked]
    rfl
  · rw [← progress.count_eq next]
    exact progress.skips true

/-- **A check transmits the reliable queue up to a command held back.** -/
theorem Progress.run (fuel : Nat) : ∀ {scan : OutgoingScan} {count : Nat},
    scan.Progress peer count → scan.left ≤ fuel →
    ∃ last, (run serviceTime fuel scan).TransmitsFirst last peer ∧
      (scan.restReliable = [] → last = count) ∧
      ∀ stall held, scan.HoldsAt serviceTime stall held → last = stall.place peer := by
  -- the loop ends at a state that another turn does not follow
  have ends : ∀ {scan result : OutgoingScan} {count : Nat}, scan.Progress peer count →
      (∀ next, ¬Turn serviceTime scan next) → result.TransmitsFirst count peer →
      ∃ last, result.TransmitsFirst last peer ∧ (scan.restReliable = [] → last = count) ∧
        ∀ stall held, scan.HoldsAt serviceTime stall held → last = stall.place peer := by
    intro scan result count progress stops transmits
    refine ⟨count, transmits, fun _ => rfl, fun stall held holds => ?_⟩
    have here := (reached_iff_of_last stops).mp holds.reached
    subst here
    obtain ⟨after, turn, -⟩ := progress.holds holds
    exact absurd turn (stops after)
  induction fuel with
  | zero =>
      intro scan count progress short
      refine ends progress (fun next turn => ?_) progress.transmits
      have shorter := turn.left_lt
      omega
  | succ fuel ih =>
      intro scan count progress short
      unfold OutgoingScan.run
      split
      next nothing =>
          refine ends progress (fun next turn => ?_) progress.transmits
          obtain ⟨reliable, outgoing, found, -⟩ := turn
          rw [nothing] at found
          cases found
      next reliable outgoing next =>
          obtain ⟨count', progress', empty⟩ := progress.step next serviceTime
          dsimp only
          split
          next goesOn =>
              have turn : Turn serviceTime scan (scan.step serviceTime reliable outgoing).1 :=
                ⟨reliable, outgoing, next, Prod.ext rfl goesOn⟩
              have shorter := turn.left_lt
              obtain ⟨last, transmits, skipped, stalls⟩ := ih progress' (by omega)
              refine ⟨last, transmits, fun none => ?_, fun stall held holds => ?_⟩
              · obtain ⟨none', same⟩ := empty none
                exact (skipped none').trans same
              · rcases (reached_iff turn).mp holds.reached with here | later
                · subst here
                  obtain ⟨after, turn', there, none⟩ := progress.holds holds
                  obtain rfl := turn.unique turn'
                  exact (skipped none).trans (progress'.transmits.unique there.transmits)
                · exact stalls stall held { holds with reached := later }
          next stops =>
              refine ends progress (fun after turn => ?_) ?_
              · obtain ⟨reliable', outgoing', next', steps⟩ := turn
                rw [next] at next'
                cases next'
                rw [steps] at stops
                exact stops rfl
              · have stepped := scan.step_stepped serviceTime reliable outgoing
                generalize scan.step serviceTime reliable outgoing = after at stops stepped ⊢
                cases stepped with
                | stops acknowledge free admitted full =>
                    obtain ⟨within, left, sent⟩ := progress.transmits
                    exact ⟨within, left, sent⟩
                | stopsUnreliable unreliable full =>
                    obtain ⟨within, left, sent⟩ := progress.transmits
                    exact ⟨within, left, sent⟩
                | passes => exact absurd rfl stops
                | wraps => exact absurd rfl stops
                | waits => exact absurd rfl stops
                | sends => exact absurd rfl stops
                | sendsUnreliable => exact absurd rfl stops

end OutgoingScan

/-- **When a stalled channel stalls no other.** Over sorted queues a check sends the
reliable commands of each channel in their order; and it sends what another channel
alone could hold back exactly where that stands ahead of each command which the windows
of its channel hold back. -/
theorem sendsIndependently_iff {peer : Peer} (sorted : peer.Sorted)
    (few : peer.channelCount ≤ protocolMaximumChannelCount) (heap : Heap) (datagram : Datagram)
    (sentUnreliable : List OutgoingCommand) (serviceTime : Nat) :
    peer.SendsIndependently heap datagram sentUnreliable serviceTime ↔
      ∀ scan held place other,
        (OutgoingScan.start peer heap datagram sentUnreliable).HoldsAt serviceTime scan held →
        scan.Frees serviceTime peer held place other → place < scan.place peer := by
  have begins : (OutgoingScan.start peer heap datagram sentUnreliable).Progress peer 0 :=
    ⟨sorted, few, ⟨Nat.zero_le _, rfl, [], (List.append_nil _).symm, rfl⟩, .inl rfl,
      fun wrapped => nomatch wrapped⟩
  obtain ⟨last, transmits, -, stalls⟩ := @OutgoingScan.Progress.run _ serviceTime
    (peer.outgoingCommands.length + peer.outgoingSendReliableCommands.length) _ _ begins
    (Nat.le_refl _)
  constructor
  · rintro ⟨count, counts, frees⟩ scan held place other holds free
    rw [← stalls scan held holds, transmits.unique counts]
    exact frees scan held place other holds free
  · intro ahead
    refine ⟨last, transmits, fun scan held place other holds free => ?_⟩
    rw [stalls scan held holds]
    exact ahead scan held place other holds free

/-- The queues of every peer are sorted wherever a call fills a datagram. -/
theorem Passed.sorted {sending : Sending} (passed : Passed sending) (index : Nat) :
    (sending.1.peers index).Sorted ∧
      (sending.1.peers index).channelCount ≤ protocolMaximumChannelCount :=
  ⟨Sorted.passed passed index, ((Fitting.passed passed).ranged index).channelCount⟩

/-- A command of a reliable packet of one byte. -/
def reliableByte (address channelID number sendAttempts : Nat) : OutgoingCommand where
  address := address
  reliableSequenceNumber := number
  unreliableSequenceNumber := 0
  sentTime := 0
  roundTripTimeout := 0
  queueTime := address
  fragmentOffset := 0
  fragmentLength := 1
  sendAttempts := sendAttempts
  command := ⟨.sendReliable 1, true, false, channelID, number⟩
  packet := some ⟨address, ⟨true, false, false, false⟩, [0]⟩

/-- The commands of channel 0 in its second window, in transit. -/
def secondWindow (count : Nat) : List OutgoingCommand :=
  (List.range count).map fun place => reliableByte place 0 (4096 + place) 1

theorem secondWindow_awaits {count : Nat} {outgoing : OutgoingCommand}
    (member : outgoing ∈ secondWindow count) : outgoing.command.acknowledge = true ∧
      (outgoing.packet = none → outgoing.command.channelID = 0xFF) := by
  obtain ⟨place, -, rfl⟩ := List.mem_map.mp member
  exact ⟨rfl, fun none => nomatch none⟩

/-- A connected peer with two channels. These many commands of the second window of
channel 0 are in transit; its third window is to be opened, and behind that waits the
first command of channel 1. -/
def windowPeer (count : Nat) : Peer :=
  { Host.clearedPeer 0 with
    state := .connected
    channels := fun channelID =>
      if channelID = 0 then
        { Channel.empty with
          outgoingReliableSequenceNumber := 8192
          usedReliableWindows := 2
          reliableWindows := fun window => if window = 1 then count else 0 }
      else { Channel.empty with outgoingReliableSequenceNumber := 1 }
    channelsAllocated := 2
    channelCount := 2
    mtu := 1392
    windowSize := 65536
    packetThrottle := 32
    reliableDataInTransit := count
    sentReliableCommands := secondWindow count
    outgoingSendReliableCommands := [reliableByte 4096 0 8192 0, reliableByte 4097 1 1 0] }

theorem windowPeer_sorted (count : Nat) : (windowPeer count).Sorted := by
  refine ⟨?_, ?_, fun outgoing member => secondWindow_awaits member⟩
  · intro outgoing member
    rcases List.mem_cons.mp member with rfl | member
    · exact ⟨rfl, rfl⟩
    · rw [List.mem_singleton.mp member]
      exact ⟨rfl, rfl⟩
  · intro outgoing member
    cases member

/-- The peer whose second window is full. -/
def stalledPeer : Peer := windowPeer 4096

namespace Stalled

/-- The loop before its first turn. -/
def begins : OutgoingScan := OutgoingScan.start stalledPeer Heap.ample Datagram.start []

/-- The loop once the command of channel 0 is passed over. -/
def passedOver : OutgoingScan := (begins.pass true).skipReliable.wrapWindow

theorem turn (serviceTime : Nat) : OutgoingScan.Turn serviceTime begins passedOver :=
  ⟨true, reliableByte 4096 0 8192 0, rfl, rfl⟩

theorem last (serviceTime : Nat) (next : OutgoingScan) :
    ¬OutgoingScan.Turn serviceTime passedOver next := by
  rintro ⟨reliable, outgoing, found, -⟩
  cases found

theorem reached {serviceTime : Nat} {scan : OutgoingScan}
    (reached : ReflTransGen (OutgoingScan.Turn serviceTime) begins scan) :
    scan = begins ∨ scan = passedOver := by
  refine ((OutgoingScan.reached_iff (turn serviceTime)).mp reached).imp_right fun rest => ?_
  exact (OutgoingScan.reached_iff_of_last (last serviceTime)).mp rest

end Stalled

theorem sendsIndependently_iff_stalled :
    stalledPeer.SendsIndependently Heap.ample Datagram.start [] 0 ↔
      ∀ scan held place other, Stalled.begins.HoldsAt 0 scan held →
        scan.Frees 0 stalledPeer held place other → place < scan.place stalledPeer :=
  sendsIndependently_iff (windowPeer_sorted 4096) (by decide) Heap.ample Datagram.start [] 0

/-- **A channel whose window is full stalls another one**, over sorted queues. -/
theorem stalledPeer_stalls : stalledPeer.Sorted ∧
    ¬∀ serviceTime, stalledPeer.SendsIndependently Heap.ample Datagram.start [] serviceTime := by
  refine ⟨windowPeer_sorted 4096, fun independent => ?_⟩
  obtain ⟨count, transmits, frees⟩ := independent 0
  have holds : Stalled.begins.HoldsAt 0 Stalled.begins (reliableByte 4096 0 8192 0) :=
    ⟨.refl, ⟨true, rfl⟩, rfl, rfl, rfl, rfl⟩
  have sent := frees Stalled.begins _ 1 (reliableByte 4097 1 1 0) holds <| by
    refine ⟨rfl, by decide, by decide, fun before earlier here ahead behind => ?_,
      fun later reached => ?_⟩
    · have first : before = 0 := by omega
      subst first
      cases here
      decide
    · rcases Stalled.reached reached with rfl | rfl
      · exact ⟨rfl, rfl, rfl, rfl⟩
      · exact ⟨rfl, rfl, rfl, rfl⟩
  have left : (stalledPeer.outgoingSendReliableCommands.drop count).length = 2 := by
    rw [← transmits.left]
    rfl
  rw [List.length_drop] at left
  have two : stalledPeer.outgoingSendReliableCommands.length = 2 := rfl
  omega

end Enet
