import Enet.Channels.Windows
import Enet.Fragments.Cut
import Enet.Runs.Incoming
import Mathlib.Data.Finset.Card

/-!
# A packet put together

A channel that receives the fragments of one packet, and nothing else. It holds
one incomplete command, which notes the fragments that have arrived and has
their bytes; the last fragment moves it to the dispatched commands.
-/

set_option autoImplicit false

namespace Enet

open Library

/-! ## Dispatching one command -/

namespace Channel

variable {channel : Channel} {incoming : IncomingCommand}

/-- The dispatch that a fragment handler calls for its list. -/
def dispatch (channel : Channel) (reliable : Bool) (queuedCommand : Option Nat) : Dispatched :=
  if reliable then channel.dispatchReliable queuedCommand
  else channel.dispatchUnreliable queuedCommand

/-- One incomplete reliable command is not moved. -/
theorem dispatchReliable_incomplete (list : channel.incomingReliableCommands = [incoming])
    (incomplete : 0 < incoming.fragmentsRemaining) (queuedCommand : Option Nat) :
    channel.dispatchReliable queuedCommand = ⟨channel, [], [], []⟩ := by
  have taken : takeReliable channel.incomingReliableSequenceNumber [incoming] =
      ([], [incoming], channel.incomingReliableSequenceNumber) := if_pos (.inl incomplete)
  unfold dispatchReliable
  rw [list, taken]
  rfl

/-- One incomplete unreliable command is neither moved nor dropped. -/
theorem dispatchUnreliable_incomplete (list : channel.incomingUnreliableCommands = [incoming])
    (sequenced : isUnsequenced incoming = false)
    (current : incoming.reliableSequenceNumber = channel.incomingReliableSequenceNumber)
    (incomplete : 0 < incoming.fragmentsRemaining) (queuedCommand : Option Nat) :
    channel.dispatchUnreliable queuedCommand =
      ⟨channel, [], [], [⟨channel, queuedCommand⟩]⟩ := by
  have scan : scanUnreliable channel.incomingReliableSequenceNumber
      channel.incomingUnreliableSequenceNumber [] [] [incoming] [] 0 =
        ⟨channel.incomingUnreliableSequenceNumber, [incoming], [], [], [], 0⟩ := by
    simp [scanUnreliable, sequenced, current, Nat.not_le_of_lt incomplete]
  unfold dispatchUnreliable
  rw [list, scan]
  simp [← list]

/-- One complete reliable command is moved, when it is the next one. -/
theorem dispatchReliable_complete (list : channel.incomingReliableCommands = [incoming])
    (others : channel.incomingUnreliableCommands = [])
    (next : incoming.reliableSequenceNumber = u16 (channel.incomingReliableSequenceNumber + 1))
    (fragments : 0 < incoming.fragmentCount) (complete : incoming.fragmentsRemaining = 0)
    (queuedCommand : Option Nat) :
    channel.dispatchReliable queuedCommand =
      ⟨{ channel with
          incomingReliableSequenceNumber :=
            u16 (incoming.reliableSequenceNumber + (incoming.fragmentCount - 1))
          incomingReliableCommands := []
          incomingUnreliableSequenceNumber := 0 }, [incoming], [], []⟩ := by
  unfold dispatchReliable
  rw [list]
  simp [takeReliable, complete, next, fragments, others]

/-- One complete unreliable command is moved, at the current reliable number. -/
theorem dispatchUnreliable_complete (list : channel.incomingUnreliableCommands = [incoming])
    (sequenced : isUnsequenced incoming = false)
    (current : incoming.reliableSequenceNumber = channel.incomingReliableSequenceNumber)
    (complete : incoming.fragmentsRemaining = 0) (queuedCommand : Option Nat) :
    channel.dispatchUnreliable queuedCommand =
      ⟨{ channel with
          incomingUnreliableSequenceNumber := incoming.unreliableSequenceNumber
          incomingUnreliableCommands := [] }, [incoming], [], [⟨channel, queuedCommand⟩]⟩ := by
  have scan : scanUnreliable channel.incomingReliableSequenceNumber
      channel.incomingUnreliableSequenceNumber [] [] [incoming] [] 0 =
        ⟨incoming.unreliableSequenceNumber, [], [incoming], [], [], 0⟩ := by
    simp [scanUnreliable, sequenced, current, complete]
  unfold dispatchUnreliable
  rw [list, scan]
  simp

end Channel

/-! ## Assemblies -/

/-- The command of a cut packet, with the fragments that have arrived. -/
structure Assembly (cut : Cut) (arrived : Finset Nat) (incoming : IncomingCommand) : Prop where
  within : arrived ⊆ Finset.range cut.fragmentCount
  kind : incoming.command.command.IsFragment cut.reliable
  channelID : incoming.command.channelID = cut.channelID
  reliableSequenceNumber : incoming.reliableSequenceNumber = cut.numberOf 0
  unreliableSequenceNumber :
    cut.reliable = false → incoming.unreliableSequenceNumber = cut.startSequenceNumber
  fragmentCount : incoming.fragmentCount = cut.fragmentCount
  fragmentsRemaining : incoming.fragmentsRemaining + arrived.card = cut.fragmentCount
  fragments : ∀ number, incoming.fragments number = true ↔ number ∈ arrived
  dataLength : incoming.packet.dataLength = cut.packet.dataLength
  pieces : ∀ number ∈ arrived,
    pieceOf incoming.packet.data cut.fragmentLength number =
      pieceOf cut.packet.data cut.fragmentLength number

namespace Assembly

variable {cut : Cut} {arrived : Finset Nat} {incoming : IncomingCommand}

/-- The bytes of a fragment are written to its place, whatever is behind them. -/
theorem addFragment_data (assembly : Assembly cut arrived incoming) {number : Nat}
    (inside : number < cut.fragmentCount) (behind : List UInt8) :
    (incoming.addFragment number (number * cut.fragmentLength)
      ((pieceOf cut.packet.data cut.fragmentLength number ++ behind).take
        (cut.fields number).dataLength)).packet.data =
      overwrite incoming.packet.data (number * cut.fragmentLength)
        (pieceOf cut.packet.data cut.fragmentLength number) := by
  have size : (pieceOf cut.packet.data cut.fragmentLength number).length =
      (cut.fields number).dataLength := length_pieceOf ..
  have fits : number * cut.fragmentLength + (cut.fields number).dataLength ≤
      cut.packet.dataLength := pieceLength_fits cut.positive inside
  have addressable := cut.addressable
  have total := assembly.dataLength
  rw [List.take_left' size]
  unfold IncomingCommand.addFragment
  dsimp only
  rw [size, show u32 _ = _ from Nat.mod_eq_of_lt (by omega), if_neg (by omega), ← size,
    List.take_length]

/-- A fragment that was missing is put in its place. -/
theorem addFragment (assembly : Assembly cut arrived incoming) {number : Nat}
    (inside : number < cut.fragmentCount) (missing : number ∉ arrived) (behind : List UInt8) :
    Assembly cut (insert number arrived)
      (incoming.addFragment number (number * cut.fragmentLength)
        ((pieceOf cut.packet.data cut.fragmentLength number ++ behind).take
          (cut.fields number).dataLength)) := by
  have data := assembly.addFragment_data inside behind
  have within := Finset.insert_subset (Finset.mem_range.mpr inside) assembly.within
  have card := Finset.card_insert_of_notMem missing
  have fewer := Finset.card_le_card within
  rw [Finset.card_range, card] at fewer
  have remaining := assembly.fragmentsRemaining
  refine ⟨within, assembly.kind, assembly.channelID, assembly.reliableSequenceNumber,
    assembly.unreliableSequenceNumber, assembly.fragmentCount, ?_, ?_, ?_, ?_⟩
  · rw [card]
    change sub32 incoming.fragmentsRemaining 1 + _ = _
    rw [sub32, if_pos (by omega)]
    omega
  · intro other
    change Function.update incoming.fragments number true other = true ↔ _
    rw [Finset.mem_insert, ← assembly.fragments other]
    rcases eq_or_ne other number with same | different
    · rw [same, Function.update_self]
      simp
    · rw [Function.update_of_ne different]
      simp [different]
  · rw [Packet.dataLength, data, length_overwrite]
    exact assembly.dataLength
  · intro other member
    rw [data, pieceOf_overwrite cut.positive assembly.dataLength inside]
    rcases eq_or_ne other number with same | different
    · rw [if_pos same, same]
    · rw [if_neg different]
      exact assembly.pieces other ((Finset.mem_insert.mp member).resolve_left different)

/-- **When nothing is missing, the packet is the one that was cut.** -/
theorem data (assembly : Assembly cut arrived incoming)
    (complete : arrived.card = cut.fragmentCount) : incoming.packet.data = cut.packet.data := by
  have all : arrived = Finset.range cut.fragmentCount :=
    Finset.eq_of_subset_of_card_le assembly.within (by rw [Finset.card_range, complete])
  refine eq_of_pieces cut.positive assembly.dataLength fun piece inside => ?_
  exact assembly.pieces piece (all ▸ Finset.mem_range.mpr inside)

end Assembly

/-! ## The channel -/

/-- A channel that is positioned before a cut packet, or holds some of it. -/
structure Assembles (cut : Cut) (arrived : Finset Nat) (channel : Channel) : Prop where
  reliableNumber : channel.incomingReliableSequenceNumber = cut.reliableSequenceNumber
  unreliableNumber : cut.reliable = false →
    channel.incomingUnreliableSequenceNumber = cut.unreliableSequenceNumber
  others : channel.incomingCommands (!cut.reliable) = []
  own : channel.incomingCommands cut.reliable = [] ∧ arrived = ∅ ∨
    ∃ incoming, channel.incomingCommands cut.reliable = [incoming] ∧ Assembly cut arrived incoming

namespace Assembles

variable {cut : Cut} {arrived : Finset Nat} {channel : Channel} {incoming : IncomingCommand}

/-- The command is not dispatched while a fragment is missing. -/
theorem dispatch_incomplete (assembles : Assembles cut arrived channel)
    (list : channel.incomingCommands cut.reliable = [incoming])
    (assembly : Assembly cut arrived incoming) (missing : arrived.card < cut.fragmentCount)
    (queuedCommand : Option Nat) :
    ∃ entered, channel.dispatch cut.reliable queuedCommand = ⟨channel, [], [], entered⟩ := by
  have remaining := assembly.fragmentsRemaining
  have kind := assembly.kind
  unfold Channel.dispatch
  cases reliable : cut.reliable with
  | true =>
      rw [reliable] at list
      exact ⟨_, Channel.dispatchReliable_incomplete list (by omega) queuedCommand⟩
  | false =>
      rw [reliable] at list kind
      have current : incoming.reliableSequenceNumber = channel.incomingReliableSequenceNumber := by
        rw [assembly.reliableSequenceNumber, assembles.reliableNumber, Cut.numberOf, reliable]
        rfl
      exact ⟨_, Channel.dispatchUnreliable_incomplete list
        (Channel.isUnsequenced_of_isFragment kind) current (by omega) queuedCommand⟩

/-- **The complete command is dispatched**, and leaves nothing behind. -/
theorem dispatch_complete (assembles : Assembles cut arrived channel)
    (list : channel.incomingCommands cut.reliable = [incoming])
    (assembly : Assembly cut arrived incoming) (complete : arrived.card = cut.fragmentCount)
    (queuedCommand : Option Nat) :
    ∃ after entered, channel.dispatch cut.reliable queuedCommand =
        ⟨after, [incoming], [], entered⟩ ∧
      (∀ reliable, after.incomingCommands reliable = []) ∧
      after.incomingReliableSequenceNumber = cut.numberOf (cut.fragmentCount - 1) ∧
      (cut.reliable = false →
        after.incomingUnreliableSequenceNumber = cut.startSequenceNumber) := by
  have remaining := assembly.fragmentsRemaining
  have count := cut.one_lt_fragmentCount
  have kind := assembly.kind
  have number := assembly.reliableSequenceNumber
  have others := assembles.others
  unfold Channel.dispatch
  unfold Cut.numberOf at number ⊢
  cases reliable : cut.reliable with
  | true =>
      rw [reliable] at list others number
      rw [if_pos rfl, Nat.add_zero] at number
      have next : incoming.reliableSequenceNumber =
          u16 (channel.incomingReliableSequenceNumber + 1) := by
        rw [number, assembles.reliableNumber]
      refine ⟨_, _, Channel.dispatchReliable_complete list others next
        (by rw [assembly.fragmentCount]; omega) (by omega) queuedCommand, ?_, ?_, by simp⟩
      · intro either
        cases either with
        | true => rfl
        | false => exact others
      · change u16 (incoming.reliableSequenceNumber + (incoming.fragmentCount - 1)) = _
        rw [number, assembly.fragmentCount, if_pos rfl]
        exact Nat.mod_add_mod ..
  | false =>
      rw [reliable] at list others number kind
      rw [if_neg (by decide)] at number
      have current : incoming.reliableSequenceNumber = channel.incomingReliableSequenceNumber :=
        number.trans assembles.reliableNumber.symm
      refine ⟨_, _, Channel.dispatchUnreliable_complete list
        (Channel.isUnsequenced_of_isFragment kind) current (by omega) queuedCommand, ?_, ?_, ?_⟩
      · intro either
        cases either with
        | true => exact others
        | false => rfl
      · exact assembles.reliableNumber
      · intro _
        exact assembly.unreliableSequenceNumber reliable

end Assembles

/-! ## Adding a fragment -/

/-- A packet is handed over: one command more is dispatched, with the bytes that
were sent, and the channel is behind its last fragment. -/
structure Delivers (cut : Cut) (index : Nat) (host host' : Host) : Prop where
  dispatched : ∃ incoming, (host'.peers index).dispatchedCommands =
    (host.peers index).dispatchedCommands ++ [incoming] ∧
      incoming.command.channelID = cut.channelID ∧ incoming.packet.data = cut.packet.data
  empty : ∀ reliable,
    ((host'.peers index).channels cut.channelID).incomingCommands reliable = []
  reliableNumber : ((host'.peers index).channels cut.channelID).incomingReliableSequenceNumber =
    cut.numberOf (cut.fragmentCount - 1)

/-- What follows from the arrival of a fragment: the packet is handed over when
nothing is missing, and otherwise the fragment is noted. -/
def Follows (cut : Cut) (index : Nat) (arrived : Finset Nat) (host host' : Host) : Prop :=
  if arrived.card = cut.fragmentCount then Delivers cut index host host'
  else
    Assembles cut arrived ((host'.peers index).channels cut.channelID) ∧
      (host'.peers index).dispatchedCommands = (host.peers index).dispatchedCommands

theorem Follows.of_dispatchedCommands {cut : Cut} {index : Nat} {arrived : Finset Nat}
    {host host' host'' : Host} (follows : Follows cut index arrived host' host'')
    (same : (host'.peers index).dispatchedCommands = (host.peers index).dispatchedCommands) :
    Follows cut index arrived host host'' := by
  unfold Follows at follows ⊢
  split at follows
  next full =>
      obtain ⟨dispatched, empty, number⟩ := follows
      rw [if_pos full]
      exact ⟨same ▸ dispatched, empty, number⟩
  next partly =>
      rw [if_neg partly]
      exact ⟨follows.1, follows.2.trans same⟩

namespace Host

variable {host : Host} {index : Nat} {cut : Cut} {arrived : Finset Nat}
  {incoming : IncomingCommand}

/-- The command that is the only one of its list is found by its address. -/
theorem startCommand_single {channelID : Nat} {reliable : Bool}
    (list : ((host.peers index).channels channelID).incomingCommands reliable = [incoming]) :
    host.startCommand index channelID reliable incoming.address = some incoming := by
  unfold startCommand
  dsimp only
  rw [Channel.incomingCommands] at list
  rw [list, List.find?_cons_of_pos (by simp)]

/-- A dispatch installs its channel, and adds what it moves. -/
theorem installDispatched_dispatchedCommands (host : Host) (index channelID : Nat)
    (dispatched : Channel.Dispatched) :
    ((host.installDispatched index channelID dispatched).peers index).dispatchedCommands =
      (host.peers index).dispatchedCommands ++ dispatched.moved := by
  unfold installDispatched
  dsimp only
  split
  · rw [setPeer_self]
    rfl
  · rw [scheduleDispatch_peer, setPeer_self]
    rfl

/-- The only command of its list is written over. -/
theorem setStartCommand_single {reliable : Bool} {channelID : Nat} {written : IncomingCommand}
    (list : ((host.peers index).channels channelID).incomingCommands reliable = [incoming])
    (same : incoming.address = written.address) :
    ∃ channel, ((host.setStartCommand index channelID reliable written).peers index) =
        (host.peers index).setChannel channelID channel ∧
      channel.incomingCommands reliable = [written] ∧
      channel.incomingCommands (!reliable) =
        ((host.peers index).channels channelID).incomingCommands (!reliable) ∧
      channel.incomingReliableSequenceNumber =
        ((host.peers index).channels channelID).incomingReliableSequenceNumber ∧
      channel.incomingUnreliableSequenceNumber =
        ((host.peers index).channels channelID).incomingUnreliableSequenceNumber := by
  have writes : writeCommand written [incoming] = [written] := if_pos same
  unfold setStartCommand
  rw [setPeer_self]
  refine ⟨_, rfl, ?_⟩
  cases reliable with
  | true =>
      change ((host.peers index).channels channelID).incomingReliableCommands = _ at list
      rw [if_pos rfl, list, writes]
      exact ⟨rfl, rfl, rfl, rfl⟩
  | false =>
      change ((host.peers index).channels channelID).incomingUnreliableCommands = _ at list
      rw [if_neg (by decide), list, writes]
      exact ⟨rfl, rfl, rfl, rfl⟩

/-- **What one fragment does to a channel that holds some of its packet.** -/
theorem addFragment_assembles
    (assembles : Assembles cut arrived ((host.peers index).channels cut.channelID))
    (list : ((host.peers index).channels cut.channelID).incomingCommands cut.reliable = [incoming])
    (assembly : Assembly cut arrived incoming) {number : Nat}
    (inside : number < cut.fragmentCount) (behind : List UInt8)
    (missing : arrived.card < cut.fragmentCount) :
    Follows cut index (insert number arrived) host
      (host.addFragment index cut.channelID cut.reliable incoming.address (cut.fields number)
        (pieceOf cut.packet.data cut.fragmentLength number ++ behind)) := by
  have bit : incoming.fragments (cut.fields number).fragmentNumber = true ↔ number ∈ arrived :=
    assembly.fragments number
  unfold Follows addFragment
  rw [startCommand_single list]
  dsimp only
  by_cases known : number ∈ arrived
  · rw [if_pos (bit.mpr known), Finset.insert_eq_of_mem known, if_neg (Nat.ne_of_lt missing)]
    exact ⟨assembles, rfl⟩
  · rw [if_neg fun noted => known (bit.mp noted)]
    have grown := assembly.addFragment inside known behind
    change Assembly cut _ (incoming.addFragment (cut.fields number).fragmentNumber
      (cut.fields number).fragmentOffset _) at grown
    generalize written : incoming.addFragment (cut.fields number).fragmentNumber
      (cut.fields number).fragmentOffset _ = fresh at grown ⊢
    have address : incoming.address = fresh.address := by rw [← written]; rfl
    obtain ⟨channel, peer, own, others, reliableNumber, unreliableNumber⟩ :=
      setStartCommand_single list address
    have here : ((host.setStartCommand index cut.channelID cut.reliable fresh).peers
        index).channels cut.channelID = channel := by
      rw [peer, Peer.setChannel_channels, Function.update_self]
    have dispatchedCommands : ((host.setStartCommand index cut.channelID cut.reliable fresh).peers
        index).dispatchedCommands = (host.peers index).dispatchedCommands := by
      rw [peer]
      rfl
    have holds : Assembles cut (insert number arrived) channel :=
      ⟨reliableNumber.trans assembles.reliableNumber,
        fun unreliable => unreliableNumber.trans (assembles.unreliableNumber unreliable),
        others.trans assembles.others, .inr ⟨fresh, own, grown⟩⟩
    have remaining := grown.fragmentsRemaining
    have fewer := Finset.card_le_card grown.within
    rw [Finset.card_range] at fewer
    by_cases full : (insert number arrived).card = cut.fragmentCount
    · obtain ⟨after, entered, dispatched, empty, reliableNumber, -⟩ :=
        holds.dispatch_complete own grown full none
      have installs : (if cut.reliable = true then
            (host.setStartCommand index cut.channelID cut.reliable
              fresh).dispatchIncomingReliableCommands index cut.channelID none
          else (host.setStartCommand index cut.channelID cut.reliable
              fresh).dispatchIncomingUnreliableCommands index cut.channelID none) =
          (host.setStartCommand index cut.channelID cut.reliable fresh).installDispatched index
            cut.channelID ⟨after, [fresh], [], entered⟩ := by
        rw [← dispatched, ← here]
        unfold Channel.dispatch dispatchIncomingReliableCommands
          dispatchIncomingUnreliableCommands
        split <;> rfl
      rw [if_pos full, if_pos (show fresh.fragmentsRemaining ≤ 0 by omega), installs]
      have leaves := installDispatched_channel
        (host.setStartCommand index cut.channelID cut.reliable fresh) index cut.channelID
        ⟨after, [fresh], [], entered⟩
      refine ⟨⟨fresh, ?_, grown.channelID, ?_⟩, ?_, ?_⟩
      · rw [installDispatched_dispatchedCommands, dispatchedCommands]
      · exact grown.data full
      · rw [leaves]
        exact empty
      · rw [leaves]
        exact reliableNumber
    · rw [if_neg full, if_neg (show ¬fresh.fragmentsRemaining ≤ 0 by omega), here]
      exact ⟨holds, dispatchedCommands⟩

end Host

/-! ## The first fragment -/

namespace Heap

/-- With memory enough, the command of a packet in fragments is allocated. -/
theorem allocateIncoming_of_memory {heap : Heap}
    (memory : ∀ allocation, heap.mallocSucceeds allocation = true) (command : Protocol)
    (flags : PacketFlags) {dataLength fragmentCount : Nat} (bytes : 0 < dataLength)
    (fragments : 0 < fragmentCount) (few : fragmentCount ≤ protocolMaximumFragmentCount) :
    ∃ heap' incoming, Host.allocateIncoming heap command none dataLength flags fragmentCount =
      (heap', some incoming) := by
  obtain ⟨first, address, made, memory⟩ := malloc_of_memory memory
  obtain ⟨second, address', made', memory⟩ := malloc_of_memory memory
  obtain ⟨third, address'', made'', memory⟩ := malloc_of_memory memory
  obtain ⟨fourth, address''', made''', memory⟩ := malloc_of_memory memory
  unfold Host.allocateIncoming createPacket
  rw [made]
  dsimp only
  rw [if_neg (Nat.ne_of_gt bytes), made']
  dsimp only
  rw [made'']
  dsimp only
  rw [if_neg (Nat.ne_of_gt fragments), if_neg (Nat.not_lt_of_le few), made''']
  exact ⟨_, _, rfl⟩

end Heap

namespace Cut

/-- The command with which the first fragment that arrives is queued. -/
def opening (cut : Cut) (number : Nat) : Protocol :=
  { cut.command number with reliableSequenceNumber := cut.numberOf 0 }

theorem opening_isFragment (cut : Cut) (number : Nat) :
    (cut.opening number).command.IsFragment cut.reliable := by
  unfold opening command
  cases cut.reliable <;> rfl

theorem opening_unreliableSequenceNumber (cut : Cut) (number : Nat) :
    (cut.opening number).unreliableSequenceNumber = cut.startSequenceNumber := by
  unfold opening command
  cases cut.reliable <;> rfl

end Cut

/-- The tests that the handlers make of the fields of a fragment. -/
structure SendFragment.Valid (fields : SendFragment) (maximumPacketSize : Nat) : Prop where
  dataLength : 0 < fields.dataLength
  maximumLength : fields.dataLength ≤ maximumPacketSize
  fragmentCount : fields.fragmentCount ≤ protocolMaximumFragmentCount
  fragmentNumber : fields.fragmentNumber < fields.fragmentCount
  totalLength : fields.totalLength ≤ maximumPacketSize
  bytes : fields.fragmentCount ≤ fields.totalLength
  fragmentOffset : fields.fragmentOffset < fields.totalLength
  fits : fields.dataLength ≤ fields.totalLength - fields.fragmentOffset

/-- What the handler of the reliable fragments tests is passed. -/
theorem SendFragment.Valid.passes {fields : SendFragment} {maximumPacketSize : Nat}
    (valid : fields.Valid maximumPacketSize) :
    ¬(protocolMaximumFragmentCount < fields.fragmentCount ∨
      fields.fragmentCount ≤ fields.fragmentNumber ∨ maximumPacketSize < fields.totalLength ∨
      fields.totalLength < fields.fragmentCount ∨
      fields.totalLength ≤ fields.fragmentOffset ∨
      fields.totalLength - fields.fragmentOffset < fields.dataLength) := by
  obtain ⟨-, -, count, number, total, bytes, offset, fits⟩ := valid
  omega

/-- What the handler of the unreliable fragments tests is passed. -/
theorem SendFragment.Valid.passes_unreliable {fields : SendFragment} {maximumPacketSize : Nat}
    (valid : fields.Valid maximumPacketSize) :
    ¬(protocolMaximumFragmentCount < fields.fragmentCount ∨
      fields.fragmentCount ≤ fields.fragmentNumber ∨ maximumPacketSize < fields.totalLength ∨
      fields.totalLength ≤ fields.fragmentOffset ∨
      fields.totalLength - fields.fragmentOffset < fields.dataLength) := by
  have passes := valid.passes
  omega

/-- **Every fragment of a cut passes the tests** of a receiver that takes the packet. -/
theorem Cut.fields_valid (cut : Cut) {number maximumPacketSize : Nat}
    (inside : number < cut.fragmentCount) (room : cut.packet.dataLength ≤ maximumPacketSize) :
    (cut.fields number).Valid maximumPacketSize := by
  have fits : number * cut.fragmentLength + (cut.fields number).dataLength ≤
      cut.packet.dataLength := pieceLength_fits cut.positive inside
  have begins := (cut.lt_fragmentCount_iff number).mp inside
  exact
    { dataLength := pieceLength_pos cut.positive inside
      maximumLength := by omega
      fragmentCount := cut.count
      fragmentNumber := inside
      totalLength := room
      bytes := cut.fragmentCount_le
      fragmentOffset := begins
      fits := by
        change (cut.fields number).dataLength ≤
          cut.packet.dataLength - number * cut.fragmentLength
        omega }

/-- A receiver is ready for a fragment of a cut packet. -/
structure Ready (cut : Cut) (arrived : Finset Nat) (host : Host) (index : Nat) : Prop where
  connected : (host.peers index).state = .connected
  hasChannel : cut.channelID < (host.peers index).channelCount
  maximumPacketSize : cut.packet.dataLength ≤ host.maximumPacketSize
  waiting : arrived = ∅ → (host.peers index).totalWaitingData < host.maximumWaitingData
  memory : ∀ allocation, host.heap.mallocSucceeds allocation = true

/-- A channel that is positioned before a packet has a place for its command. -/
theorem Assembles.place {cut : Cut} {channel : Channel} (assembles : Assembles cut ∅ channel)
    (own : channel.incomingCommands cut.reliable = []) (number : Nat) :
    channel.place (cut.opening number) =
      if cut.reliable then .reliable [] [] else .unreliable [] [] := by
  have typed := cut.reliableNumber
  have kind := cut.opening_isFragment number
  have start := cut.opening_unreliableSequenceNumber number
  have position : (cut.opening number).reliableSequenceNumber = cut.numberOf 0 := rfl
  have search : ∀ compare, Channel.search compare [] = .place [] [] := fun _ => rfl
  unfold Cut.numberOf at position
  unfold Channel.place
  cases reliable : cut.reliable with
  | true =>
      rw [reliable, if_pos rfl, Nat.add_zero, ← assembles.reliableNumber] at position
      rw [← assembles.reliableNumber] at typed
      rw [reliable] at kind own
      obtain ⟨fields, same⟩ := kind.reliable
      rw [same]
      dsimp only
      unfold Channel.placeReliable Channel.searchReliable
      change channel.incomingReliableCommands = [] at own
      have different : u16 (channel.incomingReliableSequenceNumber + 1) ≠
          channel.incomingReliableSequenceNumber := by
        simp only [u16]
        omega
      rw [position, Channel.inWindow_next typed, own, search]
      simp [different]
  | false =>
      have unreliableNumber := assembles.unreliableNumber reliable
      rw [reliable, if_neg (by decide), ← assembles.reliableNumber] at position
      rw [Cut.startSequenceNumber_unreliable reliable] at start
      rw [reliable] at kind own
      obtain ⟨fields, same⟩ := kind.unreliable
      rw [same]
      dsimp only
      unfold Channel.placeUnreliable Channel.searchUnreliable
      change channel.incomingUnreliableCommands = [] at own
      rw [position, start, Channel.inWindow_self, own, search, unreliableNumber]
      simp

/-- The command is put in its list alone. -/
theorem Assembles.insertIncoming {cut : Cut} {channel : Channel} {incoming : IncomingCommand}
    (assembles : Assembles cut ∅ channel) (assembly : Assembly cut ∅ incoming) :
    ∃ channel', channel.insertIncoming incoming
        (if cut.reliable then .reliable [] [] else .unreliable [] []) =
          channel'.dispatch cut.reliable (some incoming.address) ∧
      Assembles cut ∅ channel' ∧ channel'.incomingCommands cut.reliable = [incoming] := by
  have others := assembles.others
  unfold Channel.dispatch
  cases reliable : cut.reliable with
  | true =>
      rw [reliable] at others
      refine ⟨{ channel with incomingReliableCommands := [incoming] }, rfl, ?_, rfl⟩
      refine ⟨assembles.reliableNumber, assembles.unreliableNumber, ?_,
        .inr ⟨incoming, ?_, assembly⟩⟩
      · rw [reliable]
        exact others
      · rw [reliable]
        rfl
  | false =>
      rw [reliable] at others
      refine ⟨{ channel with incomingUnreliableCommands := [incoming] }, rfl, ?_, rfl⟩
      refine ⟨assembles.reliableNumber, assembles.unreliableNumber, ?_,
        .inr ⟨incoming, ?_, assembly⟩⟩
      · rw [reliable]
        exact others
      · rw [reliable]
        rfl

namespace Host

variable {host : Host} {index : Nat} {cut : Cut} {arrived : Finset Nat}

/-- A command that has a place is allocated and put there. -/
theorem queueIncomingCommand_place {command : Protocol} {dataLength fragmentCount : Nat}
    {flags : PacketFlags} {placement : Placement} {heap : Heap} {incoming : IncomingCommand}
    (connected : (host.peers index).state = .connected)
    (placed : ((host.peers index).channels command.channelID).place command = placement)
    (taken : placement ≠ .discard)
    (waiting : (host.peers index).totalWaitingData < host.maximumWaitingData)
    (allocated : allocateIncoming host.heap command none dataLength flags fragmentCount =
      (heap, some incoming)) :
    host.queueIncomingCommand index command none dataLength flags fragmentCount =
      (((host.setHeap heap).setPeer index
          ((host.peers index).setDispatched (host.peers index).dispatchedCommands
            ((host.peers index).totalWaitingData + incoming.packet.dataLength))).installDispatched
        index command.channelID
        (((host.peers index).channels command.channelID).insertIncoming incoming placement),
        .command incoming.address) := by
  unfold queueIncomingCommand
  dsimp only
  rw [if_neg (by rw [connected]; decide), placed]
  cases placement with
  | discard => exact absurd rfl taken
  | reliable before after =>
      dsimp only
      rw [if_neg (Nat.not_le_of_lt waiting), allocated]
  | unreliable before after =>
      dsimp only
      rw [if_neg (Nat.not_le_of_lt waiting), allocated]

/-- **The first fragment's command is queued**, and stays in its list. -/
theorem queueIncomingCommand_opening
    (assembles : Assembles cut ∅ ((host.peers index).channels cut.channelID))
    (own : ((host.peers index).channels cut.channelID).incomingCommands cut.reliable = [])
    (ready : Ready cut ∅ host index) (number : Nat) (flags : PacketFlags) :
    ∃ host' incoming, host.queueIncomingCommand index (cut.opening number) none
        cut.packet.dataLength flags cut.fragmentCount = (host', .command incoming.address) ∧
      Assembly cut ∅ incoming ∧
      Assembles cut ∅ ((host'.peers index).channels cut.channelID) ∧
      ((host'.peers index).channels cut.channelID).incomingCommands cut.reliable = [incoming] ∧
      (host'.peers index).dispatchedCommands = (host.peers index).dispatchedCommands := by
  have long := cut.long
  have count := cut.one_lt_fragmentCount
  obtain ⟨heap, incoming, allocated⟩ := Heap.allocateIncoming_of_memory ready.memory
    (cut.opening number) flags (Nat.zero_lt_of_lt long) (Nat.zero_lt_of_lt count) cut.count
  have spec := allocateIncoming_spec allocated
  have place := assembles.place own number
  have kind := cut.opening_isFragment number
  have assembly : Assembly cut ∅ incoming :=
    { within := Finset.empty_subset _
      kind := by rw [spec.received]; exact kind
      channelID := by rw [spec.received]; rfl
      reliableSequenceNumber := spec.number
      unreliableSequenceNumber := fun unreliable => by
        rw [spec.unreliableNumber (unreliable ▸ kind), cut.opening_unreliableSequenceNumber]
      fragmentCount := spec.fragments
      fragmentsRemaining := spec.remaining
      fragments := fun number => by simp [spec.missing]
      dataLength := spec.empty rfl
      pieces := fun number member => absurd member (Finset.notMem_empty number) }
  have queues := queueIncomingCommand_place ready.connected place (by cases cut.reliable <;> simp)
    (ready.waiting rfl) allocated
  obtain ⟨channel, inserted, holds, list⟩ := assembles.insertIncoming assembly
  obtain ⟨entered, stays⟩ := holds.dispatch_incomplete list assembly (Nat.zero_lt_of_lt count)
    (some incoming.address)
  have channelID : (cut.opening number).channelID = cut.channelID := rfl
  refine ⟨_, incoming, queues, assembly, ?_⟩
  rw [channelID, inserted, stays, installDispatched_channel,
    installDispatched_dispatchedCommands, setPeer_self, List.append_nil]
  exact ⟨holds, list, rfl⟩

/-- The fragments of a cut pass the first tests of the handlers. -/
theorem not_rejectsData (ready : Ready cut arrived host index) {number : Nat}
    (inside : number < cut.fragmentCount) (behind : List UInt8) :
    host.rejectsData index (cut.command number)
      (pieceOf cut.packet.data cut.fragmentLength number ++ behind) = false := by
  have valid := cut.fields_valid inside ready.maximumPacketSize
  have size : (pieceOf cut.packet.data cut.fragmentLength number).length =
      (cut.fields number).dataLength := length_pieceOf ..
  have announced : (cut.command number).command.dataLength = (cut.fields number).dataLength := by
    unfold Cut.command
    cases cut.reliable <;> rfl
  have hasChannel : ¬(host.peers index).channelCount ≤ (cut.command number).channelID :=
    Nat.not_le_of_lt ready.hasChannel
  unfold rejectsData
  dsimp only
  rw [announced, ready.connected, List.length_append, size]
  simp [hasChannel, PeerState.isConnected, valid.maximumLength]

/-- The command that the fragments belong to is not taken for another one. -/
theorem not_isForeign {incoming : IncomingCommand} (assembly : Assembly cut arrived incoming)
    (number : Nat) : isForeign (cut.command number) (cut.fields number) incoming = false := by
  have numbers : incoming.command.command.number = (cut.command number).command.number := by
    have kind := assembly.kind
    unfold Cut.command
    cases reliable : cut.reliable with
    | true =>
        rw [reliable] at kind
        obtain ⟨fields, same⟩ := kind.reliable
        rw [same]
        rfl
    | false =>
        rw [reliable] at kind
        obtain ⟨fields, same⟩ := kind.unreliable
        rw [same]
        rfl
  have total : (cut.fields number).totalLength = incoming.packet.dataLength :=
    assembly.dataLength.symm
  have count : (cut.fields number).fragmentCount = incoming.fragmentCount :=
    assembly.fragmentCount.symm
  unfold isForeign
  simp [numbers, total, count]

/-- **A reliable fragment is put in its packet.** -/
theorem handleSendFragment_follows (reliable : cut.reliable = true)
    (assembles : Assembles cut arrived ((host.peers index).channels cut.channelID))
    (ready : Ready cut arrived host index) {number : Nat} (inside : number < cut.fragmentCount)
    (missing : arrived.card < cut.fragmentCount) (behind : List UInt8) :
    Follows cut index (insert number arrived) host
      (host.handleSendFragment index (cut.command number) (cut.fields number)
        (pieceOf cut.packet.data cut.fragmentLength number ++ behind)).1 := by
  have valid := cut.fields_valid inside ready.maximumPacketSize
  have typed := cut.reliableNumber
  have start : (cut.fields number).startSequenceNumber = cut.numberOf 0 := by
    rw [Cut.numberOf, if_pos reliable]
    exact Cut.startSequenceNumber_reliable reliable
  have window : Channel.inWindow
      ((host.peers index).channels cut.channelID).incomingReliableSequenceNumber
      (cut.fields number).startSequenceNumber = true := by
    rw [assembles.reliableNumber, start, Cut.numberOf, if_pos reliable]
    exact Channel.inWindow_next typed
  have channelID : (cut.command number).channelID = cut.channelID := rfl
  unfold handleSendFragment
  rw [not_rejectsData ready inside behind, Bool.false_or,
    if_neg (by rw [decide_eq_true_eq]; exact Nat.not_le_of_lt valid.dataLength)]
  dsimp only
  rw [channelID, window, if_neg (by decide), if_neg valid.passes]
  rcases assembles.own with ⟨own, rfl⟩ | ⟨incoming, list, assembly⟩
  · have nothing : ((host.peers index).channels cut.channelID).searchReliable
        (cut.fields number).startSequenceNumber = .place [] [] := by
      rw [reliable] at own
      change ((host.peers index).channels cut.channelID).incomingReliableCommands = [] at own
      unfold Channel.searchReliable
      rw [own]
      rfl
    obtain ⟨host', incoming, queues, assembly, holds, list, same⟩ :=
      queueIncomingCommand_opening assembles own ready number ⟨true, false, false, false⟩
    have queues : host.queueIncomingCommand index
        ⟨(cut.command number).command, (cut.command number).acknowledge,
          (cut.command number).unsequenced, cut.channelID, cut.numberOf 0⟩ none
        (cut.fields number).totalLength ⟨true, false, false, false⟩
        (cut.fields number).fragmentCount = (host', .command incoming.address) := queues
    rw [nothing]
    dsimp only
    rw [start, queues]
    have adds := addFragment_assembles holds list assembly inside behind missing
    rw [reliable] at adds
    exact adds.of_dispatchedCommands same
  · have found : ((host.peers index).channels cut.channelID).searchReliable
        (cut.fields number).startSequenceNumber = .found incoming := by
      have equal : Channel.compareReliable
          ((host.peers index).channels cut.channelID).incomingReliableSequenceNumber
          (cut.fields number).startSequenceNumber incoming.reliableSequenceNumber = .eq := by
        rw [start, assembly.reliableSequenceNumber]
        exact Channel.compareReliable_self ..
      have list : ((host.peers index).channels cut.channelID).incomingReliableCommands =
          [incoming] := by
        rw [reliable] at list
        exact list
      unfold Channel.searchReliable
      rw [list]
      exact Channel.search_single equal
    rw [found]
    dsimp only
    rw [not_isForeign assembly, if_neg (by decide)]
    have adds := addFragment_assembles assembles list assembly inside behind missing
    rw [reliable] at adds
    exact adds

/-- **An unreliable fragment is put in its packet.** -/
theorem handleSendUnreliableFragment_follows (reliable : cut.reliable = false)
    (assembles : Assembles cut arrived ((host.peers index).channels cut.channelID))
    (ready : Ready cut arrived host index) {number : Nat} (inside : number < cut.fragmentCount)
    (missing : arrived.card < cut.fragmentCount) (behind : List UInt8) :
    Follows cut index (insert number arrived) host
      (host.handleSendUnreliableFragment index (cut.command number) (cut.fields number)
        (pieceOf cut.packet.data cut.fragmentLength number ++ behind)).1 := by
  have valid := cut.fields_valid inside ready.maximumPacketSize
  have position : (cut.command number).reliableSequenceNumber = cut.reliableSequenceNumber := by
    change cut.numberOf number = _
    rw [Cut.numberOf, reliable]
    rfl
  have first : cut.numberOf 0 = cut.reliableSequenceNumber := by
    rw [Cut.numberOf, reliable]
    rfl
  have start : (cut.fields number).startSequenceNumber = cut.unreliableSequenceNumber + 1 :=
    Cut.startSequenceNumber_unreliable reliable
  have newer : ¬((cut.command number).reliableSequenceNumber =
        ((host.peers index).channels cut.channelID).incomingReliableSequenceNumber ∧
      (cut.fields number).startSequenceNumber ≤
        ((host.peers index).channels cut.channelID).incomingUnreliableSequenceNumber) := by
    rw [assembles.unreliableNumber reliable, start]
    omega
  have window : Channel.inWindow
      ((host.peers index).channels cut.channelID).incomingReliableSequenceNumber
      (cut.command number).reliableSequenceNumber = true := by
    rw [assembles.reliableNumber, position]
    exact Channel.inWindow_self _
  have channelID : (cut.command number).channelID = cut.channelID := rfl
  unfold handleSendUnreliableFragment
  rw [not_rejectsData ready inside behind, if_neg (by decide)]
  dsimp only
  rw [channelID, window, if_neg (by decide), if_neg newer, if_neg valid.passes_unreliable]
  rcases assembles.own with ⟨own, rfl⟩ | ⟨incoming, list, assembly⟩
  · have nothing : ((host.peers index).channels cut.channelID).searchUnreliable
        (cut.command number).reliableSequenceNumber (cut.fields number).startSequenceNumber =
          .place [] [] := by
      rw [reliable] at own
      change ((host.peers index).channels cut.channelID).incomingUnreliableCommands = [] at own
      unfold Channel.searchUnreliable
      rw [own]
      rfl
    obtain ⟨host', incoming, queues, assembly, holds, list, same⟩ :=
      queueIncomingCommand_opening assembles own ready number ⟨false, false, false, true⟩
    have opening : cut.opening number = cut.command number := by
      unfold Cut.opening
      rw [first, ← position]
    rw [opening] at queues
    have queues : host.queueIncomingCommand index (cut.command number) none
        (cut.fields number).totalLength ⟨false, false, false, true⟩
        (cut.fields number).fragmentCount = (host', .command incoming.address) := queues
    rw [nothing]
    dsimp only
    rw [queues]
    have adds := addFragment_assembles holds list assembly inside behind missing
    rw [reliable] at adds
    exact adds.of_dispatchedCommands same
  · have found : ((host.peers index).channels cut.channelID).searchUnreliable
        (cut.command number).reliableSequenceNumber (cut.fields number).startSequenceNumber =
          .found incoming := by
      have equal : Channel.compareUnreliable
          ((host.peers index).channels cut.channelID).incomingReliableSequenceNumber
          (cut.command number).reliableSequenceNumber (cut.fields number).startSequenceNumber
          incoming.reliableSequenceNumber incoming.unreliableSequenceNumber = .eq := by
        rw [position, assembly.reliableSequenceNumber, first,
          assembly.unreliableSequenceNumber reliable]
        exact Channel.compareUnreliable_self ..
      have list : ((host.peers index).channels cut.channelID).incomingUnreliableCommands =
          [incoming] := by
        rw [reliable] at list
        exact list
      unfold Channel.searchUnreliable
      rw [list]
      exact Channel.search_single equal
    rw [found]
    dsimp only
    rw [not_isForeign assembly, if_neg (by decide)]
    have adds := addFragment_assembles assembles list assembly inside behind missing
    rw [reliable] at adds
    exact adds

/-- **A fragment that arrives is put in its packet**, and the last one hands it over. -/
theorem handleCommand_follows
    (assembles : Assembles cut arrived ((host.peers index).channels cut.channelID))
    (ready : Ready cut arrived host index) (event : Option Event) {number : Nat}
    (inside : number < cut.fragmentCount) (missing : arrived.card < cut.fragmentCount)
    (behind : List UInt8) :
    Follows cut index (insert number arrived) host
      (host.handleCommand event index (cut.command number)
        (pieceOf cut.packet.data cut.fragmentLength number ++ behind)).1 := by
  unfold handleCommand
  cases reliable : cut.reliable with
  | true =>
      have kind : (cut.command number).command = .sendFragment (cut.fields number) :=
        if_pos reliable
      rw [kind]
      exact handleSendFragment_follows reliable assembles ready inside missing behind
  | false =>
      have kind : (cut.command number).command = .sendUnreliableFragment (cut.fields number) :=
        if_neg (by rw [reliable]; decide)
      rw [kind]
      exact handleSendUnreliableFragment_follows reliable assembles ready inside missing behind

end Host

end Enet
