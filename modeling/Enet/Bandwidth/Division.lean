import Enet.Bandwidth.Unbounded
import Enet.Library.FairShare
import Enet.Runs.Drivers

/-!
# How the incoming bandwidth is divided

The second part of `enet_host_bandwidth_throttle` settles the peers that ask for
less than an even share of what is left, until the share rises no more, and then
tells each connected peer its limit. A peer that is settled is told what it asks
for; one without a limit of its own is settled as if it asked for nothing, and
told zero, which means no limit.
-/

set_option autoImplicit false

namespace Enet

open Library Finset

namespace Host

variable {host : Host} {timeCurrent level index : Nat} {settled : Finset Nat}

/-! ## The registers -/

/-- What a peer can send, zero where it has no limit. -/
def demand (host : Host) (index : Nat) : Nat := (host.peers index).outgoingBandwidth

/-- The connected peers that were not settled at this time before. -/
def claimants (host : Host) (timeCurrent : Nat) : Finset Nat :=
  host.unsettled timeCurrent host.peers

/-- The peers, some of which are settled. -/
def settle (host : Host) (timeCurrent : Nat) (settled : Finset Nat) (index : Nat) : Peer :=
  if index ∈ settled then (host.peers index).setIncomingEpoch timeCurrent else host.peers index

/-- The registers once these peers are settled. -/
def settling (host : Host) (timeCurrent : Nat) (settled : Finset Nat) (needsAdjustment : Bool) :
    Throttling where
  peers := host.settle timeCurrent settled
  peersRemaining := #(host.connected) - settled.card
  dataTotal := 0
  bandwidth := host.incomingBandwidth - ∑ index ∈ settled, host.demand index
  needsAdjustment := needsAdjustment

/-- The peers that ask for less than a level. -/
abbrev modest (host : Host) (timeCurrent level : Nat) : Finset Nat :=
  below host.demand (host.claimants timeCurrent) level

/-- What can be given with these peers settled. -/
abbrev Grants (host : Host) (settled : Finset Nat) (level : Nat) : Prop :=
  Affords host.demand #(host.connected) host.incomingBandwidth settled level

theorem mem_claimants : index ∈ host.claimants timeCurrent ↔ index < host.peerCount ∧
    (host.peers index).state.isConnected = true ∧
      (host.peers index).incomingBandwidthThrottleEpoch ≠ timeCurrent := by
  unfold claimants unsettled
  rw [Finset.mem_filter, Finset.mem_range, Bool.and_eq_true, decide_eq_true_eq]

theorem claimants_subset (host : Host) (timeCurrent : Nat) :
    host.claimants timeCurrent ⊆ host.connected := by
  intro index member
  obtain ⟨slot, connected, -⟩ := mem_claimants.mp member
  exact Finset.mem_filter.mpr ⟨Finset.mem_range.mpr slot, connected⟩

theorem card_claimants_le (host : Host) (timeCurrent : Nat) :
    #(host.claimants timeCurrent) ≤ #(host.connected) :=
  card_le_card (claimants_subset host timeCurrent)

theorem settle_insert (host : Host) (timeCurrent index : Nat) (settled : Finset Nat)
    (fresh : index ∉ settled) :
    host.settle timeCurrent (insert index settled) =
      Function.update (host.settle timeCurrent settled) index
        ((host.settle timeCurrent settled index).setIncomingEpoch timeCurrent) := by
  funext other
  unfold settle
  rcases eq_or_ne other index with same | different
  · rw [same, Function.update_self, if_pos (mem_insert_self ..), if_neg fresh]
  · rw [Function.update_of_ne different]
    simp only [mem_insert, different, false_or]

/-! ## A pass -/

/-- **One peer of the loop that recalculates the limits** is settled where it asks
for less than the limit. -/
theorem recalculatePeer_settling (grants : host.Grants settled level)
    (subset : settled ⊆ host.claimants timeCurrent) (positive : 0 < level)
    (slot : index < host.peerCount) (needsAdjustment : Bool) :
    recalculatePeer timeCurrent level (host.settling timeCurrent settled needsAdjustment) index =
      if index ∈ host.modest timeCurrent level ∧ index ∉ settled then
        host.settling timeCurrent (insert index settled) true
      else host.settling timeCurrent settled needsAdjustment := by
  obtain ⟨covered, rest⟩ := grants
  have few := card_claimants_le host timeCurrent
  unfold recalculatePeer
  dsimp only [settling]
  by_cases done : index ∈ settled
  · have passed : (host.settle timeCurrent settled index).incomingBandwidthThrottleEpoch =
        timeCurrent := by
      unfold settle
      rw [if_pos done]
      rfl
    rw [if_pos (by rw [passed]; simp), if_neg fun asks => asks.2 done]
  · have same : host.settle timeCurrent settled index = host.peers index := if_neg done
    rw [same]
    by_cases claims : index ∈ host.claimants timeCurrent
    · obtain ⟨-, connected, fresh⟩ := mem_claimants.mp claims
      have waits : (!(host.peers index).state.isConnected ||
          decide ((host.peers index).incomingBandwidthThrottleEpoch = timeCurrent)) = false := by
        rw [connected, decide_eq_false fresh]
        rfl
      rw [waits, if_neg Bool.false_ne_true]
      by_cases low : host.demand index < level
      · have fewer : settled.card < #(host.claimants timeCurrent) :=
          card_lt_card ⟨subset, fun all => done (all claims)⟩
        have one : level * 1 ≤ level * (#(host.connected) - settled.card) :=
          Nat.mul_le_mul_left _ (by omega)
        have asks : host.demand index = (host.peers index).outgoingBandwidth := rfl
        have under : (host.peers index).outgoingBandwidth < level := low
        rw [if_neg (by omega), if_pos ⟨mem_below.mpr ⟨claims, low⟩, done⟩,
          settle_insert host timeCurrent index settled done, same, sum_insert done,
          card_insert_of_notMem done, sub32_of_le (by omega), sub32_of_le (by omega)]
        congr 1
        omega
      · have high : 0 < (host.peers index).outgoingBandwidth ∧
            level ≤ (host.peers index).outgoingBandwidth := by
          unfold demand at low
          omega
        rw [if_pos high, if_neg fun asks => low (mem_below.mp asks.1).2]
    · have passes : (!(host.peers index).state.isConnected ||
          decide ((host.peers index).incomingBandwidthThrottleEpoch = timeCurrent)) = true := by
        by_contra stays
        rw [Bool.not_eq_true] at stays
        exact claims (mem_unsettled.mpr ⟨slot, stays⟩)
      rw [passes, if_pos rfl, if_neg fun asks => claims (mem_below.mp asks.1).1]

/-- The modest peers among the first. -/
def modestUpTo (host : Host) (timeCurrent level count : Nat) : Finset Nat :=
  {index ∈ host.modest timeCurrent level | index < count}

theorem modestUpTo_succ (host : Host) (timeCurrent level count : Nat) :
    host.modestUpTo timeCurrent level (count + 1) =
      if count ∈ host.modest timeCurrent level then
        insert count (host.modestUpTo timeCurrent level count)
      else host.modestUpTo timeCurrent level count := by
  unfold modestUpTo
  split
  next modest =>
      ext other
      simp only [Finset.mem_filter, Finset.mem_insert]
      constructor
      · rintro ⟨member, under⟩
        rcases Nat.lt_succ_iff_lt_or_eq.mp under with less | same
        · exact .inr ⟨member, less⟩
        · exact .inl same
      · rintro (same | ⟨member, less⟩)
        · rw [same]
          exact ⟨modest, Nat.lt_succ_self _⟩
        · exact ⟨member, Nat.lt_succ_of_lt less⟩
  next immodest =>
      ext other
      simp only [Finset.mem_filter]
      refine and_congr_right fun member => ?_
      have different : other ≠ count := by
        rintro rfl
        exact immodest member
      omega

/-- **A pass settles the peers that ask for less than the limit**, and says whether
there were any. -/
theorem foldl_recalculatePeer (grants : host.Grants settled level)
    (subset : settled ⊆ host.claimants timeCurrent) (positive : 0 < level) (count : Nat)
    (slots : count ≤ host.peerCount) :
    (List.range count).foldl (recalculatePeer timeCurrent level)
        (host.settling timeCurrent settled false) =
      host.settling timeCurrent (settled ∪ host.modestUpTo timeCurrent level count)
        (decide ¬host.modestUpTo timeCurrent level count ⊆ settled) := by
  induction count with
  | zero =>
      have nobody : host.modestUpTo timeCurrent level 0 = ∅ :=
        Finset.filter_false_of_mem fun index _ => Nat.not_lt_zero index
      rw [nobody, union_empty, decide_eq_false (not_not.mpr (empty_subset settled))]
      rfl
  | succ count ih =>
      have modest : host.modestUpTo timeCurrent level count ⊆ host.modest timeCurrent level :=
        Finset.filter_subset ..
      have within : settled ∪ host.modestUpTo timeCurrent level count ⊆
          host.claimants timeCurrent :=
        union_subset subset (modest.trans (below_subset ..))
      have grants' : host.Grants (settled ∪ host.modestUpTo timeCurrent level count) level := by
        refine grants.settle subset_union_left (fun index member fresh => ?_)
          ((card_le_card within).trans (card_claimants_le host timeCurrent))
        rcases mem_union.mp member with member | member
        · exact absurd member fresh
        · exact (mem_below.mp (modest member)).2.le
      rw [List.range_succ, List.foldl_append, ih (by omega), List.foldl_cons, List.foldl_nil,
        recalculatePeer_settling grants' within positive (by omega), modestUpTo_succ]
      by_cases asks : count ∈ host.modest timeCurrent level
      · rw [if_pos asks, union_insert]
        by_cases done : count ∈ settled ∪ host.modestUpTo timeCurrent level count
        · rw [if_neg fun both => both.2 done, insert_eq_of_mem done]
          rcases mem_union.mp done with done | done
          · simp only [insert_subset_iff, done, true_and]
          · rw [insert_eq_of_mem done]
        · have fresh : ¬insert count (host.modestUpTo timeCurrent level count) ⊆ settled :=
            fun all => done (mem_union_left _ (all (mem_insert_self ..)))
          rw [if_pos ⟨asks, done⟩, decide_eq_true fresh]
      · rw [if_neg asks, if_neg fun both => asks both.1]

theorem modestUpTo_all (host : Host) (timeCurrent level : Nat) :
    host.modestUpTo timeCurrent level host.peerCount = host.modest timeCurrent level := by
  refine Finset.filter_true_of_mem fun index member => ?_
  exact (mem_claimants.mp (below_subset _ _ _ member)).1

/-! ## The loop -/

/-- A level that the loop has reached. -/
abbrev Rises (host : Host) (timeCurrent level : Nat) : Prop :=
  Reaches host.demand (host.claimants timeCurrent) #(host.connected) host.incomingBandwidth level

/-- The share once the peers below a level are settled. -/
abbrev evenShare (host : Host) (timeCurrent level : Nat) : Nat :=
  share host.demand (host.claimants timeCurrent) #(host.connected) host.incomingBandwidth level

/-- Where there is a byte for each peer, the share is not zero. -/
theorem evenShare_pos (enough : #(host.connected) ≤ host.incomingBandwidth)
    (rises : host.Rises timeCurrent level)
    (rest : #(host.modest timeCurrent level) < #(host.connected)) :
    0 < host.evenShare timeCurrent level := by
  rcases Nat.eq_zero_or_pos level with zero | positive
  · have each : Affords host.demand #(host.connected) host.incomingBandwidth
        (host.modest timeCurrent level) 1 := by
      rw [modest, zero, below_zero]
      exact ⟨by rw [sum_empty]; exact Nat.zero_le _, by rw [sum_empty, card_empty]; omega⟩
    exact each.le_share rest
  · exact positive.trans_le (rises.rise (card_claimants_le host timeCurrent) rest).1

/-- **The loop that recalculates the limits** raises the level to its share, and
settles the peers below it, until it rises no more. -/
theorem recalculatePeers_settling (enough : #(host.connected) ≤ host.incomingBandwidth)
    (fuel : Nat) : ∀ (level : Nat) (needsAdjustment : Bool),
      host.Rises timeCurrent level →
      (needsAdjustment = false → host.evenShare timeCurrent level ≤ level) →
      (needsAdjustment = true →
        #(host.connected) - #(host.modest timeCurrent level) < fuel) →
      ∃ final stops, host.Rises timeCurrent final ∧ host.evenShare timeCurrent final ≤ final ∧
        recalculatePeers host.peerCount timeCurrent fuel
          (host.settling timeCurrent (host.modest timeCurrent level) needsAdjustment) level =
            (host.settling timeCurrent (host.modest timeCurrent final) stops, final) := by
  have few := card_claimants_le host timeCurrent
  have ends : ∀ (level : Nat) (needsAdjustment : Bool), host.Rises timeCurrent level →
      (needsAdjustment = false → host.evenShare timeCurrent level ≤ level) →
      ¬(0 < #(host.connected) - #(host.modest timeCurrent level) ∧ needsAdjustment = true) →
        host.evenShare timeCurrent level ≤ level := by
    intro level needsAdjustment rises still ended
    cases needsAdjustment with
    | false => exact still rfl
    | true =>
        have none : #(host.connected) - #(host.modest timeCurrent level) = 0 := by
          by_contra some
          exact ended ⟨by omega, rfl⟩
        refine le_trans (le_of_eq ?_) (Nat.zero_le level)
        unfold evenShare share shareOf
        rw [none, Nat.div_zero]
  induction fuel with
  | zero =>
      intro level needsAdjustment rises still left
      have ended : ¬(0 < #(host.connected) - #(host.modest timeCurrent level) ∧
          needsAdjustment = true) := fun goesOn => absurd (left goesOn.2) (Nat.not_lt_zero _)
      exact ⟨level, needsAdjustment, rises, ends level _ rises still ended, rfl⟩
  | succ fuel ih =>
      intro level needsAdjustment rises still left
      by_cases goesOn : 0 < #(host.connected) - #(host.modest timeCurrent level) ∧
          needsAdjustment = true
      · have rest : #(host.modest timeCurrent level) < #(host.connected) := by omega
        have positive := evenShare_pos enough rises rest
        obtain ⟨higher, rises'⟩ := rises.rise few rest
        have more : host.modest timeCurrent level ⊆
            host.modest timeCurrent (host.evenShare timeCurrent level) := below_mono higher
        have turn : recalculatePeers host.peerCount timeCurrent (fuel + 1)
            (host.settling timeCurrent (host.modest timeCurrent level) needsAdjustment) level =
              recalculatePeers host.peerCount timeCurrent fuel
                ((List.range host.peerCount).foldl
                  (recalculatePeer timeCurrent (host.evenShare timeCurrent level))
                  (host.settling timeCurrent (host.modest timeCurrent level) false))
                (host.evenShare timeCurrent level) := if_pos goesOn
        have grants : host.Grants (host.modest timeCurrent level)
            (host.evenShare timeCurrent level) := .of_share rises.affords.covered
        have passes := foldl_recalculatePeer grants (below_subset ..) positive host.peerCount le_rfl
        rw [modestUpTo_all, union_eq_right.mpr more] at passes
        rw [turn, passes]
        refine ih _ _ rises' (fun unset => ?_) fun set => ?_
        · have all := not_not.mp (of_decide_eq_false unset)
          have same : host.modest timeCurrent (host.evenShare timeCurrent level) =
              host.modest timeCurrent level := Subset.antisymm all more
          exact (congrArg (shareOf host.demand #(host.connected) host.incomingBandwidth) same).le
        · have new := card_lt_card ⟨more, of_decide_eq_true set⟩
          have bound := left goesOn.2
          omega
      · have ended : recalculatePeers host.peerCount timeCurrent (fuel + 1)
            (host.settling timeCurrent (host.modest timeCurrent level) needsAdjustment) level =
              (host.settling timeCurrent (host.modest timeCurrent level) needsAdjustment, level) :=
          if_neg goesOn
        exact ⟨level, needsAdjustment, rises, ends level _ rises still goesOn, ended⟩

end Host

/-! ## The commands -/

/-- The incoming bandwidth that a command tells. -/
def Command.toldBandwidth : Command → Option Nat
  | .bandwidthLimit incomingBandwidth _ => some incomingBandwidth
  | _ => none

theorem Peer.stampCommand_toldBandwidth (command : Protocol)
    (number unreliableNumber group : Nat) :
    (stampCommand command number unreliableNumber group).command.toldBandwidth =
      command.command.toldBandwidth := by
  obtain ⟨kind, acknowledge, unsequenced, channelID, header⟩ := command
  cases kind <;> rfl

namespace Host

/-- The incoming bandwidths that a peer is told by what was queued since. -/
def toldBandwidths (before after : Host) (index : Nat) : List Nat :=
  ((after.peers index).outgoingCommands.drop
    (before.peers index).outgoingCommands.length).filterMap
      fun outgoing => outgoing.command.command.toldBandwidth

/-- The connected peers whose command finds memory: one is allocated for each in turn. -/
def announced (host : Host) : Finset Nat :=
  {index ∈ host.connected | host.heap.mallocSucceeds
    (host.heap.nextAddress + #{other ∈ host.connected | other < index}) = true}

/-- What a peer is told where the others are given this limit. -/
def announcement (host : Host) (timeCurrent bandwidthLimit index : Nat) : Nat :=
  if (host.peers index).incomingBandwidthThrottleEpoch = timeCurrent then
    (host.peers index).outgoingBandwidth
  else bandwidthLimit

end Host

/-- Two peers that ask for the same, and are as connected. -/
structure Peer.SameDemand (peer peer' : Peer) : Prop where
  state : peer'.state = peer.state
  outgoingBandwidth : peer'.outgoingBandwidth = peer.outgoingBandwidth
  epoch : peer'.incomingBandwidthThrottleEpoch = peer.incomingBandwidthThrottleEpoch

namespace Peer.SameDemand

variable {peer peer' peer'' : Peer}

theorem refl (peer : Peer) : peer.SameDemand peer := ⟨rfl, rfl, rfl⟩

theorem trans (first : peer.SameDemand peer') (second : peer'.SameDemand peer'') :
    peer.SameDemand peer'' :=
  ⟨second.state.trans first.state, second.outgoingBandwidth.trans first.outgoingBandwidth,
    second.epoch.trans first.epoch⟩

theorem setupOutgoingCommand (peer : Peer) (totalQueued : Nat) (outgoing : OutgoingCommand) :
    peer.SameDemand (peer.setupOutgoingCommand totalQueued outgoing) := by
  have numbers : peer.SameDemand
      ((peer.countOutgoingData outgoing).numberOutgoingCommand outgoing).1 := by
    unfold Peer.numberOutgoingCommand
    split
    · exact ⟨rfl, rfl, rfl⟩
    · split
      · exact ⟨rfl, rfl, rfl⟩
      · split
        · exact ⟨rfl, rfl, rfl⟩
        · exact ⟨rfl, rfl, rfl⟩
  refine numbers.trans ?_
  unfold Peer.setupOutgoingCommand Peer.enqueueOutgoing
  dsimp only
  split
  · exact ⟨rfl, rfl, rfl⟩
  · exact ⟨rfl, rfl, rfl⟩

end Peer.SameDemand

namespace Host

/-- The command of a peer tells it the bandwidth. -/
theorem setupOutgoingCommand_told (peer : Peer) (totalQueued : Nat) {outgoing : OutgoingCommand}
    (bare : outgoing.packet = none) :
    ∃ last, (peer.setupOutgoingCommand totalQueued outgoing).outgoingCommands =
        peer.outgoingCommands ++ [last] ∧
      last.command.command.toldBandwidth = outgoing.command.command.toldBandwidth := by
  obtain ⟨kept, -, -, packet, command⟩ :=
    (peer.countOutgoingData outgoing).numberOutgoingCommand_queues outgoing
  unfold Peer.setupOutgoingCommand
  generalize (peer.countOutgoingData outgoing).numberOutgoingCommand outgoing = numbered
    at kept packet command ⊢
  refine ⟨Peer.stampOutgoing numbered.2 totalQueued numbered.1.outgoingUnsequencedGroup, ?_, ?_⟩
  · have last := numbered.1.enqueueOutgoing_bare (Peer.stampOutgoing numbered.2 totalQueued
      numbered.1.outgoingUnsequencedGroup) (packet.trans bare)
    rw [last]
    exact congrArg (· ++ _) kept
  · rw [← command]
    exact Peer.stampCommand_toldBandwidth ..

/-- A command that finds memory is queued last. -/
theorem queueOutgoingCommand_told {host : Host}
    (memory : host.heap.mallocSucceeds host.heap.nextAddress = true) (index : Nat)
    (command : Protocol) :
    ∃ last, ((host.queueOutgoingCommand index command none 0 0).1.peers index).outgoingCommands =
        (host.peers index).outgoingCommands ++ [last] ∧
      last.command.command.toldBandwidth = command.command.toldBandwidth := by
  unfold queueOutgoingCommand Heap.malloc
  rw [if_pos memory]
  dsimp only
  unfold setupOutgoingCommand
  rw [setPeer_self]
  exact setupOutgoingCommand_told _ _ rfl

/-- One that finds none is not queued. -/
theorem queueOutgoingCommand_untold {host : Host}
    (memory : host.heap.mallocSucceeds host.heap.nextAddress = false) (index : Nat)
    (command : Protocol) :
    (host.queueOutgoingCommand index command none 0 0).1.peers = host.peers := by
  unfold queueOutgoingCommand Heap.malloc
  rw [memory]
  rfl

/-- A command is allocated once. -/
theorem queueOutgoingCommand_allocates (host : Host) (index : Nat) (command : Protocol) :
    (host.queueOutgoingCommand index command none 0 0).1.heap = host.heap.malloc.1 := by
  unfold queueOutgoingCommand
  split
  next allocated => exact congrArg Prod.fst allocated.symm
  next allocated => exact congrArg Prod.fst allocated.symm

theorem queueOutgoingCommand_sameDemand (host : Host) (queued index : Nat) (command : Protocol) :
    (host.peers index).SameDemand
      ((host.queueOutgoingCommand queued command none 0 0).1.peers index) := by
  unfold queueOutgoingCommand
  split
  · exact .refl _
  · unfold setupOutgoingCommand
    rcases eq_or_ne index queued with same | different
    · rw [same, setPeer_self]
      exact .setupOutgoingCommand ..
    · rw [setPeer_of_ne _ _ different]
      exact .refl _

/-- The state of the last loop after the first peers. -/
structure Announces (host : Host) (timeCurrent bandwidthLimit count : Nat) (after : Host) :
    Prop where
  succeeds : after.heap.mallocSucceeds = host.heap.mallocSucceeds
  address : after.heap.nextAddress =
    host.heap.nextAddress + #{other ∈ host.connected | other < count}
  peers : ∀ index, (host.peers index).SameDemand (after.peers index)
  queued : ∀ index, ∃ added,
    (after.peers index).outgoingCommands = (host.peers index).outgoingCommands ++ added ∧
      added.filterMap (fun outgoing => outgoing.command.command.toldBandwidth) =
        if index ∈ host.announced ∧ index < count then
          [host.announcement timeCurrent bandwidthLimit index]
        else []

/-- The connected peers before one, counted one by one. -/
theorem card_connected_succ (host : Host) (count : Nat) :
    #{other ∈ host.connected | other < count + 1} =
      #{other ∈ host.connected | other < count} + if count ∈ host.connected then 1 else 0 := by
  have split : {other ∈ host.connected | other < count + 1} =
      {other ∈ host.connected | other < count} ∪ {other ∈ host.connected | other = count} := by
    ext other
    simp only [Finset.mem_union, Finset.mem_filter, ← and_or_left]
    refine and_congr_right fun _ => ?_
    omega
  have apart : Disjoint {other ∈ host.connected | other < count}
      {other ∈ host.connected | other = count} := by
    refine Finset.disjoint_filter.mpr fun other _ less same => ?_
    omega
  rw [split, card_union_of_disjoint apart, Finset.filter_eq']
  congr 1
  split
  · rfl
  · rfl

variable {host : Host} {timeCurrent bandwidthLimit count : Nat} {after : Host}

/-- **One peer of the last loop.** -/
theorem Announces.announceLimit (announces : host.Announces timeCurrent bandwidthLimit count after)
    (slot : count < host.peerCount) :
    host.Announces timeCurrent bandwidthLimit (count + 1)
      (Host.announceLimit timeCurrent bandwidthLimit after count) := by
  obtain ⟨succeeds, address, peers, queued⟩ := announces
  obtain ⟨state, outgoingBandwidth, epoch⟩ := peers count
  have member : count ∈ host.connected ↔ (host.peers count).state.isConnected = true := by
    unfold Host.connected
    rw [Finset.mem_filter, Finset.mem_range, and_iff_right slot]
  have counted := card_connected_succ host count
  have others : ∀ (index : Nat), index ≠ count →
      (index ∈ host.announced ∧ index < count + 1 ↔ index ∈ host.announced ∧ index < count) := by
    intro index different
    refine and_congr_right fun _ => ?_
    omega
  unfold Host.announceLimit
  dsimp only
  cases connected : (host.peers count).state.isConnected with
  | false =>
      have outside : count ∉ host.connected := fun inside => by
        rw [member.mp inside] at connected
        cases connected
      rw [state, connected]
      refine ⟨succeeds, ?_, peers, fun index => ?_⟩
      · rw [counted, if_neg outside]
        exact address
      · rcases eq_or_ne index count with same | different
        · have silent : ¬(index ∈ host.announced ∧ index < count + 1) := fun told => by
            rw [same] at told
            exact outside (Finset.mem_filter.mp told.1).1
          have waits : ¬(index ∈ host.announced ∧ index < count) := fun told => by omega
          obtain ⟨added, queues, told⟩ := queued index
          rw [if_neg waits] at told
          exact ⟨added, queues, by rw [if_neg silent]; exact told⟩
        · simp only [others index different]
          exact queued index
  | true =>
      have inside : count ∈ host.connected := member.mpr connected
      have announcing : count ∈ host.announced ↔
          after.heap.mallocSucceeds after.heap.nextAddress = true := by
        unfold Host.announced
        rw [Finset.mem_filter, and_iff_right inside, succeeds, address]
      have next : after.heap.nextAddress + 1 =
          host.heap.nextAddress + #{other ∈ host.connected | other < count + 1} := by
        rw [counted, if_pos inside, address, Nat.add_assoc]
      obtain ⟨added, queues, told⟩ := queued count
      rw [if_neg fun told => absurd told.2 (Nat.lt_irrefl count)] at told
      rw [state, connected, Bool.not_true, if_neg Bool.false_ne_true]
      generalize tells : ({ command := _, .. } : Protocol) = command
      have allocates := after.queueOutgoingCommand_allocates count command
      have acts := ActsOn.queueOutgoingCommand after count command none 0 0
      refine ⟨?_, ?_, fun index => (peers index).trans
        (queueOutgoingCommand_sameDemand after count index command), fun index => ?_⟩
      · rw [allocates]
        exact succeeds
      · rw [allocates]
        exact next
      · rcases eq_or_ne index count with same | different
        · rw [same]
          cases memory : after.heap.mallocSucceeds after.heap.nextAddress with
          | false =>
              have silent : ¬(count ∈ host.announced ∧ count < count + 1) := fun told => by
                rw [announcing.mp told.1] at memory
                cases memory
              rw [if_neg silent, queueOutgoingCommand_untold memory]
              exact ⟨added, queues, told⟩
          | true =>
              have heard : count ∈ host.announced ∧ count < count + 1 :=
                ⟨announcing.mpr memory, Nat.lt_succ_self count⟩
              obtain ⟨last, appends, carries⟩ := queueOutgoingCommand_told memory count command
              refine ⟨added ++ [last], ?_, ?_⟩
              · rw [appends, queues, List.append_assoc]
              · have announces : last.command.command.toldBandwidth =
                    some (host.announcement timeCurrent bandwidthLimit count) := by
                  rw [carries, ← tells, outgoingBandwidth, epoch]
                  rfl
                rw [if_pos heard, List.filterMap_append, told, List.nil_append]
                simp only [List.filterMap_cons, announces, List.filterMap_nil]
        · rw [acts.others index different]
          simp only [others index different]
          exact queued index

/-- **The last loop** tells each peer that it finds memory for, and no other. -/
theorem foldl_announceLimit (host : Host) (timeCurrent bandwidthLimit count : Nat)
    (slots : count ≤ host.peerCount) :
    host.Announces timeCurrent bandwidthLimit count
      ((List.range count).foldl (Host.announceLimit timeCurrent bandwidthLimit) host) := by
  induction count with
  | zero =>
      refine ⟨rfl, ?_, fun _ => .refl _, fun index => ⟨[], (List.append_nil _).symm, ?_⟩⟩
      · rw [Finset.filter_false_of_mem fun other _ => Nat.not_lt_zero other]
        rfl
      · rw [if_neg fun told => absurd told.2 (Nat.not_lt_zero index)]
        rfl
  | succ count ih =>
      rw [List.range_succ, List.foldl_append, List.foldl_cons, List.foldl_nil]
      exact (ih (by omega)).announceLimit (by omega)

/-- What the last loop tells each peer. -/
theorem toldBandwidths_announceLimit (host : Host) (timeCurrent bandwidthLimit index : Nat) :
    host.toldBandwidths ((List.range host.peerCount).foldl
        (Host.announceLimit timeCurrent bandwidthLimit) host) index =
      if index ∈ host.announced then [host.announcement timeCurrent bandwidthLimit index]
      else [] := by
  obtain ⟨added, queues, told⟩ :=
    (foldl_announceLimit host timeCurrent bandwidthLimit host.peerCount le_rfl).queued index
  unfold toldBandwidths
  rw [queues, List.drop_left, told]
  by_cases member : index ∈ host.announced
  · have slot := Finset.mem_range.mp (Finset.mem_filter.mp (Finset.mem_filter.mp member).1).1
    rw [if_pos ⟨member, slot⟩, if_pos member]
  · rw [if_neg fun both => member both.1, if_neg member]

/-! ## What the first part leaves alone -/

/-- All peers ask for the same. -/
def SameDemands (peers peers' : Nat → Peer) : Prop :=
  ∀ index, (peers index).SameDemand (peers' index)

theorem SameDemands.trans {peers peers' peers'' : Nat → Peer} (first : SameDemands peers peers')
    (second : SameDemands peers' peers'') : SameDemands peers peers'' :=
  fun index => (first index).trans (second index)

theorem sameDemands_update {peers : Nat → Peer} {index : Nat} {peer : Peer}
    (same : (peers index).SameDemand peer) :
    SameDemands peers (Function.update peers index peer) := by
  intro other
  rcases eq_or_ne other index with equal | different
  · rw [equal, Function.update_self]
    exact same
  · rw [Function.update_of_ne different]
    exact .refl _

theorem throttlePeers_sameDemands (host : Host) (timeCurrent elapsedTime : Nat) :
    SameDemands host.peers (host.throttlePeers timeCurrent elapsedTime).peers := by
  have adjusts : ∀ (throttle : Nat) (state : Throttling) (index : Nat), SameDemands state.peers
      (adjustPeer timeCurrent elapsedTime throttle state index).peers := by
    intro throttle state index
    unfold adjustPeer
    dsimp only
    split
    · exact fun _ => .refl _
    · split
      · exact fun _ => .refl _
      · exact sameDemands_update ⟨rfl, rfl, rfl⟩
  have shares : ∀ (throttle : Nat) (peers : Nat → Peer) (index : Nat),
      SameDemands peers (sharePeer timeCurrent throttle peers index) := by
    intro throttle peers index
    unfold sharePeer
    dsimp only
    split
    · exact fun _ => .refl _
    · exact sameDemands_update ⟨rfl, rfl, rfl⟩
  have loops : ∀ (fuel : Nat) (state : Throttling), SameDemands state.peers
      (adjustPeers host.peerCount timeCurrent elapsedTime fuel state).peers := by
    intro fuel
    induction fuel with
    | zero => exact fun state _ => .refl _
    | succ fuel ih =>
        intro state
        unfold adjustPeers
        split
        · have pass := foldl_relates
            (fun state state' : Throttling => SameDemands state.peers state'.peers)
            (fun _ _ => .refl _) (fun first => first.trans)
            (adjusts (throttleOf state.dataTotal state.bandwidth)) (List.range host.peerCount)
            { state with needsAdjustment := false }
          exact SameDemands.trans pass (ih _)
        · exact fun _ => .refl _
  have limited := loops (host.peerCount + 1) (host.startThrottling elapsedTime)
  refine SameDemands.trans limited ?_
  unfold throttlePeers sharePeers
  split
  · exact foldl_relates SameDemands (fun _ _ => .refl _) (fun first => first.trans) (shares _) _ _
  · exact fun _ => .refl _

/-! ## The recalculation -/

theorem connected_congr {host host' : Host} (peerCount : host'.peerCount = host.peerCount)
    (states : ∀ index, (host'.peers index).state = (host.peers index).state) :
    host'.connected = host.connected := by
  unfold Host.connected
  rw [peerCount]
  simp only [states]

theorem announced_congr {host host' : Host} (connected : host'.connected = host.connected)
    (heap : host'.heap = host.heap) : host'.announced = host.announced := by
  unfold announced
  rw [connected, heap]

theorem toldBandwidths_congr {host host' : Host}
    (queues : ∀ index, (host'.peers index).outgoingCommands = (host.peers index).outgoingCommands)
    (after : Host) (index : Nat) : host'.toldBandwidths after index =
      host.toldBandwidths after index := by
  unfold toldBandwidths
  rw [queues]

/-- What a peer is told where the level ends: what it asked for, where it was settled at
this time before, and at most the level otherwise. -/
def fairBandwidth (host : Host) (timeCurrent level index : Nat) : Nat :=
  if (host.peers index).incomingBandwidthThrottleEpoch = timeCurrent then host.demand index
  else min (host.demand index) level

/-- **What the recalculation tells the peers.** -/
theorem recalculateLimits_told {host : Host} (timeCurrent : Nat) (counted : Counted host)
    (slots : host.peerCount ≤ protocolMaximumPeerID) (limits : host.incomingBandwidth ≠ 0)
    (enough : #(host.connected) ≤ host.incomingBandwidth) :
    ∃ final, host.Rises timeCurrent final ∧ host.evenShare timeCurrent final ≤ final ∧
      ∀ index, host.toldBandwidths (host.recalculateLimits timeCurrent) index =
        if index ∈ host.announced then [host.fairBandwidth timeCurrent final index] else [] := by
  have bound := card_connected_le host
  have start : host.recalculated.startRecalculation =
      host.settling timeCurrent (host.modest timeCurrent 0) true := by
    unfold settling startRecalculation
    rw [modest, below_zero, card_empty, sum_empty]
    have peers : host.settle timeCurrent ∅ = host.peers := by
      funext index
      exact if_neg (notMem_empty index)
    rw [peers, ← u32_connectedPeers counted slots]
    rfl
  obtain ⟨final, stops, rises, ends, loop⟩ := @recalculatePeers_settling host timeCurrent enough
    (host.peerCount + 1) 0 true .zero (fun unset => by cases unset) fun _ => by omega
  refine ⟨final, rises, ends, fun index => ?_⟩
  let after := host.recalculated.setPeers (host.settle timeCurrent (host.modest timeCurrent final))
  have shares : host.recalculated.recalculateShares timeCurrent = (after, final) := by
    unfold recalculateShares
    rw [if_neg (show ¬host.recalculated.incomingBandwidth = 0 from limits), start,
      show host.recalculated.peerCount = host.peerCount from rfl, loop]
    rfl
  have limitsTold : host.recalculateLimits timeCurrent =
      (List.range after.peerCount).foldl (announceLimit timeCurrent final) after := by
    unfold recalculateLimits
    rw [shares]
    rfl
  have states : ∀ index, (after.peers index).state = (host.peers index).state := by
    intro index
    dsimp only [after, setPeers, settle]
    split <;> rfl
  have queues : ∀ index,
      (after.peers index).outgoingCommands = (host.peers index).outgoingCommands := by
    intro index
    dsimp only [after, setPeers, settle]
    split <;> rfl
  have announced : after.announced = host.announced :=
    announced_congr (connected_congr rfl states) rfl
  rw [limitsTold, ← toldBandwidths_congr queues, toldBandwidths_announceLimit, announced]
  by_cases told : index ∈ host.announced
  · rw [if_pos told, if_pos told]
    obtain ⟨slot, connected⟩ := Finset.mem_filter.mp (Finset.mem_filter.mp told).1
    congr 1
    have tells : ∀ {peer : Peer}, after.peers index = peer →
        after.announcement timeCurrent final index =
          if peer.incomingBandwidthThrottleEpoch = timeCurrent then peer.outgoingBandwidth
          else final := by
      rintro peer rfl
      rfl
    unfold fairBandwidth
    by_cases stale : (host.peers index).incomingBandwidthThrottleEpoch = timeCurrent
    · have waits : index ∉ host.modest timeCurrent final := fun modest =>
        (mem_claimants.mp (mem_below.mp modest).1).2.2 stale
      rw [tells (if_neg waits), if_pos stale, if_pos stale]
      rfl
    · have claims : index ∈ host.claimants timeCurrent :=
        mem_claimants.mpr ⟨Finset.mem_range.mp slot, connected, stale⟩
      rw [if_neg stale]
      by_cases low : host.demand index < final
      · rw [tells (if_pos (mem_below.mpr ⟨claims, low⟩)), Nat.min_eq_left low.le]
        exact if_pos rfl
      · rw [tells (if_neg fun modest => low (mem_below.mp modest).2), if_neg stale,
          Nat.min_eq_right (Nat.le_of_not_lt low)]
  · rw [if_neg told, if_neg told]

/-! ## The call -/

variable {host : Host} {timeCurrent level index : Nat}

/-- The host as its limits are recalculated. -/
def throttled (host : Host) : Host :=
  (host.timeGet.1.setThrottleEpoch host.timeGet.2).throttlePeers host.throttleTime
    host.throttleElapsed

/-- The incoming bandwidth is divided: the recalculation ends, and no register falls below
zero; nobody is told zero; and together the peers are told no more than there is. -/
structure DividesIncoming (host : Host) : Prop where
  ends : host.throttled.recalculateLimitsChecked host.throttleTime = some host.bandwidthThrottle
  nonzero : ∀ index, ∀ bandwidth ∈ host.toldBandwidths host.bandwidthThrottle index, bandwidth ≠ 0
  within : ∑ index ∈ Finset.range host.peerCount,
    (host.toldBandwidths host.bandwidthThrottle index).sum ≤ host.incomingBandwidth

/-- The level up to which the peers that were not settled at this time are given what
they ask for. -/
abbrev IsLevel (host : Host) (timeCurrent level : Nat) : Prop :=
  IsFairLevel host.demand (host.claimants timeCurrent) #(host.connected) host.incomingBandwidth
    level

/-- Every peer that is told its limit has one of its own, and those that were settled at
this time before ask for no more than the others leave. -/
structure AsksWithin (host : Host) : Prop where
  limited : ∀ index ∈ host.announced, host.demand index ≠ 0
  stale : (∃ index ∈ host.announced,
      (host.peers index).incomingBandwidthThrottleEpoch = host.throttleTime) →
    ∀ level, host.IsLevel host.throttleTime level →
      ∑ index ∈ host.announced, host.fairBandwidth host.throttleTime level index ≤
        host.incomingBandwidth

theorem announced_subset (host : Host) : host.announced ⊆ Finset.range host.peerCount := by
  intro index member
  exact (Finset.mem_filter.mp (Finset.mem_filter.mp member).1).1

/-- A peer that was not settled at this time is among the claimants. -/
theorem mem_claimants_of_announced (told : index ∈ host.announced)
    (fresh : (host.peers index).incomingBandwidthThrottleEpoch ≠ timeCurrent) :
    index ∈ host.claimants timeCurrent := by
  obtain ⟨slot, connected⟩ := Finset.mem_filter.mp (Finset.mem_filter.mp told).1
  exact mem_claimants.mpr ⟨Finset.mem_range.mp slot, connected, fresh⟩

/-- The level that the loop ends at gives what the fair level gives. -/
theorem Rises.fairBandwidth_eq (rises : host.Rises timeCurrent level)
    (ends : host.evenShare timeCurrent level ≤ level) {fair : Nat}
    (isLevel : host.IsLevel timeCurrent fair) (told : index ∈ host.announced) :
    host.fairBandwidth timeCurrent fair index = host.fairBandwidth timeCurrent level index := by
  unfold fairBandwidth
  split
  · rfl
  next fresh =>
      exact rises.min_fair (card_claimants_le host timeCurrent) ends isLevel index
        (mem_claimants_of_announced told fresh)

/-- Where the loop ends, a peer that asks for something is given something. -/
theorem Rises.fairBandwidth_pos (enough : #(host.connected) ≤ host.incomingBandwidth)
    (rises : host.Rises timeCurrent level) (ends : host.evenShare timeCurrent level ≤ level)
    (told : index ∈ host.announced) (asks : host.demand index ≠ 0) :
    host.fairBandwidth timeCurrent level index ≠ 0 := by
  unfold fairBandwidth
  split
  · exact asks
  · have somebody : 0 < #(host.connected) := card_pos.mpr ⟨index, (Finset.mem_filter.mp told).1⟩
    have positive : level ≠ 0 := by
      rintro rfl
      have rest : #(host.modest timeCurrent 0) < #(host.connected) := by
        rw [modest, below_zero]
        exact somebody
      have share := evenShare_pos enough rises rest
      omega
    omega

/-- Where nobody was settled at this time before, the level is within the bandwidth. -/
theorem Rises.sum_fairBandwidth_le (rises : host.Rises timeCurrent level)
    (fresh : ∀ index ∈ host.announced,
      (host.peers index).incomingBandwidthThrottleEpoch ≠ timeCurrent) :
    ∑ index ∈ host.announced, host.fairBandwidth timeCurrent level index ≤
      host.incomingBandwidth := by
  have subset : host.announced ⊆ host.claimants timeCurrent :=
    fun index told => mem_claimants_of_announced told (fresh index told)
  calc ∑ index ∈ host.announced, host.fairBandwidth timeCurrent level index
      = ∑ index ∈ host.announced, min (host.demand index) level :=
        sum_congr rfl fun index told => if_neg (fresh index told)
    _ ≤ ∑ index ∈ host.claimants timeCurrent, min (host.demand index) level :=
        sum_le_sum_of_subset subset
    _ ≤ host.incomingBandwidth :=
        rises.affords.sum_min_le (card_claimants_le host timeCurrent)

/-- **What a call that recalculates the limits tells the peers.** -/
theorem bandwidthThrottle_told (counted : Counted host)
    (slots : host.peerCount ≤ protocolMaximumPeerID) (throttling : host.IsThrottling)
    (recalculates : host.recalculateBandwidthLimits = true) (limits : host.incomingBandwidth ≠ 0)
    (enough : #(host.connected) ≤ host.incomingBandwidth) :
    host.throttled.recalculateLimitsChecked host.throttleTime = some host.bandwidthThrottle ∧
      ∃ final, host.Rises host.throttleTime final ∧ host.evenShare host.throttleTime final ≤ final ∧
        ∀ index, host.toldBandwidths host.bandwidthThrottle index =
          if index ∈ host.announced then [host.fairBandwidth host.throttleTime final index]
          else [] := by
  have due : ¬sub32 host.timeGet.2 host.timeGet.1.bandwidthThrottleEpoch <
      hostBandwidthThrottleInterval := Nat.not_lt.mpr throttling.due
  have somebody : ¬u32 (host.timeGet.1.setThrottleEpoch host.timeGet.2).connectedPeers = 0 :=
    throttling.somebody
  have call : host.bandwidthThrottle = host.throttled.recalculateLimits host.throttleTime := by
    unfold bandwidthThrottle
    dsimp only
    rw [if_neg due, if_neg somebody]
    exact if_pos recalculates
  have timed : Counted (host.timeGet.1.setThrottleEpoch host.timeGet.2) :=
    ⟨counted.connected, counted.limited, counted.outside, counted.positive⟩
  have quiet := throttlePeers_quiet (host.timeGet.1.setThrottleEpoch host.timeGet.2)
    host.throttleTime host.throttleElapsed
  have still : Counted host.throttled := counted_of_quiet timed quiet
  have same : SameDemands host.peers host.throttled.peers :=
    throttlePeers_sameDemands (host.timeGet.1.setThrottleEpoch host.timeGet.2) _ _
  have connected : host.throttled.connected = host.connected :=
    connected_congr rfl fun index => (same index).state
  have demand : host.throttled.demand = host.demand :=
    funext fun index => (same index).outgoingBandwidth
  have claimants : host.throttled.claimants host.throttleTime =
      host.claimants host.throttleTime := by
    ext index
    rw [mem_claimants, mem_claimants, (same index).state, (same index).epoch]
    rfl
  have announced : host.throttled.announced = host.announced :=
    announced_congr connected quiet.heap
  refine ⟨?_, ?_⟩
  · rw [call]
    exact recalculateLimitsChecked_eq still slots
  · obtain ⟨final, rises, ends, told⟩ := recalculateLimits_told host.throttleTime still slots
      limits (by rw [connected]; exact enough)
    rw [Rises, demand, claimants, connected] at rises
    rw [evenShare, demand, claimants, connected] at ends
    refine ⟨final, rises, ends, fun index => ?_⟩
    have queues : ∀ index, (host.throttled.peers index).outgoingCommands =
        (host.peers index).outgoingCommands := fun index => (quiet.peers index).outgoingCommands
    have fair : host.throttled.fairBandwidth host.throttleTime final index =
        host.fairBandwidth host.throttleTime final index := by
      unfold fairBandwidth
      rw [demand, (same index).epoch]
    rw [call, ← toldBandwidths_congr queues, told index, announced, fair]

/-- **The incoming bandwidth is divided if and only if every peer that is told a limit
has one**, and those settled at this time before leave room. -/
theorem incomingBandwidth_divided_iff (host : Host) (counted : Counted host)
    (slots : host.peerCount ≤ protocolMaximumPeerID) (throttling : host.IsThrottling)
    (recalculates : host.recalculateBandwidthLimits = true) (limits : host.incomingBandwidth ≠ 0)
    (enough : #(host.connected) ≤ host.incomingBandwidth) :
    host.DividesIncoming ↔ host.AsksWithin := by
  obtain ⟨checked, final, rises, ends, told⟩ :=
    bandwidthThrottle_told counted slots throttling recalculates limits enough
  have sum : ∑ index ∈ Finset.range host.peerCount,
      (host.toldBandwidths host.bandwidthThrottle index).sum =
        ∑ index ∈ host.announced, host.fairBandwidth host.throttleTime final index := by
    have each : ∀ index, (host.toldBandwidths host.bandwidthThrottle index).sum =
        if index ∈ host.announced then host.fairBandwidth host.throttleTime final index
        else 0 := by
      intro index
      rw [told]
      split
      · exact List.sum_singleton
      · rfl
    rw [sum_congr rfl fun index _ => each index, sum_ite_mem,
      inter_eq_right.mpr (announced_subset host)]
  constructor
  · rintro ⟨-, nonzero, within⟩
    refine ⟨fun index member none => ?_, fun _ level isLevel => ?_⟩
    · have bandwidth := nonzero index (host.fairBandwidth host.throttleTime final index)
        (by rw [told, if_pos member]; exact List.mem_singleton_self _)
      refine bandwidth ?_
      unfold fairBandwidth
      rw [none, Nat.zero_min, ite_self]
    · rw [sum_congr rfl fun index member => rises.fairBandwidth_eq ends isLevel member, ← sum]
      exact within
  · rintro ⟨limited, stale⟩
    refine ⟨checked, fun index bandwidth member => ?_, ?_⟩
    · rw [told] at member
      split at member
      next announces =>
          rw [List.mem_singleton.mp member]
          exact rises.fairBandwidth_pos enough ends announces (limited index announces)
      · cases member
    · rw [sum]
      by_cases settled : ∃ index ∈ host.announced,
          (host.peers index).incomingBandwidthThrottleEpoch = host.throttleTime
      · obtain ⟨level, isLevel⟩ := exists_fairLevel host.demand (host.claimants host.throttleTime)
          #(host.connected) host.incomingBandwidth
        rw [← sum_congr rfl fun index member => rises.fairBandwidth_eq ends isLevel member]
        exact stale settled level isLevel
      · exact rises.sum_fairBandwidth_le fun index member same => settled ⟨index, member, same⟩

end Host

/-- A host with two connected peers, which ask for these bandwidths and share a
thousand bytes a second. -/
def dividingHost (first second : Nat) : Host :=
  { sharingHost 2000 with
    peers := fun index =>
      { (sharingHost 2000).peers index with
        outgoingBandwidth := if index = 0 then first else second }
    incomingBandwidth := 1000
    recalculateBandwidthLimits := true }

theorem dividingHost_counted (first second : Nat) : Counted (dividingHost first second) :=
  ⟨rfl, rfl, fun _ outside => if_neg (Nat.not_lt.mpr outside), rfl⟩

/-- A peer that asks for little, and one that asks for more than is left, are told 100
and 900. -/
theorem incomingBandwidth_divided_two :
    (dividingHost 100 5000).toldBandwidths (dividingHost 100 5000).bandwidthThrottle 0 = [100] ∧
      (dividingHost 100 5000).toldBandwidths (dividingHost 100 5000).bandwidthThrottle 1 = [900] ∧
      (dividingHost 100 5000).DividesIncoming := by
  refine ⟨by decide +kernel, by decide +kernel, (Host.incomingBandwidth_divided_iff _
    (dividingHost_counted 100 5000) (by decide) ⟨by decide, by decide⟩ rfl (by decide)
    (by decide +kernel)).mpr ⟨?_, ?_⟩⟩
  · decide +kernel
  · rintro ⟨index, -, same⟩
    cases same

/-- A peer without a limit of its own is told that it may send without one. -/
theorem incomingBandwidth_not_divided :
    ¬∀ host : Host, Counted host → host.peerCount ≤ protocolMaximumPeerID → host.IsThrottling →
      host.recalculateBandwidthLimits = true → host.incomingBandwidth ≠ 0 →
      host.connected.card ≤ host.incomingBandwidth → host.DividesIncoming := by
  intro always
  have divides := always (dividingHost 0 5000) (dividingHost_counted 0 5000) (by decide)
    ⟨by decide, by decide⟩ rfl (by decide) (by decide +kernel)
  have told : (dividingHost 0 5000).toldBandwidths (dividingHost 0 5000).bandwidthThrottle 0 =
      [0] := by decide +kernel
  exact divides.nonzero 0 0 (by rw [told]; exact List.mem_singleton_self 0) rfl

end Enet
