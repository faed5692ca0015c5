import Enet.Bandwidth.Registers

/-!
# What the bandwidth throttle allocates

The limits that `enet_host_bandwidth_throttle` leaves: together they keep the
peers within the budget of the host, and each peer within its own, but for the
peers whose limit was raised to one.
-/

set_option autoImplicit false

namespace Enet

open Library Finset

namespace Host

variable {host : Host} {timeCurrent elapsedTime throttle index : Nat} {state : Throttling}

/-! ## The registers on entry -/

/-- The sum of the 32-bit loop, for any test. -/
theorem foldl_u32_eq (test : Nat → Bool) (value : Nat → Nat) (count : Nat) :
    (List.range count).foldl
        (fun total index => if test index then u32 (total + value index) else total) 0 =
      u32 (∑ index ∈ {index ∈ Finset.range count | test index}, value index) := by
  induction count with
  | zero => rfl
  | succ count ih =>
      rw [List.range_succ, List.foldl_append, ih, Finset.range_add_one, Finset.filter_insert]
      dsimp only [List.foldl_cons, List.foldl_nil]
      cases test count with
      | false => rfl
      | true =>
          rw [if_pos rfl, if_pos rfl, Finset.sum_insert (by simp)]
          unfold u32
          omega

theorem outgoingData_eq (host : Host) : host.outgoingData = u32 host.sentTotal :=
  foldl_u32_eq (fun index => (host.peers index).state.isConnected)
    (fun index => (host.peers index).outgoingDataTotal) host.peerCount

theorem card_connected (counted : Counted host) : #(host.connected) = host.connectedPeers := by
  rw [counted.connected, ← card_filter_range]
  rfl

theorem card_connected_le (host : Host) : #(host.connected) ≤ host.peerCount := by
  have bound := Finset.card_filter_le (Finset.range host.peerCount)
    fun index => (host.peers index).state.isConnected = true
  rwa [Finset.card_range] at bound

theorem limited_entry (host : Host) (timeCurrent : Nat) :
    host.limited timeCurrent host.peers = ∅ :=
  Finset.sdiff_self _

theorem u32_connectedPeers (counted : Counted host)
    (slots : host.peerCount ≤ protocolMaximumPeerID) :
    u32 host.connectedPeers = #(host.connected) := by
  have bound := card_connected_le host
  simp only [protocolMaximumPeerID] at slots
  rw [← card_connected counted]
  exact Nat.mod_eq_of_lt (by omega)

/-- **The invariant holds on entry.** -/
theorem shares_startThrottling (counted : Counted host)
    (slots : host.peerCount ≤ protocolMaximumPeerID) (limits : host.outgoingBandwidth ≠ 0)
    (unwrapped : host.Unwrapped timeCurrent elapsedTime) :
    host.Shares timeCurrent elapsedTime (host.startThrottling elapsedTime) := by
  have peers : (host.startThrottling elapsedTime).peers = host.peers := rfl
  have bandwidth : (host.startThrottling elapsedTime).bandwidth = host.budget elapsedTime := by
    unfold startThrottling budget
    dsimp only
    rw [if_pos limits, u32, Nat.mod_eq_of_lt unwrapped.outgoing]
  have dataTotal : (host.startThrottling elapsedTime).dataTotal = host.sentTotal := by
    unfold startThrottling
    dsimp only
    rw [if_pos limits, outgoingData_eq, u32, Nat.mod_eq_of_lt unwrapped.total]
  refine ⟨fun index => .inl rfl, ?_, ?_, ?_, ?_⟩
  · rw [peers, limited_entry, Finset.sum_empty, bandwidth, Nat.add_zero]
  · rw [peers, limited_entry, Finset.sum_empty, dataTotal, Nat.add_zero]
  · rw [peers, limited_entry, Finset.card_empty, Nat.add_zero]
    exact u32_connectedPeers counted slots
  · rw [peers, dataTotal]
    exact Finset.sum_le_sum_of_subset (sharing_subset_connected host timeCurrent)

/-! ## The other peers -/

/-- What the sharing loop leaves of a peer. -/
theorem foldl_sharePeer (indices : List Nat) (distinct : indices.Nodup) :
    ∀ (peers : Nat → Peer) (index : Nat),
      (indices.foldl (sharePeer timeCurrent throttle) peers) index =
        if index ∈ indices ∧ (peers index).isSharing timeCurrent = true then
          limitThrottle (peers index) throttle
        else peers index := by
  have one : ∀ (peers : Nat → Peer) (shared index : Nat),
      sharePeer timeCurrent throttle peers shared index =
        if index = shared ∧ (peers index).isSharing timeCurrent = true then
          limitThrottle (peers index) throttle
        else peers index := by
    intro peers shared index
    unfold sharePeer Peer.isSharing
    by_cases same : index = shared
    · subst same
      cases (peers index).state.isConnected with
      | false => simp
      | true =>
          by_cases now : (peers index).outgoingBandwidthThrottleEpoch = timeCurrent
          · simp [now]
          · simp [now]
    · split
      · rw [if_neg fun both => same both.1]
      · rw [if_neg fun both => same both.1, Function.update_of_ne same]
  induction indices with
  | nil => intro peers index; simp
  | cons shared indices ih =>
      intro peers index
      obtain ⟨fresh, distinct⟩ := List.nodup_cons.mp distinct
      rw [List.foldl_cons, ih distinct, one]
      by_cases same : index = shared
      · subst same
        simp [fresh]
      · simp [same]

theorem sharePeers_eq (host : Host) (timeCurrent : Nat) (state : Throttling)
    (remain : 0 < state.peersRemaining) (index : Nat) :
    sharePeers host.peerCount timeCurrent state index =
      if index ∈ host.sharing timeCurrent state.peers then
        limitThrottle (state.peers index) (throttleOf state.dataTotal state.bandwidth)
      else state.peers index := by
  unfold sharePeers
  rw [if_pos remain, foldl_sharePeer _ List.nodup_range]
  simp only [mem_sharing, List.mem_range]

/-! ## The loop that recalculates the limits -/

/-- The peers whose incoming limit is not settled yet. -/
def unsettled (host : Host) (timeCurrent : Nat) (peers : Nat → Peer) : Finset Nat :=
  {index ∈ Finset.range host.peerCount | (peers index).state.isConnected &&
    decide ((peers index).incomingBandwidthThrottleEpoch ≠ timeCurrent)}

/-- The invariant of a pass of the loop that recalculates the limits: those who
remain can all be given the limit. -/
structure Recalculates (host : Host) (timeCurrent bandwidthLimit : Nat) (state : Throttling) :
    Prop where
  remaining : #(host.unsettled timeCurrent state.peers) ≤ state.peersRemaining
  bandwidth : bandwidthLimit * state.peersRemaining ≤ state.bandwidth

theorem mem_unsettled {peers : Nat → Peer} :
    index ∈ host.unsettled timeCurrent peers ↔ index < host.peerCount ∧
      (!(peers index).state.isConnected ||
        decide ((peers index).incomingBandwidthThrottleEpoch = timeCurrent)) = false := by
  unfold unsettled
  rw [Finset.mem_filter, Finset.mem_range]
  cases (peers index).state.isConnected <;> simp

theorem unsettled_update (host : Host) (timeCurrent : Nat) (peers : Nat → Peer) (index : Nat) :
    host.unsettled timeCurrent
        (Function.update peers index ((peers index).setIncomingEpoch timeCurrent)) =
      (host.unsettled timeCurrent peers).erase index := by
  ext other
  rw [mem_unsettled, Finset.mem_erase, mem_unsettled]
  by_cases same : other = index
  · subst same
    rw [Function.update_self]
    simp [Peer.setIncomingEpoch]
  · rw [Function.update_of_ne same]
    simp [same]

/-- **One peer of the loop that recalculates the limits**: no register falls below
zero, and where the registers change one peer less remains. -/
theorem Recalculates.recalculatePeer {bandwidthLimit : Nat}
    (recalculates : host.Recalculates timeCurrent bandwidthLimit state)
    (slot : index < host.peerCount) :
    let after := Host.recalculatePeer timeCurrent bandwidthLimit state index
    recalculatePeerChecked timeCurrent bandwidthLimit state index = some after ∧
      host.Recalculates timeCurrent bandwidthLimit after ∧
      (after = state ∨ after.peersRemaining + 1 = state.peersRemaining) := by
  intro after
  have member := @mem_unsettled host timeCurrent index state.peers
  have remaining := recalculates.remaining
  have bandwidth := recalculates.bandwidth
  have stays : host.Recalculates timeCurrent bandwidthLimit state := recalculates
  simp only [after]
  unfold recalculatePeerChecked Host.recalculatePeer
  dsimp only
  cases passed : (!(state.peers index).state.isConnected ||
      decide ((state.peers index).incomingBandwidthThrottleEpoch = timeCurrent)) with
  | true => exact ⟨rfl, stays, .inl rfl⟩
  | false =>
      have unsettled := member.mpr ⟨slot, passed⟩
      have positive := Finset.card_pos.mpr ⟨index, unsettled⟩
      by_cases wide : 0 < (state.peers index).outgoingBandwidth ∧
          bandwidthLimit ≤ (state.peers index).outgoingBandwidth
      · rw [if_neg Bool.false_ne_true, if_pos wide, if_neg Bool.false_ne_true, if_pos wide]
        exact ⟨rfl, stays, .inl rfl⟩
      · have narrow : (state.peers index).outgoingBandwidth ≤ bandwidthLimit := by omega
        have one : bandwidthLimit * 1 ≤ bandwidthLimit * state.peersRemaining :=
          Nat.mul_le_mul_left _ (by omega)
        rw [if_neg Bool.false_ne_true, if_neg wide, if_neg (by omega), if_neg Bool.false_ne_true,
          if_neg wide]
        refine ⟨rfl, ⟨?_, ?_⟩, .inr ?_⟩
        · rw [unsettled_update, Finset.card_erase_of_mem unsettled]
          dsimp only
          rw [sub32_of_le (by omega)]
          omega
        · dsimp only
          rw [sub32_of_le (by omega), sub32_of_le (by omega), Nat.mul_sub]
          omega
        · dsimp only
          rw [sub32_of_le (by omega)]
          omega

/-- **The loop that recalculates the limits ends**, and no register falls below zero. -/
theorem recalculatePeersChecked_eq (fuel : Nat) :
    ∀ (state : Throttling) (bandwidthLimit : Nat),
      #(host.unsettled timeCurrent state.peers) ≤ state.peersRemaining →
      (state.needsAdjustment = true → state.peersRemaining < fuel) →
      recalculatePeersChecked host.peerCount timeCurrent fuel state bandwidthLimit =
        some (recalculatePeers host.peerCount timeCurrent fuel state bandwidthLimit) := by
  induction fuel with
  | zero =>
      intro state bandwidthLimit remaining enough
      unfold recalculatePeersChecked recalculatePeers
      rw [if_neg fun goesOn => absurd (enough goesOn.2) (Nat.not_lt_zero _)]
  | succ fuel ih =>
      intro state bandwidthLimit remaining enough
      unfold recalculatePeersChecked recalculatePeers
      by_cases goesOn : 0 < state.peersRemaining ∧ state.needsAdjustment = true
      · have begins : host.Recalculates timeCurrent (state.bandwidth / state.peersRemaining)
            { state with needsAdjustment := false } :=
          ⟨remaining, Nat.div_mul_le_self _ _⟩
        obtain ⟨checked, kept, least, fewer⟩ := foldlM_eq_some
          (fun after : Throttling =>
            host.Recalculates timeCurrent (state.bandwidth / state.peersRemaining) after ∧
              after.peersRemaining ≤ state.peersRemaining ∧
              (after.needsAdjustment = true → after.peersRemaining < state.peersRemaining))
          (List.range host.peerCount)
          (fun after holds index member => by
            obtain ⟨recalculates, least, less⟩ := holds
            obtain ⟨checked, kept, same | fewer⟩ :=
              recalculates.recalculatePeer (List.mem_range.mp member)
            · exact ⟨checked, kept, by rw [same]; exact ⟨least, less⟩⟩
            · exact ⟨checked, kept, by omega, fun _ => by omega⟩)
          { state with needsAdjustment := false } ⟨begins, le_rfl, fun needs => by cases needs⟩
        rw [if_pos goesOn, if_pos goesOn, divide, if_neg (by omega), Option.bind_some, checked,
          Option.bind_some]
        have bound := enough goesOn.2
        exact ih _ _ kept.remaining fun needs => (fewer needs).trans_le (Nat.le_of_lt_succ bound)
      · rw [if_neg goesOn, if_neg goesOn]

/-- The part that recalculates the limits divides and subtracts safely. -/
theorem recalculateLimitsChecked_eq (counted : Counted host)
    (slots : host.peerCount ≤ protocolMaximumPeerID) :
    host.recalculateLimitsChecked timeCurrent = some (host.recalculateLimits timeCurrent) := by
  unfold recalculateLimitsChecked
  split
  · rfl
  · have bound := card_connected_le host
    have remaining : host.startRecalculation.peersRemaining = #(host.connected) :=
      u32_connectedPeers counted slots
    rw [recalculatePeersChecked_eq]
    · rfl
    · rw [remaining]
      refine Finset.card_le_card fun index member => ?_
      obtain ⟨slot, passed⟩ := mem_unsettled.mp member
      refine Finset.mem_filter.mpr ⟨Finset.mem_range.mpr slot, ?_⟩
      cases connected : (host.peers index).state.isConnected with
      | true => rfl
      | false =>
          rw [show (host.startRecalculation.peers index).state.isConnected = false from connected]
            at passed
          cases passed
    · intro _
      rw [remaining]
      omega

/-! ## The limits -/

/-- **The first loop from the entry of the call**: it ends with the invariant, and
in the end nobody remains or everybody is content. -/
theorem adjustPeers_entry (counted : Counted host) (slots : host.peerCount ≤ protocolMaximumPeerID)
    (limits : host.outgoingBandwidth ≠ 0) (unwrapped : host.Unwrapped timeCurrent elapsedTime) :
    let after := adjustPeers host.peerCount timeCurrent elapsedTime (host.peerCount + 1)
      (host.startThrottling elapsedTime)
    adjustPeersChecked host.peerCount timeCurrent elapsedTime (host.peerCount + 1)
        (host.startThrottling elapsedTime) = some after ∧
      host.Shares timeCurrent elapsedTime after ∧
      (0 < after.peersRemaining → host.AllContent timeCurrent elapsedTime after) := by
  have shares := shares_startThrottling counted slots limits unwrapped
  have bound := card_connected_le host
  have remaining : (host.startThrottling elapsedTime).peersRemaining = #(host.connected) :=
    u32_connectedPeers counted slots
  rcases Nat.eq_zero_or_pos host.bandwidthLimitedPeers with none | loops
  · have still : (host.startThrottling elapsedTime).needsAdjustment = false := by
      simp [startThrottling, none]
    have ends : ¬ (0 < (host.startThrottling elapsedTime).peersRemaining ∧
        (host.startThrottling elapsedTime).needsAdjustment = true) := by
      rw [still]
      simp
    unfold adjustPeers adjustPeersChecked
    rw [if_neg ends, if_neg ends]
    refine ⟨rfl, shares, fun _ index slot sharing limited => ?_⟩
    have one : (host.peers index).isLimited = true := by
      unfold Peer.isSharing at sharing
      rw [Bool.and_eq_true] at sharing
      unfold Peer.isLimited
      rw [Bool.and_eq_true]
      exact ⟨sharing.1, decide_eq_true limited⟩
    have least := le_sum_range (f := fun index => (host.peers index).isLimited.toNat) slot
    rw [← counted.limited, none, one] at least
    exact absurd least (by decide)
  · refine Shares.adjustPeers unwrapped loops (host.peerCount + 1) _ shares (fun _ => by omega)
      fun still => ?_
    simp [startThrottling, loops] at still

theorem throttlePeersChecked_eq (counted : Counted host)
    (slots : host.peerCount ≤ protocolMaximumPeerID) (limits : host.outgoingBandwidth ≠ 0)
    (unwrapped : host.Unwrapped timeCurrent elapsedTime) :
    host.throttlePeersChecked timeCurrent elapsedTime =
      some (host.throttlePeers timeCurrent elapsedTime) := by
  obtain ⟨checked, -, -⟩ := adjustPeers_entry counted slots limits unwrapped
  unfold throttlePeersChecked throttlePeers
  rw [checked, Option.bind_some]
  unfold sharePeersChecked
  rw [throttleOfChecked_eq]
  split <;> rfl

/-- The peers whose limit was raised from zero to one. -/
def raised (host : Host) (timeCurrent elapsedTime : Nat) (after : Nat → Peer) : Finset Nat :=
  {index ∈ host.connected | (after index).outgoingBandwidthThrottleEpoch = timeCurrent ∧
    host.peerBudget elapsedTime index * peerPacketThrottleScale /
      (host.peers index).outgoingDataTotal = 0}

/-- What a limited peer is sent at its own limit. -/
theorem ownLimit_mul_le (host : Host) (elapsedTime index : Nat) :
    host.ownLimit elapsedTime index * (host.peers index).outgoingDataTotal ≤
      32 * host.peerBudget elapsedTime index +
        if host.peerBudget elapsedTime index * 32 / (host.peers index).outgoingDataTotal = 0 then
          (host.peers index).outgoingDataTotal
        else 0 := by
  have share := Nat.div_mul_le_self (host.peerBudget elapsedTime index * 32)
    (host.peers index).outgoingDataTotal
  unfold ownLimit
  dsimp only [peerPacketThrottleScale]
  split
  · omega
  · omega

theorem isSharing_of_connected {peer : Peer} (connected : peer.state.isConnected = true)
    (fresh : peer.outgoingBandwidthThrottleEpoch ≠ timeCurrent) :
    peer.isSharing timeCurrent = true := by
  unfold Peer.isSharing
  rw [connected]
  simp [fresh]

/-- What is stored of a limited peer. -/
theorem Shares.limited_peer (shares : host.Shares timeCurrent elapsedTime state)
    (member : index ∈ host.limited timeCurrent state.peers) :
    host.IsLimited timeCurrent elapsedTime index (state.peers index) := by
  obtain ⟨shared, gone⟩ := Finset.mem_sdiff.mp member
  obtain ⟨slot, sharing⟩ := mem_sharing.mp shared
  rcases shares.peers index with same | limited
  · exact absurd (mem_sharing.mpr ⟨slot, by rw [same]; exact sharing⟩) gone
  · exact limited

/-- The limits of the peers once the throttle is set. -/
theorem throttlePeers_limit (shares : host.Shares timeCurrent elapsedTime state)
    (fresh : ∀ index < host.peerCount,
      (host.peers index).outgoingBandwidthThrottleEpoch ≠ timeCurrent)
    (member : index ∈ host.connected) :
    let after := sharePeers host.peerCount timeCurrent state index
    index ∈ host.limited timeCurrent state.peers ∧
        after.packetThrottleLimit = host.ownLimit elapsedTime index ∧
        after.outgoingBandwidthThrottleEpoch = timeCurrent ∨
      index ∈ host.sharing timeCurrent state.peers ∧ 0 < state.peersRemaining ∧
        after.packetThrottleLimit = throttleOf state.dataTotal state.bandwidth ∧
        after.outgoingBandwidthThrottleEpoch ≠ timeCurrent := by
  intro after
  obtain ⟨slot, connected⟩ := Finset.mem_filter.mp member
  have slot := Finset.mem_range.mp slot
  have entry : index ∈ host.sharing timeCurrent host.peers :=
    mem_sharing.mpr ⟨slot, isSharing_of_connected connected (fresh index slot)⟩
  rcases Nat.eq_zero_or_pos state.peersRemaining with none | remain
  · have all : host.limited timeCurrent state.peers = host.connected := by
      refine Finset.eq_of_subset_of_card_le (fun other limited =>
        sharing_subset_connected host timeCurrent (Finset.mem_sdiff.mp limited).1) ?_
      have count := shares.remaining
      omega
    have limited : index ∈ host.limited timeCurrent state.peers := by
      rw [all]
      exact member
    have same : after = state.peers index := by
      simp only [after]
      unfold sharePeers
      rw [if_neg (by omega)]
    have stores := (shares.limited_peer limited).stores
    rw [same, stores]
    exact .inl ⟨limited, rfl, rfl⟩
  · have same := sharePeers_eq host timeCurrent state remain index
    by_cases sharing : index ∈ host.sharing timeCurrent state.peers
    · rw [if_pos sharing] at same
      have still := shares.peer_eq (mem_sharing.mp sharing).2
      refine .inr ⟨sharing, remain, ?_, ?_⟩
      · simp only [after, same]
        rfl
      · simp only [after, same, still]
        exact fresh index slot
    · rw [if_neg sharing] at same
      have limited : index ∈ host.limited timeCurrent state.peers :=
        Finset.mem_sdiff.mpr ⟨entry, sharing⟩
      have stores := (shares.limited_peer limited).stores
      simp only [after, same, stores]
      exact .inl ⟨limited, rfl, rfl⟩

/-- The peers that share in the end shared on entry. -/
theorem Shares.sharing_subset (shares : host.Shares timeCurrent elapsedTime state) :
    host.sharing timeCurrent state.peers ⊆ host.sharing timeCurrent host.peers := by
  intro index member
  obtain ⟨slot, sharing⟩ := mem_sharing.mp member
  rw [shares.peer_eq sharing] at sharing
  exact mem_sharing.mpr ⟨slot, sharing⟩

theorem sharing_entry (fresh : ∀ index < host.peerCount,
    (host.peers index).outgoingBandwidthThrottleEpoch ≠ timeCurrent) :
    host.sharing timeCurrent host.peers = host.connected := by
  refine Finset.Subset.antisymm (sharing_subset_connected host timeCurrent) fun index member => ?_
  obtain ⟨slot, connected⟩ := Finset.mem_filter.mp member
  have slot := Finset.mem_range.mp slot
  exact mem_sharing.mpr ⟨slot, isSharing_of_connected connected (fresh index slot)⟩

/-- What the limited peers are sent at their limits. -/
theorem Shares.sum_limited_le (shares : host.Shares timeCurrent elapsedTime state)
    (fresh : ∀ index < host.peerCount,
      (host.peers index).outgoingBandwidthThrottleEpoch ≠ timeCurrent) :
    let after := sharePeers host.peerCount timeCurrent state
    ∑ index ∈ host.limited timeCurrent state.peers,
        (after index).packetThrottleLimit * (host.peers index).outgoingDataTotal ≤
      32 * ∑ index ∈ host.limited timeCurrent state.peers, host.peerBudget elapsedTime index +
        ∑ index ∈ host.raised timeCurrent elapsedTime after,
          (host.peers index).outgoingDataTotal := by
  intro after
  have inside : host.limited timeCurrent state.peers ⊆ host.connected := fun index limited =>
    sharing_subset_connected host timeCurrent (Finset.mem_sdiff.mp limited).1
  have values : ∀ index ∈ host.limited timeCurrent state.peers,
      (after index).packetThrottleLimit = host.ownLimit elapsedTime index ∧
        (after index).outgoingBandwidthThrottleEpoch = timeCurrent := by
    intro index limited
    rcases throttlePeers_limit shares fresh (inside limited) with
      ⟨-, limit, epoch⟩ | ⟨sharing, -, -, -⟩
    · exact ⟨limit, epoch⟩
    · exact absurd sharing (Finset.mem_sdiff.mp limited).2
  calc ∑ index ∈ host.limited timeCurrent state.peers,
          (after index).packetThrottleLimit * (host.peers index).outgoingDataTotal
      ≤ ∑ index ∈ host.limited timeCurrent state.peers,
          (32 * host.peerBudget elapsedTime index +
            if host.peerBudget elapsedTime index * 32 / (host.peers index).outgoingDataTotal = 0
            then (host.peers index).outgoingDataTotal else 0) := by
        refine Finset.sum_le_sum fun index limited => ?_
        rw [(values index limited).1]
        exact ownLimit_mul_le host elapsedTime index
    _ ≤ _ := by
        rw [Finset.sum_add_distrib, ← Finset.mul_sum, ← Finset.sum_filter]
        refine Nat.add_le_add_left (Finset.sum_le_sum_of_subset fun index member => ?_) _
        obtain ⟨limited, zero⟩ := Finset.mem_filter.mp member
        exact Finset.mem_filter.mpr ⟨inside limited, (values index limited).2, zero⟩

/-- **The allocation of the throttle**: together the limits keep the peers within the
budget of the host, but for what was raised, and each one within its own. -/
theorem Shares.allocates (shares : host.Shares timeCurrent elapsedTime state)
    (unwrapped : host.Unwrapped timeCurrent elapsedTime)
    (loops : ∀ index ∈ host.connected, (host.peers index).incomingBandwidth ≠ 0 →
      0 < host.bandwidthLimitedPeers)
    (content : 0 < state.peersRemaining → host.AllContent timeCurrent elapsedTime state)
    (fresh : ∀ index < host.peerCount,
      (host.peers index).outgoingBandwidthThrottleEpoch ≠ timeCurrent) :
    let after := sharePeers host.peerCount timeCurrent state
    ∑ index ∈ host.connected,
        (after index).packetThrottleLimit * (host.peers index).outgoingDataTotal ≤
      32 * host.budget elapsedTime +
        ∑ index ∈ host.raised timeCurrent elapsedTime after,
          (host.peers index).outgoingDataTotal ∧
    ∀ index ∈ host.connected, (host.peers index).incomingBandwidth ≠ 0 →
      (after index).packetThrottleLimit * (host.peers index).outgoingDataTotal / 32 ≤
          host.peerBudget elapsedTime index ∨
        index ∈ host.raised timeCurrent elapsedTime after := by
  intro after
  have each := fun index (member : index ∈ host.connected) =>
    throttlePeers_limit shares fresh member
  have rate := shares.rate unwrapped
  refine ⟨?_, fun index member limited => ?_⟩
  · have limitedSum : ∑ index ∈ host.limited timeCurrent state.peers,
        (after index).packetThrottleLimit * (host.peers index).outgoingDataTotal ≤
          32 * ∑ index ∈ host.limited timeCurrent state.peers, host.peerBudget elapsedTime index +
            ∑ index ∈ host.raised timeCurrent elapsedTime after,
              (host.peers index).outgoingDataTotal := shares.sum_limited_le fresh
    have sharingSum : ∑ index ∈ host.sharing timeCurrent state.peers,
        (after index).packetThrottleLimit * (host.peers index).outgoingDataTotal ≤
          32 * state.bandwidth := by
      refine le_trans (le_of_eq ?_) rate.2
      rw [Finset.mul_sum]
      refine Finset.sum_congr rfl fun index sharing => ?_
      have member : index ∈ host.connected :=
        sharing_subset_connected host timeCurrent (shares.sharing_subset sharing)
      rcases each index member with ⟨limited, -, -⟩ | ⟨-, -, limit, -⟩
      · exact absurd sharing (Finset.mem_sdiff.mp limited).2
      · rw [limit]
    have split := Finset.sum_sdiff (f := fun index =>
      (after index).packetThrottleLimit * (host.peers index).outgoingDataTotal)
      shares.sharing_subset
    have total := shares.bandwidth
    rw [sharing_entry fresh] at split
    unfold Host.limited at limitedSum total
    rw [sharing_entry fresh] at limitedSum total
    omega
  · rcases each index member with ⟨-, limit, epoch⟩ | ⟨sharing, remain, limit, -⟩
    · by_cases zero : host.peerBudget elapsedTime index * 32 /
          (host.peers index).outgoingDataTotal = 0
      · exact .inr (Finset.mem_filter.mpr ⟨member, epoch, zero⟩)
      · have share := ownLimit_mul_le host elapsedTime index
        rw [if_neg zero] at share
        simp only [after, limit]
        left
        omega
    · left
      obtain ⟨slot, shares'⟩ := mem_sharing.mp sharing
      have still := shares.peer_eq shares'
      have within := content remain index slot shares' (by rw [still]; exact limited)
      have share := rate.2.share_le sharing
      have bandwidth := shares.bandwidth_le
      have budget := unwrapped.budget_lt
      have incoming := unwrapped.incoming (loops index member limited) index slot
        (by rw [← still]; exact shares') limited
      rw [still, u32, u32, Nat.mod_eq_of_lt incoming, Nat.mod_eq_of_lt (by omega)] at within
      simp only [after, limit]
      exact within

end Host

/-! ## What the recalculation leaves alone -/

/-- Two peers with the same throttle limit, set at the same time. -/
structure Peer.SameLimit (peer peer' : Peer) : Prop where
  limit : peer'.packetThrottleLimit = peer.packetThrottleLimit
  epoch : peer'.outgoingBandwidthThrottleEpoch = peer.outgoingBandwidthThrottleEpoch

namespace Peer.SameLimit

theorem trans {peer peer' peer'' : Peer} (first : peer.SameLimit peer')
    (second : peer'.SameLimit peer'') : peer.SameLimit peer'' :=
  ⟨second.limit.trans first.limit, second.epoch.trans first.epoch⟩

theorem setupOutgoingCommand (peer : Peer) (totalQueued : Nat) (outgoing : OutgoingCommand) :
    peer.SameLimit (peer.setupOutgoingCommand totalQueued outgoing) := by
  have numbers : peer.SameLimit
      ((peer.countOutgoingData outgoing).numberOutgoingCommand outgoing).1 := by
    unfold Peer.numberOutgoingCommand
    split
    · exact ⟨rfl, rfl⟩
    · split
      · exact ⟨rfl, rfl⟩
      · split
        · exact ⟨rfl, rfl⟩
        · exact ⟨rfl, rfl⟩
  refine numbers.trans ?_
  unfold Peer.setupOutgoingCommand Peer.enqueueOutgoing
  dsimp only
  split
  · exact ⟨rfl, rfl⟩
  · exact ⟨rfl, rfl⟩

end Peer.SameLimit

namespace Host

theorem announceLimit_sameLimit (timeCurrent bandwidthLimit : Nat) (host : Host)
    (announced index : Nat) :
    (host.peers index).SameLimit
      ((announceLimit timeCurrent bandwidthLimit host announced).peers index) := by
  unfold announceLimit
  dsimp only
  split
  · exact ⟨rfl, rfl⟩
  · unfold queueOutgoingCommand
    split
    · exact ⟨rfl, rfl⟩
    · by_cases same : index = announced
      · subst same
        unfold setupOutgoingCommand
        rw [setPeer_self]
        exact .setupOutgoingCommand ..
      · unfold setupOutgoingCommand
        rw [setPeer_of_ne _ _ same]
        exact ⟨rfl, rfl⟩

theorem recalculatePeer_sameLimit (timeCurrent bandwidthLimit : Nat) (state : Throttling)
    (settled index : Nat) :
    (state.peers index).SameLimit
      ((recalculatePeer timeCurrent bandwidthLimit state settled).peers index) := by
  unfold recalculatePeer
  dsimp only
  split
  · exact ⟨rfl, rfl⟩
  · split
    · exact ⟨rfl, rfl⟩
    · by_cases same : index = settled
      · subst same
        dsimp only
        rw [Function.update_self]
        exact ⟨rfl, rfl⟩
      · dsimp only
        rw [Function.update_of_ne same]
        exact ⟨rfl, rfl⟩

/-- What each turn of a loop leaves of a peer, the loop does. -/
theorem foldl_sameLimit {σ : Type} (peers : σ → Nat → Peer) (step : σ → Nat → σ)
    (keeps : ∀ state item index, (peers state index).SameLimit (peers (step state item) index))
    (items : List Nat) : ∀ (state : σ) (index : Nat),
      (peers state index).SameLimit (peers (items.foldl step state) index) := by
  induction items with
  | nil => intro state index; exact ⟨rfl, rfl⟩
  | cons item items ih =>
      intro state index
      exact (keeps state item index).trans (ih _ index)

theorem recalculatePeers_sameLimit (peerCount timeCurrent fuel : Nat) :
    ∀ (state : Throttling) (bandwidthLimit index : Nat), (state.peers index).SameLimit
      ((recalculatePeers peerCount timeCurrent fuel state bandwidthLimit).1.peers index) := by
  induction fuel with
  | zero => intro state bandwidthLimit index; exact ⟨rfl, rfl⟩
  | succ fuel ih =>
      intro state bandwidthLimit index
      unfold recalculatePeers
      split
      · exact (foldl_sameLimit Throttling.peers _ (recalculatePeer_sameLimit timeCurrent _)
          (List.range peerCount) { state with needsAdjustment := false } index).trans (ih _ _ index)
      · exact ⟨rfl, rfl⟩

theorem recalculateLimits_sameLimit (host : Host) (timeCurrent index : Nat) :
    (host.peers index).SameLimit ((host.recalculateLimits timeCurrent).peers index) := by
  have shares : (host.peers index).SameLimit
      ((host.recalculated.recalculateShares timeCurrent).1.peers index) := by
    unfold recalculateShares
    split
    · exact ⟨rfl, rfl⟩
    · exact recalculatePeers_sameLimit host.peerCount timeCurrent (host.peerCount + 1)
        host.recalculated.startRecalculation 0 index
  exact shares.trans (foldl_sameLimit Host.peers _ (announceLimit_sameLimit timeCurrent _)
    (List.range host.peerCount) _ index)

/-! ## The call -/

/-- The time that the call reads. -/
def throttleTime (host : Host) : Nat := host.timeGet.2

/-- The time since the last throttling. -/
def throttleElapsed (host : Host) : Nat := sub32 host.throttleTime host.bandwidthThrottleEpoch

/-- The limits keep the connected peers within the budget of the host, but for
those raised to one, and each within its own. -/
structure Allocates (host : Host) (timeCurrent elapsedTime : Nat) (after : Nat → Peer) : Prop where
  together : ∑ index ∈ host.connected,
      (after index).packetThrottleLimit * (host.peers index).outgoingDataTotal ≤
    32 * host.budget elapsedTime +
      ∑ index ∈ host.raised timeCurrent elapsedTime after, (host.peers index).outgoingDataTotal
  each : ∀ index ∈ host.connected, (host.peers index).incomingBandwidth ≠ 0 →
    (after index).packetThrottleLimit * (host.peers index).outgoingDataTotal / 32 ≤
        host.peerBudget elapsedTime index ∨
      index ∈ host.raised timeCurrent elapsedTime after

theorem Allocates.sameLimit {timeCurrent elapsedTime : Nat} {host : Host}
    {after after' : Nat → Peer}
    (allocates : host.Allocates timeCurrent elapsedTime after)
    (same : ∀ index, (after index).SameLimit (after' index)) :
    host.Allocates timeCurrent elapsedTime after' := by
  have raised : host.raised timeCurrent elapsedTime after' =
      host.raised timeCurrent elapsedTime after := by
    unfold Host.raised
    simp only [(same _).epoch]
  obtain ⟨together, each⟩ := allocates
  refine ⟨?_, fun index member limited => ?_⟩
  · rw [raised]
    simpa only [(same _).limit] using together
  · rw [raised, (same index).limit]
    exact each index member limited

/-- The first loop runs where a connected peer has a bandwidth of its own. -/
theorem loops_of_limited {host : Host} (counted : Counted host) {index : Nat}
    (member : index ∈ host.connected) (limited : (host.peers index).incomingBandwidth ≠ 0) :
    0 < host.bandwidthLimitedPeers := by
  obtain ⟨slot, connected⟩ := Finset.mem_filter.mp member
  have one : (host.peers index).isLimited = true := by
    unfold Peer.isLimited
    rw [connected, decide_eq_true limited]
    rfl
  have least := le_sum_range (f := fun index => (host.peers index).isLimited.toNat)
    (Finset.mem_range.mp slot)
  rw [← counted.limited, one] at least
  exact least

theorem counted_of_quiet {host host' : Host} (counted : Counted host) (quiet : Quiet host host') :
    Counted host' :=
  counted.steady ⟨quiet.counts, quiet.peerCount, fun index => (quiet.peers index).state,
    fun index => by
      rw [Peer.isLimited, (quiet.peers index).state, (quiet.peers index).incomingBandwidth]
      rfl⟩

/-- The call from the time on which it is due. -/
theorem throttle_allocates {host : Host} {timeCurrent elapsedTime : Nat} (counted : Counted host)
    (slots : host.peerCount ≤ protocolMaximumPeerID) (limits : host.outgoingBandwidth ≠ 0)
    (fresh : ∀ index < host.peerCount,
      (host.peers index).outgoingBandwidthThrottleEpoch ≠ timeCurrent)
    (unwrapped : host.Unwrapped timeCurrent elapsedTime) :
    let throttled := host.throttlePeers timeCurrent elapsedTime
    let after :=
      if u32 host.connectedPeers = 0 then host
      else if throttled.recalculateBandwidthLimits then throttled.recalculateLimits timeCurrent
      else throttled
    (if u32 host.connectedPeers = 0 then some host
      else (host.throttlePeersChecked timeCurrent elapsedTime).bind fun host =>
        if host.recalculateBandwidthLimits then host.recalculateLimitsChecked timeCurrent
        else some host) = some after ∧
      host.Allocates timeCurrent elapsedTime after.peers := by
  intro throttled after
  simp only [after]
  split
  next none =>
      have empty : host.connected = ∅ := by
        rw [u32_connectedPeers counted slots] at none
        exact Finset.card_eq_zero.mp none
      refine ⟨rfl, ⟨?_, fun index member => ?_⟩⟩
      · rw [empty, Finset.sum_empty]
        exact Nat.zero_le _
      · rw [empty] at member
        cases member
  · obtain ⟨-, shares, content⟩ := adjustPeers_entry counted slots limits unwrapped
    obtain ⟨together, each⟩ := shares.allocates unwrapped
      (fun index member limited => loops_of_limited counted member limited) content fresh
    have allocates : host.Allocates timeCurrent elapsedTime throttled.peers := ⟨together, each⟩
    rw [throttlePeersChecked_eq counted slots limits unwrapped, Option.bind_some]
    split
    · have still := counted_of_quiet counted (throttlePeers_quiet host timeCurrent elapsedTime)
      exact ⟨recalculateLimitsChecked_eq still slots,
        allocates.sameLimit (recalculateLimits_sameLimit throttled timeCurrent)⟩
    · exact ⟨rfl, allocates⟩

end Host

/-- **The throttle allocates the outgoing bandwidth.** A call before its time changes no
peer; one that is due, where no product or sum wraps around, ends without a
division by zero or a register below zero, and keeps within the budgets. -/
theorem bandwidthThrottle_allocates (host : Host) (counted : Counted host)
    (slots : host.peerCount ≤ protocolMaximumPeerID) (limits : host.outgoingBandwidth ≠ 0)
    (fresh : ∀ index < host.peerCount,
      (host.peers index).outgoingBandwidthThrottleEpoch ≠ host.throttleTime) :
    (host.throttleElapsed < hostBandwidthThrottleInterval →
      host.bandwidthThrottleChecked = some host.bandwidthThrottle ∧
        host.bandwidthThrottle.peers = host.peers) ∧
    (hostBandwidthThrottleInterval ≤ host.throttleElapsed →
      host.Unwrapped host.throttleTime host.throttleElapsed →
        host.bandwidthThrottleChecked = some host.bandwidthThrottle ∧
          host.Allocates host.throttleTime host.throttleElapsed host.bandwidthThrottle.peers) := by
  refine ⟨fun early => ?_, fun due unwrapped => ?_⟩
  · have early : sub32 host.timeGet.2 host.timeGet.1.bandwidthThrottleEpoch <
        hostBandwidthThrottleInterval := early
    unfold Host.bandwidthThrottleChecked Host.bandwidthThrottle
    dsimp only
    rw [if_pos early, if_pos early]
    exact ⟨rfl, rfl⟩
  · have due : ¬ sub32 host.timeGet.2 host.timeGet.1.bandwidthThrottleEpoch <
        hostBandwidthThrottleInterval := Nat.not_lt.mpr due
    unfold Host.bandwidthThrottleChecked Host.bandwidthThrottle
    dsimp only
    rw [if_neg due, if_neg due]
    have timed : Counted (host.timeGet.1.setThrottleEpoch host.timeGet.2) :=
      ⟨counted.connected, counted.limited, counted.outside, counted.positive⟩
    obtain ⟨checked, together, each⟩ := Host.throttle_allocates timed slots limits fresh
      ⟨unwrapped.outgoing, unwrapped.total, unwrapped.incoming⟩
    exact ⟨checked, together, each⟩

/-- A host with two connected peers, each sent a thousand bytes, and half of them a
second to send; the first peer takes a hundred bytes a second. -/
def sharingHost (time : Nat) : Host :=
  { Host.create .ample (.delivering (fun _ => time) []) 0 2 1 0 500 with
    peers := fun index =>
      { ((Host.clearedPeer index).resetFields hostDefaultMtu).resetQueues with
        state := if index < 2 then .connected else .disconnected
        incomingBandwidth := if index = 0 then 100 else 0
        outgoingDataTotal := 1000 }
    connectedPeers := 2
    bandwidthLimitedPeers := 1 }

theorem sharingHost_counted (time : Nat) : Counted (sharingHost time) :=
  ⟨rfl, rfl, fun _ outside => if_neg (Nat.not_lt.mpr outside), rfl⟩

theorem sharingHost_unwrapped {time : Nat} (short : time < 4294967) :
    (sharingHost time).Unwrapped time time := by
  refine ⟨?_, (by decide : (sharingHost 0).sentTotal < 4294967296), fun _ index _ _ _ => ?_⟩
  · change 500 * time < 4294967296
    omega
  · change (if index = 0 then 100 else 0) * time < 4294967296
    split <;> omega

theorem bandwidthThrottle_allocates_two :
    (sharingHost 2000).Allocates 2000 2000 (sharingHost 2000).bandwidthThrottle.peers :=
  ((bandwidthThrottle_allocates (sharingHost 2000) (sharingHost_counted 2000) (by decide)
    (by decide) (by intro index _ same; cases same)).2 (by decide)
    (sharingHost_unwrapped (by decide))).2

/-- A call before its time leaves limits that the budget of that time does not cover. -/
theorem bandwidthThrottle_early_not_allocates :
    (sharingHost 1).outgoingBandwidth ≠ 0 ∧ Counted (sharingHost 1) ∧
      (sharingHost 1).Unwrapped (sharingHost 1).throttleTime (sharingHost 1).throttleElapsed ∧
      (∀ index < (sharingHost 1).peerCount,
        ((sharingHost 1).peers index).outgoingBandwidthThrottleEpoch ≠
          (sharingHost 1).throttleTime) ∧
      ¬ (sharingHost 1).Allocates (sharingHost 1).throttleTime (sharingHost 1).throttleElapsed
        (sharingHost 1).bandwidthThrottle.peers := by
  refine ⟨by decide, sharingHost_counted 1, sharingHost_unwrapped (by decide),
    (by intro index _ same; cases same), fun allocates => ?_⟩
  exact absurd allocates.together (by decide)

end Enet
