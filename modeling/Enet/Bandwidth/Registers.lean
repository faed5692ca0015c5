import Enet.Library.Filling
import Enet.Runs.Counters

/-!
# The registers of the bandwidth throttle

`enet_host_bandwidth_throttle` with its divisions and subtractions checked, and
the invariant of its first loop: the bandwidth and the data that are left, with
what the limited peers were given, are those of the host, and what is left of
the data covers what the other peers have sent.
-/

set_option autoImplicit false

namespace Enet

open Library Finset

/-! ## The loops with their divisions and subtractions -/

namespace Host

/-- A division, which nothing is returned of where the divisor is zero. -/
def divide (dividend divisor : Nat) : Option Nat :=
  if divisor = 0 then none else some (dividend / divisor)

/-- The throttle for the data and the bandwidth that are left. -/
def throttleOfChecked (dataTotal bandwidth : Nat) : Option Nat :=
  if dataTotal ≤ bandwidth then some peerPacketThrottleScale
  else divide (u32 (bandwidth * peerPacketThrottleScale)) dataTotal

/-- One peer of the loop that limits the peers with a bandwidth of their own.
Nothing is returned where a register would fall below zero. -/
def adjustPeerChecked (timeCurrent elapsedTime throttle : Nat) (state : Throttling) (index : Nat) :
    Option Throttling :=
  let peer := state.peers index
  if !peer.state.isConnected || decide (peer.incomingBandwidth = 0) ||
      decide (peer.outgoingBandwidthThrottleEpoch = timeCurrent) then some state
  else
    let peerBandwidth := u32 (peer.incomingBandwidth * elapsedTime) / 1000
    if u32 (throttle * peer.outgoingDataTotal) / peerPacketThrottleScale ≤ peerBandwidth then
      some state
    else if state.peersRemaining < 1 ∨ state.bandwidth < peerBandwidth ∨
        state.dataTotal < peerBandwidth then none
    else
      (divide (u32 (peerBandwidth * peerPacketThrottleScale)) peer.outgoingDataTotal).map fun _ =>
        adjustPeer timeCurrent elapsedTime throttle state index

/-- The first loop. Nothing is returned where it has not ended with the fuel. -/
def adjustPeersChecked (peerCount timeCurrent elapsedTime : Nat) :
    (fuel : Nat) → Throttling → Option Throttling
  | 0, state => if 0 < state.peersRemaining ∧ state.needsAdjustment then none else some state
  | fuel + 1, state =>
    if 0 < state.peersRemaining ∧ state.needsAdjustment then
      (throttleOfChecked state.dataTotal state.bandwidth).bind fun throttle =>
        ((List.range peerCount).foldlM (adjustPeerChecked timeCurrent elapsedTime throttle)
          { state with needsAdjustment := false }).bind
            (adjustPeersChecked peerCount timeCurrent elapsedTime fuel)
    else some state

/-- The throttle limits of the peers that the first loop has not limited. -/
def sharePeersChecked (peerCount timeCurrent : Nat) (state : Throttling) : Option (Nat → Peer) :=
  if 0 < state.peersRemaining then
    (throttleOfChecked state.dataTotal state.bandwidth).map fun _ =>
      sharePeers peerCount timeCurrent state
  else some (sharePeers peerCount timeCurrent state)

/-- One peer of the loop that recalculates the limits. -/
def recalculatePeerChecked (timeCurrent bandwidthLimit : Nat) (state : Throttling) (index : Nat) :
    Option Throttling :=
  let peer := state.peers index
  if !peer.state.isConnected || decide (peer.incomingBandwidthThrottleEpoch = timeCurrent) then
    some state
  else if 0 < peer.outgoingBandwidth ∧ bandwidthLimit ≤ peer.outgoingBandwidth then some state
  else if state.peersRemaining < 1 ∨ state.bandwidth < peer.outgoingBandwidth then none
  else some (recalculatePeer timeCurrent bandwidthLimit state index)

/-- The loop that recalculates the limits. -/
def recalculatePeersChecked (peerCount timeCurrent : Nat) :
    (fuel : Nat) → Throttling → (bandwidthLimit : Nat) → Option (Throttling × Nat)
  | 0, state, bandwidthLimit =>
    if 0 < state.peersRemaining ∧ state.needsAdjustment then none else some (state, bandwidthLimit)
  | fuel + 1, state, bandwidthLimit =>
    if 0 < state.peersRemaining ∧ state.needsAdjustment then
      (divide state.bandwidth state.peersRemaining).bind fun bandwidthLimit =>
        ((List.range peerCount).foldlM (recalculatePeerChecked timeCurrent bandwidthLimit)
          { state with needsAdjustment := false }).bind fun state =>
            recalculatePeersChecked peerCount timeCurrent fuel state bandwidthLimit
    else some (state, bandwidthLimit)

/-- The part that sets the throttle limits. -/
def throttlePeersChecked (host : Host) (timeCurrent elapsedTime : Nat) : Option Host :=
  (adjustPeersChecked host.peerCount timeCurrent elapsedTime (host.peerCount + 1)
    (host.startThrottling elapsedTime)).bind fun state =>
      (sharePeersChecked host.peerCount timeCurrent state).map host.setPeers

/-- The part that recalculates the limits. -/
def recalculateLimitsChecked (host : Host) (timeCurrent : Nat) : Option Host :=
  if host.incomingBandwidth = 0 then some (host.recalculateLimits timeCurrent)
  else
    (recalculatePeersChecked host.peerCount timeCurrent (host.peerCount + 1)
      host.startRecalculation 0).map fun _ => host.recalculateLimits timeCurrent

/-- `enet_host_bandwidth_throttle`. Nothing is returned where a loop goes on for
longer than there are peers, a divisor is zero or a register falls below zero. -/
def bandwidthThrottleChecked (host : Host) : Option Host :=
  let timed := host.timeGet
  let host := timed.1
  let timeCurrent := timed.2
  let elapsedTime := sub32 timeCurrent host.bandwidthThrottleEpoch
  if elapsedTime < hostBandwidthThrottleInterval then some host
  else
    let host := host.setThrottleEpoch timeCurrent
    if u32 host.connectedPeers = 0 then some host
    else
      (host.throttlePeersChecked timeCurrent elapsedTime).bind fun host =>
        if host.recalculateBandwidthLimits then host.recalculateLimitsChecked timeCurrent
        else some host

end Host

/-! ## The shares of the peers -/

/-- Whether a peer has a share of what is left: it is connected, and not limited yet. -/
def Peer.isSharing (peer : Peer) (timeCurrent : Nat) : Bool :=
  peer.state.isConnected && decide (peer.outgoingBandwidthThrottleEpoch ≠ timeCurrent)

namespace Host

/-- The bytes that a peer may be sent in a time. -/
def peerBudget (host : Host) (elapsedTime index : Nat) : Nat :=
  (host.peers index).incomingBandwidth * elapsedTime / 1000

/-- The bytes that the host may send in a time. -/
def budget (host : Host) (elapsedTime : Nat) : Nat := host.outgoingBandwidth * elapsedTime / 1000

/-- The connected peers. -/
def connected (host : Host) : Finset Nat :=
  {index ∈ Finset.range host.peerCount | (host.peers index).state.isConnected}

/-- What the peers have been sent since the last throttling. -/
def sentTotal (host : Host) : Nat := ∑ index ∈ host.connected, (host.peers index).outgoingDataTotal

/-- The throttle limit of a peer that is limited by its own bandwidth. -/
def ownLimit (host : Host) (elapsedTime index : Nat) : Nat :=
  let limit :=
    host.peerBudget elapsedTime index * peerPacketThrottleScale /
      (host.peers index).outgoingDataTotal
  if limit = 0 then 1 else limit

/-- A peer that is limited by its own bandwidth. -/
structure IsLimited (host : Host) (timeCurrent elapsedTime index : Nat) (peer : Peer) : Prop where
  shared : (host.peers index).isSharing timeCurrent = true
  limited : (host.peers index).incomingBandwidth ≠ 0
  less : host.peerBudget elapsedTime index < (host.peers index).outgoingDataTotal
  stores : peer =
    (limitThrottle (host.peers index)
      (host.ownLimit elapsedTime index)).setOutgoingEpoch timeCurrent

/-- The peers that share what is left. -/
def sharing (host : Host) (timeCurrent : Nat) (peers : Nat → Peer) : Finset Nat :=
  {index ∈ Finset.range host.peerCount | (peers index).isSharing timeCurrent}

/-- The peers that the first loop has limited. -/
def limited (host : Host) (timeCurrent : Nat) (peers : Nat → Peer) : Finset Nat :=
  host.sharing timeCurrent host.peers \ host.sharing timeCurrent peers

/-- No product or sum of the first loop wraps around. -/
structure Unwrapped (host : Host) (timeCurrent elapsedTime : Nat) : Prop where
  outgoing : host.outgoingBandwidth * elapsedTime < 4294967296
  total : host.sentTotal < 4294967296
  incoming : 0 < host.bandwidthLimitedPeers → ∀ index < host.peerCount,
    (host.peers index).isSharing timeCurrent = true → (host.peers index).incomingBandwidth ≠ 0 →
      (host.peers index).incomingBandwidth * elapsedTime < 4294967296

/-- **The invariant of the first loop.** -/
structure Shares (host : Host) (timeCurrent elapsedTime : Nat) (state : Throttling) : Prop where
  peers : ∀ index, state.peers index = host.peers index ∨
    host.IsLimited timeCurrent elapsedTime index (state.peers index)
  bandwidth : state.bandwidth +
      ∑ index ∈ host.limited timeCurrent state.peers, host.peerBudget elapsedTime index =
    host.budget elapsedTime
  dataTotal : state.dataTotal +
      ∑ index ∈ host.limited timeCurrent state.peers, host.peerBudget elapsedTime index =
    host.sentTotal
  remaining : state.peersRemaining + #(host.limited timeCurrent state.peers) = #(host.connected)
  covered : ∑ index ∈ host.sharing timeCurrent state.peers,
    (host.peers index).outgoingDataTotal ≤ state.dataTotal

variable {host : Host} {timeCurrent elapsedTime throttle index : Nat} {state : Throttling}

/-! ## One peer -/

theorem mem_sharing {peers : Nat → Peer} :
    index ∈ host.sharing timeCurrent peers ↔
      index < host.peerCount ∧ (peers index).isSharing timeCurrent = true := by
  unfold sharing
  rw [Finset.mem_filter, Finset.mem_range]

theorem IsLimited.not_isSharing {peer : Peer}
    (limited : host.IsLimited timeCurrent elapsedTime index peer) :
    peer.isSharing timeCurrent = false := by
  rw [limited.stores]
  unfold Peer.isSharing
  simp [limitThrottle, Peer.setOutgoingEpoch]

/-- A peer that still shares is as it was on entry. -/
theorem Shares.peer_eq (shares : host.Shares timeCurrent elapsedTime state)
    (sharing : (state.peers index).isSharing timeCurrent = true) :
    state.peers index = host.peers index := by
  rcases shares.peers index with same | limited
  · exact same
  · rw [limited.not_isSharing] at sharing
    cases sharing

/-- The peers that share once one more is limited. -/
theorem sharing_update {peers : Nat → Peer} {peer : Peer}
    (limited : peer.isSharing timeCurrent = false) :
    host.sharing timeCurrent (Function.update peers index peer) =
      (host.sharing timeCurrent peers).erase index := by
  ext other
  rw [mem_sharing, Finset.mem_erase, mem_sharing]
  by_cases same : other = index
  · subst same
    rw [Function.update_self, limited]
    simp
  · rw [Function.update_of_ne same]
    simp [same]

theorem limited_update {peers : Nat → Peer} {peer : Peer}
    (limited : peer.isSharing timeCurrent = false)
    (member : index ∈ host.sharing timeCurrent host.peers) :
    host.limited timeCurrent (Function.update peers index peer) =
      insert index (host.limited timeCurrent peers) := by
  unfold Host.limited
  rw [sharing_update limited]
  ext other
  simp only [Finset.mem_sdiff, Finset.mem_erase, Finset.mem_insert, not_and]
  by_cases same : other = index
  · subst same
    simp [member]
  · simp [same]

/-- The peers that the first loop passes over. -/
theorem passedOver_iff (peer : Peer) (timeCurrent : Nat) :
    (!peer.state.isConnected || decide (peer.incomingBandwidth = 0) ||
        decide (peer.outgoingBandwidthThrottleEpoch = timeCurrent)) = false ↔
      peer.isSharing timeCurrent = true ∧ peer.incomingBandwidth ≠ 0 := by
  unfold Peer.isSharing
  cases peer.state.isConnected <;> simp [and_comm]

/-- **One peer of the first loop**: it is passed over, or it shares and is content
with less than the throttle gives it. -/
theorem adjustPeer_cases (timeCurrent elapsedTime throttle : Nat) (state : Throttling)
    (index : Nat) :
    (adjustPeer timeCurrent elapsedTime throttle state index = state ∧
      adjustPeerChecked timeCurrent elapsedTime throttle state index = some state ∧
      ((state.peers index).isSharing timeCurrent = true →
        (state.peers index).incomingBandwidth ≠ 0 →
        u32 (throttle * (state.peers index).outgoingDataTotal) / 32 ≤
          u32 ((state.peers index).incomingBandwidth * elapsedTime) / 1000)) ∨
    ((state.peers index).isSharing timeCurrent = true ∧
      (state.peers index).incomingBandwidth ≠ 0 ∧
      u32 ((state.peers index).incomingBandwidth * elapsedTime) / 1000 <
        u32 (throttle * (state.peers index).outgoingDataTotal) / 32) := by
  have passes := passedOver_iff (state.peers index) timeCurrent
  unfold adjustPeer adjustPeerChecked
  dsimp only [peerPacketThrottleScale]
  cases passed : (!(state.peers index).state.isConnected ||
      decide ((state.peers index).incomingBandwidth = 0) ||
      decide ((state.peers index).outgoingBandwidthThrottleEpoch = timeCurrent)) with
  | true =>
      refine .inl ⟨rfl, rfl, fun sharing limited => ?_⟩
      rw [passes.mpr ⟨sharing, limited⟩] at passed
      cases passed
  | false =>
      obtain ⟨sharing, limited⟩ := passes.mp passed
      by_cases within : u32 (throttle * (state.peers index).outgoingDataTotal) / 32 ≤
          u32 ((state.peers index).incomingBandwidth * elapsedTime) / 1000
      · rw [if_pos within, if_pos within]
        exact .inl ⟨rfl, rfl, fun _ _ => within⟩
      · exact .inr ⟨sharing, limited, by omega⟩

/-- What the first loop stores for a peer that is content with less. -/
theorem adjustPeer_of_content (sharing : (state.peers index).isSharing timeCurrent = true)
    (limited : (state.peers index).incomingBandwidth ≠ 0)
    (content : u32 ((state.peers index).incomingBandwidth * elapsedTime) / 1000 <
      u32 (throttle * (state.peers index).outgoingDataTotal) / 32) :
    adjustPeer timeCurrent elapsedTime throttle state index =
      let peer := state.peers index
      let peerBandwidth := u32 (peer.incomingBandwidth * elapsedTime) / 1000
      let limit := u32 (peerBandwidth * 32) / peer.outgoingDataTotal
      { peers :=
          Function.update state.peers index
            ((limitThrottle peer (if limit = 0 then 1 else limit)).setOutgoingEpoch timeCurrent)
        peersRemaining := sub32 state.peersRemaining 1
        dataTotal := sub32 state.dataTotal peerBandwidth
        bandwidth := sub32 state.bandwidth peerBandwidth
        needsAdjustment := true } := by
  have passes := (passedOver_iff (state.peers index) timeCurrent).mpr ⟨sharing, limited⟩
  unfold adjustPeer
  dsimp only [peerPacketThrottleScale]
  rw [passes, if_neg Bool.false_ne_true, if_neg (by omega)]

theorem sub32_of_le {a b : Nat} (fits : b ≤ a) : sub32 a b = a - b := if_pos fits

theorem u32_of_lt {a : Nat} (fits : a < 4294967296) : u32 a = a := Nat.mod_eq_of_lt fits

theorem Unwrapped.budget_lt (unwrapped : host.Unwrapped timeCurrent elapsedTime) :
    32 * host.budget elapsedTime < 4294967296 := by
  have outgoing := unwrapped.outgoing
  unfold budget
  omega

theorem Shares.bandwidth_le (shares : host.Shares timeCurrent elapsedTime state) :
    state.bandwidth ≤ host.budget elapsedTime := by
  have total := shares.bandwidth
  omega

theorem sharing_subset_connected (host : Host) (timeCurrent : Nat) :
    host.sharing timeCurrent host.peers ⊆ host.connected := by
  intro index member
  obtain ⟨slot, sharing⟩ := mem_sharing.mp member
  unfold Peer.isSharing at sharing
  rw [Bool.and_eq_true] at sharing
  exact Finset.mem_filter.mpr ⟨Finset.mem_range.mpr slot, sharing.1⟩

/-- A peer that shares is connected, and not among the limited ones. -/
theorem card_limited_lt (shared : index ∈ host.sharing timeCurrent host.peers)
    {peers : Nat → Peer} (member : index ∈ host.sharing timeCurrent peers) :
    #(host.limited timeCurrent peers) < #(host.connected) := by
  refine Finset.card_lt_card ⟨fun other limited => ?_, fun covers => ?_⟩
  · exact sharing_subset_connected host timeCurrent (Finset.mem_sdiff.mp limited).1
  · exact (Finset.mem_sdiff.mp (covers (sharing_subset_connected host timeCurrent shared))).2 member

/-- A peer that shares and has less bandwidth than the throttle gives it. -/
structure Content (host : Host) (timeCurrent elapsedTime throttle : Nat) (state : Throttling)
    (index : Nat) : Prop where
  peer : state.peers index = host.peers index
  shared : index ∈ host.sharing timeCurrent host.peers
  member : index ∈ host.sharing timeCurrent state.peers
  limited : (host.peers index).incomingBandwidth ≠ 0
  unwrapped : (host.peers index).incomingBandwidth * elapsedTime < 4294967296
  less : 32 * host.peerBudget elapsedTime index <
    throttle * (host.peers index).outgoingDataTotal

/-- Where nothing wraps around, the test of the first loop is the one on the shares. -/
theorem Shares.content (shares : host.Shares timeCurrent elapsedTime state)
    (unwrapped : host.Unwrapped timeCurrent elapsedTime) (loops : 0 < host.bandwidthLimitedPeers)
    (fits : Fits (fun index => (host.peers index).outgoingDataTotal) 32
      (host.sharing timeCurrent state.peers) throttle state.bandwidth)
    (slot : index < host.peerCount)
    (sharing : (state.peers index).isSharing timeCurrent = true)
    (limited : (state.peers index).incomingBandwidth ≠ 0)
    (content : u32 ((state.peers index).incomingBandwidth * elapsedTime) / 1000 <
      u32 (throttle * (state.peers index).outgoingDataTotal) / 32) :
    host.Content timeCurrent elapsedTime throttle state index := by
  have same := shares.peer_eq sharing
  have member : index ∈ host.sharing timeCurrent state.peers := mem_sharing.mpr ⟨slot, sharing⟩
  rw [same] at sharing limited content
  have incoming := unwrapped.incoming loops index slot sharing limited
  have share := fits.share_le member
  have bandwidth := shares.bandwidth_le
  have budget := unwrapped.budget_lt
  refine ⟨same, mem_sharing.mpr ⟨slot, sharing⟩, member, limited, incoming, ?_⟩
  rw [u32, u32, Nat.mod_eq_of_lt incoming, Nat.mod_eq_of_lt (by omega)] at content
  unfold peerBudget
  omega

/-- The registers once a peer is limited by its own bandwidth, where nothing wraps around. -/
def limitPeer (host : Host) (timeCurrent elapsedTime : Nat) (state : Throttling) (index : Nat) :
    Throttling where
  peers :=
    Function.update state.peers index
      ((limitThrottle (host.peers index) (host.ownLimit elapsedTime index)).setOutgoingEpoch
        timeCurrent)
  peersRemaining := state.peersRemaining - 1
  dataTotal := state.dataTotal - host.peerBudget elapsedTime index
  bandwidth := state.bandwidth - host.peerBudget elapsedTime index
  needsAdjustment := true

theorem Content.isLimited (content : host.Content timeCurrent elapsedTime throttle state index)
    (bound : throttle ≤ 32) :
    host.IsLimited timeCurrent elapsedTime index
      ((limitThrottle (host.peers index) (host.ownLimit elapsedTime index)).setOutgoingEpoch
        timeCurrent) := by
  have share := Nat.mul_le_mul_right (host.peers index).outgoingDataTotal bound
  have less := content.less
  exact ⟨(mem_sharing.mp content.shared).2, content.limited, by omega, rfl⟩

/-- **What a peer that is content with less leaves** in the registers. -/
theorem Shares.limitPeer (shares : host.Shares timeCurrent elapsedTime state)
    (bound : throttle ≤ 32)
    (fits : Fits (fun index => (host.peers index).outgoingDataTotal) 32
      (host.sharing timeCurrent state.peers) throttle state.bandwidth)
    (content : host.Content timeCurrent elapsedTime throttle state index) :
    (1 ≤ state.peersRemaining ∧ host.peerBudget elapsedTime index ≤ state.bandwidth ∧
        host.peerBudget elapsedTime index ≤ state.dataTotal) ∧
      host.Shares timeCurrent elapsedTime (host.limitPeer timeCurrent elapsedTime state index) ∧
      Fits (fun index => (host.peers index).outgoingDataTotal) 32
        (host.sharing timeCurrent (host.limitPeer timeCurrent elapsedTime state index).peers)
        throttle (host.limitPeer timeCurrent elapsedTime state index).bandwidth := by
  have limited := content.isLimited bound
  have gone := limited.not_isSharing
  have paid : host.peerBudget elapsedTime index ≤ state.bandwidth :=
    fits.part_le content.member content.less
  have erased := fits.erase content.member content.less
  have shared := Finset.sum_erase_add (host.sharing timeCurrent state.peers)
    (fun index => (host.peers index).outgoingDataTotal) content.member
  have covered := shares.covered
  have less := limited.less
  have fewer := card_limited_lt content.shared content.member
  have count := shares.remaining
  have fresh : index ∉ host.limited timeCurrent state.peers :=
    fun old => (Finset.mem_sdiff.mp old).2 content.member
  unfold Host.limitPeer
  refine ⟨⟨by omega, paid, by omega⟩, ⟨fun other => ?_, ?_, ?_, ?_, ?_⟩, ?_⟩
  · by_cases same : other = index
    · subst same
      dsimp only
      rw [Function.update_self]
      exact .inr limited
    · dsimp only
      rw [Function.update_of_ne same]
      exact shares.peers other
  · rw [limited_update gone content.shared, Finset.sum_insert fresh]
    have total := shares.bandwidth
    dsimp only
    omega
  · rw [limited_update gone content.shared, Finset.sum_insert fresh]
    have total := shares.dataTotal
    dsimp only
    omega
  · rw [limited_update gone content.shared, Finset.card_insert_of_notMem fresh]
    dsimp only
    omega
  · rw [sharing_update gone]
    dsimp only
    omega
  · rw [sharing_update gone]
    exact erased

theorem Content.adjustPeer (content : host.Content timeCurrent elapsedTime throttle state index)
    (within : 1 ≤ state.peersRemaining ∧ host.peerBudget elapsedTime index ≤ state.bandwidth ∧
      host.peerBudget elapsedTime index ≤ state.dataTotal)
    (sharing : (state.peers index).isSharing timeCurrent = true)
    (limited : (state.peers index).incomingBandwidth ≠ 0)
    (less : u32 ((state.peers index).incomingBandwidth * elapsedTime) / 1000 <
      u32 (throttle * (state.peers index).outgoingDataTotal) / 32) :
    Host.adjustPeer timeCurrent elapsedTime throttle state index =
        host.limitPeer timeCurrent elapsedTime state index ∧
      adjustPeerChecked timeCurrent elapsedTime throttle state index =
        some (Host.adjustPeer timeCurrent elapsedTime throttle state index) := by
  have budget : u32 ((state.peers index).incomingBandwidth * elapsedTime) / 1000 =
      host.peerBudget elapsedTime index := by
    rw [content.peer, u32, Nat.mod_eq_of_lt content.unwrapped, peerBudget]
  have small : host.peerBudget elapsedTime index * 32 < 4294967296 := by
    have unwrapped := content.unwrapped
    unfold peerBudget
    omega
  obtain ⟨one, bandwidth, dataTotal⟩ := within
  refine ⟨?_, ?_⟩
  · rw [adjustPeer_of_content sharing limited less]
    dsimp only
    rw [budget, content.peer, u32, Nat.mod_eq_of_lt small, sub32_of_le one, sub32_of_le bandwidth,
      sub32_of_le dataTotal]
    rfl
  · have passes := (passedOver_iff (state.peers index) timeCurrent).mpr ⟨sharing, limited⟩
    have sent : (state.peers index).outgoingDataTotal ≠ 0 := by
      intro none
      rw [none] at less
      simp at less
    unfold adjustPeerChecked
    dsimp only [peerPacketThrottleScale]
    rw [passes, if_neg Bool.false_ne_true, if_neg (by omega), if_neg (by omega), divide,
      if_neg sent]
    rfl

/-- The rate of a pass fits the peers that share. -/
abbrev Rate (host : Host) (timeCurrent throttle : Nat) (state : Throttling) : Prop :=
  throttle ≤ 32 ∧
    Fits (fun index => (host.peers index).outgoingDataTotal) 32
      (host.sharing timeCurrent state.peers) throttle state.bandwidth

/-- **One peer of the first loop keeps the invariant**, no register falls below
zero, and where the registers change one peer less remains. -/
theorem Shares.adjustPeer (shares : host.Shares timeCurrent elapsedTime state)
    (unwrapped : host.Unwrapped timeCurrent elapsedTime) (loops : 0 < host.bandwidthLimitedPeers)
    (rate : host.Rate timeCurrent throttle state) (slot : index < host.peerCount) :
    let after := Host.adjustPeer timeCurrent elapsedTime throttle state index
    adjustPeerChecked timeCurrent elapsedTime throttle state index = some after ∧
      host.Shares timeCurrent elapsedTime after ∧ host.Rate timeCurrent throttle after ∧
      (after = state ∨ after.peersRemaining + 1 = state.peersRemaining) := by
  intro after
  rcases adjustPeer_cases timeCurrent elapsedTime throttle state index with
    ⟨same, checked, -⟩ | ⟨sharing, limited, less⟩
  · have same : after = state := same
    rw [same]
    exact ⟨checked, shares, rate, .inl rfl⟩
  · have content := shares.content unwrapped loops rate.2 slot sharing limited less
    obtain ⟨within, kept, still⟩ := shares.limitPeer rate.1 rate.2 content
    obtain ⟨same, checked⟩ := content.adjustPeer within sharing limited less
    have same : after = host.limitPeer timeCurrent elapsedTime state index := same
    refine ⟨checked, ?_, ⟨rate.1, ?_⟩, .inr ?_⟩
    · rw [same]
      exact kept
    · rw [same]
      exact still
    · rw [same]
      exact Nat.sub_add_cancel within.1

/-! ## The loop -/

/-- **A pass over the peers keeps the invariant**, and where it limits somebody
fewer peers remain. -/
theorem Shares.pass (shares : host.Shares timeCurrent elapsedTime state)
    (unwrapped : host.Unwrapped timeCurrent elapsedTime) (loops : 0 < host.bandwidthLimitedPeers)
    (rate : host.Rate timeCurrent throttle state) (begins : state.needsAdjustment = false) :
    let after := (List.range host.peerCount).foldl
      (Host.adjustPeer timeCurrent elapsedTime throttle) state
    (List.range host.peerCount).foldlM (adjustPeerChecked timeCurrent elapsedTime throttle) state =
        some after ∧
      host.Shares timeCurrent elapsedTime after ∧
      after.peersRemaining ≤ state.peersRemaining ∧
      (after.needsAdjustment = true → after.peersRemaining < state.peersRemaining) := by
  obtain ⟨same, kept, -, fewer⟩ := foldlM_eq_some
    (fun after : Throttling => host.Shares timeCurrent elapsedTime after ∧
      host.Rate timeCurrent throttle after ∧ after.peersRemaining ≤ state.peersRemaining ∧
      (after.needsAdjustment = true → after.peersRemaining < state.peersRemaining))
    (List.range host.peerCount)
    (fun after holds index member => by
      obtain ⟨shares, rate, least, less⟩ := holds
      obtain ⟨checked, kept, still, same | fewer⟩ :=
        shares.adjustPeer unwrapped loops rate (List.mem_range.mp member)
      · exact ⟨checked, kept, still, by rw [same]; exact ⟨least, less⟩⟩
      · exact ⟨checked, kept, still, by omega, fun _ => by omega⟩)
    state ⟨shares, rate, le_rfl, fun needs => by rw [begins] at needs; cases needs⟩
  exact ⟨same, kept, fewer⟩

/-- A pass that limits nobody leaves the registers as they are, and every peer it
did not pass over is content with the throttle. -/
theorem foldl_adjustPeer_of_still (indices : List Nat) :
    ∀ state : Throttling,
      (indices.foldl (adjustPeer timeCurrent elapsedTime throttle) state).needsAdjustment = false →
        indices.foldl (adjustPeer timeCurrent elapsedTime throttle) state = state ∧
          ∀ index ∈ indices, (state.peers index).isSharing timeCurrent = true →
            (state.peers index).incomingBandwidth ≠ 0 →
            u32 (throttle * (state.peers index).outgoingDataTotal) / 32 ≤
              u32 ((state.peers index).incomingBandwidth * elapsedTime) / 1000 := by
  have stays : ∀ (indices : List Nat) (state : Throttling), state.needsAdjustment = true →
      (indices.foldl (adjustPeer timeCurrent elapsedTime throttle) state).needsAdjustment =
        true := by
    intro indices
    induction indices with
    | nil => intro state needs; exact needs
    | cons index indices ih =>
        intro state needs
        refine ih _ ?_
        rcases adjustPeer_cases timeCurrent elapsedTime throttle state index with
          ⟨same, -, -⟩ | ⟨sharing, limited, less⟩
        · rw [same]
          exact needs
        · rw [adjustPeer_of_content sharing limited less]
  induction indices with
  | nil => intro state _; exact ⟨rfl, fun _ none => absurd none List.not_mem_nil⟩
  | cons index indices ih =>
      intro state still
      rw [List.foldl_cons] at still ⊢
      rcases adjustPeer_cases timeCurrent elapsedTime throttle state index with
        ⟨same, -, content⟩ | ⟨sharing, limited, less⟩
      · rw [same] at still ⊢
        obtain ⟨left, others⟩ := ih state still
        refine ⟨left, fun other member => ?_⟩
        rcases List.mem_cons.mp member with rfl | member
        · exact content
        · exact others other member
      · rw [stays indices _ (by rw [adjustPeer_of_content sharing limited less])] at still
        cases still

theorem throttleOf_eq_fairRate {dataTotal bandwidth : Nat}
    (unwrapped : 32 * bandwidth < 4294967296) :
    throttleOf dataTotal bandwidth = fairRate 32 dataTotal bandwidth := by
  unfold throttleOf fairRate
  rw [u32, Nat.mod_eq_of_lt (by simp only [peerPacketThrottleScale]; omega)]

theorem throttleOfChecked_eq (dataTotal bandwidth : Nat) :
    throttleOfChecked dataTotal bandwidth = some (throttleOf dataTotal bandwidth) := by
  unfold throttleOfChecked throttleOf divide
  split
  · rfl
  · rw [if_neg (by omega)]

/-- The throttle for the registers fits. -/
theorem Shares.rate (shares : host.Shares timeCurrent elapsedTime state)
    (unwrapped : host.Unwrapped timeCurrent elapsedTime) :
    host.Rate timeCurrent (throttleOf state.dataTotal state.bandwidth) state := by
  have bandwidth := shares.bandwidth_le
  have budget := unwrapped.budget_lt
  rw [Rate, throttleOf_eq_fairRate (by omega)]
  exact ⟨fairRate_le 32 _ _, fits_fairRate shares.covered⟩

/-- Every peer that shares is content with the throttle for the registers. -/
def AllContent (host : Host) (timeCurrent elapsedTime : Nat) (state : Throttling) : Prop :=
  ∀ index < host.peerCount, (state.peers index).isSharing timeCurrent = true →
    (state.peers index).incomingBandwidth ≠ 0 →
    u32 (throttleOf state.dataTotal state.bandwidth * (state.peers index).outgoingDataTotal) / 32 ≤
      u32 ((state.peers index).incomingBandwidth * elapsedTime) / 1000

/-- **The first loop ends**, no register falls below zero, and in the end nobody
remains or everybody is content with the throttle. -/
theorem Shares.adjustPeers (unwrapped : host.Unwrapped timeCurrent elapsedTime)
    (loops : 0 < host.bandwidthLimitedPeers) (fuel : Nat) :
    ∀ state : Throttling, host.Shares timeCurrent elapsedTime state →
      (state.needsAdjustment = true → state.peersRemaining < fuel) →
        (state.needsAdjustment = false → host.AllContent timeCurrent elapsedTime state) →
      let after := Host.adjustPeers host.peerCount timeCurrent elapsedTime fuel state
      adjustPeersChecked host.peerCount timeCurrent elapsedTime fuel state = some after ∧
        host.Shares timeCurrent elapsedTime after ∧
        (0 < after.peersRemaining → host.AllContent timeCurrent elapsedTime after) := by
  induction fuel with
  | zero =>
      intro state shares enough content
      have ends : ¬ (0 < state.peersRemaining ∧ state.needsAdjustment = true) :=
        fun goesOn => absurd (enough goesOn.2) (Nat.not_lt_zero _)
      unfold Host.adjustPeers adjustPeersChecked
      rw [if_neg ends]
      exact ⟨rfl, shares, fun remain => content (by simpa [remain] using ends)⟩
  | succ fuel ih =>
      intro state shares enough content
      unfold Host.adjustPeers adjustPeersChecked
      by_cases goesOn : 0 < state.peersRemaining ∧ state.needsAdjustment = true
      · rw [if_pos goesOn, if_pos goesOn, throttleOfChecked_eq, Option.bind_some]
        have begins : host.Shares timeCurrent elapsedTime { state with needsAdjustment := false } :=
          ⟨shares.peers, shares.bandwidth, shares.dataTotal, shares.remaining, shares.covered⟩
        obtain ⟨checked, kept, least, fewer⟩ :=
          begins.pass unwrapped loops (begins.rate unwrapped) rfl
        rw [checked, Option.bind_some]
        have bound := enough goesOn.2
        refine ih _ kept (fun needs => ?_) fun still => ?_
        · exact (fewer needs).trans_le (Nat.le_of_lt_succ bound)
        · obtain ⟨same, content⟩ := foldl_adjustPeer_of_still _ _ still
          rw [same]
          exact fun index slot => content index (List.mem_range.mpr slot)
      · rw [if_neg goesOn, if_neg goesOn]
        exact ⟨rfl, shares, fun remain => content (by simpa [remain] using goesOn)⟩

end Host

end Enet
