import Enet.Bandwidth.Allocation

/-!
# The bandwidth throttle over unbounded integers

The formulas of `enet_host_bandwidth_throttle` over unbounded integers, beside
those of the 32-bit registers. The products of a bandwidth in bytes and a time in
milliseconds leave the registers behind quickly; the theorem says for which
bandwidths, times and totals all budgets, throttles and limits come out the same.
-/

set_option autoImplicit false

namespace Enet

open Library Finset

namespace Host

/-! ## The formulas over unbounded integers -/

/-- The registers of the loops, without a bound. -/
structure Registers where
  peers : Nat → Peer
  peersRemaining : Int
  dataTotal : Int
  bandwidth : Int
  needsAdjustment : Bool

/-- The throttle for the data and the bandwidth that are left. -/
def unboundedThrottle (dataTotal bandwidth : Int) : Int :=
  if dataTotal ≤ bandwidth then 32 else bandwidth * 32 / dataTotal

/-- One peer of the loop that limits the peers with a bandwidth of their own. -/
def adjustUnbounded (timeCurrent elapsedTime : Nat) (throttle : Int) (state : Registers)
    (index : Nat) : Registers :=
  let peer := state.peers index
  if !peer.state.isConnected || decide (peer.incomingBandwidth = 0) ||
      decide (peer.outgoingBandwidthThrottleEpoch = timeCurrent) then state
  else
    let peerBandwidth := peer.incomingBandwidth * elapsedTime / 1000
    if throttle * peer.outgoingDataTotal / 32 ≤ peerBandwidth then state
    else
      let limit := peerBandwidth * 32 / peer.outgoingDataTotal
      { peers :=
          Function.update state.peers index
            ((limitThrottle peer (if limit = 0 then 1 else limit)).setOutgoingEpoch timeCurrent)
        peersRemaining := state.peersRemaining - 1
        dataTotal := state.dataTotal - peerBandwidth
        bandwidth := state.bandwidth - peerBandwidth
        needsAdjustment := true }

/-- The first loop, with the throttles of its passes. -/
def adjustAllUnbounded (peerCount timeCurrent elapsedTime : Nat) :
    (fuel : Nat) → Registers → List Int × Registers
  | 0, state => ([], state)
  | fuel + 1, state =>
    if 0 < state.peersRemaining ∧ state.needsAdjustment then
      let throttle := unboundedThrottle state.dataTotal state.bandwidth
      let after := adjustAllUnbounded peerCount timeCurrent elapsedTime fuel
        ((List.range peerCount).foldl (adjustUnbounded timeCurrent elapsedTime throttle)
          { state with needsAdjustment := false })
      (throttle :: after.1, after.2)
    else ([], state)

/-- The registers before the first loop. -/
def startUnbounded (host : Host) (elapsedTime : Nat) : Registers where
  peers := host.peers
  peersRemaining := host.connectedPeers
  dataTotal := if host.outgoingBandwidth ≠ 0 then host.sentTotal else 0xFFFFFFFF
  bandwidth := if host.outgoingBandwidth ≠ 0 then host.budget elapsedTime else 0xFFFFFFFF
  needsAdjustment := decide (0 < host.bandwidthLimitedPeers)

/-- The throttles of the passes and of the sharing. -/
def unboundedThrottles (host : Host) (timeCurrent elapsedTime : Nat) : List Int :=
  let after := adjustAllUnbounded host.peerCount timeCurrent elapsedTime (host.peerCount + 1)
    (host.startUnbounded elapsedTime)
  after.1 ++
    if 0 < after.2.peersRemaining then [unboundedThrottle after.2.dataTotal after.2.bandwidth]
    else []

/-- The peers in the end. -/
def unboundedPeers (host : Host) (timeCurrent elapsedTime : Nat) : Nat → Peer :=
  let after := (adjustAllUnbounded host.peerCount timeCurrent elapsedTime (host.peerCount + 1)
    (host.startUnbounded elapsedTime)).2
  if 0 < after.peersRemaining then
    (List.range host.peerCount).foldl
      (sharePeer timeCurrent (unboundedThrottle after.dataTotal after.bandwidth).toNat) after.peers
  else after.peers

/-! ## What the 32-bit call computes -/

/-- The throttles of the passes of the first loop. -/
def passThrottles (peerCount timeCurrent elapsedTime : Nat) : (fuel : Nat) → Throttling → List Nat
  | 0, _ => []
  | fuel + 1, state =>
    if 0 < state.peersRemaining ∧ state.needsAdjustment then
      let throttle := throttleOf state.dataTotal state.bandwidth
      throttle ::
        passThrottles peerCount timeCurrent elapsedTime fuel
          ((List.range peerCount).foldl (adjustPeer timeCurrent elapsedTime throttle)
            { state with needsAdjustment := false })
    else []

/-- The throttles of the passes and of the sharing. -/
def throttles (host : Host) (timeCurrent elapsedTime : Nat) : List Nat :=
  let start := host.startThrottling elapsedTime
  let after := adjustPeers host.peerCount timeCurrent elapsedTime (host.peerCount + 1) start
  passThrottles host.peerCount timeCurrent elapsedTime (host.peerCount + 1) start ++
    if 0 < after.peersRemaining then [throttleOf after.dataTotal after.bandwidth] else []

/-- The call is due, and there is somebody to throttle. -/
structure IsThrottling (host : Host) : Prop where
  due : hostBandwidthThrottleInterval ≤ host.throttleElapsed
  somebody : u32 host.connectedPeers ≠ 0

/-- The budgets, the throttles and the limits of the call are those of the formulas
over unbounded integers. -/
structure ComputesUnbounded (host : Host) : Prop where
  budget : host.outgoingBandwidth ≠ 0 →
    u32 (host.outgoingBandwidth * host.throttleElapsed) / 1000 = host.budget host.throttleElapsed
  peerBudgets : ∀ index ∈ host.sharing host.throttleTime host.peers,
    (host.peers index).incomingBandwidth ≠ 0 →
      u32 ((host.peers index).incomingBandwidth * host.throttleElapsed) / 1000 =
        host.peerBudget host.throttleElapsed index
  throttles : (host.throttles host.throttleTime host.throttleElapsed).map (Nat.cast : Nat → Int) =
    host.unboundedThrottles host.throttleTime host.throttleElapsed
  limits : ∀ index, (host.bandwidthThrottle.peers index).packetThrottleLimit =
    (host.unboundedPeers host.throttleTime host.throttleElapsed index).packetThrottleLimit

/-- The bandwidths, the time and the totals fit the 32-bit registers, or leave them
without effect. -/
structure FitsRegisters (host : Host) (timeCurrent elapsedTime : Nat) : Prop where
  outgoing : host.outgoingBandwidth ≠ 0 → host.outgoingBandwidth * elapsedTime < 4294967296
  total : host.outgoingBandwidth ≠ 0 → host.sentTotal < 4294967296 ∨
    32 * host.budget elapsedTime < host.sentTotal % 4294967296
  incoming : ∀ index ∈ host.sharing timeCurrent host.peers,
    (host.peers index).incomingBandwidth ≠ 0 →
      (host.peers index).incomingBandwidth * elapsedTime < 4294967296
  outgoingData : host.outgoingBandwidth = 0 → ∀ index ∈ host.sharing timeCurrent host.peers,
    (host.peers index).incomingBandwidth ≠ 0 →
      (host.peers index).outgoingDataTotal < 134217728 ∨
        host.peerBudget elapsedTime index < (host.peers index).outgoingDataTotal % 134217728

variable {host : Host} {timeCurrent elapsedTime throttle index : Nat} {state : Throttling}
  {registers : Registers}

/-! ## Loops that run alike -/

/-- A relation between the two kinds of registers during a pass, which every peer of the
loop and the beginning of a pass keep. -/
structure Simulates (peerCount timeCurrent elapsedTime : Nat)
    (Alike : Nat → Throttling → Registers → Prop) : Prop where
  peers : ∀ {throttle state registers}, Alike throttle state registers →
    registers.peers = state.peers
  remaining : ∀ {throttle state registers}, Alike throttle state registers →
    registers.peersRemaining = state.peersRemaining
  needs : ∀ {throttle state registers}, Alike throttle state registers →
    registers.needsAdjustment = state.needsAdjustment
  throttle : ∀ {throttle state registers}, Alike throttle state registers →
    unboundedThrottle registers.dataTotal registers.bandwidth =
      throttleOf state.dataTotal state.bandwidth
  begins : ∀ {throttle state registers}, Alike throttle state registers →
    Alike (throttleOf state.dataTotal state.bandwidth) { state with needsAdjustment := false }
      { registers with needsAdjustment := false }
  adjusts : ∀ {throttle state registers}, Alike throttle state registers →
    ∀ index < peerCount, Alike throttle (adjustPeer timeCurrent elapsedTime throttle state index)
      (adjustUnbounded timeCurrent elapsedTime throttle registers index)

namespace Simulates

variable {peerCount : Nat} {Alike : Nat → Throttling → Registers → Prop}

theorem pass (simulates : Simulates peerCount timeCurrent elapsedTime Alike) (indices : List Nat) :
    (∀ index ∈ indices, index < peerCount) → ∀ {state registers}, Alike throttle state registers →
      Alike throttle (indices.foldl (adjustPeer timeCurrent elapsedTime throttle) state)
        (indices.foldl (adjustUnbounded timeCurrent elapsedTime throttle) registers) := by
  induction indices with
  | nil => intro _ state registers alike; exact alike
  | cons index indices ih =>
      intro slots state registers alike
      exact ih (fun other member => slots other (List.mem_cons_of_mem index member))
        (simulates.adjusts alike index (slots index List.mem_cons_self))

/-- **The loops run alike.** -/
theorem loop (simulates : Simulates peerCount timeCurrent elapsedTime Alike) (fuel : Nat) :
    ∀ {throttle state registers}, Alike throttle state registers →
      let after := adjustAllUnbounded peerCount timeCurrent elapsedTime fuel registers
      after.1 = (passThrottles peerCount timeCurrent elapsedTime fuel state).map
          (Nat.cast : Nat → Int) ∧
        ∃ throttle, Alike throttle (adjustPeers peerCount timeCurrent elapsedTime fuel state)
          after.2 := by
  induction fuel with
  | zero => intro throttle state registers alike; exact ⟨rfl, throttle, alike⟩
  | succ fuel ih =>
      intro throttle state registers alike
      have goesOn : (0 < registers.peersRemaining ∧ registers.needsAdjustment = true) ↔
          (0 < state.peersRemaining ∧ state.needsAdjustment = true) := by
        rw [simulates.remaining alike, simulates.needs alike, Int.natCast_pos]
      unfold adjustAllUnbounded passThrottles adjustPeers
      by_cases more : 0 < state.peersRemaining ∧ state.needsAdjustment = true
      · rw [if_pos (goesOn.mpr more), if_pos more, if_pos more, simulates.throttle alike]
        obtain ⟨throttles, after⟩ := ih (simulates.pass (List.range peerCount)
          (fun index member => List.mem_range.mp member) (simulates.begins alike))
        refine ⟨?_, after⟩
        dsimp only
        rw [List.map_cons, ← throttles]
      · rw [if_neg (fun goes => more (goesOn.mp goes)), if_neg more, if_neg more]
        exact ⟨rfl, throttle, alike⟩

/-- **Calls that start alike compute the same.** -/
theorem call (simulates : Simulates host.peerCount timeCurrent elapsedTime Alike)
    (alike : Alike throttle (host.startThrottling elapsedTime) (host.startUnbounded elapsedTime)) :
    (host.throttles timeCurrent elapsedTime).map (Nat.cast : Nat → Int) =
        host.unboundedThrottles timeCurrent elapsedTime ∧
      (host.throttlePeers timeCurrent elapsedTime).peers =
        host.unboundedPeers timeCurrent elapsedTime := by
  obtain ⟨passes, last, after⟩ := simulates.loop (host.peerCount + 1) alike
  have remaining := simulates.remaining after
  have shared := simulates.throttle after
  have peers := simulates.peers after
  refine ⟨?_, ?_⟩
  · unfold throttles unboundedThrottles
    dsimp only
    rw [List.map_append, passes, remaining, shared]
    by_cases more : 0 < (adjustPeers host.peerCount timeCurrent elapsedTime (host.peerCount + 1)
        (host.startThrottling elapsedTime)).peersRemaining
    · rw [if_pos more, if_pos (Int.natCast_pos.mpr more)]
      rfl
    · rw [if_neg more, if_neg (fun goes => more (Int.natCast_pos.mp goes))]
      rfl
  · unfold throttlePeers unboundedPeers
    change sharePeers _ _ _ = _
    unfold sharePeers
    dsimp only
    rw [remaining, shared, peers, Int.toNat_natCast]
    simp only [Int.natCast_pos]

end Simulates

/-! ## One peer -/

/-- What the loop stores for a peer that it limits to its own bandwidth. -/
def ownPeer (elapsedTime timeCurrent : Nat) (peer : Peer) : Peer :=
  let limit := peer.incomingBandwidth * elapsedTime / 1000 * 32 / peer.outgoingDataTotal
  (limitThrottle peer (if limit = 0 then 1 else limit)).setOutgoingEpoch timeCurrent

/-- The test of the loop is the one over unbounded integers. -/
structure TestsAlike (timeCurrent elapsedTime throttle : Nat) (peer : Peer) : Prop where
  incoming : peer.isSharing timeCurrent = true → peer.incomingBandwidth ≠ 0 →
    peer.incomingBandwidth * elapsedTime < 4294967296
  test : peer.isSharing timeCurrent = true → peer.incomingBandwidth ≠ 0 →
    (u32 (throttle * peer.outgoingDataTotal) / 32 ≤ peer.incomingBandwidth * elapsedTime / 1000 ↔
      throttle * peer.outgoingDataTotal / 32 ≤ peer.incomingBandwidth * elapsedTime / 1000)

/-- One peer of the loop over unbounded integers is passed over, or is limited. -/
theorem adjustUnbounded_cases (timeCurrent elapsedTime throttle : Nat) (registers : Registers)
    (index : Nat) :
    let peer := registers.peers index
    (adjustUnbounded timeCurrent elapsedTime throttle registers index = registers ∧
      (peer.isSharing timeCurrent = true → peer.incomingBandwidth ≠ 0 →
        throttle * peer.outgoingDataTotal / 32 ≤ peer.incomingBandwidth * elapsedTime / 1000)) ∨
    (peer.isSharing timeCurrent = true ∧ peer.incomingBandwidth ≠ 0 ∧
      peer.incomingBandwidth * elapsedTime / 1000 < throttle * peer.outgoingDataTotal / 32 ∧
      adjustUnbounded timeCurrent elapsedTime throttle registers index =
        { peers := Function.update registers.peers index (ownPeer elapsedTime timeCurrent peer)
          peersRemaining := registers.peersRemaining - 1
          dataTotal := registers.dataTotal - (peer.incomingBandwidth * elapsedTime / 1000 : Nat)
          bandwidth := registers.bandwidth - (peer.incomingBandwidth * elapsedTime / 1000 : Nat)
          needsAdjustment := true }) := by
  intro peer
  have passes := passedOver_iff peer timeCurrent
  unfold adjustUnbounded
  dsimp only
  cases passed : (!(registers.peers index).state.isConnected ||
      decide ((registers.peers index).incomingBandwidth = 0) ||
      decide ((registers.peers index).outgoingBandwidthThrottleEpoch = timeCurrent)) with
  | true =>
      refine .inl ⟨rfl, fun sharing limited => ?_⟩
      have ahead := passes.mpr ⟨sharing, limited⟩
      rw [passed] at ahead
      cases ahead
  | false =>
      obtain ⟨sharing, limited⟩ := passes.mp passed
      rw [if_neg Bool.false_ne_true]
      by_cases within : throttle * peer.outgoingDataTotal / 32 ≤
          peer.incomingBandwidth * elapsedTime / 1000
      · rw [if_pos (by exact_mod_cast within)]
        exact .inl ⟨rfl, fun _ _ => within⟩
      · rw [if_neg (by exact_mod_cast within)]
        exact .inr ⟨sharing, limited, Nat.lt_of_not_le within, rfl⟩

/-- **One peer of both loops**, where the test comes out the same. -/
theorem adjustPeer_alike (peers : registers.peers = state.peers)
    (alike : TestsAlike timeCurrent elapsedTime throttle (state.peers index)) :
    (adjustPeer timeCurrent elapsedTime throttle state index = state ∧
      adjustUnbounded timeCurrent elapsedTime throttle registers index = registers) ∨
    ∃ part, (state.peers index).isSharing timeCurrent = true ∧
      (state.peers index).incomingBandwidth ≠ 0 ∧
      part = (state.peers index).incomingBandwidth * elapsedTime / 1000 ∧
      part < u32 (throttle * (state.peers index).outgoingDataTotal) / 32 ∧
      adjustPeer timeCurrent elapsedTime throttle state index =
        { peers :=
            Function.update state.peers index (ownPeer elapsedTime timeCurrent (state.peers index))
          peersRemaining := sub32 state.peersRemaining 1
          dataTotal := sub32 state.dataTotal part
          bandwidth := sub32 state.bandwidth part
          needsAdjustment := true } ∧
      adjustUnbounded timeCurrent elapsedTime throttle registers index =
        { peers :=
            Function.update state.peers index (ownPeer elapsedTime timeCurrent (state.peers index))
          peersRemaining := registers.peersRemaining - 1
          dataTotal := registers.dataTotal - part
          bandwidth := registers.bandwidth - part
          needsAdjustment := true } := by
  have unbounded := adjustUnbounded_cases timeCurrent elapsedTime throttle registers index
  rw [peers] at unbounded
  rcases adjustPeer_cases timeCurrent elapsedTime throttle state index with
    ⟨same, -, content⟩ | ⟨sharing, limited, less⟩
  · rcases unbounded with ⟨same', -⟩ | ⟨sharing, limited, less, -⟩
    · exact .inl ⟨same, same'⟩
    · have fits := alike.incoming sharing limited
      have within := content sharing limited
      rw [u32_of_lt fits] at within
      exact absurd ((alike.test sharing limited).mp within) (Nat.not_le.mpr less)
  · have fits := alike.incoming sharing limited
    rw [u32_of_lt fits] at less
    rcases unbounded with ⟨-, content⟩ | ⟨-, -, -, stores⟩
    · exact absurd ((alike.test sharing limited).mpr (content sharing limited))
        (Nat.not_le.mpr less)
    · refine .inr ⟨_, sharing, limited, rfl, less, ?_, stores⟩
      have small : u32 ((state.peers index).incomingBandwidth * elapsedTime / 1000 * 32) =
          (state.peers index).incomingBandwidth * elapsedTime / 1000 * 32 := u32_of_lt (by omega)
      rw [adjustPeer_of_content sharing limited (by rw [u32_of_lt fits]; exact less)]
      dsimp only
      rw [u32_of_lt fits, small]
      rfl

theorem ownPeer_not_isSharing (elapsedTime timeCurrent : Nat) (peer : Peer) :
    (ownPeer elapsedTime timeCurrent peer).isSharing timeCurrent = false := by
  unfold Peer.isSharing
  simp [ownPeer, limitThrottle, Peer.setOutgoingEpoch]

/-! ## A limited host whose totals fit -/

/-- Both kinds of registers hold the same, and the invariant of the first loop. -/
structure AlikeFitting (host : Host) (timeCurrent elapsedTime throttle : Nat) (state : Throttling)
    (registers : Registers) : Prop where
  shares : host.Shares timeCurrent elapsedTime state
  rate : host.Rate timeCurrent throttle state
  peers : registers.peers = state.peers
  remaining : registers.peersRemaining = state.peersRemaining
  dataTotal : registers.dataTotal = state.dataTotal
  bandwidth : registers.bandwidth = state.bandwidth
  needs : registers.needsAdjustment = state.needsAdjustment

theorem unboundedThrottle_eq {dataTotal bandwidth : Nat} (fits : 32 * bandwidth < 4294967296) :
    unboundedThrottle dataTotal bandwidth = throttleOf dataTotal bandwidth := by
  unfold unboundedThrottle throttleOf
  simp only [peerPacketThrottleScale]
  rw [u32_of_lt (by omega)]
  by_cases enough : dataTotal ≤ bandwidth
  · rw [if_pos enough, if_pos (by exact_mod_cast enough)]
    rfl
  · rw [if_neg enough, if_neg (by exact_mod_cast enough)]
    rfl

theorem simulates_fitting (counted : Counted host)
    (unwrapped : host.Unwrapped timeCurrent elapsedTime) :
    Simulates host.peerCount timeCurrent elapsedTime
      (host.AlikeFitting timeCurrent elapsedTime) where
  peers alike := alike.peers
  remaining alike := alike.remaining
  needs alike := alike.needs
  throttle alike := by
    have bandwidth := alike.shares.bandwidth_le
    have budget := unwrapped.budget_lt
    rw [alike.dataTotal, alike.bandwidth]
    exact unboundedThrottle_eq (by omega)
  begins {throttle state registers} alike := by
    have shares : host.Shares timeCurrent elapsedTime { state with needsAdjustment := false } :=
      ⟨alike.shares.peers, alike.shares.bandwidth, alike.shares.dataTotal, alike.shares.remaining,
        alike.shares.covered⟩
    exact ⟨shares, shares.rate unwrapped, alike.peers, alike.remaining, alike.dataTotal,
      alike.bandwidth, rfl⟩
  adjusts {throttle state registers} alike index slot := by
    have loops : (state.peers index).isSharing timeCurrent = true →
        (state.peers index).incomingBandwidth ≠ 0 → 0 < host.bandwidthLimitedPeers := by
      intro sharing limited
      have same := alike.shares.peer_eq sharing
      rw [same] at sharing limited
      exact loops_of_limited counted
        (sharing_subset_connected host timeCurrent (mem_sharing.mpr ⟨slot, sharing⟩)) limited
    have tests : TestsAlike timeCurrent elapsedTime throttle (state.peers index) := by
      refine ⟨fun sharing limited => ?_, fun sharing limited => ?_⟩
      · have loops := loops sharing limited
        have same := alike.shares.peer_eq sharing
        rw [same] at sharing limited ⊢
        exact unwrapped.incoming loops index slot sharing limited
      · have share := alike.rate.2.share_le (mem_sharing.mpr ⟨slot, sharing⟩)
        have bandwidth := alike.shares.bandwidth_le
        have budget := unwrapped.budget_lt
        rw [← alike.shares.peer_eq sharing] at share
        rw [u32_of_lt (by omega)]
    rcases adjustPeer_alike alike.peers tests with
      ⟨same, same'⟩ | ⟨part, sharing, limited, budget, less, stores, stores'⟩
    · rw [same, same']
      exact alike
    · have loops := loops sharing limited
      have fits := tests.incoming sharing limited
      have content := alike.shares.content unwrapped loops alike.rate.2 slot sharing limited
        (by rw [u32_of_lt fits, ← budget]; exact less)
      obtain ⟨⟨one, bandwidth, dataTotal⟩, -, -⟩ := alike.shares.limitPeer alike.rate.1
        alike.rate.2 content
      obtain ⟨-, shares, rate, -⟩ := alike.shares.adjustPeer unwrapped loops alike.rate slot
      have part_eq : part = host.peerBudget elapsedTime index := by
        rw [budget, content.peer, peerBudget]
      refine ⟨shares, rate, ?_, ?_, ?_, ?_, ?_⟩
      · rw [stores, stores']
      · rw [stores, stores', alike.remaining, sub32_of_le one]
        exact (Int.natCast_sub one).symm
      · rw [stores, stores', alike.dataTotal, part_eq, sub32_of_le dataTotal]
        exact (Int.natCast_sub dataTotal).symm
      · rw [stores, stores', alike.bandwidth, part_eq, sub32_of_le bandwidth]
        exact (Int.natCast_sub bandwidth).symm
      · rw [stores, stores']

/-! ## A limited host whose total is too large for any throttle -/

/-- Neither kind of registers leaves a throttle, so nobody is limited. -/
structure AlikeIdle (host : Host) (throttle : Nat) (state : Throttling) (registers : Registers) :
    Prop where
  idle : throttle = 0
  entry : state.peers = host.peers
  peers : registers.peers = state.peers
  remaining : registers.peersRemaining = state.peersRemaining
  throttle : throttleOf state.dataTotal state.bandwidth = 0
  unbounded : unboundedThrottle registers.dataTotal registers.bandwidth = 0
  needs : registers.needsAdjustment = state.needsAdjustment

theorem simulates_idle (incoming : ∀ index ∈ host.sharing timeCurrent host.peers,
    (host.peers index).incomingBandwidth ≠ 0 →
      (host.peers index).incomingBandwidth * elapsedTime < 4294967296) :
    Simulates host.peerCount timeCurrent elapsedTime host.AlikeIdle where
  peers alike := alike.peers
  remaining alike := alike.remaining
  needs alike := alike.needs
  throttle alike := by
    rw [alike.throttle, alike.unbounded]
    rfl
  begins alike :=
    ⟨alike.throttle, alike.entry, alike.peers, alike.remaining, alike.throttle, alike.unbounded,
      rfl⟩
  adjusts {throttle state registers} alike index slot := by
    have tests : TestsAlike timeCurrent elapsedTime throttle (state.peers index) := by
      refine ⟨fun sharing limited => ?_, fun _ _ => ?_⟩
      · rw [alike.entry] at sharing limited ⊢
        exact incoming index (mem_sharing.mpr ⟨slot, sharing⟩) limited
      · rw [alike.idle, Nat.zero_mul, u32_of_lt (by decide)]
    rcases adjustPeer_alike alike.peers tests with ⟨same, same'⟩ | ⟨part, -, -, -, less, -, -⟩
    · rw [same, same']
      exact alike
    · rw [alike.idle, Nat.zero_mul] at less
      exact absurd less (Nat.not_lt_zero part)

/-! ## A host without a limit -/

/-- The peers that have not been limited are as they were, and are counted. -/
structure Keeps (host : Host) (timeCurrent : Nat) (state : Throttling) : Prop where
  peers : ∀ index, state.peers index = host.peers index ∨
    (state.peers index).isSharing timeCurrent = false
  remaining : state.peersRemaining + #(host.limited timeCurrent state.peers) = #(host.connected)

namespace Keeps

theorem peer_eq (keeps : host.Keeps timeCurrent state)
    (sharing : (state.peers index).isSharing timeCurrent = true) :
    state.peers index = host.peers index := by
  rcases keeps.peers index with same | gone
  · exact same
  · rw [gone] at sharing
    cases sharing

theorem remains (keeps : host.Keeps timeCurrent state) (slot : index < host.peerCount)
    (sharing : (state.peers index).isSharing timeCurrent = true) : 1 ≤ state.peersRemaining := by
  have same := keeps.peer_eq sharing
  have fewer := card_limited_lt
    (mem_sharing.mpr ⟨slot, by rw [← same]; exact sharing⟩) (mem_sharing.mpr ⟨slot, sharing⟩)
  have count := keeps.remaining
  omega

/-- Once a peer that shares is limited, one less remains. -/
theorem limits {after : Throttling} (keeps : host.Keeps timeCurrent state)
    (slot : index < host.peerCount)
    (sharing : (state.peers index).isSharing timeCurrent = true) {peer : Peer}
    (gone : peer.isSharing timeCurrent = false)
    (peers : after.peers = Function.update state.peers index peer)
    (remaining : after.peersRemaining = state.peersRemaining - 1) :
    host.Keeps timeCurrent after := by
  have same := keeps.peer_eq sharing
  have one := keeps.remains slot sharing
  have count := keeps.remaining
  have fresh : index ∉ host.limited timeCurrent state.peers :=
    fun old => (Finset.mem_sdiff.mp old).2 (mem_sharing.mpr ⟨slot, sharing⟩)
  refine ⟨fun other => ?_, ?_⟩
  · rw [peers]
    by_cases here : other = index
    · subst here
      rw [Function.update_self]
      exact .inr gone
    · rw [Function.update_of_ne here]
      exact keeps.peers other
  · rw [peers, remaining, limited_update gone
        (mem_sharing.mpr ⟨slot, by rw [← same]; exact sharing⟩),
      Finset.card_insert_of_notMem fresh]
    omega

end Keeps

/-- Both kinds of registers leave the full throttle. -/
structure AlikeFree (host : Host) (timeCurrent throttle : Nat) (state : Throttling)
    (registers : Registers) : Prop where
  full : throttle = 32
  keeps : host.Keeps timeCurrent state
  peers : registers.peers = state.peers
  remaining : registers.peersRemaining = state.peersRemaining
  free : state.dataTotal = state.bandwidth
  unbounded : registers.dataTotal = registers.bandwidth
  needs : registers.needsAdjustment = state.needsAdjustment

theorem throttleOf_self (total : Nat) : throttleOf total total = 32 := if_pos le_rfl

theorem unboundedThrottle_self (total : Int) : unboundedThrottle total total = 32 := if_pos le_rfl

theorem simulates_free (incoming : ∀ index ∈ host.sharing timeCurrent host.peers,
      (host.peers index).incomingBandwidth ≠ 0 →
        (host.peers index).incomingBandwidth * elapsedTime < 4294967296)
    (sent : ∀ index ∈ host.sharing timeCurrent host.peers,
      (host.peers index).incomingBandwidth ≠ 0 →
        (host.peers index).outgoingDataTotal < 134217728 ∨
          host.peerBudget elapsedTime index < (host.peers index).outgoingDataTotal % 134217728) :
    Simulates host.peerCount timeCurrent elapsedTime (host.AlikeFree timeCurrent) where
  peers alike := alike.peers
  remaining alike := alike.remaining
  needs alike := alike.needs
  throttle alike := by
    rw [alike.free, alike.unbounded, throttleOf_self, unboundedThrottle_self]
    rfl
  begins {throttle state registers} alike :=
    ⟨by rw [alike.free, throttleOf_self], ⟨alike.keeps.peers, alike.keeps.remaining⟩, alike.peers,
      alike.remaining, alike.free, alike.unbounded, rfl⟩
  adjusts {throttle state registers} alike index slot := by
    have tests : TestsAlike timeCurrent elapsedTime throttle (state.peers index) := by
      refine ⟨fun sharing limited => ?_, fun sharing limited => ?_⟩
      · have same := alike.keeps.peer_eq sharing
        rw [same] at sharing limited ⊢
        exact incoming index (mem_sharing.mpr ⟨slot, sharing⟩) limited
      · have same := alike.keeps.peer_eq sharing
        rw [same] at sharing limited ⊢
        have sent := sent index (mem_sharing.mpr ⟨slot, sharing⟩) limited
        have fits := incoming index (mem_sharing.mpr ⟨slot, sharing⟩) limited
        rw [alike.full]
        unfold peerBudget at sent
        unfold u32
        omega
    rcases adjustPeer_alike alike.peers tests with
      ⟨same, same'⟩ | ⟨part, sharing, limited, -, -, stores, stores'⟩
    · rw [same, same']
      exact alike
    · have one := alike.keeps.remains slot sharing
      rw [stores, stores']
      refine ⟨alike.full, alike.keeps.limits slot sharing (ownPeer_not_isSharing _ _ _) rfl
        (sub32_of_le one), rfl, ?_, ?_, ?_, rfl⟩
      · dsimp only
        rw [alike.remaining, sub32_of_le one]
        exact (Int.natCast_sub one).symm
      · dsimp only
        rw [alike.free]
      · dsimp only
        rw [alike.unbounded]

/-! ## What fits is computed alike -/

theorem startUnbounded_remaining (counted : Counted host)
    (slots : host.peerCount ≤ protocolMaximumPeerID) (elapsedTime : Nat) :
    (host.startUnbounded elapsedTime).peersRemaining =
      (host.startThrottling elapsedTime).peersRemaining := by
  have count : u32 host.connectedPeers = host.connectedPeers :=
    (u32_connectedPeers counted slots).trans (card_connected counted)
  change (host.connectedPeers : Int) = (u32 host.connectedPeers : Nat)
  rw [count]

theorem startThrottling_keeps (counted : Counted host)
    (slots : host.peerCount ≤ protocolMaximumPeerID) :
    host.Keeps timeCurrent (host.startThrottling elapsedTime) := by
  refine ⟨fun _ => .inl rfl, ?_⟩
  change u32 host.connectedPeers + #(host.limited timeCurrent host.peers) = #(host.connected)
  rw [limited_entry, Finset.card_empty]
  exact u32_connectedPeers counted slots

theorem startThrottling_free (free : host.outgoingBandwidth = 0) :
    (host.startThrottling elapsedTime).dataTotal =
      (host.startThrottling elapsedTime).bandwidth := by
  unfold startThrottling
  rw [if_neg (not_not.mpr free), if_neg (not_not.mpr free)]

theorem startThrottling_limited (limits : host.outgoingBandwidth ≠ 0)
    (outgoing : host.outgoingBandwidth * elapsedTime < 4294967296) :
    (host.startThrottling elapsedTime).dataTotal = host.sentTotal % 4294967296 ∧
      (host.startThrottling elapsedTime).bandwidth = host.budget elapsedTime ∧
      (host.startUnbounded elapsedTime).dataTotal = host.sentTotal ∧
      (host.startUnbounded elapsedTime).bandwidth = host.budget elapsedTime := by
  unfold startThrottling startUnbounded budget
  dsimp only
  rw [if_pos limits, if_pos limits, if_pos limits, if_pos limits, outgoingData_eq,
    u32_of_lt outgoing]
  exact ⟨rfl, rfl, rfl, rfl⟩

theorem budget_lt (outgoing : host.outgoingBandwidth * elapsedTime < 4294967296) :
    host.budget elapsedTime * 32 < 4294967296 := by
  unfold budget
  omega

/-- A total that the registers do not hold leaves no throttle over unbounded integers. -/
theorem unboundedThrottle_large {total bandwidth : Nat} (small : bandwidth * 32 < 4294967296)
    (large : 4294967296 ≤ total) : unboundedThrottle total bandwidth = 0 := by
  unfold unboundedThrottle
  rw [if_neg (by omega)]
  exact Int.ediv_eq_zero_of_lt (by omega) (by omega)

theorem throttleOf_eq_zero_iff {total bandwidth : Nat} (small : bandwidth * 32 < 4294967296) :
    throttleOf total bandwidth = 0 ↔ bandwidth * 32 < total := by
  unfold throttleOf
  simp only [peerPacketThrottleScale]
  rw [u32_of_lt small]
  split
  next enough => omega
  next more =>
      rw [Nat.div_eq_zero_iff]
      omega

/-- **Where all fits, the call computes the unbounded values.** -/
theorem FitsRegisters.computes (fits : host.FitsRegisters timeCurrent elapsedTime)
    (counted : Counted host) (slots : host.peerCount ≤ protocolMaximumPeerID) :
    (host.throttles timeCurrent elapsedTime).map (Nat.cast : Nat → Int) =
        host.unboundedThrottles timeCurrent elapsedTime ∧
      (host.throttlePeers timeCurrent elapsedTime).peers =
        host.unboundedPeers timeCurrent elapsedTime := by
  have remaining := startUnbounded_remaining counted slots elapsedTime
  by_cases free : host.outgoingBandwidth = 0
  · have alike : host.AlikeFree timeCurrent 32 (host.startThrottling elapsedTime)
        (host.startUnbounded elapsedTime) := by
      refine ⟨rfl, startThrottling_keeps counted slots, rfl, remaining,
        startThrottling_free free, ?_,
        rfl⟩
      unfold startUnbounded
      rw [if_neg (not_not.mpr free), if_neg (not_not.mpr free)]
    exact (simulates_free fits.incoming (fits.outgoingData free)).call alike
  · have outgoing := fits.outgoing free
    have small := budget_lt outgoing
    obtain ⟨dataTotal, bandwidth, dataTotal', bandwidth'⟩ := startThrottling_limited free outgoing
    by_cases total : host.sentTotal < 4294967296
    · have unwrapped : host.Unwrapped timeCurrent elapsedTime :=
        ⟨outgoing, total, fun _ index slot sharing limited =>
          fits.incoming index (mem_sharing.mpr ⟨slot, sharing⟩) limited⟩
      have shares := shares_startThrottling counted slots free unwrapped
      refine (simulates_fitting counted unwrapped).call
        ⟨shares, shares.rate unwrapped, rfl, remaining, ?_, ?_, rfl⟩
      · rw [dataTotal, dataTotal', Nat.mod_eq_of_lt total]
      · rw [bandwidth, bandwidth']
    · have large := (fits.total free).resolve_left total
      have alike : host.AlikeIdle 0 (host.startThrottling elapsedTime)
          (host.startUnbounded elapsedTime) := by
        refine ⟨rfl, rfl, rfl, remaining, ?_, ?_, rfl⟩
        · rw [dataTotal, bandwidth, throttleOf_eq_zero_iff small]
          omega
        · rw [dataTotal', bandwidth']
          exact unboundedThrottle_large small (Nat.le_of_not_lt total)
      exact (simulates_idle fits.incoming).call alike

/-! ## What is computed alike fits -/

theorem head_throttles (remain : 0 < (host.startThrottling elapsedTime).peersRemaining) :
    (host.throttles timeCurrent elapsedTime).head? =
      some (throttleOf (host.startThrottling elapsedTime).dataTotal
        (host.startThrottling elapsedTime).bandwidth) := by
  unfold throttles passThrottles adjustPeers
  dsimp only
  by_cases more : 0 < (host.startThrottling elapsedTime).peersRemaining ∧
      (host.startThrottling elapsedTime).needsAdjustment = true
  · rw [if_pos more]
    rfl
  · rw [if_neg more, if_neg more, if_pos remain]
    rfl

theorem head_unboundedThrottles (remain : 0 < (host.startUnbounded elapsedTime).peersRemaining) :
    (host.unboundedThrottles timeCurrent elapsedTime).head? =
      some (unboundedThrottle (host.startUnbounded elapsedTime).dataTotal
        (host.startUnbounded elapsedTime).bandwidth) := by
  unfold unboundedThrottles adjustAllUnbounded
  dsimp only
  by_cases more : 0 < (host.startUnbounded elapsedTime).peersRemaining ∧
      (host.startUnbounded elapsedTime).needsAdjustment = true
  · rw [if_pos more]
    rfl
  · rw [if_neg more, if_pos remain]
    rfl

/-- A division by a thousand tells a wrapped product from the product. -/
theorem lt_of_u32_div {product : Nat} (same : u32 product / 1000 = product / 1000) :
    product < 4294967296 := by
  unfold u32 at same
  omega

/-- Without a limit of the host, a peer that the first loop has passed over. -/
structure PassedOver (host : Host) (timeCurrent index : Nat) (state : Throttling) : Prop where
  free : state.dataTotal = state.bandwidth
  keeps : host.Keeps timeCurrent state
  stays : state.peers index = host.peers index

/-- A peer whose test comes out against its own bandwidth is passed over. -/
theorem PassedOver.adjustPeer (passed : host.PassedOver timeCurrent index state)
    (within : u32 (32 * (host.peers index).outgoingDataTotal) / 32 ≤
      u32 ((host.peers index).incomingBandwidth * elapsedTime) / 1000)
    {other : Nat} (slot : other < host.peerCount) :
    host.PassedOver timeCurrent index
      (Host.adjustPeer timeCurrent elapsedTime 32 state other) := by
  obtain ⟨free, keeps, stays⟩ := passed
  rcases adjustPeer_cases timeCurrent elapsedTime 32 state other with
    ⟨same, -, -⟩ | ⟨sharing, limited, less⟩
  · rw [same]
    exact ⟨free, keeps, stays⟩
  · have different : index ≠ other := by
      intro same
      subst same
      rw [stays] at less
      exact absurd within (Nat.not_le.mpr less)
    rw [adjustPeer_of_content sharing limited less]
    refine ⟨?_, keeps.limits slot sharing ?_ rfl (sub32_of_le (keeps.remains slot sharing)), ?_⟩
    · dsimp only
      rw [free]
    · unfold Peer.isSharing
      simp [limitThrottle, Peer.setOutgoingEpoch]
    · dsimp only
      rw [Function.update_of_ne different]
      exact stays

theorem PassedOver.adjustPeers (within : u32 (32 * (host.peers index).outgoingDataTotal) / 32 ≤
      u32 ((host.peers index).incomingBandwidth * elapsedTime) / 1000) (fuel : Nat) :
    ∀ state : Throttling, host.PassedOver timeCurrent index state →
      host.PassedOver timeCurrent index
        (Host.adjustPeers host.peerCount timeCurrent elapsedTime fuel state) := by
  induction fuel with
  | zero => intro state passed; exact passed
  | succ fuel ih =>
      intro state passed
      unfold Host.adjustPeers
      split
      · refine ih _ ?_
        have full : throttleOf state.dataTotal state.bandwidth = 32 := by
          rw [passed.free, throttleOf_self]
        rw [full]
        have begins : host.PassedOver timeCurrent index { state with needsAdjustment := false } :=
          ⟨passed.free, ⟨passed.keeps.peers, passed.keeps.remaining⟩, passed.stays⟩
        exact List.foldlRecOn (List.range host.peerCount) _ begins
          fun state passed other member => passed.adjustPeer within (List.mem_range.mp member)
      · exact passed

/-- Over unbounded integers and without a limit of the host, a peer that the first
loop has limited to its own bandwidth. -/
structure Settled (host : Host) (timeCurrent elapsedTime index : Nat) (registers : Registers) :
    Prop where
  free : registers.dataTotal = registers.bandwidth
  peer : registers.peers index = ownPeer elapsedTime timeCurrent (host.peers index)

theorem adjustUnbounded_free (free : registers.dataTotal = registers.bandwidth) (other : Nat) :
    let after := adjustUnbounded timeCurrent elapsedTime 32 registers other
    after.dataTotal = after.bandwidth := by
  rcases adjustUnbounded_cases timeCurrent elapsedTime 32 registers other with
    ⟨same, -⟩ | ⟨-, -, -, stores⟩
  · have same : adjustUnbounded timeCurrent elapsedTime 32 registers other = registers := same
    rw [same]
    exact free
  · have stores : adjustUnbounded timeCurrent elapsedTime 32 registers other = _ := stores
    rw [stores]
    dsimp only
    rw [free]

theorem Settled.adjustUnbounded (settled : host.Settled timeCurrent elapsedTime index registers)
    (other : Nat) :
    host.Settled timeCurrent elapsedTime index
      (Host.adjustUnbounded timeCurrent elapsedTime 32 registers other) := by
  refine ⟨adjustUnbounded_free settled.free other, ?_⟩
  rcases adjustUnbounded_cases timeCurrent elapsedTime 32 registers other with
    ⟨same, -⟩ | ⟨sharing, -, -, stores⟩
  · have same : Host.adjustUnbounded timeCurrent elapsedTime 32 registers other = registers := same
    rw [same]
    exact settled.peer
  · have different : index ≠ other := by
      intro same
      subst same
      rw [settled.peer, ownPeer_not_isSharing] at sharing
      cases sharing
    have stores : Host.adjustUnbounded timeCurrent elapsedTime 32 registers other = _ := stores
    rw [stores]
    dsimp only
    rw [Function.update_of_ne different]
    exact settled.peer

theorem Settled.loop (fuel : Nat) :
    ∀ registers : Registers, host.Settled timeCurrent elapsedTime index registers →
      host.Settled timeCurrent elapsedTime index
        (adjustAllUnbounded host.peerCount timeCurrent elapsedTime fuel registers).2 := by
  induction fuel with
  | zero => intro registers settled; exact settled
  | succ fuel ih =>
      intro registers settled
      unfold adjustAllUnbounded
      split
      · refine ih _ ?_
        have begins : host.Settled timeCurrent elapsedTime index
            { registers with needsAdjustment := false } := ⟨settled.free, settled.peer⟩
        have full : unboundedThrottle registers.dataTotal registers.bandwidth = 32 := by
          rw [settled.free, unboundedThrottle_self]
        rw [full]
        exact List.foldlRecOn (List.range host.peerCount) _ begins
          fun registers settled other _ => settled.adjustUnbounded other
      · exact settled

/-- **A pass settles** a peer that has been sent more than its own bandwidth allows. -/
theorem settled_pass (sharing : (host.peers index).isSharing timeCurrent = true)
    (limited : (host.peers index).incomingBandwidth ≠ 0)
    (more : host.peerBudget elapsedTime index < (host.peers index).outgoingDataTotal)
    (indices : List Nat) :
    ∀ registers : Registers, registers.dataTotal = registers.bandwidth →
      index ∈ indices → registers.peers index = host.peers index →
        host.Settled timeCurrent elapsedTime index
          (indices.foldl (adjustUnbounded timeCurrent elapsedTime 32) registers) := by
  induction indices with
  | nil => intro registers _ none; cases none
  | cons other indices ih =>
      intro registers free member entry
      rw [List.foldl_cons]
      have cases := adjustUnbounded_cases timeCurrent elapsedTime 32 registers other
      by_cases here : index = other
      · subst here
        refine List.foldlRecOn indices _ ⟨adjustUnbounded_free free index, ?_⟩
          fun registers settled other _ => settled.adjustUnbounded other
        rw [entry] at cases
        rcases cases with ⟨-, content⟩ | ⟨-, -, -, stores⟩
        · have content := content sharing limited
          unfold peerBudget at more
          omega
        · have stores : adjustUnbounded timeCurrent elapsedTime 32 registers index = _ := stores
          rw [stores]
          exact Function.update_self ..
      · refine ih _ (adjustUnbounded_free free other)
          ((List.mem_cons.mp member).resolve_left here) ?_
        rcases cases with ⟨same, -⟩ | ⟨-, -, -, stores⟩
        · have same : adjustUnbounded timeCurrent elapsedTime 32 registers other = registers := same
          rw [same]
          exact entry
        · have stores : adjustUnbounded timeCurrent elapsedTime 32 registers other = _ := stores
          rw [stores]
          dsimp only
          rw [Function.update_of_ne here]
          exact entry

theorem ownPeer_limit_lt {peer : Peer}
    (more : peer.incomingBandwidth * elapsedTime / 1000 < peer.outgoingDataTotal) :
    (ownPeer elapsedTime timeCurrent peer).packetThrottleLimit < 32 := by
  change (if _ = 0 then 1 else _) < 32
  split
  · decide
  · refine Nat.div_lt_of_lt_mul ?_
    omega

/-- Without a limit of the host, a peer that has been sent more than its own bandwidth
allows ends with less than the full throttle. -/
theorem unboundedPeers_limit_lt (free : host.outgoingBandwidth = 0) (counted : Counted host)
    (member : index ∈ host.sharing timeCurrent host.peers)
    (limited : (host.peers index).incomingBandwidth ≠ 0)
    (more : host.peerBudget elapsedTime index < (host.peers index).outgoingDataTotal) :
    (host.unboundedPeers timeCurrent elapsedTime index).packetThrottleLimit < 32 := by
  obtain ⟨slot, sharing⟩ := mem_sharing.mp member
  have connected := sharing_subset_connected host timeCurrent member
  have loops := loops_of_limited counted connected limited
  have remain : 0 < (host.startUnbounded elapsedTime).peersRemaining := by
    have some := Finset.card_pos.mpr ⟨index, connected⟩
    rw [card_connected counted] at some
    exact Int.natCast_pos.mpr some
  have equal : (host.startUnbounded elapsedTime).dataTotal =
      (host.startUnbounded elapsedTime).bandwidth := by
    unfold startUnbounded
    rw [if_neg (not_not.mpr free), if_neg (not_not.mpr free)]
  have settled : host.Settled timeCurrent elapsedTime index
      (adjustAllUnbounded host.peerCount timeCurrent elapsedTime (host.peerCount + 1)
        (host.startUnbounded elapsedTime)).2 := by
    unfold adjustAllUnbounded
    rw [if_pos ⟨remain, decide_eq_true loops⟩]
    refine .loop _ _ ?_
    rw [(by rw [equal, unboundedThrottle_self] : unboundedThrottle
      (host.startUnbounded elapsedTime).dataTotal (host.startUnbounded elapsedTime).bandwidth = 32)]
    exact settled_pass sharing limited more _ _ equal (List.mem_range.mpr slot) rfl
  have small : (ownPeer elapsedTime timeCurrent (host.peers index)).packetThrottleLimit < 32 :=
    ownPeer_limit_lt more
  unfold unboundedPeers
  split
  · rw [foldl_sharePeer _ List.nodup_range, settled.peer, ownPeer_not_isSharing, if_neg (by simp)]
    exact small
  · rw [settled.peer]
    exact small

/-- Without a limit of the host, a peer whose test comes out against its own bandwidth
ends with the full throttle. -/
theorem throttlePeers_limit_full (free : host.outgoingBandwidth = 0) (counted : Counted host)
    (slots : host.peerCount ≤ protocolMaximumPeerID)
    (member : index ∈ host.sharing timeCurrent host.peers)
    (within : u32 (32 * (host.peers index).outgoingDataTotal) / 32 ≤
      u32 ((host.peers index).incomingBandwidth * elapsedTime) / 1000) :
    ((host.throttlePeers timeCurrent elapsedTime).peers index).packetThrottleLimit = 32 := by
  obtain ⟨slot, sharing⟩ := mem_sharing.mp member
  have passed : host.PassedOver timeCurrent index _ :=
    PassedOver.adjustPeers within (host.peerCount + 1) (host.startThrottling elapsedTime)
      ⟨startThrottling_free free, startThrottling_keeps counted slots, rfl⟩
  have still : index ∈ host.sharing timeCurrent
      (adjustPeers host.peerCount timeCurrent elapsedTime (host.peerCount + 1)
        (host.startThrottling elapsedTime)).peers :=
    mem_sharing.mpr ⟨slot, by rw [passed.stays]; exact sharing⟩
  unfold throttlePeers
  change (sharePeers _ _ _ index).packetThrottleLimit = 32
  rw [sharePeers_eq host timeCurrent _ (passed.keeps.remains slot (mem_sharing.mp still).2),
    if_pos still, passed.free, throttleOf_self]
  rfl

/-! ## The call -/

theorem bandwidthThrottle_limit (throttling : host.IsThrottling) (index : Nat) :
    (host.bandwidthThrottle.peers index).packetThrottleLimit =
      ((host.throttlePeers host.throttleTime
        host.throttleElapsed).peers index).packetThrottleLimit := by
  have due : ¬ sub32 host.timeGet.2 host.timeGet.1.bandwidthThrottleEpoch <
      hostBandwidthThrottleInterval := Nat.not_lt.mpr throttling.due
  have somebody : ¬ u32 (host.timeGet.1.setThrottleEpoch host.timeGet.2).connectedPeers = 0 :=
    throttling.somebody
  unfold bandwidthThrottle
  dsimp only
  rw [if_neg due, if_neg somebody]
  split
  · exact (recalculateLimits_sameLimit _ host.timeGet.2 index).limit
  · rfl

/-- What is computed alike has fitted the registers. -/
theorem ComputesUnbounded.fits (computes : host.ComputesUnbounded) (throttling : host.IsThrottling)
    (counted : Counted host) (slots : host.peerCount ≤ protocolMaximumPeerID) :
    host.FitsRegisters host.throttleTime host.throttleElapsed := by
  have outgoing : host.outgoingBandwidth ≠ 0 →
      host.outgoingBandwidth * host.throttleElapsed < 4294967296 :=
    fun limits => lt_of_u32_div (computes.budget limits)
  have incoming : ∀ index ∈ host.sharing host.throttleTime host.peers,
      (host.peers index).incomingBandwidth ≠ 0 →
        (host.peers index).incomingBandwidth * host.throttleElapsed < 4294967296 :=
    fun index member limited => lt_of_u32_div (computes.peerBudgets index member limited)
  refine ⟨outgoing, fun limits => ?_, incoming, fun free index member limited => ?_⟩
  · by_contra wraps
    have remain : 0 < (host.startThrottling host.throttleElapsed).peersRemaining :=
      Nat.pos_of_ne_zero throttling.somebody
    have remaining := startUnbounded_remaining counted slots host.throttleElapsed
    have heads := congrArg List.head? computes.throttles
    rw [List.head?_map, head_throttles remain,
      head_unboundedThrottles (by rw [remaining]; exact Int.natCast_pos.mpr remain)] at heads
    have small := budget_lt (outgoing limits)
    obtain ⟨dataTotal, bandwidth, dataTotal', bandwidth'⟩ :=
      startThrottling_limited limits (outgoing limits)
    rw [dataTotal, bandwidth, dataTotal', bandwidth',
      unboundedThrottle_large small (by omega)] at heads
    have none : throttleOf (host.sentTotal % 4294967296) (host.budget host.throttleElapsed) = 0 :=
      Int.natCast_eq_zero.mp (Option.some.inj heads)
    rw [throttleOf_eq_zero_iff small] at none
    omega
  · by_contra wraps
    have more : host.peerBudget host.throttleElapsed index <
        (host.peers index).outgoingDataTotal := by
      have fits := incoming index member limited
      unfold peerBudget at wraps ⊢
      omega
    have within : u32 (32 * (host.peers index).outgoingDataTotal) / 32 ≤
        u32 ((host.peers index).incomingBandwidth * host.throttleElapsed) / 1000 := by
      rw [u32_of_lt (incoming index member limited)]
      unfold peerBudget at wraps
      unfold u32
      omega
    have less := unboundedPeers_limit_lt free counted member limited more
    have full := throttlePeers_limit_full free counted slots member within
    rw [← computes.limits index, bandwidthThrottle_limit throttling, full] at less
    exact absurd less (by decide)

end Host

/-- **The budgets, throttles and limits are those over unbounded integers exactly where
the bandwidths, the time and the totals fit the registers.** -/
theorem bandwidthThrottle_unbounded_iff (host : Host) (counted : Counted host)
    (slots : host.peerCount ≤ protocolMaximumPeerID) :
    (host.IsThrottling → host.ComputesUnbounded) ↔
      (host.IsThrottling → host.FitsRegisters host.throttleTime host.throttleElapsed) := by
  refine ⟨fun computes throttling => (computes throttling).fits throttling counted slots,
    fun fits throttling => ?_⟩
  have fits := fits throttling
  obtain ⟨throttles, peers⟩ := fits.computes counted slots
  refine ⟨fun limits => ?_, fun index member limited => ?_, throttles, fun index => ?_⟩
  · rw [Host.u32_of_lt (fits.outgoing limits)]
    rfl
  · rw [Host.u32_of_lt (fits.incoming index member limited)]
    rfl
  · rw [Host.bandwidthThrottle_limit throttling, peers]

theorem bandwidthThrottle_unbounded_two : (sharingHost 2000).ComputesUnbounded := by
  refine (bandwidthThrottle_unbounded_iff (sharingHost 2000) (sharingHost_counted 2000)
    (by decide)).mpr (fun _ => ?_) ⟨by decide, by decide⟩
  have unwrapped : (sharingHost 2000).Unwrapped 2000 2000 := sharingHost_unwrapped (by decide)
  exact ⟨fun _ => unwrapped.outgoing, fun _ => .inl unwrapped.total,
    fun index member limited => unwrapped.incoming (by decide) index
      (Host.mem_sharing.mp member).1 (Host.mem_sharing.mp member).2 limited,
    fun free => absurd free (by decide)⟩

/-- A host with two connected peers that sends five million bytes a second. -/
def fastHost : Host := { sharingHost 1000 with outgoingBandwidth := 5000000 }

/-- The budget of one second wraps around. -/
theorem bandwidthThrottle_fast_not_unbounded :
    Counted fastHost ∧ fastHost.peerCount ≤ protocolMaximumPeerID ∧ fastHost.IsThrottling ∧
      ¬ fastHost.ComputesUnbounded := by
  have counted := sharingHost_counted 1000
  refine ⟨⟨counted.connected, counted.limited, counted.outside, counted.positive⟩, by decide,
    ⟨by decide, by decide⟩, fun computes => ?_⟩
  exact absurd (computes.budget (by decide)) (by decide)

end Enet
