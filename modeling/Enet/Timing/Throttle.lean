import Enet.Runs.Settings

/-!
# The ranges of the throttle, the window and the mtu

Remote commands set the parameters of the throttle without a check, and the
totals that it is limited by wrap around. The throttle stays below its limit and
the limit on its scale all the same, the window stays between its bounds, and
the mtu stays between the smallest one and that of the host, as long as the
application leaves the mtu of the host alone.
-/

set_option autoImplicit false

namespace Enet

/-! ## One peer -/

/-- The ranges of the measurements of a peer. -/
structure Settings.Paced (settings : Settings) : Prop where
  sampled : 0 < settings.roundTripTime
  representable : settings.roundTripTime < 4294967296
  throttled : settings.packetThrottle ≤ settings.packetThrottleLimit
  limited : settings.packetThrottleLimit ≤ peerPacketThrottleScale
  windowMinimum : protocolMinimumWindowSize ≤ settings.windowSize
  windowMaximum : settings.windowSize ≤ protocolMaximumWindowSize

namespace Peer

theorem clampWindowSize_bounds (windowSize : Nat) :
    protocolMinimumWindowSize ≤ clampWindowSize windowSize ∧
      clampWindowSize windowSize ≤ protocolMaximumWindowSize := by
  unfold clampWindowSize
  simp only [protocolMinimumWindowSize, protocolMaximumWindowSize]
  split
  · omega
  · split <;> omega

theorem clampMtu_bounds (mtu : Nat) :
    protocolMinimumMtu ≤ clampMtu mtu ∧ clampMtu mtu ≤ protocolMaximumMtu := by
  unfold clampMtu
  simp only [protocolMinimumMtu, protocolMaximumMtu]
  split
  · omega
  · split <;> omega

/-- The throttle moves within its limit, whatever its parameters are. -/
theorem throttle_le {peer : Peer} (throttled : peer.packetThrottle ≤ peer.packetThrottleLimit)
    (rtt : Nat) : (peer.throttle rtt).packetThrottle ≤ peer.packetThrottleLimit := by
  unfold throttle
  split
  · exact Nat.le_refl _
  · split
    · dsimp only
      split
      · exact Nat.le_refl _
      next within => exact Nat.le_of_not_lt within
    · split
      · dsimp only
        split <;> omega
      · exact throttled

/-- The average is the previous one, or moved towards the sample. -/
theorem averageRoundTripTime_bounds (peer : Peer) {sample : Nat}
    (representable : peer.roundTripTime < 4294967296) (bounded : sample < 4294967296) :
    min peer.roundTripTime sample ≤ (peer.averageRoundTripTime sample).roundTripTime ∧
      (peer.averageRoundTripTime sample).roundTripTime ≤ max peer.roundTripTime sample := by
  have same : (peer.throttle sample).roundTripTime = peer.roundTripTime :=
    congrArg Settings.roundTripTime (throttle_settings peer sample)
  unfold averageRoundTripTime
  split
  · dsimp only
    rw [same]
    split
    next above =>
        rw [Nat.min_eq_left above, Nat.max_eq_right above]
        have exact : u32 (peer.roundTripTime + (sample - peer.roundTripTime) / 8) =
            peer.roundTripTime + (sample - peer.roundTripTime) / 8 := Nat.mod_eq_of_lt (by omega)
        dsimp only
        omega
    next below =>
        rw [Nat.min_eq_right (Nat.le_of_not_le below), Nat.max_eq_left (Nat.le_of_not_le below)]
        dsimp only
        omega
  · exact ⟨Nat.min_le_right _ _, Nat.le_max_right _ _⟩

end Peer

namespace Settings.Paced

variable {peer peer' : Peer}

/-- A throttle within the limit, and a new average, keep the ranges. -/
theorem average (paced : peer.settings.Paced) {sample : Nat} (positive : 0 < sample)
    (bounded : sample < 4294967296) : (peer.averageRoundTripTime sample).settings.Paced := by
  obtain ⟨least, greatest⟩ :=
    peer.averageRoundTripTime_bounds paced.representable bounded
  have sampled : 0 < peer.roundTripTime := paced.sampled
  have representable : peer.roundTripTime < 4294967296 := paced.representable
  have throttled : (peer.averageRoundTripTime sample).packetThrottle ≤
      peer.packetThrottleLimit := by
    unfold Peer.averageRoundTripTime
    split
    · dsimp only
      split <;> exact Peer.throttle_le paced.throttled sample
    · exact paced.throttled
  rw [Peer.averageRoundTripTime_settings]
  exact ⟨by dsimp only; omega, by dsimp only; omega, throttled, paced.limited,
    paced.windowMinimum, paced.windowMaximum⟩

theorem move (move : peer.Move peer') (paced : peer.settings.Paced) : peer'.settings.Paced := by
  cases move with
  | continueSending flag => exact paced
  | lastSendTime time => exact paced
  | throttleConfigure interval acceleration deceleration => exact paced
  | pingInterval interval => exact paced
  | timeout limit minimum maximum => exact paced
  | received address length known =>
      exact ⟨paced.sampled, paced.representable, paced.throttled, paced.limited,
        paced.windowMinimum, paced.windowMaximum⟩
  | limitThrottle limit bounded =>
      refine ⟨paced.sampled, paced.representable, ?_, bounded, paced.windowMinimum,
        paced.windowMaximum⟩
      unfold Peer.settings Host.limitThrottle
      dsimp only
      split
      · exact Nat.le_refl _
      next within => exact Nat.le_of_not_lt within
  | outgoingEpoch time => exact paced
  | incomingEpoch time => exact paced
  | packetLoss serviceTime =>
      rw [Peer.updatePacketLoss_settings]
      exact paced
  | roundTripTime serviceTime roundTripTime positive bounded =>
      rw [Peer.updateRoundTripTime_settings]
      exact paced.average positive (Nat.lt_trans bounded (by decide))

/-- The defaults are in their ranges. -/
theorem reset (peer : Peer) (mtu : Nat) : (peer.resetFields mtu).settings.Paced where
  sampled := (by decide : 0 < peerDefaultRoundTripTime)
  representable := (by decide : peerDefaultRoundTripTime < 4294967296)
  throttled := (by decide : peerDefaultPacketThrottle ≤ peerPacketThrottleScale)
  limited := (by decide : peerPacketThrottleScale ≤ peerPacketThrottleScale)
  windowMinimum := (by decide : protocolMinimumWindowSize ≤ protocolMaximumWindowSize)
  windowMaximum := (by decide : protocolMaximumWindowSize ≤ protocolMaximumWindowSize)

/-- **An adjustment keeps the ranges.** -/
theorem adjusts {host : Host} (adjusts : peer.Adjusts host peer') (paced : peer.settings.Paced) :
    peer'.settings.Paced := by
  cases adjusts with
  | kept same =>
      rw [same]
      exact paced
  | moved moves => exact Library.runs_keep (fun peer => peer.settings.Paced) move moves paced
  | reset same =>
      rw [same]
      exact reset peer host.mtu
  | connecting address channelCount connectID =>
      obtain ⟨minimum, maximum⟩ := Peer.clampWindowSize_bounds
        (if host.outgoingBandwidth = 0 then protocolMaximumWindowSize
          else Peer.scaleWindowSize host.outgoingBandwidth)
      exact ⟨paced.sampled, paced.representable, paced.throttled, paced.limited, minimum, maximum⟩
  | accepted fields =>
      obtain ⟨minimum, maximum⟩ := Peer.clampWindowSize_bounds _
      exact ⟨paced.sampled, paced.representable, paced.throttled, paced.limited, minimum, maximum⟩
  | verified fields =>
      obtain ⟨minimum, maximum⟩ := Peer.clampWindowSize_bounds fields.windowSize
      have atLeast : protocolMinimumWindowSize ≤ peer.windowSize := paced.windowMinimum
      have atMost : peer.windowSize ≤ protocolMaximumWindowSize := paced.windowMaximum
      refine ⟨paced.sampled, paced.representable, paced.throttled, paced.limited, ?_, ?_⟩
      · unfold Peer.settings Host.verifiedPeer
        dsimp only
        split <;> omega
      · unfold Peer.settings Host.verifiedPeer
        dsimp only
        split <;> omega
  | bandwidth incomingBandwidth outgoingBandwidth =>
      obtain ⟨minimum, maximum⟩ := Peer.clampWindowSize_bounds _
      exact ⟨paced.sampled, paced.representable, paced.throttled, paced.limited, minimum, maximum⟩

end Settings.Paced

/-! ## Every peer of a host -/

/-- The measurements of every peer are in their ranges. -/
def Paced (host : Host) : Prop := ∀ index, (host.peers index).settings.Paced

namespace Paced

theorem create (heap : Heap) (world : World)
    (randomSeed peerCount channelLimit incomingBandwidth outgoingBandwidth : Nat) :
    Paced (Host.create heap world randomSeed peerCount channelLimit incomingBandwidth
      outgoingBandwidth) :=
  fun index => .reset (Host.clearedPeer index) hostDefaultMtu

theorem maintained : Maintained fun host _ => Paced host :=
  Adjusted.maintained (fun adjusted paced index => (paced index).adjusts (adjusted.peers index))
    fun _ _ _ _ _ _ _ _ paced => paced

/-- **The measurements are in their ranges wherever calls pass through.** -/
theorem visited {activity : Activity} (visited : Visited activity) : Paced activity.1 :=
  maintained.visited create visited

end Paced

/-! ## The first timeout of a command -/

/-- The round-trip time of a peer and its variance are no larger than a measured time
can be. -/
structure Settings.Sampled (settings : Settings) : Prop where
  sampled : 0 < settings.roundTripTime
  average : settings.roundTripTime < timeOverflow
  variance : settings.roundTripTimeVariance < timeOverflow

namespace Settings.Sampled

variable {peer peer' : Peer}

/-- The timeout of a command that is sent for the first time does not wrap around. -/
theorem timeout (measured : peer.settings.Sampled) :
    0 < u32 (peer.roundTripTime + 4 * peer.roundTripTimeVariance) := by
  have sampled : 0 < peer.roundTripTime := measured.sampled
  have average : peer.roundTripTime < 86400000 := measured.average
  have variance : peer.roundTripTimeVariance < 86400000 := measured.variance
  unfold u32
  omega

theorem averaged (measured : peer.settings.Sampled) {sample : Nat} (positive : 0 < sample)
    (bounded : sample < timeOverflow) : (peer.averageRoundTripTime sample).settings.Sampled := by
  have sampled : 0 < peer.roundTripTime := measured.sampled
  have average : peer.roundTripTime < 86400000 := measured.average
  have variance : peer.roundTripTimeVariance < 86400000 := measured.variance
  simp only [timeOverflow] at bounded
  obtain ⟨least, greatest⟩ :=
    peer.averageRoundTripTime_bounds (by omega) (Nat.lt_trans bounded (by decide))
  have varies : (peer.averageRoundTripTime sample).roundTripTimeVariance < 86400000 := by
    have averaged : (peer.throttle sample).roundTripTime = peer.roundTripTime :=
      congrArg Settings.roundTripTime (Peer.throttle_settings peer sample)
    have spread : (peer.throttle sample).roundTripTimeVariance = peer.roundTripTimeVariance :=
      congrArg Settings.roundTripTimeVariance (Peer.throttle_settings peer sample)
    unfold Peer.averageRoundTripTime
    split
    · dsimp only
      rw [averaged, spread]
      unfold u32
      split
      · dsimp only
        omega
      · dsimp only
        omega
    · unfold u32
      dsimp only
      omega
  refine ⟨?_, ?_, varies⟩
  · change 0 < (peer.averageRoundTripTime sample).roundTripTime
    omega
  · change (peer.averageRoundTripTime sample).roundTripTime < 86400000
    omega

theorem reset (peer : Peer) (mtu : Nat) : (peer.resetFields mtu).settings.Sampled where
  sampled := (by decide : 0 < peerDefaultRoundTripTime)
  average := (by decide : peerDefaultRoundTripTime < timeOverflow)
  variance := (by decide : 0 < timeOverflow)

theorem move (move : peer.Move peer') (measured : peer.settings.Sampled) :
    peer'.settings.Sampled := by
  cases move with
  | packetLoss serviceTime =>
      rw [Peer.updatePacketLoss_settings]
      exact measured
  | roundTripTime serviceTime roundTripTime positive bounded =>
      rw [Peer.updateRoundTripTime_settings]
      exact measured.averaged positive bounded
  | received address length known => exact ⟨measured.sampled, measured.average, measured.variance⟩
  | limitThrottle limit bounded => exact ⟨measured.sampled, measured.average, measured.variance⟩
  | _ => exact measured

theorem adjusts {host : Host} (adjusts : peer.Adjusts host peer')
    (measured : peer.settings.Sampled) : peer'.settings.Sampled := by
  cases adjusts with
  | kept same =>
      rw [same]
      exact measured
  | moved moves => exact Library.runs_keep (fun peer => peer.settings.Sampled) move moves measured
  | reset same =>
      rw [same]
      exact reset peer host.mtu
  | _ => exact ⟨measured.sampled, measured.average, measured.variance⟩

end Settings.Sampled

/-- The times of every peer are in their ranges. -/
def Sampled (host : Host) : Prop := ∀ index, (host.peers index).settings.Sampled

/-- **The timeout of a new command is positive wherever calls pass through.** -/
theorem Sampled.visited {activity : Activity} (visited : Visited activity) :
    Sampled activity.1 := by
  have maintained : Maintained fun host _ => Sampled host :=
    Adjusted.maintained
      (fun adjusted measured index => (measured index).adjusts (adjusted.peers index))
      fun _ _ _ _ _ _ _ _ measured => measured
  exact maintained.visited
    (fun _ _ _ _ _ _ _ index => .reset (Host.clearedPeer index) hostDefaultMtu) visited

/-! ## The mtu -/

/-- What an application may ask that leaves the mtu of the host alone. -/
def KeepsMtu (host : Host) : Request → Prop
  | .configure mtu _ _ _ => mtu = host.mtu
  | _ => True

theorem KeepsMtu.lasting : Lasting KeepsMtu := fun _ _ _ _ _ => trivial

/-- The mtu of the host is the default, and that of each peer is no larger. -/
structure MtuBounded (host : Host) : Prop where
  default : host.mtu = hostDefaultMtu
  minimum : ∀ index, protocolMinimumMtu ≤ (host.peers index).mtu
  maximum : ∀ index, (host.peers index).mtu ≤ hostDefaultMtu

namespace MtuBounded

variable {host host' : Host}

/-- The mtu of a peer changes with its connection only. -/
theorem adjusts {peer peer' : Peer} (known : host.mtu = hostDefaultMtu)
    (adjusts : peer.Adjusts host peer')
    (bounded : protocolMinimumMtu ≤ peer.mtu ∧ peer.mtu ≤ hostDefaultMtu) :
    protocolMinimumMtu ≤ peer'.mtu ∧ peer'.mtu ≤ hostDefaultMtu := by
  cases adjusts with
  | kept same =>
      rw [show peer'.mtu = peer.mtu from congrArg Settings.mtu same]
      exact bounded
  | moved moves =>
      rw [moves.alike.mtu]
      exact bounded
  | reset same =>
      rw [show peer'.mtu = host.mtu from congrArg Settings.mtu same, known]
      decide
  | connecting address channelCount connectID =>
      rw [show (host.connectingPeer peer address channelCount connectID).mtu = host.mtu from rfl,
        known]
      decide
  | accepted fields =>
      obtain ⟨minimum, maximum⟩ := Peer.clampMtu_bounds fields.mtu
      rw [show (host.acceptedPeer peer fields).mtu =
        if Peer.clampMtu fields.mtu < host.mtu then Peer.clampMtu fields.mtu else host.mtu from rfl,
        known]
      simp only [protocolMinimumMtu, hostDefaultMtu] at minimum ⊢
      split <;> omega
  | verified fields =>
      obtain ⟨minimum, maximum⟩ := Peer.clampMtu_bounds fields.mtu
      rw [show (Host.verifiedPeer peer fields).mtu =
        if Peer.clampMtu fields.mtu < peer.mtu then Peer.clampMtu fields.mtu else peer.mtu from rfl]
      split <;> omega
  | bandwidth incomingBandwidth outgoingBandwidth => exact bounded

theorem maintained : MaintainedUnder KeepsMtu fun host _ => MtuBounded host := by
  refine Adjusted.maintained ?_ ?_
  · intro host host' adjusted bounded
    have bounds := fun index =>
      adjusts bounded.default (adjusted.peers index) ⟨bounded.minimum index, bounded.maximum index⟩
    have mtu : host'.mtu = host.mtu := congrArg Prod.fst adjusted.settings
    exact ⟨mtu.trans bounded.default, fun index => (bounds index).1, fun index => (bounds index).2⟩
  · intro host mtu duplicatePeers maximumPacketSize maximumWaitingData checksum compressor keeps
      bounded
    exact ⟨keeps.trans bounded.default, bounded.minimum, bounded.maximum⟩

theorem visited {activity : Activity} (visited : VisitedUnder KeepsMtu activity) :
    MtuBounded activity.1 :=
  maintained.visitedUnder KeepsMtu.lasting
    (fun _ _ _ _ _ _ _ => ⟨rfl, fun _ => (by decide : protocolMinimumMtu ≤ hostDefaultMtu),
      fun _ => Nat.le_refl _⟩) visited

end MtuBounded

/-! ## All ranges -/

/-- The ranges of the throttle and of the window, with what they are multiplied to. -/
structure Peer.ThrottleRanged (peer : Peer) : Prop where
  throttle : peer.packetThrottle ≤ peer.packetThrottleLimit
  limit : peer.packetThrottleLimit ≤ peerPacketThrottleScale
  windowMinimum : protocolMinimumWindowSize ≤ peer.windowSize
  windowMaximum : peer.windowSize ≤ protocolMaximumWindowSize
  product : peer.packetThrottle * peer.windowSize < 4294967296

/-- The range of the mtu of a peer, with that of the fragments it is sent. -/
structure Host.MtuRanged (host : Host) (index : Nat) : Prop where
  minimum : protocolMinimumMtu ≤ (host.peers index).mtu
  maximum : (host.peers index).mtu ≤ host.mtu
  fragments : 0 < host.fragmentLength index ∧ host.fragmentLength index < 65536

theorem Settings.Paced.throttleRanged {peer : Peer} (paced : peer.settings.Paced) :
    peer.ThrottleRanged := by
  refine ⟨paced.throttled, paced.limited, paced.windowMinimum, paced.windowMaximum, ?_⟩
  have throttle : peer.packetThrottle ≤ 32 := Nat.le_trans paced.throttled paced.limited
  have window : peer.windowSize ≤ 65536 := paced.windowMaximum
  exact Nat.lt_of_le_of_lt (Nat.mul_le_mul throttle window) (by decide)

theorem MtuBounded.mtuRanged {host : Host} (bounded : MtuBounded host) (index : Nat) :
    host.MtuRanged index := by
  have minimum := bounded.minimum index
  have maximum := bounded.maximum index
  refine ⟨minimum, ?_, ?_⟩
  · rw [bounded.default]
    exact maximum
  · simp only [protocolMinimumMtu, hostDefaultMtu] at minimum maximum
    have header : sub64 (host.peers index).mtu (4 + 24) = (host.peers index).mtu - 28 :=
      sub64_of_le (by omega)
    unfold Host.fragmentLength
    dsimp only
    rw [header]
    split
    · rw [sub64_of_le (by omega)]
      omega
    · omega

/-- **The throttle and the window stay in their ranges whatever is received and
configured, and so does the mtu where the application leaves that of the host
alone.** -/
theorem settings_ranged :
    (∀ activity index, Visited activity → (activity.1.peers index).ThrottleRanged) ∧
      ∀ activity index, VisitedUnder KeepsMtu activity → activity.1.MtuRanged index :=
  ⟨fun _ index visited => (Paced.visited visited index).throttleRanged,
    fun _ index visited => (MtuBounded.visited visited).mtuRanged index⟩

/-- Datagrams to a host: a CONNECT command with parameters out of range, the acknowledgement
of its answer, a THROTTLE_CONFIGURE command, and the acknowledgement of a ping. -/
def tuningDatagrams : List (Address × List UInt8) :=
  let source : Address := ⟨7, 9⟩
  let request : Protocol :=
    { command :=
        .connect
          { outgoingPeerID := 0
            incomingSessionID := 0xFF
            outgoingSessionID := 0xFF
            mtu := 3
            windowSize := 0xFFFFFFFF
            channelCount := 1
            incomingBandwidth := 1
            outgoingBandwidth := 1
            packetThrottleInterval := 0xFFFFFFFF
            packetThrottleAcceleration := 0xFFFFFFFF
            packetThrottleDeceleration := 0xFFFFFFFF
            connectID := 77
            data := 0 }
      acknowledge := true
      unsequenced := false
      channelID := 0xFF
      reliableSequenceNumber := 1 }
  let configure : Protocol := ⟨.throttleConfigure 0 0xFFFFFFFF 0xFFFFFFFF, true, false, 0xFF, 2⟩
  let acknowledge (number : Nat) : Protocol := ⟨.acknowledge number 1, false, false, 0xFF, 0⟩
  [(source, [0x0F, 0xFF] ++ request.encode), (source, []),
    (source, [0, 0] ++ (acknowledge 1).encode), (source, [0x80, 0, 0, 1] ++ configure.encode),
    (source, []), (source, [0, 0] ++ (acknowledge 2).encode)]

/-- A new host that is to serve them. -/
def tuningHost : Host := .create .ample (.delivering (fun _ => 100) tuningDatagrams) 0 1 1 0 0

/-- The calls that it serves them with. -/
def tuningCalls : List Host.Call :=
  [.service (some noEvent) 0, .service (some noEvent) 0, .service (some noEvent) 0, .ping 0,
    .service (some noEvent) 0]

/-- The mtu and the window are clamped, and the throttle moves down as the acceleration
wraps around. -/
theorem settings_ranged_tuned :
    ∃ host, calledHost tuningHost tuningCalls = some host ∧
      (host.peers 0).packetThrottleAcceleration = 0xFFFFFFFF ∧
      (host.peers 0).packetThrottle = 31 ∧ (host.peers 0).windowSize = 4096 ∧
      (host.peers 0).mtu = 576 ∧ (host.peers 0).ThrottleRanged ∧ host.MtuRanged 0 := by
  have evaluated : (calledHost tuningHost tuningCalls).map (fun host =>
      ((host.peers 0).packetThrottleAcceleration, (host.peers 0).packetThrottle,
        (host.peers 0).windowSize, (host.peers 0).mtu)) = some (0xFFFFFFFF, 31, 4096, 576) := by
    decide +kernel
  obtain ⟨host, called, same⟩ := Option.map_eq_some_iff.mp evaluated
  simp only [Prod.mk.injEq] at same
  obtain ⟨acceleration, throttle, window, mtu⟩ := same
  have reachable : Host.Reachable host := calledHost_reachable (.create ..) called
  have calls : CallsUnder KeepsMtu tuningHost host :=
    calledHost_calls .refl (by simp [tuningCalls, Host.Call.Asks]) called
  exact ⟨host, called, acceleration, throttle, window, mtu,
    settings_ranged.1 (host, none) 0 (.of_reachable reachable rfl),
    settings_ranged.2 (host, none) 0 ⟨host, none, calls.reaches (.create ..), rfl, .refl⟩⟩

/-- Where the application lowers the mtu of the host, a connection has one out of range. -/
theorem settings_not_ranged :
    ¬∀ activity index, Visited activity →
      (activity.1.peers index).ThrottleRanged ∧ activity.1.MtuRanged index := by
  intro always
  have evaluated : (calledHost
      (.create .ample (.delivering (fun _ => 1) connectDatagrams) 0 1 1 0 0)
      [.configure 100 1 8 8 none none, .service (some noEvent) 0, .service (some noEvent) 0]).map
        (fun host => ((host.peers 0).state, (host.peers 0).mtu)) = some (.connected, 100) := by
    decide +kernel
  obtain ⟨host, called, same⟩ := Option.map_eq_some_iff.mp evaluated
  have reachable : Host.Reachable host := calledHost_reachable (.create ..) called
  have minimum := (always (host, none) 0 (.of_reachable reachable rfl)).2.minimum
  rw [show (host.peers 0).mtu = 100 from congrArg Prod.snd same] at minimum
  exact absurd minimum (by decide)

end Enet
