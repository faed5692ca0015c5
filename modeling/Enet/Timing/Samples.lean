import Mathlib.Data.Nat.Bitwise
import Enet.Timing.Throttle

/-!
# Round-trip times

An acknowledgement carries the lower half of the time at which its command was
sent. The upper half is that of the clock, with a borrow where bit 15 says that
the clock has passed a multiple of 65536 since. Samples below 65536 are
reconstructed, or come out in the future and are ignored; they are averaged
without an underflow.
-/

set_option autoImplicit false

namespace Enet

/-! ## The sent time -/

theorem or_and_upperHalf {serviceTime low : Nat} (clock : serviceTime < 4294967296)
    (half : low < 65536) :
    low ||| (serviceTime &&& 0xFFFF0000) = serviceTime / 65536 * 65536 + low := by
  have upper : serviceTime &&& 0xFFFF0000 = (serviceTime / 65536) <<< 16 := by
    have mask : 0xFFFF0000 = (2 ^ 16 - 1) <<< 16 := rfl
    refine Nat.eq_of_testBit_eq fun place => ?_
    rw [mask, Nat.testBit_and, Nat.testBit_shiftLeft, Nat.testBit_shiftLeft,
      Nat.testBit_two_pow_sub_one, show 65536 = 2 ^ 16 from rfl, Nat.testBit_div_two_pow]
    by_cases above : 16 ≤ place
    · rw [Nat.sub_add_cancel above]
      by_cases inside : place < 32
      · simp [above, show place - 16 < 16 by omega]
      · have small : serviceTime < 2 ^ place :=
          Nat.lt_of_lt_of_le clock (Nat.pow_le_pow_right Nat.two_pos (Nat.le_of_not_lt inside))
        simp [Nat.testBit_lt_two_pow small]
    · simp [above]
  rw [upper, Nat.or_comm, ← Nat.shiftLeft_add_eq_or_of_lt half, Nat.shiftLeft_eq]

theorem and_bit15 (time : Nat) : time &&& 0x8000 = if 32768 ≤ time % 65536 then 0x8000 else 0 := by
  rw [show 0x8000 = 2 ^ 15 from rfl, Nat.and_two_pow, Nat.testBit_eq_decide_div_mod_eq]
  by_cases set : time / 2 ^ 15 % 2 = 1
  · rw [decide_eq_true set, if_pos (by omega)]
    rfl
  · rw [decide_eq_false set, if_neg (by omega)]
    rfl

/-- The sent time is the clock's upper half with the lower half received, 65536
earlier where bit 15 of the clock alone is clear. -/
theorem Host.receivedSentTime_eq {serviceTime low : Nat} (clock : serviceTime < 4294967296)
    (half : low < 65536) :
    receivedSentTime serviceTime low =
      if serviceTime % 65536 < 32768 ∧ 32768 ≤ low then
        sub32 (serviceTime / 65536 * 65536 + low) 65536
      else serviceTime / 65536 * 65536 + low := by
  have lower : (serviceTime / 65536 * 65536 + low) % 65536 = low := by omega
  unfold receivedSentTime
  dsimp only
  rw [or_and_upperHalf clock half, and_bit15, and_bit15, lower]
  refine if_congr ?_ rfl rfl
  split
  · split <;> omega
  · split <;> omega

/-- **A sent time less than 65536 before the clock is reconstructed, or comes out
in the future.** -/
theorem Host.sub32_receivedSentTime {serviceTime sentTime : Nat}
    (clock : serviceTime < 4294967296) (sent : sentTime < 4294967296)
    (near : sub32 serviceTime sentTime < 65536) :
    sub32 serviceTime (receivedSentTime serviceTime (u16 sentTime)) =
        sub32 serviceTime sentTime ∨
      32768 < sub32 serviceTime sentTime ∧
        timeOverflow ≤ sub32 serviceTime (receivedSentTime serviceTime (u16 sentTime)) := by
  rw [receivedSentTime_eq clock (Nat.mod_lt _ (by decide))]
  by_cases borrows : serviceTime % 65536 < 32768 ∧ 32768 ≤ sentTime % 65536
  · rw [if_pos borrows]
    left
    unfold sub32 at near ⊢
    split at near
    · split
      · split <;> omega
      · omega
    · split
      · split <;> omega
      · split <;> omega
  · rw [if_neg borrows]
    unfold sub32 at near ⊢
    simp only [timeOverflow]
    split at near
    · split <;> omega
    · split <;> omega

/-! ## Acknowledgements -/

namespace Host

/-- What `enet_protocol_handle_acknowledge` does once it knows the round-trip time. -/
def acknowledgeWithin (host : Host) (event : Option Event)
    (index channelID received roundTripTime : Nat) : Host × Option Event × Bool :=
  let removed :=
    (host.setPeer index
      ((host.peers index).updateRoundTripTime host.serviceTime
        roundTripTime)).removeSentReliableCommand index received channelID
  removed.1.settleAcknowledge event index removed.2

/-- The acknowledgement of a command sent at a time less than 65536 before the
clock is ignored, or measures the time between. -/
structure Measures (host : Host) (event : Option Event) (index channelID received sentTime : Nat) :
    Prop where
  exact :
    host.handleAcknowledge event index channelID received (u16 sentTime) = (host, event, false) ∨
      host.handleAcknowledge event index channelID received (u16 sentTime) =
        host.acknowledgeWithin event index channelID received
          (max (sub32 host.serviceTime sentTime) 1)
  taken : sub32 host.serviceTime sentTime ≤ 32768 → (host.peers index).state ≠ .disconnected →
    (host.peers index).state ≠ .zombie →
    host.handleAcknowledge event index channelID received (u16 sentTime) =
      host.acknowledgeWithin event index channelID received
        (max (sub32 host.serviceTime sentTime) 1)

theorem handleAcknowledge_measures {host : Host} {sentTime : Nat}
    (clock : host.serviceTime < 4294967296) (sent : sentTime < 4294967296)
    (near : sub32 host.serviceTime sentTime < 65536) (event : Option Event)
    (index channelID received : Nat) :
    host.Measures event index channelID received sentTime := by
  have cases := sub32_receivedSentTime clock sent near
  generalize restored : receivedSentTime host.serviceTime (u16 sentTime) = sentAt at cases
  have handles : ∀ free : ¬((host.peers index).state = .disconnected ∨
      (host.peers index).state = .zombie),
      host.handleAcknowledge event index channelID received (u16 sentTime) =
        if timeLess host.serviceTime sentAt then (host, event, false)
        else host.acknowledgeWithin event index channelID received
          (max (timeDifference host.serviceTime sentAt) 1) := by
    intro free
    unfold handleAcknowledge
    dsimp only
    rw [if_neg free, restored]
    rfl
  have measured : sub32 host.serviceTime sentAt = sub32 host.serviceTime sentTime →
      timeLess host.serviceTime sentAt = false ∧
        timeDifference host.serviceTime sentAt = sub32 host.serviceTime sentTime := by
    intro same
    have recent : ¬ timeOverflow ≤ sub32 host.serviceTime sentAt := by
      rw [same]
      simp only [timeOverflow]
      omega
    refine ⟨decide_eq_false recent, ?_⟩
    unfold timeDifference
    rw [if_neg recent, same]
  by_cases free : (host.peers index).state = .disconnected ∨ (host.peers index).state = .zombie
  · refine ⟨.inl ?_, fun _ used live => (free.elim used live).elim⟩
    unfold handleAcknowledge
    dsimp only
    rw [if_pos free]
  · rcases cases with same | ⟨far, future⟩
    · obtain ⟨past, difference⟩ := measured same
      have takes := handles free
      rw [past, if_neg Bool.false_ne_true, difference] at takes
      exact ⟨.inr takes, fun _ _ _ => takes⟩
    · have ignores := handles free
      rw [show timeLess host.serviceTime sentAt = true from decide_eq_true future, if_pos rfl]
        at ignores
      exact ⟨.inl ignores, fun below => absurd below (Nat.not_le.mpr far)⟩

end Host

/-! ## The average -/

/-- A subtraction that must not underflow. -/
def checkedSub (a b : Nat) : Option Nat := if b ≤ a then some (a - b) else none

theorem checkedSub_of_le {a b : Nat} (fits : b ≤ a) : checkedSub a b = some (a - b) := if_pos fits

namespace Peer

/-- `averageRoundTripTime` with its subtractions checked. -/
def averageRoundTripTimeChecked (peer : Peer) (roundTripTime : Nat) : Option Peer :=
  if 0 < peer.lastReceiveTime then do
    let peer := peer.throttle roundTripTime
    let variance ← checkedSub peer.roundTripTimeVariance (peer.roundTripTimeVariance / 4)
    if peer.roundTripTime ≤ roundTripTime then
      let diff ← checkedSub roundTripTime peer.roundTripTime
      some { peer with
        roundTripTimeVariance := u32 (variance + diff / 4)
        roundTripTime := u32 (peer.roundTripTime + diff / 8) }
    else
      let diff ← checkedSub peer.roundTripTime roundTripTime
      let average ← checkedSub peer.roundTripTime (diff / 8)
      some { peer with
        roundTripTimeVariance := u32 (variance + diff / 4)
        roundTripTime := average }
  else
    some { peer with
      roundTripTime := roundTripTime
      roundTripTimeVariance := u32 (roundTripTime + 1) / 2 }

/-- No subtraction of the averages underflows. -/
theorem averageRoundTripTimeChecked_eq (peer : Peer) (roundTripTime : Nat) :
    peer.averageRoundTripTimeChecked roundTripTime =
      some (peer.averageRoundTripTime roundTripTime) := by
  unfold averageRoundTripTimeChecked averageRoundTripTime
  split
  · generalize peer.throttle roundTripTime = throttled
    dsimp only
    rw [checkedSub_of_le (Nat.div_le_self _ 4)]
    by_cases above : throttled.roundTripTime ≤ roundTripTime
    · simp only [Option.bind_eq_bind, Option.bind_some, above, if_true, checkedSub_of_le]
    · have below : roundTripTime ≤ throttled.roundTripTime := Nat.le_of_not_le above
      have eighth : (throttled.roundTripTime - roundTripTime) / 8 ≤ throttled.roundTripTime := by
        omega
      simp only [Option.bind_eq_bind, Option.bind_some, above, if_false, checkedSub_of_le below,
        checkedSub_of_le eighth]
  · rfl

/-- What a sample does to the average: the first one replaces it, a later one moves
it towards itself, and no subtraction underflows. -/
structure Smooths (peer : Peer) (serviceTime sample : Nat) : Prop where
  first : peer.lastReceiveTime = 0 →
    (peer.updateRoundTripTime serviceTime sample).roundTripTime = sample
  between :
    min peer.roundTripTime sample ≤
        (peer.updateRoundTripTime serviceTime sample).roundTripTime ∧
      (peer.updateRoundTripTime serviceTime sample).roundTripTime ≤
        max peer.roundTripTime sample
  subtractions :
    peer.averageRoundTripTimeChecked sample = some (peer.averageRoundTripTime sample)

theorem smooths {peer : Peer} {sample : Nat} (representable : peer.roundTripTime < 4294967296)
    (bounded : sample < 4294967296) (serviceTime : Nat) : peer.Smooths serviceTime sample := by
  have same : (peer.updateRoundTripTime serviceTime sample).roundTripTime =
      (peer.averageRoundTripTime sample).roundTripTime :=
    congrArg Settings.roundTripTime (peer.updateRoundTripTime_settings serviceTime sample)
  refine ⟨fun none => ?_, ?_, averageRoundTripTimeChecked_eq peer sample⟩
  · rw [same]
    unfold averageRoundTripTime
    rw [if_neg (by omega)]
  · rw [same]
    exact averageRoundTripTime_bounds peer representable bounded

end Peer

/-- **Round-trip times are measured exactly, or not at all, and averaged between
the samples.** -/
theorem roundTripTimes_measured :
    (∀ (host : Host) (event : Option Event) (index channelID received sentTime : Nat),
      host.serviceTime < 4294967296 → sentTime < 4294967296 →
        sub32 host.serviceTime sentTime < 65536 →
        host.Measures event index channelID received sentTime) ∧
    ∀ activity index, Visited activity →
      0 < (activity.1.peers index).roundTripTime ∧
        ∀ serviceTime sample, sample < 4294967296 →
          (activity.1.peers index).Smooths serviceTime sample := by
  refine ⟨fun host event index channelID received sentTime clock sent near =>
    Host.handleAcknowledge_measures clock sent near event index channelID received, ?_⟩
  intro activity index visited
  have paced := Paced.visited visited index
  exact ⟨paced.sampled, fun serviceTime sample bounded =>
    Peer.smooths paced.representable bounded serviceTime⟩

/-- A new host whose clock stands past a multiple of 65536, with a peer in some state. -/
def clockedHost (state : PeerState) : Host :=
  let host := Host.create .ample (.delivering (fun _ => 65541) []) 0 1 1 0 0
  (host.setPeer 0 ((host.peers 0).setState state)).setServiceTime

/-- A host with a peer whose first round trip took 100 milliseconds. -/
def sampledHost : Option Host :=
  calledHost
    (.create .ample (.delivering (fun call => [1, 101].getD call 101) connectDatagrams) 0 1 1 0 0)
    [.service (some noEvent) 0, .service (some noEvent) 0]

/-- A sample eleven milliseconds old is measured across a multiple of 65536, and a second
sample of 250 moves an average of 100 by an eighth of the difference. -/
theorem roundTripTimes_measured_clocked :
    (clockedHost .connected).Measures none 0 0xFF 1 65530 ∧
      ∃ host, sampledHost = some host ∧ (host.peers 0).lastReceiveTime = 101 ∧
        (host.peers 0).roundTripTime = 100 ∧
        ((host.peers 0).updateRoundTripTime 351 250).roundTripTime = 118 ∧
        (host.peers 0).Smooths 351 250 := by
  refine ⟨roundTripTimes_measured.1 (clockedHost .connected) none 0 0xFF 1 65530 (by decide)
    (by decide) (by decide), ?_⟩
  have evaluated : sampledHost.map (fun host =>
      ((host.peers 0).lastReceiveTime, (host.peers 0).roundTripTime,
        ((host.peers 0).updateRoundTripTime 351 250).roundTripTime)) = some (101, 100, 118) := by
    decide +kernel
  obtain ⟨host, called, same⟩ := Option.map_eq_some_iff.mp evaluated
  rw [Prod.mk.injEq, Prod.mk.injEq] at same
  exact ⟨host, called, same.1, same.2.1, same.2.2,
    (roundTripTimes_measured.2 (host, none) 0
      (.of_reachable (calledHost_reachable (.create ..) called) rfl)).2 351 250 (by decide)⟩

/-- A peer that is gone ignores an acknowledgement of a command sent eleven
milliseconds before. -/
theorem zombie_ignores :
    sub32 (clockedHost .zombie).serviceTime 65530 ≤ 32768 ∧
      (clockedHost .zombie).handleAcknowledge none 0 0xFF 1 (u16 65530) =
        (clockedHost .zombie, none, false) ∧
      (clockedHost .zombie).handleAcknowledge none 0 0xFF 1 (u16 65530) ≠
        (clockedHost .zombie).acknowledgeWithin none 0 0xFF 1
          (max (sub32 (clockedHost .zombie).serviceTime 65530) 1) := by
  have ignores : (clockedHost .zombie).handleAcknowledge none 0 0xFF 1 (u16 65530) =
      (clockedHost .zombie, none, false) := by
    unfold Host.handleAcknowledge
    dsimp only
    rw [if_pos (.inr rfl)]
  refine ⟨by decide +kernel, ignores, fun same => ?_⟩
  rw [ignores] at same
  have moved := congrArg (fun result => (result.1.peers 0).roundTripTime) same
  exact absurd moved (by decide +kernel)

end Enet
