import Enet.Runs.Steps

/-!
# Calls are runs

Each function of the service loop is a sequence of steps, and what it returns
says whether an event was stored. So is every call.
-/

set_option autoImplicit false

namespace Enet

open Relation

variable {May : Host → Request → Prop}

/-! ## Stages of a call -/

/-- A stage of a call is a run, and it returns one exactly where an event is stored. -/
structure Served (May : Host → Request → Prop) (host : Host) (event : Option Event)
    (result : Host × Option Event × Int) : Prop where
  run : RunUnder May (host, event) (result.1, result.2.1)
  stored : Host.isStored result.2.1 = true ↔ result.2.2 = 1

namespace Served

/-- A stage that stores nothing and returns something else than one. -/
theorem of_run {host host' : Host} {event event' : Option Event} {value : Int}
    (run : RunUnder May (host, event) (host', event')) (fresh : Host.isStored event' = false)
    (other : value ≠ 1) : Served May host event (host', event', value) :=
  ⟨run, by simp [fresh, other]⟩

theorem fresh {host : Host} {event : Option Event} {result : Host × Option Event × Int}
    (served : Served May host event result) (other : result.2.2 ≠ 1) :
    Host.isStored result.2.1 = false := by
  cases stored : Host.isStored result.2.1 with
  | false => rfl
  | true => exact absurd (served.stored.mp stored) other

/-- A stage that runs after another one that returned zero. -/
theorem andThen {host : Host} {event : Option Event} {before : Option (Host × Option Event × Int)}
    {stage : Host → Option Event → Option (Host × Option Event × Int)}
    {result : Host × Option Event × Int}
    (serves : ∀ result, before = some result → Served May host event result)
    (goesOn : ∀ host' event' result, Host.isStored event' = false →
      stage host' event' = some result → Served May host' event' result)
    (returns : Host.andThen before stage = some result) : Served May host event result := by
  obtain ⟨middle, first, second⟩ := Option.bind_eq_some_iff.mp returns
  have served := serves middle first
  by_cases zero : middle.2.2 = 0
  · rw [if_pos zero] at second
    have rest := goesOn _ _ result (served.fresh (by simp [zero])) second
    exact ⟨served.run.trans rest.run, rest.stored⟩
  · rw [if_neg zero] at second
    cases second
    exact served

end Served

/-! ## Sending -/

/-- A turn of a peer in `enet_protocol_send_outgoing_commands`. -/
structure Turned (May : Host → Request → Prop) (host : Host) (event : Option Event)
    (result : Host × Option Event × Host.Turn) : Prop where
  run : RunUnder May (host, event) (result.1, result.2.1)
  stored : Host.isStored result.2.1 = true ↔ result.2.2 = .return 1

theorem sendFilled_run (host : Host) (event : Option Event) (index : Nat) :
    Sends host (host.sendFilled event index).1 ∧
      (host.sendFilled event index).2.1 = event ∧
      (host.sendFilled event index).2.2 ≠ .return 1 := by
  have fills := SendRun.fillDatagram host index
  unfold Host.sendFilled
  dsimp only
  split
  next empty =>
      rw [Host.fillDatagram_sentUnreliable empty] at fills
      exact ⟨fills, rfl, by simp⟩
  · have sends := SendRun.sendDatagram (host.fillDatagram index).1 index (host.fillDatagram index).2
    split
    next sent => rw [sent] at sends; exact ⟨fills.trans sends, rfl, by simp⟩
    next sent => rw [sent] at sends; exact ⟨fills.trans sends, rfl, by simp⟩

theorem turned_of_sends {host host' : Host} {event : Option Event} {turn : Host.Turn}
    (sends : Sends host host') (fresh : Host.isStored event = false) (other : turn ≠ .return 1) :
    Turned May host event (host', event, turn) :=
  ⟨sends.run event, by simp [fresh, other]⟩

theorem checkTimeouts_given_up {host : Host} {index : Nat} {event : Option Event}
    (kept : (host.checkTimeouts index event).2.2 = false) :
    (host.checkTimeouts index event).2.1 = event := by
  unfold Host.checkTimeouts at kept ⊢
  dsimp only at kept ⊢
  split
  · rename_i given
    rw [if_pos given] at kept
    exact absurd kept (by simp)
  · rfl

theorem checkDueTimeouts_run (host : Host) {event : Option Event}
    (fresh : Host.isStored event = false) (checkForTimeouts : Bool) (index : Nat) :
    RunUnder May (host, event) ((host.checkDueTimeouts event checkForTimeouts index).1,
        (host.checkDueTimeouts event checkForTimeouts index).2.1) ∧
      ((host.checkDueTimeouts event checkForTimeouts index).2.2 = false →
        (host.checkDueTimeouts event checkForTimeouts index).2.1 = event) := by
  unfold Host.checkDueTimeouts
  dsimp only
  split
  · exact ⟨.single (.timeouts _ event index fresh), checkTimeouts_given_up⟩
  · exact ⟨.refl, fun _ => rfl⟩

theorem sendPeer_turned (host : Host) {event : Option Event} (fresh : Host.isStored event = false)
    (checkForTimeouts : Bool) (sendPass index : Nat) :
    Turned May host event (host.sendPeer event checkForTimeouts sendPass index) := by
  obtain ⟨checks, same⟩ :=
    checkDueTimeouts_run (host.startDatagram index) fresh checkForTimeouts index
  unfold Host.sendPeer
  dsimp only
  split
  · exact turned_of_sends .refl fresh (by simp)
  next served =>
    have starts : RunUnder May (host, event) (host.startDatagram index, event) :=
      Sends.run (.single (.startDatagram host index fun free => served (.inl free))) event
    split
    · refine ⟨starts.trans checks, ?_⟩
      dsimp only
      split
      next stored => simp [stored]
      next stored => simp [stored]
    next going =>
        have kept := same (by simpa using going)
        rw [kept] at checks ⊢
        obtain ⟨fills, unchanged, other⟩ := sendFilled_run
          ((host.startDatagram index).checkDueTimeouts event checkForTimeouts index).1 event index
        refine ⟨(starts.trans checks).trans ?_, ?_⟩
        · rw [unchanged]
          exact fills.run event
        · simp [unchanged, fresh, other]

theorem sendPeers_turned (checkForTimeouts : Bool) (sendPass : Nat) (indices : List Nat) :
    ∀ (host : Host) (event : Option Event) (continueSending : Bool),
      Host.isStored event = false →
        Turned May host event
          ((Host.sendPeers checkForTimeouts sendPass indices host event continueSending).1,
            (Host.sendPeers checkForTimeouts sendPass indices host event continueSending).2.1,
            (Host.sendPeers checkForTimeouts sendPass indices host event
              continueSending).2.2.2) := by
  induction indices with
  | nil =>
      intro host event continueSending fresh
      exact turned_of_sends .refl fresh (by simp [Host.sendPeers])
  | cons index rest ih =>
      intro host event continueSending fresh
      have turned := @sendPeer_turned May host event fresh checkForTimeouts sendPass index
      have follow : ∀ (host' : Host) (event' : Option Event) (turn : Host.Turn) (more : Bool),
          Turned May host event (host', event', turn) → turn ≠ .return 1 →
          Turned May host event
            ((Host.sendPeers checkForTimeouts sendPass rest host' event' more).1,
              (Host.sendPeers checkForTimeouts sendPass rest host' event' more).2.1,
              (Host.sendPeers checkForTimeouts sendPass rest host' event' more).2.2.2) := by
        intro host' event' turn more turned other
        have fresh' : Host.isStored event' = false := by
          cases stored : Host.isStored event' with
          | false => rfl
          | true => exact absurd (turned.stored.mp stored) other
        have rests := ih host' event' more fresh'
        exact ⟨turned.run.trans rests.run, rests.stored⟩
      unfold Host.sendPeers
      split
      next stopped => rw [stopped] at turned; exact turned
      next skipped => rw [skipped] at turned; exact follow _ _ _ _ turned (by simp)
      next went => rw [went] at turned; exact follow _ _ _ _ turned (by simp)

theorem Turned.fresh {host : Host} {event : Option Event}
    {result : Host × Option Event × Host.Turn} (turned : Turned May host event result)
    (other : result.2.2 ≠ .return 1) : Host.isStored result.2.1 = false := by
  cases stored : Host.isStored result.2.1 with
  | false => rfl
  | true => exact absurd (turned.stored.mp stored) other

theorem sendPasses_served (checkForTimeouts : Bool) (fuel : Nat) :
    ∀ (sendPass : Nat) (host : Host) (event : Option Event) (result : Host × Option Event × Int),
      Host.isStored event = false →
      Host.sendPasses checkForTimeouts fuel sendPass host event = some result →
        Served May host event result := by
  induction fuel with
  | zero => intro sendPass host event result _ returns; cases returns
  | succ fuel ih =>
      intro sendPass host event result fresh returns
      have turned :=
        @sendPeers_turned May checkForTimeouts sendPass (List.range host.peerCount) host event false
          fresh
      unfold Host.sendPasses at returns
      split at returns
      next stopped =>
          rw [stopped] at turned
          cases returns
          exact ⟨turned.run, by rw [turned.stored]; simp⟩
      next again going =>
          rw [going] at turned
          have fresh' := turned.fresh (again 1)
          have rest := ih _ _ _ _ fresh' returns
          exact ⟨turned.run.trans rest.run, rest.stored⟩
      next again going =>
          rw [going] at turned
          have fresh' := turned.fresh (again 1)
          cases returns
          exact .of_run turned.run fresh' (by decide)

/-! ## Receiving -/

/-- What a step of the command loop stores is an event of its peer. -/
def Owned (event : Option Event) (peer : Option Nat) : Prop :=
  Host.isStored event = true → ∃ index, peer = some index ∧ event.bind Event.peer = some index

theorem Owned.current {event : Option Event} {index : Nat} (owned : Owned event (some index)) :
    Current event index := by
  intro stored
  obtain ⟨other, same, about⟩ := owned stored
  cases same
  exact about

theorem Owned.fresh {event : Option Event} (owned : Owned event none) :
    Host.isStored event = false := by
  cases stored : Host.isStored event with
  | false => rfl
  | true =>
      obtain ⟨index, same, -⟩ := owned stored
      cases same

theorem Owned.of_current {event : Option Event} {index : Nat} (current : Current event index) :
    Owned event (some index) :=
  fun stored => ⟨index, rfl, current stored⟩

theorem Owned.of_fresh {event : Option Event} (fresh : Host.isStored event = false)
    (peer : Option Nat) : Owned event peer := by
  intro stored
  rw [fresh] at stored
  exact absurd stored (by decide)

theorem notifyConnect_current {host : Host} {index : Nat} {event : Option Event}
    (current : Current event index) : Current (host.notifyConnect index event).2 index := by
  cases event with
  | none => exact current
  | some event => exact fun _ => rfl

theorem notifyDisconnect_current {host : Host} {index : Nat} {event : Option Event}
    (current : Current event index) : Current (host.notifyDisconnect index event).2 index := by
  unfold Host.notifyDisconnect
  dsimp only
  split
  · exact current
  · cases event with
    | none => exact current
    | some event => exact fun _ => rfl

theorem settleAcknowledge_current {host : Host} {index commandNumber : Nat} {event : Option Event}
    (current : Current event index) :
    Current (host.settleAcknowledge event index commandNumber).2.1 index := by
  unfold Host.settleAcknowledge
  split
  · split
    · exact current
    · exact notifyConnect_current current
  · split
    · exact current
    · exact notifyDisconnect_current current
  · split
    · exact current
    · exact current
  · exact current

theorem handleCommand_current (host : Host) {index : Nat} {event : Option Event}
    (command : Protocol) (data : List UInt8) (current : Current event index) :
    Current (host.handleCommand event index command data).2.1 index := by
  unfold Host.handleCommand
  dsimp only
  split
  · unfold Host.handleAcknowledge
    dsimp only
    split
    · exact current
    · split
      · exact current
      · exact settleAcknowledge_current current
  · exact current
  · unfold Host.handleVerifyConnect
    dsimp only
    split
    · exact current
    · split
      · exact current
      · exact notifyConnect_current current
  all_goals exact current

theorem commandStep_current {host : Host} {index : Nat} {event : Option Event}
    (sentTime : Option Nat) (command : Protocol) (data : List UInt8)
    (current : Current event index) :
    Current (host.commandStep event index sentTime command data).2.1 index := by
  have handles := handleCommand_current (host.hear index command data sentTime.isSome) command data
    current
  unfold Host.commandStep
  dsimp only
  split
  next handled => rwa [handled] at handles
  next handled => rwa [handled] at handles

/-- A peer that has just been set up for a CONNECT command acknowledges nothing. -/
theorem acknowledgeStage_of_accepted {host : Host} {index : Nat} (command : Protocol)
    (sentTime : Option Nat) (accepted : (host.peers index).state = .acknowledgingConnect) :
    (host.acknowledgeStage index command sentTime).1 = host := by
  unfold Host.acknowledgeStage
  split
  · cases sentTime with
    | none => rfl
    | some time =>
        unfold Host.acknowledgeCommand
        rw [accepted]
  · rfl

theorem handleConnect_accepted {host host' : Host} {fields : Connect} {index : Nat}
    (accepts : host.handleConnect fields = (host', some index)) :
    (host'.peers index).state = .acknowledgingConnect := by
  unfold Host.handleConnect at accepts
  split at accepts
  · cases accepts
  · split at accepts
    · cases accepts
    · split at accepts
      · cases accepts
      · split at accepts
        · cases accepts
        · cases accepts
          rw [(Host.queueOutgoingCommand_sendingOnly ..).state, Host.setPeer_self]
          rfl

theorem incomingStep_run (host : Host) {event : Option Event} {peer : Option Nat}
    (sentTime : Option Nat) (bytes : List UInt8) (owned : Owned event peer) :
    RunUnder May (host, event) ((host.incomingStep event peer sentTime bytes).1,
        (host.incomingStep event peer sentTime bytes).2.1) ∧
      Owned (host.incomingStep event peer sentTime bytes).2.1
        (host.incomingStep event peer sentTime bytes).2.2.1 := by
  unfold Host.incomingStep
  split
  · exact ⟨.refl, owned⟩
  next command _ =>
      dsimp only
      cases peer with
      | none =>
          have fresh := owned.fresh
          dsimp only
          split
          next fields _ =>
              have accepts := @StepUnder.accept May host event fields fresh
              split
              next refused => rw [refused] at accepts; exact ⟨.single accepts, owned⟩
              next accepted =>
                  rw [accepted] at accepts
                  rw [acknowledgeStage_of_accepted command sentTime
                    (handleConnect_accepted accepted)]
                  exact ⟨.single accepts, .of_fresh fresh _⟩
          · exact ⟨.refl, owned⟩
      | some index =>
          have current := owned.current
          exact ⟨.single (.command host event index sentTime command _ current),
            .of_current (commandStep_current sentTime command _ current)⟩

theorem incomingLoop_run (fuel : Nat) : ∀ (host : Host) (event : Option Event)
    (peer sentTime : Option Nat) (bytes : List UInt8), Owned event peer →
      RunUnder May (host, event) (Host.incomingLoop fuel host event peer sentTime bytes) := by
  induction fuel with
  | zero => intro host event peer sentTime bytes _; exact .refl
  | succ fuel ih =>
      intro host event peer sentTime bytes owned
      obtain ⟨steps, owned'⟩ := incomingStep_run host sentTime bytes owned
      unfold Host.incomingLoop
      split
      · exact .refl
      · split
        next stepped => rwa [stepped] at steps
        next stepped =>
            rw [stepped] at steps owned'
            exact steps.trans (ih _ _ _ _ _ owned')

theorem handleIncomingCommands_served (host : Host) {event : Option Event}
    (fresh : Host.isStored event = false) :
    Served May host event (host.handleIncomingCommands event) := by
  unfold Host.handleIncomingCommands
  split
  · exact .of_run .refl fresh (by decide)
  next opened opens =>
      have notes := @Quiet.run May _ _ (.noteDatagram opens) event
      have loops := @incomingLoop_run May opened.bytes.length (host.noteDatagram opened) event
        opened.peer opened.sentTime (opened.bytes.drop opened.headerSize) (.of_fresh fresh _)
      refine ⟨notes.trans loops, ?_⟩
      dsimp only
      split
      next stored => simp [stored]
      next stored => simp [stored]

theorem receiveIncomingCommands_served (packets : Nat) : ∀ (host : Host) (event : Option Event),
    Host.isStored event = false →
      Served May host event (Host.receiveIncomingCommands packets host event) := by
  induction packets with
  | zero => intro host event fresh; exact .of_run .refl fresh (by decide)
  | succ packets ih =>
      intro host event fresh
      have counts : Quiet host host.countReceive := .of_same rfl rfl rfl rfl rfl rfl rfl rfl
      unfold Host.receiveIncomingCommands
      dsimp only
      split
      · exact .of_run (counts.run event) fresh (by decide)
      · exact .of_run (counts.run event) fresh (by decide)
      next source bytes received =>
          have reads : Quiet host (host.countReceive.setReceivedAddress source) :=
            counts.trans (.setReceivedAddress _ ⟨_, bytes, received⟩)
          split
          · exact .of_run (reads.run event) fresh (by decide)
          · have receives : Quiet host
                ((host.countReceive.setReceivedAddress source).countReceived bytes) :=
              reads.trans (.of_same rfl rfl rfl rfl rfl rfl rfl rfl)
            have handled := @handleIncomingCommands_served May
              ((host.countReceive.setReceivedAddress source).countReceived bytes) event fresh
            split
            · exact ⟨(receives.run event).trans handled.run, handled.stored⟩
            next other =>
                have rest :=
                  ih (((host.countReceive.setReceivedAddress source).countReceived
                    bytes).handleIncomingCommands event).1 _ (handled.fresh other)
                exact ⟨((receives.run event).trans handled.run).trans rest.run, rest.stored⟩

/-! ## Dispatching -/

theorem dispatchTurn_stored (host : Host) (index : Nat) {event : Event}
    (fresh : Host.isStored (some event) = false) :
    Host.isStored (some (host.dispatchTurn index event).2.1) =
      (host.dispatchTurn index event).2.2 := by
  unfold Host.dispatchTurn
  dsimp only
  split
  · rfl
  · rfl
  · rfl
  · split
    · exact fresh
    · rfl
  · exact fresh

theorem dispatchIncomingCommands_served (fuel : Nat) : ∀ (host : Host) (event : Event)
    (result : Host × Event × Int), Host.isStored (some event) = false →
      Host.dispatchIncomingCommands fuel host event = some result →
        Served May host (some event) (result.1, some result.2.1, result.2.2) := by
  induction fuel with
  | zero => intro host event result _ returns; cases returns
  | succ fuel ih =>
      intro host event result fresh returns
      unfold Host.dispatchIncomingCommands at returns
      split at returns
      · cases returns
        exact .of_run .refl fresh (by simp)
      next index first =>
          have turn := @StepUnder.dispatch May host event index first fresh
          have stored := dispatchTurn_stored host index fresh
          split at returns
          next turned =>
              cases returns
              rw [turned] at turn stored
              exact ⟨.single turn, by simp [stored]⟩
          next turned =>
              rw [turned] at turn stored
              have rest := ih _ _ _ stored returns
              exact ⟨(ReflTransGen.single turn).trans rest.run, rest.stored⟩

theorem dispatchStage_served {fuel : Nat} {host : Host} {event : Option Event}
    {result : Host × Option Event × Int} (fresh : Host.isStored event = false)
    (returns : host.dispatchStage fuel event = some result) : Served May host event result := by
  cases event with
  | none => cases returns; exact .of_run .refl fresh (by simp)
  | some event =>
      obtain ⟨dispatched, dispatches, rfl⟩ := Option.map_eq_some_iff.mp returns
      exact dispatchIncomingCommands_served fuel host event dispatched fresh dispatches

theorem clearEvent_fresh (event : Option Event) :
    Host.isStored (event.map Host.clearEvent) = false := by
  cases event <;> rfl

/-! ## Service -/

/-- The throttle is on the scale of the limits. -/
theorem throttleOf_le (dataTotal bandwidth : Nat) :
    Host.throttleOf dataTotal bandwidth ≤ peerPacketThrottleScale := by
  unfold Host.throttleOf
  split
  · exact Nat.le_refl _
  next exceeded =>
      have wraps : u32 (bandwidth * peerPacketThrottleScale) ≤
          bandwidth * peerPacketThrottleScale := Nat.mod_le _ _
      refine Nat.div_le_of_le_mul (Nat.le_trans wraps ?_)
      exact Nat.mul_le_mul_right _ (Nat.le_of_not_le exceeded)

/-- So is the limit of a peer that would use more than its bandwidth. -/
theorem adjustedLimit_le {throttle outgoingDataTotal peerBandwidth : Nat}
    (scaled : throttle ≤ peerPacketThrottleScale)
    (exceeds : ¬ u32 (throttle * outgoingDataTotal) / peerPacketThrottleScale ≤ peerBandwidth) :
    u32 (peerBandwidth * peerPacketThrottleScale) / outgoingDataTotal ≤
      peerPacketThrottleScale := by
  have wraps : u32 (throttle * outgoingDataTotal) ≤ throttle * outgoingDataTotal := Nat.mod_le _ _
  have uses : throttle * outgoingDataTotal ≤ peerPacketThrottleScale * outgoingDataTotal :=
    Nat.mul_le_mul_right _ scaled
  have below : peerBandwidth < outgoingDataTotal := by
    simp only [peerPacketThrottleScale] at exceeds uses
    omega
  have wrapped : u32 (peerBandwidth * peerPacketThrottleScale) ≤
      peerBandwidth * peerPacketThrottleScale := Nat.mod_le _ _
  refine Nat.div_le_of_le_mul (Nat.le_trans wrapped ?_)
  exact Nat.mul_le_mul_right _ (Nat.le_of_lt below)

theorem adjustPeer_moves {timeCurrent elapsedTime throttle : Nat}
    (scaled : throttle ≤ peerPacketThrottleScale) (state : Host.Throttling)
    (adjusted index : Nat) :
    (state.peers index).Moves
      ((Host.adjustPeer timeCurrent elapsedTime throttle state adjusted).peers index) := by
  unfold Host.adjustPeer
  dsimp only
  split
  · exact .refl
  · split
    · exact .refl
    next exceeds =>
      by_cases same : index = adjusted
      · dsimp only
        rw [same, Function.update_self]
        refine ReflTransGen.tail (.single (.limitThrottle _ _ ?_)) (.outgoingEpoch _ _)
        split
        · decide
        · exact adjustedLimit_le scaled exceeds
      · dsimp only
        rw [Function.update_of_ne same]

/-- A fold over peers that moves each of them does so in the end. -/
theorem foldl_moves {σ : Type} (peers : σ → Nat → Peer) (step : σ → Nat → σ)
    (moves : ∀ state changed index, (peers state index).Moves (peers (step state changed) index))
    (indices : List Nat) : ∀ (state : σ) (index : Nat),
      (peers state index).Moves (peers (indices.foldl step state) index) := by
  induction indices with
  | nil => intro state index; exact .refl
  | cons changed indices ih =>
      intro state index
      exact (moves state changed index).trans (ih _ index)

theorem adjustPeers_moves (peerCount timeCurrent elapsedTime fuel : Nat) :
    ∀ (state : Host.Throttling) (index : Nat), (state.peers index).Moves
      ((Host.adjustPeers peerCount timeCurrent elapsedTime fuel state).peers index) := by
  induction fuel with
  | zero => intro state index; exact .refl
  | succ fuel ih =>
      intro state index
      unfold Host.adjustPeers
      split
      · exact (foldl_moves Host.Throttling.peers _ (adjustPeer_moves (throttleOf_le _ _))
          (List.range peerCount) { state with needsAdjustment := false } index).trans (ih _ index)
      · exact .refl

theorem sharePeer_moves {timeCurrent throttle : Nat} (scaled : throttle ≤ peerPacketThrottleScale)
    (peers : Nat → Peer) (shared index : Nat) :
    (peers index).Moves (Host.sharePeer timeCurrent throttle peers shared index) := by
  unfold Host.sharePeer
  split
  · exact .refl
  · by_cases same : index = shared
    · rw [same, Function.update_self]
      exact .single (.limitThrottle _ _ scaled)
    · rw [Function.update_of_ne same]

theorem recalculatePeer_moves (timeCurrent bandwidthLimit : Nat) (state : Host.Throttling)
    (changed index : Nat) : (state.peers index).Moves
      ((Host.recalculatePeer timeCurrent bandwidthLimit state changed).peers index) := by
  unfold Host.recalculatePeer
  dsimp only
  split
  · exact .refl
  · split
    · exact .refl
    · by_cases same : index = changed
      · dsimp only
        rw [same, Function.update_self]
        exact .single (.incomingEpoch _ _)
      · dsimp only
        rw [Function.update_of_ne same]

theorem recalculatePeers_moves (peerCount timeCurrent fuel : Nat) :
    ∀ (state : Host.Throttling) (bandwidthLimit index : Nat), (state.peers index).Moves
      ((Host.recalculatePeers peerCount timeCurrent fuel state bandwidthLimit).1.peers index) := by
  induction fuel with
  | zero => intro state bandwidthLimit index; exact .refl
  | succ fuel ih =>
      intro state bandwidthLimit index
      unfold Host.recalculatePeers
      split
      · exact (foldl_moves Host.Throttling.peers _ (recalculatePeer_moves timeCurrent _)
          (List.range peerCount) { state with needsAdjustment := false } index).trans
          (ih _ _ index)
      · exact .refl

theorem announceLimit_run (timeCurrent bandwidthLimit : Nat) (indices : List Nat) :
    ∀ host : Host, Sends host
      (indices.foldl (Host.announceLimit timeCurrent bandwidthLimit) host) := by
  induction indices with
  | nil => intro host; exact .refl
  | cons index indices ih =>
      intro host
      refine ReflTransGen.trans ?_ (ih _)
      unfold Host.announceLimit
      dsimp only
      split
      · exact .refl
      · exact .single (.queue host [] index _ ⟨rfl, rfl, trivial⟩)

theorem sharePeers_moves (peerCount timeCurrent : Nat) (state : Host.Throttling) (index : Nat) :
    (state.peers index).Moves (Host.sharePeers peerCount timeCurrent state index) := by
  unfold Host.sharePeers
  split
  · exact foldl_moves (fun peers => peers) _ (sharePeer_moves (throttleOf_le _ _)) _ _ index
  · exact .refl

theorem throttlePeers_quiet (host : Host) (timeCurrent elapsedTime : Nat) :
    Quiet host (host.throttlePeers timeCurrent elapsedTime) :=
  .setPeers host fun index =>
    (adjustPeers_moves host.peerCount timeCurrent elapsedTime (host.peerCount + 1)
      (host.startThrottling elapsedTime) index).trans (sharePeers_moves ..)

theorem recalculateShares_quiet (host : Host) (timeCurrent : Nat) :
    Quiet host (host.recalculateShares timeCurrent).1 := by
  unfold Host.recalculateShares
  split
  · exact .refl host
  · exact .setPeers host fun index =>
      recalculatePeers_moves host.peerCount timeCurrent (host.peerCount + 1)
        host.startRecalculation 0 index

theorem recalculateLimits_run (host : Host) (timeCurrent : Nat) :
    Sends host (host.recalculateLimits timeCurrent) := by
  have clears : Quiet host host.recalculated := .of_same rfl rfl rfl rfl rfl rfl rfl rfl
  exact (SendRun.of_quiet (clears.trans (recalculateShares_quiet _ timeCurrent))).trans
    (announceLimit_run timeCurrent _ _ _)

theorem bandwidthThrottle_run (host : Host) : Sends host host.bandwidthThrottle := by
  have reads : Quiet host host.timeGet.1 := .of_same rfl rfl rfl rfl rfl rfl rfl rfl
  have notes : Quiet host (host.timeGet.1.setThrottleEpoch host.timeGet.2) :=
    reads.trans (.of_same rfl rfl rfl rfl rfl rfl rfl rfl)
  unfold Host.bandwidthThrottle
  dsimp only
  split
  · exact .of_quiet reads
  · split
    · exact .of_quiet notes
    · have throttles := notes.trans (throttlePeers_quiet _ host.timeGet.2
        (sub32 host.timeGet.2 host.timeGet.1.bandwidthThrottleEpoch))
      split
      · exact (SendRun.of_quiet throttles).trans (recalculateLimits_run _ _)
      · exact .of_quiet throttles

theorem serviceStages_served {fuel : Nat} {host : Host} {event : Option Event}
    {result : Host × Option Event × Int} (fresh : Host.isStored event = false)
    (returns : Host.andThen
      (Host.andThen
        (Host.andThen (Host.sendOutgoingCommands fuel host event true) fun host event =>
          some (host.receiveIncomingCommands 256 event))
        fun host event => Host.sendOutgoingCommands fuel host event true)
      (fun host event => host.dispatchStage fuel event) = some result) :
    Served May host event result := by
  refine Served.andThen ?_ (fun host event result fresh => dispatchStage_served fresh) returns
  intro result returns
  refine Served.andThen ?_ (fun host event result fresh =>
    sendPasses_served true fuel 0 host event result fresh) returns
  intro result returns
  refine Served.andThen ?_ ?_ returns
  · intro result returns
    exact sendPasses_served true fuel 0 host event result fresh returns
  · intro host event result fresh returns
    cases returns
    exact receiveIncomingCommands_served 256 host event fresh

theorem serviceTurn_served {fuel : Nat} {host : Host} {event : Option Event}
    {result : Host × Option Event × Int} (fresh : Host.isStored event = false)
    (returns : host.serviceTurn fuel event = some result) : Served May host event result := by
  unfold Host.serviceTurn at returns
  dsimp only at returns
  split at returns
  · have throttles := @Sends.run May _ _ (bandwidthThrottle_run host) event
    have served : Served May host.bandwidthThrottle event result :=
      serviceStages_served fresh returns
    exact ⟨throttles.trans served.run, served.stored⟩
  · exact serviceStages_served fresh returns

theorem waitLoop_quiet (timeout fuel : Nat) : ∀ {host host' : Host} {outcome : Except Int Bool},
    Host.waitLoop timeout fuel host = some (host', outcome) →
      Quiet host host' ∧ outcome ≠ .error 1 := by
  induction fuel with
  | zero => intro host host' outcome returns; cases returns
  | succ fuel ih =>
      intro host host' outcome returns
      have times := Quiet.setServiceTime host
      have waits := times.trans (.countWait host.setServiceTime)
      unfold Host.waitLoop at returns
      dsimp only at returns
      split at returns
      · cases returns
        exact ⟨times, by simp⟩
      · split at returns
        · cases returns
          exact ⟨waits, by simp⟩
        · obtain ⟨rest, other⟩ := ih returns
          exact ⟨waits.trans rest, other⟩
        · cases returns
          exact ⟨waits, by simp⟩

theorem serviceLoop_served (timeout fuel : Nat) : ∀ {host : Host} {event : Option Event}
    {result : Host × Option Event × Int}, Host.isStored event = false →
      Host.serviceLoop timeout fuel host event = some result → Served May host event result := by
  induction fuel with
  | zero => intro host event result _ returns; cases returns
  | succ fuel ih =>
      intro host event result fresh returns
      unfold Host.serviceLoop at returns
      refine Served.andThen (fun turned turns => serviceTurn_served fresh turns) ?_ returns
      intro host event result fresh returns
      split at returns
      · cases returns
        exact .of_run .refl fresh (by simp)
      · obtain ⟨waited, waits, goesOn⟩ := Option.bind_eq_some_iff.mp returns
        obtain ⟨quiet, other⟩ := waitLoop_quiet timeout fuel waits
        have waitRun := @Quiet.run May _ _ quiet event
        have timed := waitRun.trans ((Quiet.setServiceTime waited.1).run event)
        split at goesOn
        next failed =>
            cases goesOn
            exact .of_run waitRun fresh (by simpa using other)
        next woken =>
            split at goesOn
            · have rest := ih fresh goesOn
              exact ⟨timed.trans rest.run, rest.stored⟩
            · cases goesOn
              exact .of_run timed fresh (by simp)

theorem service_served {fuel : Nat} {host : Host} {event : Option Event} {timeout : Nat}
    {result : Host × Option Event × Int} (returns : host.service fuel event timeout = some result) :
    Served May host (event.map Host.clearEvent) result := by
  refine Served.andThen (fun dispatched dispatches =>
    dispatchStage_served (clearEvent_fresh event) dispatches) ?_ returns
  intro host event result fresh returns
  have times := @Quiet.run May _ _ (.setServiceTime host) event
  have served : Served May host.setServiceTime event result :=
    serviceLoop_served _ fuel fresh returns
  exact ⟨times.trans served.run, served.stored⟩

/-! ## Flushing -/

theorem sendPeer_flushes (host : Host) (sendPass index : Nat) :
    Sends host (host.sendPeer none false sendPass index).1 ∧
      (host.sendPeer none false sendPass index).2.1 = none := by
  unfold Host.sendPeer
  dsimp only
  split
  · exact ⟨.refl, rfl⟩
  next served =>
    obtain ⟨fills, unchanged, -⟩ := sendFilled_run (host.startDatagram index) none index
    exact ⟨(ReflTransGen.single (.startDatagram host index fun free =>
      served (.inl free))).trans fills, unchanged⟩

theorem sendPeers_flushes (sendPass : Nat) (indices : List Nat) :
    ∀ (host : Host) (continueSending : Bool),
      Sends host (Host.sendPeers false sendPass indices host none continueSending).1 ∧
        (Host.sendPeers false sendPass indices host none continueSending).2.1 = none := by
  induction indices with
  | nil => intro host continueSending; exact ⟨.refl, rfl⟩
  | cons index rest ih =>
      intro host continueSending
      obtain ⟨sends, unchanged⟩ := sendPeer_flushes host sendPass index
      have follow : ∀ (host' : Host) (event' : Option Event) (more : Bool), Sends host host' →
          event' = none →
          Sends host (Host.sendPeers false sendPass rest host' event' more).1 ∧
            (Host.sendPeers false sendPass rest host' event' more).2.1 = none := by
        intro host' event' more sends none
        subst none
        obtain ⟨rests, same⟩ := ih host' more
        exact ⟨sends.trans rests, same⟩
      unfold Host.sendPeers
      split
      next went => rw [went] at sends unchanged; exact ⟨sends, unchanged⟩
      next went => rw [went] at sends unchanged; exact follow _ _ _ sends unchanged
      next went => rw [went] at sends unchanged; exact follow _ _ _ sends unchanged

theorem sendPasses_flushes (fuel : Nat) :
    ∀ (sendPass : Nat) (host : Host) (result : Host × Option Event × Int),
      Host.sendPasses false fuel sendPass host none = some result → Sends host result.1 := by
  induction fuel with
  | zero => intro sendPass host result returns; cases returns
  | succ fuel ih =>
      intro sendPass host result returns
      obtain ⟨sends, unchanged⟩ :=
        sendPeers_flushes sendPass (List.range host.peerCount) host false
      unfold Host.sendPasses at returns
      split at returns
      next went => rw [went] at sends; cases returns; exact sends
      next _ went =>
          rw [went] at sends unchanged
          dsimp only at unchanged
          subst unchanged
          exact sends.trans (ih _ _ _ returns)
      next _ went => rw [went] at sends; cases returns; exact sends

theorem flush_run {fuel : Nat} {host host' : Host} (returns : host.flush fuel = some host') :
    Sends host host' := by
  obtain ⟨result, sends, rfl⟩ := Option.map_eq_some_iff.mp returns
  exact (SendRun.of_quiet (.setServiceTime host)).trans (sendPasses_flushes fuel 0 _ result sends)

/-! ## Calls -/

/-- A call that asks only what may be asked. -/
def Host.Call.Asks (May : Host → Request → Prop) (host : Host) : Host.Call → Prop
  | .send _ _ packet | .broadcast _ packet => May host (.send packet)
  | .receive peer => May host (.receive peer)
  | .configure mtu duplicatePeers maximumPacketSize maximumWaitingData _ _ =>
    May host (.configure mtu duplicatePeers maximumPacketSize maximumWaitingData)
  | _ => True

/-- What may be sent may be sent again. -/
def Lasting (May : Host → Request → Prop) : Prop :=
  ∀ (host : Host) (index channelID : Nat) (packet : Packet), May host (.send packet) →
    May (host.peerSend index channelID packet).1 (.send packet)

theorem broadcast_run (lasting : Lasting May) (channelID : Nat) (packet : Packet)
    (indices : List Nat) : ∀ host : Host, May host (.send packet) →
      let sent := indices.foldl
        (fun host index =>
          if (host.peers index).state ≠ .connected then host
          else (host.peerSend index channelID packet).1) host
      RunUnder May (host, none) (sent, none) ∧ May sent (.send packet) := by
  induction indices with
  | nil => intro host may; exact ⟨.refl, may⟩
  | cons index indices ih =>
      intro host may
      dsimp only [List.foldl_cons]
      split
      · exact ih host may
      · obtain ⟨run, still⟩ := ih _ (lasting host index channelID packet may)
        exact ⟨.head (.packet host index channelID packet may) run, still⟩

theorem peerDisconnect_run {fuel : Nat} {host host' : Host} {index data : Nat}
    (returns : host.peerDisconnect fuel index data = some host') :
    RunUnder May (host, none) (host', none) := by
  unfold Host.peerDisconnect at returns
  dsimp only at returns
  split at returns
  · cases returns
    exact .refl
  · split at returns
    next connected =>
        cases returns
        exact .single (.startDisconnect host index data connected)
    · obtain ⟨flushed, flushes, rfl⟩ := Option.map_eq_some_iff.mp returns
      exact .single (.abandon host index data (flush_run flushes))

theorem peerDisconnectNow_run {fuel : Nat} {host host' : Host} {index data : Nat}
    (returns : host.peerDisconnectNow fuel index data = some host') :
    RunUnder May (host, none) (host', none) := by
  unfold Host.peerDisconnectNow at returns
  dsimp only at returns
  split at returns
  · cases returns
    exact .refl
  · split at returns
    · obtain ⟨flushed, flushes, rfl⟩ := Option.map_eq_some_iff.mp returns
      exact .single (.abandon host index data (flush_run flushes))
    · cases returns
      exact .single (.reset host index)

theorem peerDisconnectLater_run {fuel : Nat} {host host' : Host} {index data : Nat}
    (returns : host.peerDisconnectLater fuel index data = some host') :
    RunUnder May (host, none) (host', none) := by
  unfold Host.peerDisconnectLater at returns
  dsimp only at returns
  split at returns
  next waits =>
      cases returns
      have connected : (host.peers index).state.isConnected = true := by
        simp only [Bool.and_eq_true] at waits
        exact waits.1
      exact .single (.disconnectLater host index data connected)
  · exact peerDisconnect_run returns

/-- **A call is a run**, from what it first leaves in `*event`. -/
theorem call_runUnder (lasting : Lasting May) {fuel : Nat} {host host' : Host} (call : Host.Call)
    {event : Option Event} {value : Int} (asks : call.Asks May host)
    (returns : call.run fuel host = some (host', event, value)) :
    RunUnder May (host, call.event) (host', event) := by
  have flushed : ∀ {flushed : Option Host},
      flushed.map (fun host => (host, (none : Option Event), (0 : Int))) =
        some (host', event, value) → flushed = some host' ∧ event = none := by
    intro flushed returns
    obtain ⟨last, same, equal⟩ := Option.map_eq_some_iff.mp returns
    cases equal
    exact ⟨same, rfl⟩
  cases call with
  | service event timeout => exact (service_served returns).run
  | checkEvents event =>
      obtain ⟨checked, checks, same⟩ := Option.map_eq_some_iff.mp returns
      cases same
      exact (dispatchIncomingCommands_served fuel host _ checked rfl checks).run
  | flush =>
      obtain ⟨flushes, rfl⟩ := flushed returns
      exact (flush_run flushes).run none
  | connect address channelCount data =>
      cases returns
      exact .single (.connect host address channelCount data)
  | send peer channelID packet =>
      cases returns
      exact .single (.packet host peer channelID packet asks)
  | broadcast channelID packet =>
      cases returns
      obtain ⟨sends, still⟩ :=
        broadcast_run lasting channelID packet (List.range host.peerCount) host asks
      unfold Host.broadcast
      dsimp only
      split
      next unreferenced => exact sends.tail (.discard _ packet unreferenced still)
      · exact sends
  | receive peer => cases returns; exact .single (.receive host peer asks)
  | ping peer => cases returns; exact Sends.run (SendRun.peerPing host [] peer) none
  | pingInterval peer interval =>
      cases returns
      exact (Quiet.setPeer host (.pingInterval _ interval)).run none
  | timeout peer limit minimum maximum =>
      cases returns
      exact (Quiet.setPeer host (.timeout _ limit minimum maximum)).run none
  | throttleConfigure peer interval acceleration deceleration =>
      cases returns
      refine Sends.run (ReflTransGen.tail (SendRun.of_quiet (.setPeer host (.throttleConfigure _
        interval acceleration deceleration))) (.queue _ [] peer _ ⟨rfl, rfl, trivial⟩)) none
  | reset peer => cases returns; exact .single (.reset host peer)
  | disconnect peer data =>
      obtain ⟨disconnects, rfl⟩ := flushed returns
      exact peerDisconnect_run disconnects
  | disconnectNow peer data =>
      obtain ⟨disconnects, rfl⟩ := flushed returns
      exact peerDisconnectNow_run disconnects
  | disconnectLater peer data =>
      obtain ⟨disconnects, rfl⟩ := flushed returns
      exact peerDisconnectLater_run disconnects
  | bandwidthLimit incoming outgoing =>
      cases returns
      have settles : Quiet host (host.bandwidthLimit incoming outgoing) :=
        .of_same rfl rfl rfl rfl rfl rfl rfl rfl
      exact settles.run none
  | channelLimit limit =>
      cases returns
      have settles : Quiet host (host.setChannelLimit limit) :=
        .of_same rfl rfl rfl rfl rfl rfl rfl rfl
      exact settles.run none
  | configure mtu duplicatePeers maximumPacketSize maximumWaitingData checksum compressor =>
      cases returns
      exact .single (.configure host mtu duplicatePeers maximumPacketSize maximumWaitingData
        checksum compressor asks)

theorem call_run {fuel : Nat} {host host' : Host} (call : Host.Call) {event : Option Event}
    {value : Int} (returns : call.run fuel host = some (host', event, value)) :
    Run (host, call.event) (host', event) := by
  refine call_runUnder (fun _ _ _ _ _ => trivial) call ?_ returns
  cases call <;> trivial

/-- What a call stores is returned. -/
theorem call_stored {fuel : Nat} {host host' : Host} (call : Host.Call) {event : Option Event}
    {value : Int} (returns : call.run fuel host = some (host', event, value))
    (stored : Host.isStored event = true) : value = 1 := by
  have silent : ∀ {flushed : Option Host},
      flushed.map (fun host => (host, (none : Option Event), (0 : Int))) ≠
        some (host', event, value) := by
    intro flushed returns
    obtain ⟨last, -, equal⟩ := Option.map_eq_some_iff.mp returns
    cases equal
    cases stored
  cases call with
  | service event timeout =>
      have served : Served (fun _ _ => True) host (event.map Host.clearEvent) _ :=
        service_served returns
      exact served.stored.mp stored
  | checkEvents event =>
      obtain ⟨checked, checks, same⟩ := Option.map_eq_some_iff.mp returns
      cases same
      have served : Served (fun _ _ => True) host _ _ :=
        dispatchIncomingCommands_served fuel host _ checked rfl checks
      exact served.stored.mp stored
  | flush => exact absurd returns silent
  | disconnect peer data => exact absurd returns silent
  | disconnectNow peer data => exact absurd returns silent
  | disconnectLater peer data => exact absurd returns silent
  | _ => cases returns; cases stored

/-! ## The states that calls pass through -/

/-- A state that a call passes through, or leaves behind. -/
def Visited (activity : Activity) : Prop :=
  ∃ host event, Host.Reachable host ∧ Host.isStored event = false ∧ Run (host, event) activity

theorem call_event_fresh (call : Host.Call) : Host.isStored call.event = false := by
  cases call with
  | service event timeout => exact clearEvent_fresh event
  | checkEvents event => rfl
  | _ => rfl

namespace Visited

theorem of_reachable {host : Host} {event : Option Event} (reachable : Host.Reachable host)
    (fresh : Host.isStored event = false) : Visited (host, event) :=
  ⟨host, event, reachable, fresh, .refl⟩

theorem run {before after : Activity} (visited : Visited before) (run : Run before after) :
    Visited after := by
  obtain ⟨host, event, reachable, fresh, runs⟩ := visited
  exact ⟨host, event, reachable, fresh, runs.trans run⟩

/-- What a call leaves behind was passed through. -/
theorem of_call {fuel : Nat} {host host' : Host} {event : Option Event} {value : Int}
    (call : Host.Call) (reachable : Host.Reachable host)
    (returns : call.run fuel host = some (host', event, value)) : Visited (host', event) :=
  ⟨host, call.event, reachable, call_event_fresh call, call_run call returns⟩

/-- **What holds of a new host, outlasts the clearing of `*event` between calls
and is kept by every step holds wherever calls pass through.** -/
theorem keeps (Invariant : Activity → Prop)
    (creates : ∀ heap world randomSeed peerCount channelLimit incomingBandwidth outgoingBandwidth
      event, Host.isStored event = false → Invariant
        (Host.create heap world randomSeed peerCount channelLimit incomingBandwidth
          outgoingBandwidth, event))
    (clears : ∀ {host event event'}, Invariant (host, event) → Host.isStored event' = false →
      Invariant (host, event'))
    (steps : ∀ {before after}, Step before after → Invariant before → Invariant after)
    {activity : Activity} (visited : Visited activity) : Invariant activity := by
  obtain ⟨host, event, reachable, fresh, run⟩ := visited
  have holds : ∀ event, Host.isStored event = false → Invariant (host, event) := by
    clear run fresh
    induction reachable with
    | create => intro event fresh; exact creates _ _ _ _ _ _ _ event fresh
    | call fuel call reachable returns ih =>
        intro event fresh
        exact clears (Library.runs_keep Invariant steps (call_run call returns)
          (ih call.event (call_event_fresh call))) fresh
  exact Library.runs_keep Invariant steps run (holds event fresh)

end Visited

/-! ## A host that serves datagrams -/

/-- A CONNECT command for one channel. -/
def connectRequest : Protocol where
  command :=
    .connect
      { outgoingPeerID := 0
        incomingSessionID := 0xFF
        outgoingSessionID := 0xFF
        mtu := 1392
        windowSize := 32768
        channelCount := 1
        incomingBandwidth := 0
        outgoingBandwidth := 0
        packetThrottleInterval := 5000
        packetThrottleAcceleration := 2
        packetThrottleDeceleration := 2
        connectID := 77
        data := 0 }
  acknowledge := true
  unsequenced := false
  channelID := 0xFF
  reliableSequenceNumber := 1

/-- An event with nothing in it. -/
def noEvent : Event := ⟨.none, none, 0, 0, none⟩

/-- A CONNECT command, and the acknowledgement of its answer. -/
def connectDatagrams : List (Address × List UInt8) :=
  let source : Address := ⟨7, 9⟩
  [(source, [0x0F, 0xFF] ++ connectRequest.encode), (source, []),
    (source, [0, 0] ++ (⟨.acknowledge 1 1, false, false, 0xFF, 0⟩ : Protocol).encode)]

/-- A host that serves these datagrams, after as many calls. -/
def servedHost (datagrams : List (Address × List UInt8)) : (calls : Nat) → Option Host
  | 0 => some (.create .ample (.delivering (fun _ => 1) datagrams) 0 1 1 0 0)
  | calls + 1 =>
    (servedHost datagrams calls).bind fun host => (host.service 5 (some noEvent) 0).map Prod.fst

theorem servedHost_reachable {datagrams : List (Address × List UInt8)} {calls : Nat} {host : Host}
    (serves : servedHost datagrams calls = some host) : Host.Reachable host := by
  induction calls generalizing host with
  | zero => cases serves; exact .create ..
  | succ calls ih =>
      obtain ⟨before, served, serves⟩ := Option.bind_eq_some_iff.mp serves
      obtain ⟨⟨after, event, value⟩, returns, rfl⟩ := Option.map_eq_some_iff.mp serves
      exact .call 5 (.service (some noEvent) 0) (ih served) returns

/-- A host after some calls. -/
def calledHost : Host → List Host.Call → Option Host
  | host, [] => some host
  | host, call :: calls => (call.run 5 host).bind fun result => calledHost result.1 calls

theorem calledHost_reachable {host host' : Host} {calls : List Host.Call}
    (reachable : Host.Reachable host) (called : calledHost host calls = some host') :
    Host.Reachable host' := by
  induction calls generalizing host with
  | nil => cases called; exact reachable
  | cons call calls ih =>
      obtain ⟨⟨after, event, value⟩, returns, called⟩ := Option.bind_eq_some_iff.mp called
      exact ih (.call 5 call reachable returns) called

end Enet
