import Enet.Datagrams.Unsequenced

/-!
# A rejected data command leaves the sequence alone

What the five data handlers leave of a peer when they return a negative value.
Four of them test a command, look its place up and queue it, and a failure of
any of these changes no peer. The handler of unsequenced commands moves the
window of groups before it queues the command, and does not move it back when
the command is refused.
-/

set_option autoImplicit false

namespace Enet

/-- Two peers that expect the same of what is received. -/
structure Peer.SameSequence (peer peer' : Peer) : Prop where
  channels : peer'.channels = peer.channels
  incomingUnsequencedGroup : peer'.incomingUnsequencedGroup = peer.incomingUnsequencedGroup
  unsequencedWindow : peer'.unsequencedWindow = peer.unsequencedWindow
  dispatchedCommands : peer'.dispatchedCommands = peer.dispatchedCommands
  totalWaitingData : peer'.totalWaitingData = peer.totalWaitingData

namespace Host

/-- A handler that returns a negative value leaves every peer expecting what it did. -/
def KeepsSequence (host : Host) (handled : Host × Bool) : Prop :=
  handled.2 = true → ∀ index, (host.peers index).SameSequence (handled.1.peers index)

theorem KeepsSequence.of_peers {host : Host} {handled : Host × Bool}
    (same : handled.2 = true → handled.1.peers = host.peers) : host.KeepsSequence handled := by
  intro rejected index
  rw [same rejected]
  exact ⟨rfl, rfl, rfl, rfl, rfl⟩

theorem KeepsSequence.of_accepted {host : Host} {handled : Host × Bool}
    (accepted : handled.2 = false) : host.KeepsSequence handled := by
  intro rejected
  rw [accepted] at rejected
  cases rejected

/-! ## Queueing -/

/-- A command that is refused changes no peer. -/
theorem queueIncomingCommand_rejected (host : Host) (index : Nat) (command : Protocol)
    (data : Option (List UInt8)) (dataLength : Nat) (flags : PacketFlags) (fragmentCount : Nat) :
    (host.queueIncomingCommand index command data dataLength flags fragmentCount).2 =
        .rejected →
      (host.queueIncomingCommand index command data dataLength flags fragmentCount).1.peers =
        host.peers := by
  unfold queueIncomingCommand
  dsimp only
  split
  · exact fun _ => rfl
  · split
    · exact fun _ => rfl
    · split
      · exact fun _ => rfl
      · split
        · exact fun _ => rfl
        · exact fun refused => nomatch refused

/-- A command with fragments is queued, or refused. -/
theorem queueIncomingCommand_fragmented (host : Host) (index : Nat) (command : Protocol)
    (data : Option (List UInt8)) (dataLength : Nat) (flags : PacketFlags) {fragmentCount : Nat}
    (fragmented : 0 < fragmentCount) :
    (host.queueIncomingCommand index command data dataLength flags fragmentCount).2 ≠ .dummy := by
  unfold queueIncomingCommand
  dsimp only
  rw [if_pos fragmented]
  split
  · exact fun dummy => nomatch dummy
  · split
    · exact fun dummy => nomatch dummy
    · split
      · exact fun dummy => nomatch dummy
      · split
        · exact fun dummy => nomatch dummy
        · exact fun dummy => nomatch dummy

/-- The end of a fragment handler, for a fragment whose command is new. -/
theorem queueFragment_keeps (host : Host) (index : Nat) (command : Protocol) (dataLength : Nat)
    (flags : PacketFlags) {fragmentCount : Nat} (fragmented : 0 < fragmentCount)
    (add : Host → Nat → Host) :
    host.KeepsSequence
      (match host.queueIncomingCommand index command none dataLength flags fragmentCount with
      | (host, .command address) => (add host address, false)
      | (host, _) => (host, true)) := by
  have refused := queueIncomingCommand_rejected host index command none dataLength flags
    fragmentCount
  have complete := queueIncomingCommand_fragmented host index command none dataLength flags
    fragmented
  split
  · exact .of_accepted rfl
  next result other queued =>
      rw [queued] at refused complete
      refine .of_peers fun _ => ?_
      cases result with
      | rejected => exact refused rfl
      | dummy => exact absurd rfl complete
      | command address => exact (other address rfl).elim

/-- The end of the handler of a command that carries a whole packet. -/
theorem queuePayload_keeps (host : Host) (index : Nat) (command : Protocol) (data : List UInt8)
    (dataLength : Nat) (flags : PacketFlags) :
    host.KeepsSequence
      (match host.queueIncomingCommand index command (some data) dataLength flags 0 with
      | (host, .rejected) => (host, true)
      | (host, _) => (host, false)) := by
  have refused := queueIncomingCommand_rejected host index command (some data) dataLength flags 0
  split
  next queued =>
      rw [queued] at refused
      exact .of_peers fun _ => refused rfl
  · exact .of_accepted rfl

/-! ## Four handlers -/

theorem handleSendReliable_keeps (host : Host) (index : Nat) (command : Protocol)
    (data : List UInt8) : host.KeepsSequence (host.handleSendReliable index command data) := by
  unfold handleSendReliable
  dsimp only
  split
  · exact .of_peers fun _ => rfl
  · exact queuePayload_keeps host index command _ _ _

theorem handleSendUnreliable_keeps (host : Host) (index : Nat) (command : Protocol)
    (data : List UInt8) : host.KeepsSequence (host.handleSendUnreliable index command data) := by
  unfold handleSendUnreliable
  dsimp only
  split
  · exact .of_peers fun _ => rfl
  · exact queuePayload_keeps host index command _ _ _

theorem handleSendFragment_keeps (host : Host) (index : Nat) (command : Protocol)
    (fields : SendFragment) (data : List UInt8) :
    host.KeepsSequence (host.handleSendFragment index command fields data) := by
  unfold handleSendFragment
  dsimp only
  split
  · exact .of_peers fun _ => rfl
  · split
    · exact .of_accepted rfl
    · split
      · exact .of_peers fun _ => rfl
      next valid =>
          split
          · split
            · exact .of_peers fun _ => rfl
            · exact .of_accepted rfl
          · exact queueFragment_keeps host index _ _ _ (by omega) _

theorem handleSendUnreliableFragment_keeps (host : Host) (index : Nat) (command : Protocol)
    (fields : SendFragment) (data : List UInt8) :
    host.KeepsSequence (host.handleSendUnreliableFragment index command fields data) := by
  unfold handleSendUnreliableFragment
  dsimp only
  split
  · exact .of_peers fun _ => rfl
  · split
    · exact .of_accepted rfl
    · split
      · exact .of_accepted rfl
      · split
        · exact .of_peers fun _ => rfl
        next valid =>
            split
            · split
              · exact .of_peers fun _ => rfl
              · exact .of_accepted rfl
            · exact queueFragment_keeps host index _ _ _ (by omega) _

/-! ## Unsequenced commands -/

/-- Whether `enet_peer_queue_incoming_command` refuses a whole packet: too much data
waits, or there is no memory for the packet, for its bytes, where it has any, or
for the command. -/
def refusesPayload (host : Host) (index dataLength : Nat) : Bool :=
  decide (host.maximumWaitingData ≤ (host.peers index).totalWaitingData) ||
    !(List.range (if dataLength = 0 then 2 else 3)).all fun place =>
      host.heap.mallocSucceeds (host.heap.nextAddress + place)

theorem allocateIncoming_isNone (heap : Heap) (command : Protocol) (data : Option (List UInt8))
    (dataLength : Nat) (flags : PacketFlags) :
    (allocateIncoming heap command data dataLength flags 0).2.isNone =
      !(List.range (if dataLength = 0 then 2 else 3)).all fun place =>
        heap.mallocSucceeds (heap.nextAddress + place) := by
  have three : List.range 3 = [0, 1, 2] := rfl
  have two : List.range 2 = [0, 1] := rfl
  unfold allocateIncoming Heap.createPacket Heap.malloc
  by_cases empty : dataLength = 0
  · simp only [empty, if_true, two]
    cases first : heap.mallocSucceeds heap.nextAddress <;>
      cases second : heap.mallocSucceeds (heap.nextAddress + 1) <;> simp [first, second]
  · simp only [empty, if_false, three]
    cases first : heap.mallocSucceeds heap.nextAddress <;>
      cases second : heap.mallocSucceeds (heap.nextAddress + 1) <;>
        cases third : heap.mallocSucceeds (heap.nextAddress + 2) <;>
          simp [first, second, third]

/-- An unsequenced command has a place in every channel. -/
theorem queueUnsequenced_refused_iff (host : Host) (index : Nat) {command : Protocol}
    {group dataLength : Nat} (kind : command.command = .sendUnsequenced group dataLength)
    (data : List UInt8) (flags : PacketFlags) :
    (host.queueIncomingCommand index command (some data) dataLength flags 0).2 = .rejected ↔
      (host.peers index).state ≠ .disconnectLater ∧
        host.refusesPayload index dataLength = true := by
  have memory := allocateIncoming_isNone host.heap command (some data) dataLength flags
  have place : ((host.peers index).channels command.channelID).place command =
      .unreliable []
        ((host.peers index).channels command.channelID).incomingUnreliableCommands := by
    unfold Channel.place
    rw [kind]
  unfold queueIncomingCommand refusesPayload
  rw [← memory]
  dsimp only
  rw [place]
  split
  next later => simp [later]
  next state =>
      split
      next impossible => cases impossible
      · by_cases full : host.maximumWaitingData ≤ (host.peers index).totalWaitingData
        · rw [if_pos full]
          simp [state, full]
        · rw [if_neg full]
          rcases allocateIncoming host.heap command (some data) dataLength flags 0 with
            ⟨heap, _ | incoming⟩
          · simp [state]
          · simp [full]

/-- Whether the handler of unsequenced commands moves the window of groups for a
command that it then refuses. -/
def movesWindowAlone (host : Host) (index : Nat) (command : Protocol) (data : List UInt8) : Prop :=
  match command.command with
  | .sendUnsequenced received dataLength =>
    let peer := host.peers index
    let unsequencedGroup := unwrapGroup received peer.incomingUnsequencedGroup
    let start := u16 unsequencedGroup - received % peerUnsequencedWindowSize
    host.rejectsData index command data = false ∧
      unsequencedGroup < peer.incomingUnsequencedGroup +
        peerFreeUnsequencedWindows * peerUnsequencedWindowSize ∧
      start ≠ peer.incomingUnsequencedGroup ∧ peer.state ≠ .disconnectLater ∧
      host.refusesPayload index dataLength = true
  | _ => False

instance (host : Host) (index : Nat) (command : Protocol) (data : List UInt8) :
    Decidable (host.movesWindowAlone index command data) := by
  unfold movesWindowAlone
  split <;> infer_instance

/-- A window that stays where it is changes nothing. -/
theorem moveUnsequencedWindow_same {host : Host} {index start : Nat}
    (same : start = (host.peers index).incomingUnsequencedGroup) :
    host.moveUnsequencedWindow index start = host := by
  unfold moveUnsequencedWindow
  exact if_pos same

theorem moveUnsequencedWindow_moved {host : Host} {index start : Nat}
    (moves : start ≠ (host.peers index).incomingUnsequencedGroup) :
    ((host.moveUnsequencedWindow index start).peers index).incomingUnsequencedGroup = start := by
  unfold moveUnsequencedWindow
  rw [if_neg moves]
  simp [Peer.setUnsequencedWindow]

/-- The window plays no part in whether a command is refused. -/
theorem moveUnsequencedWindow_refuses (host : Host) (index start dataLength : Nat) :
    (host.moveUnsequencedWindow index start).refusesPayload index dataLength =
        host.refusesPayload index dataLength ∧
      ((host.moveUnsequencedWindow index start).peers index).state =
        (host.peers index).state := by
  unfold moveUnsequencedWindow
  dsimp only
  split
  · exact ⟨rfl, rfl⟩
  · simp [refusesPayload, Peer.setUnsequencedWindow]
    rfl

/-- The end of the handler: what is left of the peer once the window is moved
and the command queued, or refused. -/
theorem queueUnsequenced_keeps_iff (host : Host) (index start place : Nat) {command : Protocol}
    {received dataLength : Nat} (kind : command.command = .sendUnsequenced received dataLength)
    (data : List UInt8) (flags : PacketFlags) :
    host.KeepsSequence
        (match (host.moveUnsequencedWindow index start).queueIncomingCommand index command
            (some data) dataLength flags 0 with
        | (host, .rejected) => (host, true)
        | (host, _) => (host.markUnsequenced index place, false)) ↔
      ¬ (start ≠ (host.peers index).incomingUnsequencedGroup ∧
        (host.peers index).state ≠ .disconnectLater ∧
        host.refusesPayload index dataLength = true) := by
  have refuses := queueUnsequenced_refused_iff (host.moveUnsequencedWindow index start) index
    kind data flags
  obtain ⟨memory, state⟩ := moveUnsequencedWindow_refuses host index start dataLength
  rw [memory, state] at refuses
  have unchanged := queueIncomingCommand_rejected (host.moveUnsequencedWindow index start) index
    command (some data) dataLength flags 0
  split
  next refused queued =>
      rw [queued] at refuses unchanged
      have left : refused.peers = (host.moveUnsequencedWindow index start).peers := unchanged rfl
      constructor
      · intro keeps alone
        have kept := (keeps rfl index).incomingUnsequencedGroup
        rw [left, moveUnsequencedWindow_moved alone.1] at kept
        exact alone.1 kept
      · intro alone
        have same : start = (host.peers index).incomingUnsequencedGroup := by
          by_contra moves
          exact alone ⟨moves, refuses.mp rfl⟩
        refine .of_peers fun _ => ?_
        rw [left, moveUnsequencedWindow_same same]
  next accepted result other queued =>
      rw [queued] at refuses
      refine iff_of_true (.of_accepted rfl) fun alone => ?_
      exact other (refuses.mpr alone.2)

theorem handleSendUnsequenced_keeps_iff (host : Host) (index : Nat) {command : Protocol}
    {received dataLength : Nat} (kind : command.command = .sendUnsequenced received dataLength)
    (data : List UInt8) :
    host.KeepsSequence (host.handleSendUnsequenced index command received data) ↔
      ¬ host.movesWindowAlone index command data := by
  unfold handleSendUnsequenced movesWindowAlone
  rw [kind]
  dsimp only [Command.dataLength]
  split
  next rejects =>
      refine iff_of_true (.of_peers fun _ => rfl) fun alone => ?_
      rw [alone.1] at rejects
      cases rejects
  next passes =>
      split
      next far =>
          refine iff_of_true (.of_accepted rfl) fun alone => ?_
          exact absurd alone.2.1 (Nat.not_lt.mpr far)
      next near =>
          split
          next marked =>
              exact iff_of_true (.of_accepted rfl) fun alone => alone.2.2.1 marked.1
          next fresh =>
              refine (queueUnsequenced_keeps_iff host index _ _ kind _ _).trans ?_
              have clean : host.rejectsData index command data = false := by simpa using passes
              have reached := Nat.not_le.mp near
              exact not_congr ⟨fun alone => ⟨clean, reached, alone⟩, fun alone => alone.2.2⟩

end Host

/-! ## Every data command -/

/-- **A data command that is refused leaves what the peers expect as it was, and a
later one is treated as if it had never come, unless it moves the window of
unsequenced groups and is refused behind that.** -/
theorem handleCommand_keepsSequence_iff (host : Host) (event : Option Event) (index : Nat)
    (command : Protocol) (data : List UInt8) (carries : command.command.isData = true) :
    let handled := host.handleCommand event index command data
    host.KeepsSequence (handled.1, handled.2.2) ↔ ¬ host.movesWindowAlone index command data := by
  dsimp only
  unfold Host.handleCommand
  cases kind : command.command with
  | sendReliable dataLength =>
      refine iff_of_true (Host.handleSendReliable_keeps host index command data) ?_
      simp [Host.movesWindowAlone, kind]
  | sendUnreliable number dataLength =>
      refine iff_of_true (Host.handleSendUnreliable_keeps host index command data) ?_
      simp [Host.movesWindowAlone, kind]
  | sendFragment fields =>
      refine iff_of_true (Host.handleSendFragment_keeps host index command fields data) ?_
      simp [Host.movesWindowAlone, kind]
  | sendUnreliableFragment fields =>
      refine iff_of_true
        (Host.handleSendUnreliableFragment_keeps host index command fields data) ?_
      simp [Host.movesWindowAlone, kind]
  | sendUnsequenced received dataLength =>
      exact Host.handleSendUnsequenced_keeps_iff host index kind data
  | acknowledge _ _ => simp [kind, Command.isData] at carries
  | connect _ => simp [kind, Command.isData] at carries
  | verifyConnect _ => simp [kind, Command.isData] at carries
  | disconnect _ => simp [kind, Command.isData] at carries
  | ping => simp [kind, Command.isData] at carries
  | bandwidthLimit _ _ => simp [kind, Command.isData] at carries
  | throttleConfigure _ _ _ => simp [kind, Command.isData] at carries

/-- A connected host without memory. -/
def forgetfulHost : Host :=
  { receivingHost .connected with
    heap := { Heap.ample with mallocSucceeds := fun _ => false } }

/-- An unsequenced command of the second block of groups. -/
def laterCopy : Protocol := ⟨.sendUnsequenced 1024 1, false, true, 0, 0⟩

theorem forgetfulHost_keepsSequence_iff :
    let handled := forgetfulHost.handleCommand none 0 laterCopy [65]
    forgetfulHost.KeepsSequence (handled.1, handled.2.2) ↔
      ¬ forgetfulHost.movesWindowAlone 0 laterCopy [65] :=
  handleCommand_keepsSequence_iff forgetfulHost none 0 laterCopy [65] rfl

/-- The command is refused, and the window has left the groups before it behind. -/
theorem laterCopy_moves :
    let handled := forgetfulHost.handleCommand none 0 laterCopy [65]
    handled.2.2 = true ∧
      (forgetfulHost.peers 0).incomingUnsequencedGroup = 0 ∧
      (handled.1.peers 0).incomingUnsequencedGroup = 1024 ∧
      ¬ forgetfulHost.KeepsSequence (handled.1, handled.2.2) := by
  refine ⟨by decide +kernel, by decide +kernel, by decide +kernel, fun keeps => ?_⟩
  have kept := (keeps (by decide +kernel) 0).incomingUnsequencedGroup
  revert kept
  decide +kernel

end Enet
