import Enet.Runs.Ownership

/-!
# The packets in a call

Between calls the count of references of a packet is the number of the commands
that refer to it. While a call runs, a packet is destroyed with its last
reference, unless it is handed to the application; and two packets may be
destroyed that nobody refers to: one made for a received command that cannot be
queued, and one broadcast that no peer takes.
-/

set_option autoImplicit false

namespace Enet

open Library Finset Relation

/-! ## Between calls -/

/-- The counts of references are those of the commands, and no packet is
destroyed twice, or while a command refers to it. -/
structure Host.PacketsCounted (host : Host) : Prop where
  count : ∀ packet : Packet,
    host.heap.referenceCount packet.address = host.references.count packet.address
  once : host.heap.destroyed.Nodup
  gone : ∀ address ∈ host.heap.destroyed, address ∉ host.references

/-- The packets between two calls. -/
structure PacketsKept (host : Host) : Prop where
  contained : Contained host
  balanced : host.heap.ledger.Balanced host.references
  known : ∀ address ∈ host.references, address < host.heap.nextAddress
  destroyed : ∀ address ∈ host.heap.destroyed, address < host.heap.nextAddress
  single : ∀ address ∈ host.incomingReferences, host.references.count address = 1
  idle : ∀ index, host.peerCount ≤ index → (host.peers index).references = 0

/-- The books of a call begin. -/
theorem PacketsKept.begins {host : Host} (kept : PacketsKept host) {rules : Ledger.Rules Nat}
    (none : ∀ address, ¬rules.hands address) :
    Keeps rules (host.heap.ledger, host.references) host.heap host [] := by
  refine ⟨kept.contained, ?_, kept.idle⟩
  rw [outgoingPackets_nil, add_zero]
  exact ⟨.refl, kept.balanced, .refl _, kept.known, kept.destroyed, kept.single,
    fun address handed => absurd handed (none address)⟩

theorem PacketsKept.counted {host : Host} (kept : PacketsKept host) : host.PacketsCounted :=
  ⟨fun packet => kept.balanced.count packet.address, kept.balanced.once, kept.balanced.gone⟩

namespace Keeps

variable {rules : Ledger.Rules Nat} {start : Ledger.Books Nat} {begun : Heap} {host : Host}

/-- And end. -/
theorem kept (keeps : Keeps rules start begun host []) : PacketsKept host := by
  have booked := keeps.booked
  rw [outgoingPackets_nil, add_zero] at booked
  exact ⟨keeps.contained, booked.balanced, booked.known, booked.destroyed, booked.single,
    keeps.idle⟩

/-- A packet of the application is destroyed that nobody refers to. -/
theorem destroy (keeps : Keeps rules start begun host []) {packet : Packet}
    (owns : host.Owns packet) (may : rules.discards packet.address)
    (ungiven : ¬rules.hands packet.address)
    (unreferenced : host.heap.referenceCount packet.address = 0) :
    Keeps rules start begun (host.setHeap (host.heap.destroy packet)) [] := by
  have unheld : packet.address ∉ host.references + outgoingPackets [] := by
    rw [← Multiset.count_eq_zero, ← keeps.booked.balanced.count]
    exact unreferenced
  exact ⟨⟨keeps.contained.peers, keeps.contained.spare⟩,
    keeps.booked.discard may owns.allocated owns.alive unheld ungiven
      (Heap.destroy_grows host.heap packet) rfl, keeps.idle⟩

/-- What the library does on its own keeps the books. -/
theorem works (allows : AllowsIncoming rules begun) {before after : Sending}
    (works : Works before after) (keeps : Keeps rules start begun before.1 before.2) :
    Keeps rules start begun after.1 after.2 := by
  refine Library.runs_keep (fun sending : Sending => Keeps rules start begun sending.1 sending.2)
    ?_ works keeps
  intro before after work keeps
  cases work with
  | edit edit => exact keeps.edit allows edit
  | scan host index sentUnreliable => exact keeps.scan index
  | free host sentUnreliable => exact keeps.free

end Keeps

/-! ## Runs -/

/-- What may happen to packets while a call runs: some are made for received commands,
the application asks for its own, and it is handed the packet in `*event`. -/
def packetRules (begun : Heap) (own : Nat → Prop) (event : Option Event) : Ledger.Rules Nat where
  acquires address := begun.MakesPacket true address ∨ own address
  hands address := ∃ packet, event.bind Event.packet = some packet ∧ packet.address = address
  discards address := begun.MakesPacket false address ∨ own address

/-- The books of a call, with what it has stored in `*event`. -/
structure Tracked (own : Nat → Prop) (start : Ledger.Books Nat) (begun : Heap)
    (activity : Activity) : Prop where
  keeps : Keeps (packetRules begun own activity.2) start begun activity.1 []
  fresh : Host.isStored activity.2 = false → activity.2.bind Event.packet = none

namespace Tracked

variable {own : Nat → Prop} {start : Ledger.Books Nat} {begun : Heap} {May : Host → Request → Prop}

/-- **A stage keeps the books**, of an application that sends packets it has. -/
theorem stage (sends : ∀ host packet, May host (.send packet) →
      host.Owns packet ∧ own packet.address)
    (receives : ∀ host index, ¬May host (.receive index)) {before after : Activity}
    (stage : Stage May before after) (tracked : Tracked own start begun before) :
    Tracked own start begun after := by
  obtain ⟨keeps, fresh⟩ := tracked
  have allows : ∀ event, AllowsIncoming (packetRules begun own event) begun :=
    fun event => ⟨fun address made => .inl made, fun address made => .inl made⟩
  cases stage with
  | works works stores =>
      have same : ∀ event event', Stores event event' →
          packetRules begun own event' = packetRules begun own event := by
        intro event event' stores
        unfold packetRules
        rw [stores.packet]
      refine ⟨?_, fun unstored => ?_⟩
      · dsimp only
        rw [same _ _ stores]
        exact Keeps.works (allows _) works keeps
      · refine stores.packet.trans (fresh ?_)
        exact Bool.eq_false_iff.mpr fun stored => by
          rw [stores.stored stored] at unstored
          cases unstored
  | packet host index channelID packet may =>
      obtain ⟨owns, own⟩ := sends host packet may
      exact ⟨keeps.peerSend owns (.inr own) (by rintro ⟨_, given, -⟩; cases given) index
        channelID, fresh⟩
  | receive host index may => exact absurd may (receives host index)
  | dispatch host index channelID packet event event' unstored takes stored holds =>
      have empty := fresh unstored
      refine ⟨keeps.peerReceive takes ?_ ?_ rfl rfl, fun unstored => ?_⟩
      · rintro other ⟨handed, holds, -⟩
        rw [empty] at holds
        cases holds
      · intro other
        constructor
        · rintro ⟨handed, given, same⟩
          rw [show (some event').bind Event.packet = some packet from holds] at given
          cases given
          exact same.symm
        · intro same
          exact ⟨packet, holds, same.symm⟩
      · rw [show Host.isStored (some event') = true from decide_eq_true (by rw [stored]; decide)]
          at unstored
        cases unstored
  | discard host packet unreferenced may =>
      obtain ⟨owns, own⟩ := sends host packet may
      exact ⟨keeps.destroy owns (.inr own) (by rintro ⟨_, given, -⟩; cases given) unreferenced,
        fresh⟩
  | configure => exact ⟨keeps.of_heap rfl rfl rfl (.refl _), fresh⟩

/-- **A run keeps the books.** -/
theorem run (sends : ∀ host packet, May host (.send packet) →
      host.Owns packet ∧ own packet.address)
    (receives : ∀ host index, ¬May host (.receive index)) {before after : Activity}
    (run : RunUnder May before after) (tracked : Tracked own start begun before) :
    Tracked own start begun after :=
  Library.runs_keep (Tracked own start begun) (stage sends receives) (Stages.run run) tracked

end Tracked

/-! ## Calls -/

namespace Host.Call

/-- The packets that a call asks to send: those which the application has. -/
abbrev SendsOwned (call : Host.Call) (host : Host) : Prop :=
  call.Asks (fun host request => ∀ packet, request = .send packet → host.Owns packet) host

/-- What a call may do to packets: it makes new ones for received commands, it takes
references to the packet it was given, and it hands over the packet of the
event, or the one that was asked for. Only a packet whose command cannot be queued and
one that is broadcast are destroyed without a reference. -/
def packetRules (call : Host.Call) (host : Host) (event : Option Event) : Ledger.Rules Nat where
  acquires address := host.heap.MakesPacket true address ∨
    match call with
    | .send _ _ packet | .broadcast _ packet => packet.address = address
    | _ => False
  hands address :=
    match call with
    | .receive peer => ∃ packet channelID,
        (host.peerReceive peer).2 = some (packet, channelID) ∧ packet.address = address
    | _ => ∃ packet, event.bind Event.packet = some packet ∧ packet.address = address
  discards address := host.heap.MakesPacket false address ∨
    match call with
    | .broadcast _ packet => packet.address = address
    | _ => False

end Host.Call

/-- An application that sends packets of its own. -/
def SendsOf (own : Nat → Prop) (host : Host) : Request → Prop
  | .send packet => host.Owns packet ∧ own packet.address
  | .receive _ => False
  | .configure _ _ _ _ => True

theorem call_event_packet (call : Host.Call) : call.event.bind Event.packet = none := by
  cases call with
  | service event timeout => cases event <;> rfl
  | _ => rfl

namespace PacketsKept

variable {host host' : Host} {event : Option Event} {value : Int} {fuel : Nat}

/-- What a call does to the packets that it sends only. -/
theorem runs (kept : PacketsKept host) (own : Nat → Prop) (call : Host.Call)
    (asks : call.Asks (SendsOf own) host)
    (returns : call.run fuel host = some (host', event, value)) :
    Keeps (Enet.packetRules host.heap own event)
      (host.heap.ledger, host.references) host.heap host' [] := by
  have lasting : Lasting (SendsOf own) := by
    rintro host index channelID packet ⟨owns, mine⟩
    exact ⟨owns.peerSend index channelID, mine⟩
  have begins : Tracked own (host.heap.ledger, host.references) host.heap
      (host, call.event) := by
    refine ⟨kept.begins ?_, fun _ => call_event_packet call⟩
    rintro address ⟨packet, given, -⟩
    rw [call_event_packet] at given
    cases given
  refine (Tracked.run ?_ ?_ (call_runUnder lasting call asks returns) begins).keeps
  · exact fun host packet sends => sends
  · exact fun host index receives => receives

/-- **What a call does to the packets.** -/
theorem call (kept : PacketsKept host) (call : Host.Call) (sends : call.SendsOwned host)
    (returns : call.run fuel host = some (host', event, value)) :
    Keeps (call.packetRules host event) (host.heap.ledger, host.references)
      host.heap host' [] := by
  cases call with
  | send index channelID packet =>
      cases returns
      have begins : Keeps ((Host.Call.send index channelID packet).packetRules host none)
          (host.heap.ledger, host.references) host.heap host [] := by
        refine kept.begins ?_
        rintro address ⟨packet, given, -⟩
        cases given
      refine begins.peerSend (sends packet rfl) (.inr rfl) ?_ index channelID
      rintro ⟨packet, given, -⟩
      cases given
  | receive index =>
      cases returns
      cases takes : (host.peerReceive index).2 with
      | none =>
          have same : (host.peerReceive index).1 = host := by
            unfold Host.peerReceive at takes ⊢
            dsimp only at takes ⊢
            split at takes
            · rfl
            · cases takes
          rw [same]
          refine kept.begins ?_
          rintro address ⟨packet, channelID, given, -⟩
          rw [takes] at given
          cases given
      | some taken =>
          obtain ⟨packet, channelID⟩ := taken
          have begins : Keeps ⟨((Host.Call.receive index).packetRules host none).acquires,
              fun _ => False, ((Host.Call.receive index).packetRules host none).discards⟩
              (host.heap.ledger, host.references) host.heap host [] :=
            kept.begins fun address => id
          refine begins.peerReceive takes (fun other => id) ?_ rfl rfl
          intro other
          constructor
          · rintro ⟨packet, channelID, given, same⟩
            rw [takes] at given
            cases given
            exact same.symm
          · intro same
            exact ⟨packet, channelID, takes, same.symm⟩
  | broadcast channelID packet =>
      exact kept.runs (fun address => packet.address = address) (.broadcast channelID packet)
        ⟨sends packet rfl, rfl⟩ returns
  | _ => exact kept.runs (fun _ => False) _ (by exact trivial) returns

theorem create (heap : Heap) (world : World) (randomSeed peerCount channelLimit incomingBandwidth
    outgoingBandwidth : Nat) (uncounted : heap.referenceCount = fun _ => 0)
    (kept : heap.destroyed = []) :
    PacketsKept (.create heap world randomSeed peerCount channelLimit incomingBandwidth
      outgoingBandwidth) := by
  have references : (Host.create heap world randomSeed peerCount channelLimit incomingBandwidth
      outgoingBandwidth).references = 0 := sum_eq_zero fun _ _ => rfl
  have received : (Host.create heap world randomSeed peerCount channelLimit incomingBandwidth
      outgoingBandwidth).incomingReferences = 0 := sum_eq_zero fun _ _ => rfl
  refine ⟨.create .., ⟨fun address => ?_, ?_, fun address member => ?_⟩, ?_, ?_, ?_, fun _ _ => rfl⟩
  · rw [references]
    exact congrFun uncounted address
  · show heap.destroyed.Nodup
    rw [kept]
    exact List.nodup_nil
  · rw [references]
    exact Multiset.notMem_zero address
  · rw [references]
    exact fun address member => absurd member (Multiset.notMem_zero address)
  · exact fun address member => absurd (kept ▸ member) List.not_mem_nil
  · rw [received]
    exact fun address member => absurd member (Multiset.notMem_zero address)

end PacketsKept

/-! ## Applications -/

/-- The hosts that an application leads to which sends packets it has, and destroys
no packet whose count is not 0. -/
inductive Host.Handled : Host → Prop where
  | create (heap : Heap) (world : World) (randomSeed peerCount channelLimit incomingBandwidth
      outgoingBandwidth : Nat) (uncounted : heap.referenceCount = fun _ => 0)
      (kept : heap.destroyed = []) :
      Handled (.create heap world randomSeed peerCount channelLimit incomingBandwidth
        outgoingBandwidth)
  | packetCreate {host : Host} (data : Option (List UInt8)) (dataLength : Nat)
      (flags : PacketFlags) (handled : Handled host) :
      Handled (host.setHeap (host.heap.createPacket data dataLength flags).1)
  | packetDestroy {host : Host} (packet : Packet) (handled : Handled host)
      (owns : host.Owns packet) (unreferenced : host.heap.referenceCount packet.address = 0) :
      Handled (host.setHeap (host.heap.destroy packet))
  | call {host host' : Host} {event : Option Event} {value : Int} (fuel : Nat) (call : Call)
      (handled : Handled host) (sends : call.SendsOwned host)
      (returns : call.run fuel host = some (host', event, value)) : Handled host'

theorem Host.Handled.kept {host : Host} (handled : host.Handled) : PacketsKept host := by
  induction handled with
  | create heap world randomSeed peerCount channelLimit incomingBandwidth outgoingBandwidth
      uncounted kept => exact .create _ _ _ _ _ _ _ uncounted kept
  | @packetCreate host data dataLength flags handled kept =>
      have begins : Enet.Keeps ⟨fun _ => False, fun _ => False, fun _ => False⟩ _ _ host _ :=
        kept.begins fun _ => id
      have created := host.heap.createPacket_ledger data dataLength flags
      have grows := host.heap.createPacket_grows data dataLength flags
      have after : Enet.Keeps _ _ _
          (host.setHeap (host.heap.createPacket data dataLength flags).1) [] :=
        begins.of_heap rfl rfl created.1 grows
      exact after.kept
  | packetDestroy packet handled owns unreferenced kept =>
      have begins : Enet.Keeps ⟨fun _ => False, fun _ => False, fun _ => True⟩ _ _ _ _ :=
        kept.begins fun _ => id
      exact (begins.destroy owns trivial id unreferenced).kept
  | call fuel call handled sends returns kept => exact (kept.call call sends returns).kept

theorem servedHost_handled {datagrams : List (Address × List UInt8)} {calls : Nat} {host : Host}
    (serves : servedHost datagrams calls = some host) : host.Handled := by
  induction calls generalizing host with
  | zero => cases serves; exact .create _ _ _ _ _ _ _ rfl rfl
  | succ calls ih =>
      obtain ⟨before, served, serves⟩ := Option.bind_eq_some_iff.mp serves
      obtain ⟨⟨after, event, value⟩, returns, rfl⟩ := Option.map_eq_some_iff.mp serves
      exact .call 5 (.service (some noEvent) 0) (ih served) trivial returns

end Enet
