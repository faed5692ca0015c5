import Enet.Runs.Calls

/-!
# The connections of a slot

What a host reports about one slot, connection by connection: each connection is
reported as one CONNECT, then received packets, then one DISCONNECT; it may end
at any point without a further event; and a connection that the host itself has
started may end with a DISCONNECT alone. With the reset of the slot its connection
is closed, and nothing is reported of it any more.

The state of the peer says how far its connection has been reported, and an
acknowledgement of a DISCONNECT command is queued for a peer that is leaving
only.
-/

set_option autoImplicit false

namespace Enet

open Relation

/-! ## Connections -/

/-- What was reported of a connection, which side started it, and whether the slot
was reset since. -/
structure Connection where
  locally : Bool
  events : List EventType
  closed : Bool
  deriving DecidableEq, Repr

namespace Connection

/-- Nothing is reported, or a CONNECT, received packets and at most one
DISCONNECT; or a DISCONNECT alone, of a connection started here. -/
def Legal (connection : Connection) : Prop :=
  connection.events = [] ∨
    (∃ received, connection.events = .connect :: List.replicate received .receive) ∨
    (∃ received, connection.events =
      .connect :: List.replicate received .receive ++ [.disconnect]) ∨
    (connection.locally = true ∧ connection.events = [.disconnect])

/-- One more event. -/
def add (connection : Connection) (type : EventType) : Connection :=
  { connection with events := connection.events ++ [type] }

/-- The slot of a connection is reset. -/
def close (connection : Connection) : Connection := { connection with closed := true }

/-- The newest connection is closed. -/
def closeNewest : List Connection → List Connection
  | [] => []
  | current :: older => current.close :: older

/-- The connections of a slot after one more observation, the newest first; none
where an event was stored outside any connection, as one is that comes after a
reset of the slot. -/
def record (index : Nat) (connections : Option (List Connection)) :
    Observation → Option (List Connection)
  | .started peer locally =>
    if peer = index then connections.map (⟨locally, [], false⟩ :: ·) else connections
  | .event peer type =>
    if peer = index then
      match connections with
      | some (current :: older) =>
        if current.closed then none else some (current.add type :: older)
      | _ => none
    else connections
  | .reset peer _ => if peer = index then connections.map closeNewest else connections
  | _ => connections

end Connection

/-- The connections of a slot, the newest first. -/
def connections (index : Nat) (history : List Observation) : Option (List Connection) :=
  history.foldl (Connection.record index) (some [])

theorem connections_append (index : Nat) (history seen : List Observation) :
    connections index (history ++ seen) =
      seen.foldl (Connection.record index) (connections index history) :=
  List.foldl_append

theorem connections_append_others {index : Nat} {history seen : List Observation}
    (others : ∀ observation ∈ seen, observation.peer ≠ index) :
    connections index (history ++ seen) = connections index history := by
  rw [connections_append]
  induction seen with
  | nil => rfl
  | cons observation seen ih =>
      have different := others observation List.mem_cons_self
      have here : ∀ before, Connection.record index before observation = before := by
        intro before
        cases observation with
        | started peer locally => exact if_neg different
        | event peer type => exact if_neg different
        | reset peer before => exact if_neg different
        | _ => rfl
      rw [List.foldl_cons, here]
      exact ih fun other member => others other (List.mem_cons_of_mem _ member)

/-- Observations that are neither the start or the end of a connection nor an event. -/
def Observation.isPlain : Observation → Bool
  | started .. | event .. | reset .. => false
  | _ => true

theorem connections_append_plain (index : Nat) {history seen : List Observation}
    (plain : ∀ observation ∈ seen, observation.isPlain = true) :
    connections index (history ++ seen) = connections index history := by
  rw [connections_append]
  induction seen with
  | nil => rfl
  | cons observation seen ih =>
      have here := plain observation List.mem_cons_self
      have same : ∀ before, Connection.record index before observation = before := by
        intro before
        cases observation with
        | started peer locally => cases here
        | event peer type => cases here
        | reset peer before => cases here
        | _ => rfl
      rw [List.foldl_cons, same]
      exact ih fun other member => plain other (List.mem_cons_of_mem _ member)

/-! ## The state of a peer and its connection -/

namespace Connection

/-- The CONNECT was reported and the DISCONNECT was not. -/
def Open (connection : Connection) : Prop :=
  ∃ received, connection.events = .connect :: List.replicate received .receive

/-- How far a connection is reported while its peer is in a state. -/
def Agrees (connection : Connection) : PeerState → Prop
  | .disconnected => True
  | .connecting | .connectionSucceeded =>
    connection.events = [] ∧ connection.locally = true
  | .acknowledgingConnect | .connectionPending => connection.events = []
  | .zombie => connection.Open ∨ connection.events = [] ∧ connection.locally = true
  | .connected | .disconnectLater | .disconnecting | .acknowledgingDisconnect => connection.Open

variable {connection : Connection}

theorem Open.legal (isOpen : connection.Open) : connection.Legal := .inr (.inl isOpen)

theorem Open.receive (isOpen : connection.Open) : (connection.add .receive).Open := by
  obtain ⟨received, events⟩ := isOpen
  refine ⟨received + 1, ?_⟩
  rw [add, events, List.cons_append, List.replicate_succ']

theorem Open.disconnect (isOpen : connection.Open) : (connection.add .disconnect).Legal := by
  obtain ⟨received, events⟩ := isOpen
  refine .inr (.inr (.inl ⟨received, ?_⟩))
  rw [add, events]

/-- A connection of which nothing was reported is reported as open. -/
theorem open_of_connect (unreported : connection.events = []) :
    (connection.add .connect).Open :=
  ⟨0, by rw [add, unreported]; rfl⟩

/-- In every state in which a DISCONNECT is reported, it may be. -/
theorem legal_of_disconnect
    (reports : connection.Open ∨ connection.events = [] ∧ connection.locally = true) :
    (connection.add .disconnect).Legal := by
  rcases reports with isOpen | ⟨unreported, locally⟩
  · exact isOpen.disconnect
  · refine .inr (.inr (.inr ⟨locally, ?_⟩))
    rw [add, unreported]
    rfl

end Connection

/-- The peer is leaving, and will be reported so. -/
def PeerState.isLeaving (state : PeerState) : Bool :=
  state = .acknowledgingDisconnect || state = .zombie

/-- The connections of a peer, reported as far as its state says. -/
structure Reported (peer : Peer) (connections : Option (List Connection)) : Prop where
  legal : ∃ list, connections = some list ∧ ∀ connection ∈ list, connection.Legal
  agrees : peer.state ≠ .disconnected → ∃ current older,
    connections = some (current :: older) ∧ current.closed = false ∧ current.Agrees peer.state
  leaving : peer.AcknowledgesDisconnect → peer.state.isLeaving = true

namespace Reported

variable {peer peer' : Peer} {connections : Option (List Connection)}

/-- What is reported depends on the state and the acknowledgements only. -/
theorem of_same (reported : Reported peer connections) (state : peer'.state = peer.state)
    (acknowledgements : peer'.acknowledgements = peer.acknowledgements) :
    Reported peer' connections :=
  ⟨reported.legal, fun connected => by rw [state] at connected ⊢; exact reported.agrees connected,
    fun leaving => by
      rw [state]
      exact reported.leaving (by rwa [Peer.AcknowledgesDisconnect, acknowledgements] at leaving)⟩

/-- A change of state that the connection agrees with. -/
theorem setState (reported : Reported peer connections) (state : PeerState)
    (connected : peer.state ≠ .disconnected)
    (agrees : ∀ current : Connection, current.Agrees peer.state → current.Agrees state)
    (leaving : peer.AcknowledgesDisconnect → state.isLeaving = true) :
    Reported (peer.setState state) connections := by
  obtain ⟨current, older, list, running, before⟩ := reported.agrees connected
  exact ⟨reported.legal, fun _ => ⟨current, older, list, running, agrees current before⟩, leaving⟩

/-- An event that the connection allows, stored as the peer changes its state. -/
theorem store (reported : Reported peer connections) (index : Nat) (type : EventType)
    (connected : peer.state ≠ .disconnected)
    (legal : ∀ current : Connection, current.Agrees peer.state → (current.add type).Legal)
    (agrees : peer'.state ≠ .disconnected → ∀ current : Connection,
      current.Agrees peer.state → (current.add type).Agrees peer'.state)
    (leaving : peer'.AcknowledgesDisconnect → peer'.state.isLeaving = true) :
    Reported peer' (Connection.record index connections (.event index type)) := by
  obtain ⟨list, same, before⟩ := reported.legal
  obtain ⟨current, older, exact, running, agreed⟩ := reported.agrees connected
  have stored : Connection.record index connections (.event index type) =
      some (current.add type :: older) := by
    rw [exact]
    exact (if_pos rfl).trans (if_neg (by rw [running]; exact Bool.false_ne_true))
  rw [exact] at same
  cases same
  refine ⟨⟨_, stored, ?_⟩,
    fun still => ⟨_, _, stored, running, agrees still current agreed⟩, leaving⟩
  intro connection member
  rcases List.mem_cons.mp member with new | old
  · rw [new]
    exact legal current agreed
  · exact before connection (List.mem_cons_of_mem _ old)

/-- A slot that a new connection takes. -/
theorem start (reported : Reported peer connections) (index : Nat) (locally : Bool)
    (agrees : (⟨locally, [], false⟩ : Connection).Agrees peer'.state)
    (leaving : peer'.AcknowledgesDisconnect → peer'.state.isLeaving = true) :
    Reported peer' (Connection.record index connections (.started index locally)) := by
  obtain ⟨list, same, before⟩ := reported.legal
  have started : Connection.record index connections (.started index locally) =
      some (⟨locally, [], false⟩ :: list) := by
    rw [same]
    exact if_pos rfl
  refine ⟨⟨_, started, ?_⟩, fun _ => ⟨_, _, started, rfl, agrees⟩, leaving⟩
  intro connection member
  rcases List.mem_cons.mp member with new | old
  · rw [new]
    exact .inl rfl
  · exact before connection old

/-- A slot that is free, whatever was reported. -/
theorem of_disconnected (state : peer.state = .disconnected)
    (acknowledgements : peer.acknowledgements = [])
    (legal : ∃ list, connections = some list ∧ ∀ connection ∈ list, connection.Legal) :
    Reported peer connections := by
  refine ⟨legal, fun connected => absurd state connected, fun leaving => ?_⟩
  obtain ⟨acknowledgement, member, -⟩ := leaving
  rw [acknowledgements] at member
  cases member

/-- A slot that is reset, whatever was reported. -/
theorem reset (state : peer.state = .disconnected)
    (acknowledgements : peer.acknowledgements = []) (index : Nat) (before : Peer)
    (legal : ∃ list, connections = some list ∧ ∀ connection ∈ list, connection.Legal) :
    Reported peer (Connection.record index connections (.reset index before)) := by
  obtain ⟨list, same, legal⟩ := legal
  refine .of_disconnected state acknowledgements ⟨Connection.closeNewest list, ?_, ?_⟩
  · rw [same]
    exact if_pos rfl
  · cases list with
    | nil => intro connection member; cases member
    | cons current older =>
        intro connection member
        rcases List.mem_cons.mp member with rfl | old
        · exact legal current List.mem_cons_self
        · exact legal connection (List.mem_cons_of_mem _ old)

end Reported

end Enet
