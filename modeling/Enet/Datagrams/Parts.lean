import Enet.Datagrams.Layout

/-!
# How a datagram is taken apart

The command loop reads a command, hands it to its handler with the bytes behind it,
and moves on by as many bytes as the command announces. Where each command is
followed by what it announces, the loop takes the commands one after the other, as
they were packed, and each handler sees its own data only.
-/

set_option autoImplicit false

namespace Enet

/-! ## The data of a command -/

namespace Host

variable {host : Host} {index : Nat} {command : Protocol} {payload : List UInt8}

theorem rejectsData_append (announced : payload.length = command.command.dataLength)
    (rest : List UInt8) :
    host.rejectsData index command (payload ++ rest) = host.rejectsData index command payload := by
  have long : ¬(payload ++ rest).length < command.command.dataLength := by
    rw [List.length_append]
    omega
  have whole : ¬payload.length < command.command.dataLength := by omega
  unfold rejectsData
  dsimp only
  rw [decide_eq_false long, decide_eq_false whole]

theorem addFragment_append {fields : SendFragment} (announced : payload.length = fields.dataLength)
    (channelID : Nat) (reliable : Bool) (address : Nat) (rest : List UInt8) :
    host.addFragment index channelID reliable address fields (payload ++ rest) =
      host.addFragment index channelID reliable address fields payload := by
  unfold addFragment
  rw [List.take_append_of_le_length (by omega)]

theorem handleSendReliable_append (announced : payload.length = command.command.dataLength)
    (rest : List UInt8) : host.handleSendReliable index command (payload ++ rest) =
      host.handleSendReliable index command payload := by
  unfold handleSendReliable
  dsimp only
  rw [rejectsData_append announced, List.take_append_of_le_length (by omega)]

theorem handleSendUnreliable_append (announced : payload.length = command.command.dataLength)
    (rest : List UInt8) : host.handleSendUnreliable index command (payload ++ rest) =
      host.handleSendUnreliable index command payload := by
  unfold handleSendUnreliable
  dsimp only
  rw [rejectsData_append announced, List.take_append_of_le_length (by omega)]

theorem handleSendUnsequenced_append (announced : payload.length = command.command.dataLength)
    (received : Nat) (rest : List UInt8) :
    host.handleSendUnsequenced index command received (payload ++ rest) =
      host.handleSendUnsequenced index command received payload := by
  unfold handleSendUnsequenced
  dsimp only
  rw [rejectsData_append announced, List.take_append_of_le_length (by omega)]

theorem handleSendFragment_append {fields : SendFragment}
    (same : command.command.dataLength = fields.dataLength)
    (announced : payload.length = fields.dataLength) (rest : List UInt8) :
    host.handleSendFragment index command fields (payload ++ rest) =
      host.handleSendFragment index command fields payload := by
  unfold handleSendFragment
  rw [rejectsData_append (announced.trans same.symm)]
  simp only [addFragment_append announced]

theorem handleSendUnreliableFragment_append {fields : SendFragment}
    (same : command.command.dataLength = fields.dataLength)
    (announced : payload.length = fields.dataLength) (rest : List UInt8) :
    host.handleSendUnreliableFragment index command fields (payload ++ rest) =
      host.handleSendUnreliableFragment index command fields payload := by
  unfold handleSendUnreliableFragment
  rw [rejectsData_append (announced.trans same.symm)]
  simp only [addFragment_append announced]

/-- **A handler sees the data of its command only**, whatever lies behind it. -/
theorem handleCommand_append (announced : payload.length = command.command.dataLength)
    (event : Option Event) (rest : List UInt8) :
    host.handleCommand event index command (payload ++ rest) =
      host.handleCommand event index command payload := by
  unfold handleCommand
  cases kind : command.command with
  | sendReliable dataLength => simp only [handleSendReliable_append announced]
  | sendUnreliable number dataLength => simp only [handleSendUnreliable_append announced]
  | sendUnsequenced group dataLength => simp only [handleSendUnsequenced_append announced]
  | sendFragment fields =>
      have same : command.command.dataLength = fields.dataLength := by rw [kind]; rfl
      simp only [handleSendFragment_append same (announced.trans same)]
  | sendUnreliableFragment fields =>
      have same : command.command.dataLength = fields.dataLength := by rw [kind]; rfl
      simp only [handleSendUnreliableFragment_append same (announced.trans same)]
  | _ => rfl

end Host

theorem Host.commandStep_append {host : Host} {index : Nat} {command : Protocol}
    {payload : List UInt8} (announced : payload.length = command.command.dataLength)
    (event : Option Event) (sentTime : Option Nat) (rest : List UInt8) :
    host.commandStep event index sentTime command (payload ++ rest) =
      host.commandStep event index sentTime command payload := by
  have hears : host.hear index command (payload ++ rest) sentTime.isSome =
      host.hear index command payload sentTime.isSome := by
    unfold hear heard
    rw [← announced, List.take_left, List.take_length]
  unfold commandStep
  dsimp only
  rw [hears, handleCommand_append announced]

/-! ## Commands taken one by one -/

/-- A command is followed by as many bytes as it announces. -/
def Part.Announced (part : Part) : Prop :=
  (part.payload.getD []).length = part.command.stored.command.dataLength

namespace Host

/-- A turn of the command loop for a command and its data, and whether the loop ends. -/
def takeCommand (host : Host) (event : Option Event) (peer sentTime : Option Nat)
    (command : Protocol) (data : List UInt8) : Host × Option Event × Option Nat × Bool :=
  match peer with
  | none =>
    match command.command with
    | .connect fields =>
      match host.handleConnect fields with
      | (host, none) => (host, event, none, true)
      | (host, some index) =>
        let staged := host.acknowledgeStage index command sentTime
        (staged.1, event, some index, staged.2)
    | _ => (host, event, none, true)
  | some index =>
    let stepped := host.commandStep event index sentTime command data
    (stepped.1, stepped.2.1, some index, stepped.2.2)

/-- The command loop over commands with their data. -/
def takeParts : Host → Option Event → (peer sentTime : Option Nat) → List Part →
    Host × Option Event
  | host, event, _, _, [] => (host, event)
  | host, event, peer, sentTime, part :: parts =>
    match host.takeCommand event peer sentTime part.command.stored (part.payload.getD []) with
    | (host, event, _, true) => (host, event)
    | (host, event, peer, false) => takeParts host event peer sentTime parts

/-- A turn of the command loop takes the first command that was packed. -/
theorem incomingStep_encode (host : Host) (event : Option Event) (peer sentTime : Option Nat)
    {part : Part} (announced : part.Announced) (rest : List UInt8) :
    host.incomingStep event peer sentTime (part.encode ++ rest) =
      let taken :=
        host.takeCommand event peer sentTime part.command.stored (part.payload.getD [])
      (taken.1, taken.2.1, taken.2.2.1, bif taken.2.2.2 then none else some rest) := by
  have bytes : part.encode ++ rest = part.command.encode ++ (part.payload.getD [] ++ rest) := by
    unfold Part.encode
    rw [List.append_assoc]
  have behind : (part.encode ++ rest).drop part.command.stored.size =
      part.payload.getD [] ++ rest := by
    rw [bytes, Protocol.stored_size, ← Protocol.length_encode, List.drop_left]
  have left : (part.payload.getD [] ++ rest).drop part.command.stored.command.dataLength =
      rest := by
    rw [← announced, List.drop_left]
  unfold incomingStep
  rw [bytes, Protocol.decode_encode, ← bytes]
  dsimp only
  rw [behind]
  unfold takeCommand
  cases peer with
  | none =>
      cases kind : part.command.stored.command with
      | connect fields =>
          have none : part.payload.getD [] = [] := by
            have announced := announced
            unfold Part.Announced at announced
            rw [kind] at announced
            exact List.eq_nil_of_length_eq_zero announced
          rw [none, List.nil_append]
          dsimp only
          obtain ⟨connected, slot⟩ := host.handleConnect fields
          cases slot with
          | none => rfl
          | some index =>
              dsimp only
              cases (connected.acknowledgeStage index part.command.stored sentTime).2 with
              | true => rfl
              | false => rfl
      | _ => rfl
  | some index =>
      dsimp only
      rw [left, commandStep_append announced]
      cases (host.commandStep event index sentTime part.command.stored
        (part.payload.getD [])).2.2 with
      | true => rfl
      | false => rfl

/-- **The command loop takes the commands that were packed**, each with its own data, in the
order in which they were packed, up to one that ends the loop. -/
theorem incomingLoop_encodeParts (sentTime : Option Nat) (parts : List Part) :
    ∀ {host : Host} {event : Option Event} {peer : Option Nat} {fuel : Nat},
    (∀ part ∈ parts, part.Announced) → parts.length ≤ fuel →
    incomingLoop fuel host event peer sentTime (encodeParts parts) =
      host.takeParts event peer sentTime parts := by
  induction parts with
  | nil =>
      intro host event peer fuel announced enough
      cases fuel with
      | zero => rfl
      | succ fuel => rfl
  | cons part parts ih =>
      intro host event peer fuel announced enough
      rw [List.length_cons] at enough
      obtain ⟨fuel, rfl⟩ : ∃ rest, fuel = rest + 1 := ⟨fuel - 1, by omega⟩
      have first := announced part List.mem_cons_self
      have bytes : encodeParts (part :: parts) = part.encode ++ encodeParts parts := rfl
      have filled : (part.encode ++ encodeParts parts).isEmpty = false := by
        have size := Protocol.four_le_size part.command
        rw [List.isEmpty_eq_false_iff]
        intro empty
        have short := congrArg List.length empty
        rw [List.length_append, Part.length_encode] at short
        simp at short
        omega
      unfold incomingLoop takeParts
      rw [bytes, filled, if_neg Bool.false_ne_true,
        incomingStep_encode host event peer sentTime first]
      dsimp only
      obtain ⟨host', event', peer', ends⟩ :=
        host.takeCommand event peer sentTime part.command.stored (part.payload.getD [])
      cases ends with
      | true => rfl
      | false =>
          exact ih (fun other member => announced other (List.mem_cons_of_mem _ member)) (by omega)

end Host

end Enet
