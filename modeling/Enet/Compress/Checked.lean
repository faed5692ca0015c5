import Enet.Model.CheckedCoding

/-!
# Checked computations and the source

Where no check fails, the checked functions of the compressor compute what the
functions of the source compute.
-/

set_option autoImplicit false

namespace Enet

/-! ## Agreement -/

/-- A checked computation gives what the source gives, or one of its checks fails. -/
inductive Agrees {α : Type} : CheckedCoding α → Coding α → Prop where
  | same (plain : Coding α) : Agrees plain.checked plain
  | wraps (plain : Coding α) : Agrees (.error .wraps) plain
  | unsettled (plain : Coding α) : Agrees (.error .unsettled) plain

namespace Agrees

variable {α β : Type} {checked : CheckedCoding α} {plain : Coding α}

theorem ok (value : α) : Agrees (.ok value) (.ok value) := .same (.ok value)

theorem pure (value : α) : Agrees (Pure.pure value) (Pure.pure value) := .same (.ok value)

theorem stop (stop : CodingStop) : Agrees (α := α) (.error (.stop stop)) (.error stop) :=
  .same (.error stop)

/-- Agreement goes on through a computation. -/
theorem bind {next : α → CheckedCoding β} {next' : α → Coding β} (first : Agrees checked plain)
    (after : ∀ value, Agrees (next value) (next' value)) :
    Agrees (checked >>= next) (plain >>= next') := by
  cases first with
  | same =>
      cases plain with
      | ok value => exact after value
      | error stop => exact .same (.error stop)
  | wraps => exact .wraps _
  | unsettled => exact .unsettled _

theorem fit {limit value : Nat} {next : Nat → CheckedCoding β} {plain : Coding β}
    (after : value < limit → Agrees (next value) plain) :
    Agrees (fit limit value >>= next) plain := by
  unfold Enet.fit
  split
  next within => exact after within
  next => exact .wraps _

theorem minus {a b : Nat} {next : Nat → CheckedCoding β} {plain : Coding β}
    (after : b ≤ a → Agrees (next (a - b)) plain) : Agrees (minus a b >>= next) plain := by
  unfold Enet.minus
  split
  next within => exact after within
  next => exact .wraps _

theorem ite {condition : Prop} {decidable : Decidable condition} {yes no : CheckedCoding α}
    {yes' no' : Coding α} (first : Agrees yes yes') (second : Agrees no no') :
    Agrees (if condition then yes else no) (if condition then yes' else no') := by
  split
  · exact first
  · exact second

/-- What a checked computation returns, the source returns. -/
theorem of_ok {value : α} (agrees : Agrees checked plain) (returns : checked = .ok value) :
    plain = .ok value := by
  cases agrees with
  | same =>
      cases plain with
      | ok other => cases returns; rfl
      | error stop => cases returns
  | wraps => cases returns
  | unsettled => cases returns

theorem of_stop {stop : CodingStop} (agrees : Agrees checked plain)
    (stops : checked = .error (.stop stop)) : plain = .error stop := by
  cases agrees with
  | same =>
      cases plain with
      | ok value => cases stops
      | error other => cases stops; rfl
  | wraps => cases stops
  | unsettled => cases stops

end Agrees

/-! ## Endings -/

namespace CheckedCoding

variable {α β : Type}

/-- A computation that returns something good, or stops where the output is full. -/
def Ends (result : CheckedCoding α) (good : α → Prop) : Prop :=
  result = .error (.stop .nothing) ∨ ∃ value, result = .ok value ∧ good value

theorem ok_bind (value : α) (next : α → CheckedCoding β) :
    ((Except.ok value : CheckedCoding α) >>= next) = next value := rfl

theorem Ends.bind {result : CheckedCoding α} {next : α → CheckedCoding β} {good : α → Prop}
    {better : β → Prop} (ends : Ends result good)
    (after : ∀ value, good value → Ends (next value) better) : Ends (result >>= next) better := by
  rcases ends with stops | ⟨value, returns, isGood⟩
  · rw [stops]
    exact .inl rfl
  · rw [returns]
    exact after value isGood

end CheckedCoding

/-- A computation that ends is that of the source. -/
theorem Agrees.of_ends {α : Type} {checked : CheckedCoding α} {plain : Coding α} {good : α → Prop}
    (agrees : Agrees checked plain) (ends : checked.Ends good) : checked = plain.checked := by
  rcases ends with stops | ⟨value, returns, -⟩
  · rw [agrees.of_stop stops]
    exact stops
  · rw [agrees.of_ok returns]
    exact returns

/-! ## Trees -/

namespace RangeCoder

theorem symbolCreateChecked_agrees (coder : RangeCoder) {value count : Nat} :
    Agrees (coder.symbolCreateChecked value count) (coder.symbolCreate value count) := by
  refine .fit fun _ => .fit fun _ => ?_
  exact .same _

theorem symbolRescaleChecked_agrees (fuel : Nat) : ∀ (coder : RangeCoder) (index : Nat),
    Agrees (coder.symbolRescaleChecked fuel index) (coder.symbolRescale fuel index) := by
  induction fuel with
  | zero => exact fun coder index => .stop _
  | succ fuel ih =>
      intro coder index
      unfold symbolRescaleChecked symbolRescale
      refine .bind (.same _) fun symbol => .bind (.same _) fun coder => ?_
      extract_lets meet meet'
      have after : ∀ value, Agrees (meet value) (meet' value) := by
        rintro ⟨coder, under⟩
        refine .ite (.pure _) (.bind (ih _ _) ?_)
        rintro ⟨coder, right⟩
        refine .fit fun within => ?_
        dsimp only
        rw [u16, Nat.mod_eq_of_lt within]
        exact .pure _
      refine .ite (.bind (.pure _) after) (.bind (ih _ _) ?_)
      rintro ⟨coder, left⟩
      refine .fit fun within => ?_
      dsimp only
      rw [u16, Nat.mod_eq_of_lt within]
      exact .bind (.same _) fun coder => .bind (.pure _) after

theorem contextRescaleChecked_agrees (coder : RangeCoder) (context minimum : Nat) :
    Agrees (coder.contextRescaleChecked context minimum)
      (coder.contextRescale context minimum) := by
  unfold contextRescaleChecked contextRescale
  refine .bind (.same _) fun symbol => ?_
  extract_lets escapes meet meet'
  have after : ∀ value, Agrees (meet value) (meet' value) := by
    rintro ⟨coder, total⟩
    refine .fit fun within => ?_
    change Agrees _ (coder.modify context fun symbol =>
      symbol.setContext escapes (u16 (total + escapes + 256 * minimum)))
    rw [u16, Nat.mod_eq_of_lt within]
    exact .same _
  exact .ite (.bind (.pure _) after) (.bind (symbolRescaleChecked_agrees _ _ _) after)

theorem encodeWalkChecked_agrees (value update fuel : Nat) : ∀ (coder : RangeCoder)
    (node under count : Nat), Agrees (encodeWalkChecked value update fuel coder node under count)
      (encodeWalk value update fuel coder node under count) := by
  induction fuel with
  | zero => exact fun coder node under count => .stop _
  | succ fuel ih =>
      intro coder node under count
      unfold encodeWalkChecked encodeWalk
      refine .bind (.same _) fun symbol => .ite ?_ (.ite ?_ ?_)
      · refine .fit fun within => ?_
        rw [u16, Nat.mod_eq_of_lt within]
        refine .bind (.same _) fun coder => .ite (ih _ _ _ _) ?_
        refine .bind (symbolCreateChecked_agrees _) ?_
        rintro ⟨coder, created⟩
        refine .minus fun _ => .fit fun within => ?_
        dsimp only
        rw [u16, Nat.mod_eq_of_lt within]
        exact .bind (.same _) fun coder => .pure _
      · refine .fit fun within => ?_
        rw [u16, Nat.mod_eq_of_lt within]
        refine .ite (ih _ _ _ _) ?_
        refine .bind (symbolCreateChecked_agrees _) ?_
        rintro ⟨coder, created⟩
        refine .minus fun _ => .fit fun within => ?_
        dsimp only
        rw [u16, Nat.mod_eq_of_lt within]
        exact .bind (.same _) fun coder => .pure _
      · refine .fit fun counted => .fit fun counts => ?_
        rw [u8, u16, Nat.mod_eq_of_lt counted, Nat.mod_eq_of_lt counts]
        refine .bind (.same _) fun coder => .minus fun less => ?_
        refine .fit fun under => .fit fun count => ?_
        rw [sub16, if_pos less, u16, Nat.mod_eq_of_lt under, u16, Nat.mod_eq_of_lt count]
        exact .pure _

theorem contextEncodeChecked_agrees (coder : RangeCoder) (context value update minimum : Nat) :
    Agrees (coder.contextEncodeChecked context value update minimum)
      (coder.contextEncode context value update minimum) := by
  unfold contextEncodeChecked contextEncode
  refine .bind (.same _) fun symbol => .fit fun within => ?_
  dsimp only
  rw [u16, Nat.mod_eq_of_lt within]
  refine .ite (.bind (symbolCreateChecked_agrees _) ?_) (encodeWalkChecked_agrees _ _ _ _ _ _ _)
  rintro ⟨coder, created⟩
  refine .minus fun _ => .fit fun within => ?_
  dsimp only
  rw [u16, Nat.mod_eq_of_lt within]
  exact .bind (.same _) fun coder => .pure _

/-! ## Contexts -/

theorem setParentChecked_agrees (coder : RangeCoder) (slot : ParentSlot) (parent : Nat) :
    Agrees (coder.setParentChecked slot parent) (coder.setParent slot parent) :=
  .fit fun _ => .same _

theorem countSubcontextChecked_agrees (coder : RangeCoder) (context escape count : Nat) :
    Agrees (coder.countSubcontextChecked context escape count)
      (coder.countSubcontext context escape count) := by
  unfold countSubcontextChecked countSubcontext
  refine .bind (.same _) fun symbol => .fit fun escaped => .fit fun total => .fit fun escapes => ?_
  dsimp only
  rw [show u16 (symbol.total + escape) = symbol.total + escape from Nat.mod_eq_of_lt escaped,
    u16, Nat.mod_eq_of_lt escapes, u16, Nat.mod_eq_of_lt total]
  exact .bind (.same _) fun coder => .ite (contextRescaleChecked_agrees _ _ _) (.pure _)

theorem countRootChecked_agrees (coder : RangeCoder) (count : Nat) :
    Agrees (coder.countRootChecked count) (coder.countRoot count) := by
  unfold countRootChecked countRoot
  refine .bind (.same _) fun symbol => .fit fun total => ?_
  dsimp only
  rw [u16, Nat.mod_eq_of_lt total]
  exact .bind (.same _) fun coder => .ite (contextRescaleChecked_agrees _ _ _) (.pure _)

end RangeCoder

/-! ## The range -/

namespace RangeEncoder

theorem normaliseChecked_agrees (fuel : Nat) : ∀ (encoder : RangeEncoder),
    Agrees (normaliseChecked fuel encoder) (normalise fuel encoder) := by
  induction fuel with
  | zero => exact fun encoder => .stop _
  | succ fuel ih =>
      intro encoder
      unfold normaliseChecked normalise
      cases settleRange encoder.low encoder.range with
      | none =>
          dsimp only
          split
          · exact .ok _
          · exact .unsettled _
      | some range =>
          refine .bind (.same _) fun encoder => .fit fun within => ?_
          rw [show u32 (range * 256) = range * 256 from Nat.mod_eq_of_lt within]
          exact ih _

theorem encodeChecked_agrees (encoder : RangeEncoder) (under count total : Nat) :
    Agrees (encoder.encodeChecked under count total) (encoder.encode under count total) := by
  unfold encodeChecked encode
  refine .ite (.stop _) (.fit fun low => .fit fun range => ?_)
  dsimp only
  rw [show u32 (encoder.low + under * (encoder.range / total)) =
      encoder.low + under * (encoder.range / total) from Nat.mod_eq_of_lt low,
    show u32 (encoder.range / total * count) = encoder.range / total * count from
      Nat.mod_eq_of_lt range]
  exact normaliseChecked_agrees _ _

end RangeEncoder

/-! ## Compression -/

namespace RangeCoder

theorem encodeSubcontextsChecked_agrees (value fuel : Nat) : ∀ (coder : RangeCoder)
    (encoder : RangeEncoder) (subcontext : Nat) (parent : ParentSlot),
    Agrees (encodeSubcontextsChecked value fuel coder encoder subcontext parent)
      (encodeSubcontexts value fuel coder encoder subcontext parent) := by
  induction fuel with
  | zero => exact fun coder encoder subcontext parent => .stop _
  | succ fuel ih =>
      intro coder encoder subcontext parent
      unfold encodeSubcontextsChecked encodeSubcontexts
      refine .ite (.pure _) (.bind (contextEncodeChecked_agrees _ _ _ _ _) ?_)
      rintro ⟨coder, coded⟩
      refine .bind (setParentChecked_agrees _ _ _) fun coder => .bind (.same _) fun context => ?_
      extract_lets meet meet'
      have after : ∀ encoder, Agrees (meet encoder) (meet' encoder) := by
        intro encoder
        refine .bind (countSubcontextChecked_agrees _ _ _ _) fun coder => .ite (.pure _) ?_
        exact .bind (.same _) fun context => ih _ _ _ _
      refine .ite (.fit fun _ => .bind (RangeEncoder.encodeChecked_agrees _ _ _ _) after) ?_
      exact .ite (.bind (RangeEncoder.encodeChecked_agrees _ _ _ _) after) (.bind (.pure _) after)

theorem encodeRootChecked_agrees (coder : RangeCoder) (encoder : RangeEncoder) (value : Nat)
    (parent : ParentSlot) : Agrees (coder.encodeRootChecked encoder value parent)
      (coder.encodeRoot encoder value parent) := by
  unfold encodeRootChecked encodeRoot
  refine .bind (contextEncodeChecked_agrees _ _ _ _ _) ?_
  rintro ⟨coder, coded⟩
  refine .bind (setParentChecked_agrees _ _ _) fun coder => .bind (.same _) fun root => ?_
  refine .fit fun _ => .bind (RangeEncoder.encodeChecked_agrees _ _ _ _) fun encoder => ?_
  exact .bind (countRootChecked_agrees _ _) fun coder => .pure _

/-- **A byte is coded as in the source**, where no check fails. -/
theorem encodeValueChecked_agrees (coder : RangeCoder) (encoder : RangeEncoder) (value : UInt8) :
    Agrees (coder.encodeValueChecked encoder value) (coder.encodeValue encoder value) := by
  unfold encodeValueChecked encodeValue
  refine .bind (encodeSubcontextsChecked_agrees _ _ _ _ _ _) ?_
  rintro ⟨coder, encoder, parent⟩
  cases parent with
  | none => exact .bind (.pure _) fun _ => .bind (.same _) fun coder => .pure _
  | some parent =>
      exact .bind (encodeRootChecked_agrees _ _ _ _) fun _ => .bind (.same _) fun coder => .pure _

end RangeCoder

end Enet
