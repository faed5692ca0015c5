import Enet.Model.Compress

/-!
# The compressor with its arithmetic checked

The functions of `enet_range_coder_compress` once more, with each sum, product
and difference checked: a value that does not fit the field or the variable it
is stored to stops the computation, and so does a normalisation that leaves the
registers of the encoder outside of their range. Only the bytes that are shifted
out of `encodeLow` are let go.
-/

set_option autoImplicit false

namespace Enet

/-! ## Checks -/

/-- Why a checked computation stops. -/
inductive CheckedStop where
  | stop (stop : CodingStop)
  /-- A value does not fit its field or its variable. -/
  | wraps
  /-- The registers of the encoder are not settled. -/
  | unsettled
  deriving DecidableEq, Repr

/-- A computation that also stops where a check fails. -/
abbrev CheckedCoding (α : Type) : Type := Except CheckedStop α

/-- A computation in which nothing is checked. -/
def Coding.checked {α : Type} : Coding α → CheckedCoding α
  | .ok value => .ok value
  | .error stop => .error (.stop stop)

/-- A value below a limit. -/
def fit (limit value : Nat) : CheckedCoding Nat :=
  if value < limit then .ok value else .error .wraps

abbrev fit8 (value : Nat) : CheckedCoding Nat := fit 256 value
abbrev fit16 (value : Nat) : CheckedCoding Nat := fit 65536 value
abbrev fit32 (value : Nat) : CheckedCoding Nat := fit 4294967296 value

/-- A difference that is not negative. -/
def minus (a b : Nat) : CheckedCoding Nat := if b ≤ a then .ok (a - b) else .error .wraps

/-! ## Trees -/

namespace RangeCoder

/-- `ENET_SYMBOL_CREATE`. -/
def symbolCreateChecked (coder : RangeCoder) (value count : Nat) :
    CheckedCoding (RangeCoder × Nat) := do
  let value ← fit8 value
  let count ← fit8 count
  (coder.symbolCreate value count).checked

/-- `enet_symbol_rescale`. -/
def symbolRescaleChecked :
    (fuel : Nat) → RangeCoder → (index : Nat) → CheckedCoding (RangeCoder × Nat)
  | 0, _, _ => .error (.stop (.fault .walk))
  | fuel + 1, coder, index => do
    let symbol ← (coder.symbol index).checked
    let count := symbol.count - symbol.count / 2
    let coder ← (coder.modify index (·.setCount count count)).checked
    let (coder, under) ←
      if symbol.left = 0 then pure (coder, count)
      else do
        let (coder, left) ← symbolRescaleChecked fuel coder (index + symbol.left)
        let under ← fit16 (count + left)
        let coder ← (coder.modify index (·.setUnder under)).checked
        pure (coder, under)
    if symbol.right = 0 then pure (coder, under)
    else do
      let (coder, right) ← symbolRescaleChecked fuel coder (index + symbol.right)
      let total ← fit16 (under + right)
      pure (coder, total)

/-- `ENET_CONTEXT_RESCALE`. -/
def contextRescaleChecked (coder : RangeCoder) (context minimum : Nat) :
    CheckedCoding RangeCoder := do
  let symbol ← (coder.symbol context).checked
  let (coder, total) ←
    if symbol.symbols = 0 then pure (coder, 0)
    else coder.symbolRescaleChecked rangeCoderSymbols (context + symbol.symbols)
  let escapes := symbol.escapes - symbol.escapes / 2
  let total ← fit16 (total + escapes + 256 * minimum)
  (coder.modify context (·.setContext escapes total)).checked

/-- The loop of `ENET_CONTEXT_ENCODE` down the tree of a context. -/
def encodeWalkChecked (value update : Nat) :
    (fuel : Nat) → RangeCoder → (node under count : Nat) →
      CheckedCoding (RangeCoder × CodedSymbol)
  | 0, _, _, _, _ => .error (.stop (.fault .walk))
  | fuel + 1, coder, node, under, count => do
    let symbol ← (coder.symbol node).checked
    if value < symbol.value then
      let counted ← fit16 (symbol.under + update)
      let coder ← (coder.modify node (·.setUnder counted)).checked
      if symbol.left ≠ 0 then
        encodeWalkChecked value update fuel coder (node + symbol.left) under count
      else
        let (coder, created) ← coder.symbolCreateChecked value update
        let offset ← fit16 (← minus created node)
        let coder ← (coder.modify node (·.setLeft offset)).checked
        return (coder, ⟨created, under, count⟩)
    else if symbol.value < value then
      let under ← fit16 (under + symbol.under)
      if symbol.right ≠ 0 then
        encodeWalkChecked value update fuel coder (node + symbol.right) under count
      else
        let (coder, created) ← coder.symbolCreateChecked value update
        let offset ← fit16 (← minus created node)
        let coder ← (coder.modify node (·.setRight offset)).checked
        return (coder, ⟨created, under, count⟩)
    else
      let counted ← fit8 (symbol.count + update)
      let counts ← fit16 (symbol.under + update)
      let coder ← (coder.modify node (·.setCount counted counts)).checked
      let under ← fit16 (under + (← minus symbol.under symbol.count))
      let count ← fit16 (count + symbol.count)
      return (coder, ⟨node, under, count⟩)

/-- `ENET_CONTEXT_ENCODE`. -/
def contextEncodeChecked (coder : RangeCoder) (context value update minimum : Nat) :
    CheckedCoding (RangeCoder × CodedSymbol) := do
  let symbol ← (coder.symbol context).checked
  let under ← fit16 (value * minimum)
  if symbol.symbols = 0 then
    let (coder, created) ← coder.symbolCreateChecked value update
    let offset ← fit16 (← minus created context)
    let coder ← (coder.modify context (·.setSymbols offset)).checked
    return (coder, ⟨created, under, minimum⟩)
  else
    encodeWalkChecked value update rangeCoderSymbols coder (context + symbol.symbols) under minimum

/-! ## Contexts -/

/-- Write `*parent`. -/
def setParentChecked (coder : RangeCoder) (slot : ParentSlot) (parent : Nat) :
    CheckedCoding RangeCoder := do
  let parent ← fit16 parent
  (coder.setParent slot parent).checked

/-- Count an escape from a context, if any, and the symbol of a value; then rescale
the context where that is needed. -/
def countSubcontextChecked (coder : RangeCoder) (context escape count : Nat) :
    CheckedCoding RangeCoder := do
  let symbol ← (coder.symbol context).checked
  let escaped ← fit16 (symbol.total + escape)
  let total ← fit16 (escaped + subcontextSymbolDelta)
  let escapes ← fit16 (symbol.escapes + escape)
  let coder ← (coder.modify context (·.setContext escapes total)).checked
  if needsRescale count total (0xFF - 2 * subcontextSymbolDelta) then
    coder.contextRescaleChecked context 0
  else return coder

/-- Count a symbol in the root context, and rescale it where that is needed. -/
def countRootChecked (coder : RangeCoder) (count : Nat) : CheckedCoding RangeCoder := do
  let root ← (coder.symbol 0).checked
  let total ← fit16 (root.total + contextSymbolDelta)
  let coder ← (coder.modify 0 (·.setContext root.escapes total)).checked
  if needsRescale count total (0xFF - 2 * contextSymbolDelta + contextSymbolMinimum) then
    coder.contextRescaleChecked 0 contextSymbolMinimum
  else return coder

end RangeCoder

/-! ## The range -/

namespace RangeEncoder

/-- The registers after a normalisation: no carry can leave `encodeLow`, and the range
is not too small for a total. -/
structure Settled (encoder : RangeEncoder) : Prop where
  carry : encoder.low + encoder.range ≤ 4294967296
  wide : rangeCoderBottom ≤ encoder.range

instance (encoder : RangeEncoder) : Decidable encoder.Settled :=
  decidable_of_iff (encoder.low + encoder.range ≤ 4294967296 ∧ rangeCoderBottom ≤ encoder.range)
    ⟨fun both => ⟨both.1, both.2⟩, fun settled => ⟨settled.carry, settled.wide⟩⟩

/-- The loop of `ENET_RANGE_CODER_ENCODE`. -/
def normaliseChecked : (fuel : Nat) → RangeEncoder → CheckedCoding RangeEncoder
  | 0, _ => .error (.stop (.fault .normalise))
  | fuel + 1, encoder =>
    match settleRange encoder.low encoder.range with
    | none => if encoder.Settled then .ok encoder else .error .unsettled
    | some range => do
      let encoder ← (encoder.write (encoder.low / rangeCoderTop)).checked
      let range ← fit32 (range * 256)
      normaliseChecked fuel { encoder with range := range, low := u32 (encoder.low * 256) }

/-- `ENET_RANGE_CODER_ENCODE`. -/
def encodeChecked (encoder : RangeEncoder) (under count total : Nat) :
    CheckedCoding RangeEncoder :=
  if total = 0 then .error (.stop (.fault .division))
  else do
    let range := encoder.range / total
    let low ← fit32 (encoder.low + under * range)
    let range ← fit32 (range * count)
    normaliseChecked rangeTurns { encoder with low := low, range := range }

end RangeEncoder

/-! ## Compression -/

namespace RangeCoder

/-- The loop of `enet_range_coder_compress` over the subcontexts, from one of them on. -/
def encodeSubcontextsChecked (value : Nat) :
    (fuel : Nat) → RangeCoder → RangeEncoder → (subcontext : Nat) → ParentSlot →
      CheckedCoding (RangeCoder × RangeEncoder × Option ParentSlot)
  | 0, _, _, _, _ => .error (.stop (.fault .walk))
  | fuel + 1, coder, encoder, subcontext, parent =>
    if subcontext = 0 then return (coder, encoder, some parent)
    else do
      let (coder, coded) ← coder.contextEncodeChecked subcontext value subcontextSymbolDelta 0
      let coder ← coder.setParentChecked parent coded.symbol
      let context ← (coder.symbol subcontext).checked
      let encoder ←
        if 0 < coded.count then do
          let under ← fit16 (context.escapes + coded.under)
          encoder.encodeChecked under coded.count context.total
        else if 0 < context.escapes ∧ context.escapes < context.total then
          encoder.encodeChecked 0 context.escapes context.total
        else pure encoder
      let coder ← coder.countSubcontextChecked subcontext (escapeDelta coded.count) coded.count
      if 0 < coded.count then return (coder, encoder, none)
      else do
        let context ← (coder.symbol subcontext).checked
        encodeSubcontextsChecked value fuel coder encoder context.parent (.symbol coded.symbol)

/-- Code a value in the root context. -/
def encodeRootChecked (coder : RangeCoder) (encoder : RangeEncoder) (value : Nat)
    (parent : ParentSlot) : CheckedCoding (RangeCoder × RangeEncoder) := do
  let (coder, coded) ← coder.contextEncodeChecked 0 value contextSymbolDelta contextSymbolMinimum
  let coder ← coder.setParentChecked parent coded.symbol
  let root ← (coder.symbol 0).checked
  let under ← fit16 (root.escapes + coded.under)
  let encoder ← encoder.encodeChecked under coded.count root.total
  let coder ← coder.countRootChecked coded.count
  return (coder, encoder)

/-- The body of the loop of `enet_range_coder_compress` for one value. -/
def encodeValueChecked (coder : RangeCoder) (encoder : RangeEncoder) (value : UInt8) :
    CheckedCoding (RangeCoder × RangeEncoder) := do
  let (coder, encoder, parent) ←
    encodeSubcontextsChecked value.toNat rangeCoderSymbols coder encoder coder.predicted .predicted
  let (coder, encoder) ←
    match parent with
    | none => pure (coder, encoder)
    | some parent => coder.encodeRootChecked encoder value.toNat parent
  let coder ← coder.nextContext.checked
  return (coder, encoder)

end RangeCoder

end Enet
