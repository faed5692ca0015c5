import Mathlib.Algebra.Ring.Nat
import Enet.Model.Protocol

/-!
# The range coder

The adaptive order-2 coder of `compress.c`. A symbol is an entry of the table;
the links of the trees and of the contexts are 16-bit offsets and indices into
it, as in the source, and a null link is 0.

What the source leaves undefined stops a computation: an index past the table,
a division by zero, and a loop that goes on for longer than any of its kind
can. An early `return 0` stops it too.
-/

set_option autoImplicit false

namespace Enet

/-! ## Machine arithmetic -/

/-- The value of an 8-bit unsigned register. -/
abbrev u8 (n : Nat) : Nat := n % 256

/-- 16-bit subtraction with wrap-around. -/
def sub16 (a b : Nat) : Nat := if b ≤ a then a - b else a + 65536 - b

/-! ## Constants -/

@[simp] abbrev rangeCoderTop : Nat := 16777216
@[simp] abbrev rangeCoderBottom : Nat := 65536
@[simp] abbrev rangeCoderSymbols : Nat := 4096
@[simp] abbrev contextSymbolDelta : Nat := 3
@[simp] abbrev contextSymbolMinimum : Nat := 1
@[simp] abbrev contextEscapeMinimum : Nat := 1
@[simp] abbrev subcontextOrder : Nat := 2
@[simp] abbrev subcontextSymbolDelta : Nat := 2
@[simp] abbrev subcontextEscapeDelta : Nat := 5

/-! ## The table -/

/-- `ENetSymbol`. -/
structure CodeSymbol where
  value : Nat
  count : Nat
  under : Nat
  left : Nat
  right : Nat
  symbols : Nat
  escapes : Nat
  total : Nat
  parent : Nat
  deriving DecidableEq, Repr

namespace CodeSymbol

def setUnder (symbol : CodeSymbol) (under : Nat) : CodeSymbol := { symbol with under := under }

def setLeft (symbol : CodeSymbol) (left : Nat) : CodeSymbol := { symbol with left := left }

def setRight (symbol : CodeSymbol) (right : Nat) : CodeSymbol := { symbol with right := right }

def setSymbols (symbol : CodeSymbol) (symbols : Nat) : CodeSymbol :=
  { symbol with symbols := symbols }

def setParent (symbol : CodeSymbol) (parent : Nat) : CodeSymbol :=
  { symbol with parent := parent }

/-- The count of a symbol and of what is under it. -/
def setCount (symbol : CodeSymbol) (count under : Nat) : CodeSymbol :=
  { symbol with count := count, under := under }

/-- The escapes and the total of a context. -/
def setContext (symbol : CodeSymbol) (escapes total : Nat) : CodeSymbol :=
  { symbol with escapes := escapes, total := total }

end CodeSymbol

/-- What undefined behaviour or what endless loop a computation has met. -/
inductive CodingFault where
  | symbolIndex
  | division
  | walk
  | normalise
  deriving DecidableEq, Repr

/-- Why a computation stops early. -/
inductive CodingStop where
  /-- `return 0`. -/
  | nothing
  | fault (fault : CodingFault)
  deriving DecidableEq, Repr

/-- A computation that may stop early. -/
abbrev Coding (α : Type) : Type := Except CodingStop α

/-- `ENetRangeCoder`, with the local variables that say how it is used. -/
structure RangeCoder where
  symbols : Nat → CodeSymbol
  nextSymbol : Nat
  predicted : Nat
  order : Nat

namespace RangeCoder

/-- Read an entry of the table. -/
def symbol (coder : RangeCoder) (index : Nat) : Coding CodeSymbol :=
  if index < rangeCoderSymbols then .ok (coder.symbols index) else .error (.fault .symbolIndex)

/-- Install an entry of the table. -/
def setSymbol (coder : RangeCoder) (index : Nat) (symbol : CodeSymbol) : RangeCoder :=
  { coder with symbols := Function.update coder.symbols index symbol }

/-- Write to the fields of an entry of the table. -/
def modify (coder : RangeCoder) (index : Nat) (change : CodeSymbol → CodeSymbol) :
    Coding RangeCoder :=
  if index < rangeCoderSymbols then .ok (coder.setSymbol index (change (coder.symbols index)))
  else .error (.fault .symbolIndex)

/-- The entry that `ENET_SYMBOL_CREATE` writes. -/
def newSymbol (value count : Nat) : CodeSymbol where
  value := u8 value
  count := u8 count
  under := count
  left := 0
  right := 0
  symbols := 0
  escapes := 0
  total := 0
  parent := 0

/-- `ENET_SYMBOL_CREATE`, and the index of the new symbol. -/
def symbolCreate (coder : RangeCoder) (value count : Nat) : Coding (RangeCoder × Nat) := do
  let created ← coder.modify coder.nextSymbol fun _ => newSymbol value count
  return ({ created with nextSymbol := coder.nextSymbol + 1 }, coder.nextSymbol)

/-- `ENET_CONTEXT_CREATE`. -/
def contextCreate (coder : RangeCoder) (escapes minimum : Nat) : Coding RangeCoder := do
  let (coder, context) ← coder.symbolCreate 0 0
  coder.modify context (·.setContext escapes (u16 (escapes + 256 * minimum)))

/-! ## Rescaling -/

/-- `enet_symbol_rescale`: its recursion goes left, its loop goes right. -/
def symbolRescale : (fuel : Nat) → RangeCoder → (index : Nat) → Coding (RangeCoder × Nat)
  | 0, _, _ => .error (.fault .walk)
  | fuel + 1, coder, index => do
    let symbol ← coder.symbol index
    let count := symbol.count - symbol.count / 2
    let coder ← coder.modify index (·.setCount count count)
    let (coder, under) ←
      if symbol.left = 0 then pure (coder, count)
      else do
        let (coder, left) ← symbolRescale fuel coder (index + symbol.left)
        let under := u16 (count + left)
        let coder ← coder.modify index (·.setUnder under)
        pure (coder, under)
    if symbol.right = 0 then pure (coder, under)
    else do
      let (coder, right) ← symbolRescale fuel coder (index + symbol.right)
      pure (coder, u16 (under + right))

/-- `ENET_CONTEXT_RESCALE`. -/
def contextRescale (coder : RangeCoder) (context minimum : Nat) : Coding RangeCoder := do
  let symbol ← coder.symbol context
  let (coder, total) ←
    if symbol.symbols = 0 then pure (coder, 0)
    else coder.symbolRescale rangeCoderSymbols (context + symbol.symbols)
  let escapes := symbol.escapes - symbol.escapes / 2
  coder.modify context (·.setContext escapes (u16 (total + escapes + 256 * minimum)))

end RangeCoder

/-! ## Encoding a value in a context -/

/-- The symbol of a value in a context, with what comes under it and its count. -/
structure CodedSymbol where
  symbol : Nat
  under : Nat
  count : Nat
  deriving DecidableEq, Repr

namespace RangeCoder

/-- The loop of `ENET_CONTEXT_ENCODE` down the tree of a context. -/
def encodeWalk (value update : Nat) :
    (fuel : Nat) → RangeCoder → (node under count : Nat) → Coding (RangeCoder × CodedSymbol)
  | 0, _, _, _, _ => .error (.fault .walk)
  | fuel + 1, coder, node, under, count => do
    let symbol ← coder.symbol node
    if value < symbol.value then
      let coder ← coder.modify node (·.setUnder (u16 (symbol.under + update)))
      if symbol.left ≠ 0 then encodeWalk value update fuel coder (node + symbol.left) under count
      else
        let (coder, created) ← coder.symbolCreate value update
        let coder ← coder.modify node (·.setLeft (u16 (created - node)))
        return (coder, ⟨created, under, count⟩)
    else if symbol.value < value then
      let under := u16 (under + symbol.under)
      if symbol.right ≠ 0 then encodeWalk value update fuel coder (node + symbol.right) under count
      else
        let (coder, created) ← coder.symbolCreate value update
        let coder ← coder.modify node (·.setRight (u16 (created - node)))
        return (coder, ⟨created, under, count⟩)
    else
      let coder ← coder.modify node
        (·.setCount (u8 (symbol.count + update)) (u16 (symbol.under + update)))
      return (coder,
        ⟨node, u16 (under + sub16 symbol.under symbol.count), u16 (count + symbol.count)⟩)

/-- `ENET_CONTEXT_ENCODE`. -/
def contextEncode (coder : RangeCoder) (context value update minimum : Nat) :
    Coding (RangeCoder × CodedSymbol) := do
  let symbol ← coder.symbol context
  let under := u16 (value * minimum)
  if symbol.symbols = 0 then
    let (coder, created) ← coder.symbolCreate value update
    let coder ← coder.modify context (·.setSymbols (u16 (created - context)))
    return (coder, ⟨created, under, minimum⟩)
  else encodeWalk value update rangeCoderSymbols coder (context + symbol.symbols) under minimum

/-! ## Contexts -/

/-- The variable that `parent` points to: `predicted`, or the field of a symbol. -/
inductive ParentSlot where
  | predicted
  | symbol (index : Nat)
  deriving DecidableEq, Repr

/-- Write `*parent`. -/
def setParent (coder : RangeCoder) (slot : ParentSlot) (parent : Nat) : Coding RangeCoder :=
  match slot with
  | .predicted => .ok { coder with predicted := u16 parent }
  | .symbol index => coder.modify index (·.setParent (u16 parent))

/-- Whether a context is rescaled after a symbol with this count. -/
def needsRescale (count total limit : Nat) : Bool :=
  decide (limit < count) || decide (rangeCoderBottom - 0x100 < total)

/-- Count an escape from a context, if any, and the symbol of a value; then rescale
the context where that is needed. -/
def countSubcontext (coder : RangeCoder) (context escape count : Nat) : Coding RangeCoder := do
  let symbol ← coder.symbol context
  let total := u16 (u16 (symbol.total + escape) + subcontextSymbolDelta)
  let coder ← coder.modify context (·.setContext (u16 (symbol.escapes + escape)) total)
  if needsRescale count total (0xFF - 2 * subcontextSymbolDelta) then
    coder.contextRescale context 0
  else return coder

/-- The escape that is counted where the symbol of a value was new. -/
def escapeDelta (count : Nat) : Nat := if count = 0 then subcontextEscapeDelta else 0

/-- Count a symbol in the root context, and rescale it where that is needed. -/
def countRoot (coder : RangeCoder) (count : Nat) : Coding RangeCoder := do
  let root ← coder.symbol 0
  let total := u16 (root.total + contextSymbolDelta)
  let coder ← coder.modify 0 (·.setContext root.escapes total)
  if needsRescale count total (0xFF - 2 * contextSymbolDelta + contextSymbolMinimum) then
    coder.contextRescale 0 contextSymbolMinimum
  else return coder

/-- The context for the next value, and `ENET_RANGE_CODER_FREE_SYMBOLS`. -/
def nextContext (coder : RangeCoder) : Coding RangeCoder := do
  let coder ←
    if subcontextOrder ≤ coder.order then do
      let symbol ← coder.symbol coder.predicted
      pure { coder with predicted := symbol.parent }
    else pure { coder with order := coder.order + 1 }
  if rangeCoderSymbols - subcontextOrder ≤ coder.nextSymbol then do
    let coder ← contextCreate { coder with nextSymbol := 0 } contextEscapeMinimum
      contextSymbolMinimum
    return { coder with predicted := 0, order := 0 }
  else return coder

/-- The coder at the head of the two functions, for what the table holds. -/
def start (symbols : Nat → CodeSymbol) : Coding RangeCoder :=
  contextCreate ⟨symbols, 0, 0, 0⟩ contextEscapeMinimum contextSymbolMinimum

end RangeCoder

/-! ## The range -/

/-- Whether the loop of `ENET_RANGE_CODER_ENCODE` and `ENET_RANGE_CODER_DECODE` ends, and
else the range that it shifts. -/
def settleRange (low range : Nat) : Option Nat :=
  if rangeCoderTop ≤ low ^^^ u32 (low + range) then
    if rangeCoderBottom ≤ range then none else some (sub32 0 low &&& (rangeCoderBottom - 1))
  else some range

/-- The turns of that loop: no range takes more. -/
@[simp] abbrev rangeTurns : Nat := 16

/-- The registers of the encoder, and the bytes written. -/
structure RangeEncoder where
  low : Nat
  range : Nat
  output : List UInt8
  limit : Nat

namespace RangeEncoder

/-- `ENET_RANGE_CODER_OUTPUT`. -/
def write (encoder : RangeEncoder) (value : Nat) : Coding RangeEncoder :=
  if encoder.limit ≤ encoder.output.length then .error .nothing
  else .ok { encoder with output := encoder.output ++ [UInt8.ofNat value] }

/-- The loop of `ENET_RANGE_CODER_ENCODE`. -/
def normalise : (fuel : Nat) → RangeEncoder → Coding RangeEncoder
  | 0, _ => .error (.fault .normalise)
  | fuel + 1, encoder =>
    match settleRange encoder.low encoder.range with
    | none => .ok encoder
    | some range => do
      let encoder ← encoder.write (encoder.low / rangeCoderTop)
      normalise fuel { encoder with range := u32 (range * 256), low := u32 (encoder.low * 256) }

/-- `ENET_RANGE_CODER_ENCODE`. -/
def encode (encoder : RangeEncoder) (under count total : Nat) : Coding RangeEncoder :=
  if total = 0 then .error (.fault .division)
  else
    let range := encoder.range / total
    normalise rangeTurns
      { encoder with low := u32 (encoder.low + under * range), range := u32 (range * count) }

/-- `ENET_RANGE_CODER_FLUSH`: each turn shifts a byte out of `low`. -/
def flush : (fuel : Nat) → RangeEncoder → Coding RangeEncoder
  | 0, _ => .error (.fault .normalise)
  | fuel + 1, encoder =>
    if encoder.low = 0 then .ok encoder
    else do
      let encoder ← encoder.write (encoder.low / rangeCoderTop)
      flush fuel { encoder with low := u32 (encoder.low * 256) }

end RangeEncoder

/-- The registers of the decoder, and the bytes not read yet. -/
structure RangeDecoder where
  low : Nat
  code : Nat
  range : Nat
  input : List UInt8

namespace RangeDecoder

/-- `inData < inEnd ? *inData++ : 0`, shifted into `decodeCode` from the right. -/
def shiftIn (decoder : RangeDecoder) : RangeDecoder :=
  match decoder.input with
  | [] => { decoder with code := u32 (decoder.code * 256) }
  | byte :: input => { decoder with code := u32 (decoder.code * 256 + byte.toNat), input := input }

/-- `ENET_RANGE_CODER_SEED`, with the initial values of the registers. -/
def seed (input : List UInt8) : RangeDecoder :=
  (⟨0, 0, 0xFFFFFFFF, input⟩ : RangeDecoder).shiftIn.shiftIn.shiftIn.shiftIn

/-- `ENET_RANGE_CODER_READ`, stored to the 16-bit `code`. -/
def read (decoder : RangeDecoder) (total : Nat) : Coding (RangeDecoder × Nat) :=
  if total = 0 then .error (.fault .division)
  else
    let range := decoder.range / total
    if range = 0 then .error (.fault .division)
    else .ok ({ decoder with range := range }, u16 (sub32 decoder.code decoder.low / range))

/-- The loop of `ENET_RANGE_CODER_DECODE`. -/
def normalise : (fuel : Nat) → RangeDecoder → Coding RangeDecoder
  | 0, _ => .error (.fault .normalise)
  | fuel + 1, decoder =>
    match settleRange decoder.low decoder.range with
    | none => .ok decoder
    | some range =>
      normalise fuel
        { decoder.shiftIn with range := u32 (range * 256), low := u32 (decoder.low * 256) }

/-- `ENET_RANGE_CODER_DECODE`. -/
def decode (decoder : RangeDecoder) (under count : Nat) : Coding RangeDecoder :=
  normalise rangeTurns
    { decoder with
      low := u32 (decoder.low + under * decoder.range)
      range := u32 (decoder.range * count) }

end RangeDecoder

/-! ## Compression -/

namespace RangeCoder

/-- The loop of `enet_range_coder_compress` over the subcontexts, from one of them on:
whether the value was coded in one of them, and where its parent goes. -/
def encodeSubcontexts (value : Nat) :
    (fuel : Nat) → RangeCoder → RangeEncoder → (subcontext : Nat) → ParentSlot →
      Coding (RangeCoder × RangeEncoder × Option ParentSlot)
  | 0, _, _, _, _ => .error (.fault .walk)
  | fuel + 1, coder, encoder, subcontext, parent =>
    if subcontext = 0 then return (coder, encoder, some parent)
    else do
      let (coder, coded) ← coder.contextEncode subcontext value subcontextSymbolDelta 0
      let coder ← coder.setParent parent coded.symbol
      let context ← coder.symbol subcontext
      let encoder ←
        if 0 < coded.count then
          encoder.encode (context.escapes + coded.under) coded.count context.total
        else if 0 < context.escapes ∧ context.escapes < context.total then
          encoder.encode 0 context.escapes context.total
        else pure encoder
      let coder ← coder.countSubcontext subcontext (escapeDelta coded.count) coded.count
      if 0 < coded.count then return (coder, encoder, none)
      else do
        let context ← coder.symbol subcontext
        encodeSubcontexts value fuel coder encoder context.parent (.symbol coded.symbol)

/-- Code a value in the root context. -/
def encodeRoot (coder : RangeCoder) (encoder : RangeEncoder) (value : Nat) (parent : ParentSlot) :
    Coding (RangeCoder × RangeEncoder) := do
  let (coder, coded) ← coder.contextEncode 0 value contextSymbolDelta contextSymbolMinimum
  let coder ← coder.setParent parent coded.symbol
  let root ← coder.symbol 0
  let encoder ← encoder.encode (root.escapes + coded.under) coded.count root.total
  let coder ← coder.countRoot coded.count
  return (coder, encoder)

/-- The body of the loop of `enet_range_coder_compress` for one value. -/
def encodeValue (coder : RangeCoder) (encoder : RangeEncoder) (value : UInt8) :
    Coding (RangeCoder × RangeEncoder) := do
  let (coder, encoder, parent) ←
    encodeSubcontexts value.toNat rangeCoderSymbols coder encoder coder.predicted .predicted
  let (coder, encoder) ←
    match parent with
    | none => pure (coder, encoder)
    | some parent => coder.encodeRoot encoder value.toNat parent
  let coder ← coder.nextContext
  return (coder, encoder)

end RangeCoder

/-- Where `enet_range_coder_compress` reads: what is left between `inData` and `inEnd`,
the buffers behind, and how many bytes were read from outside the buffers. -/
structure BufferCursor where
  current : List UInt8
  rest : List (List UInt8)
  outside : Nat

/-- The head of the loop of `enet_range_coder_compress`: the next value, with what
lies behind the buffers in memory. -/
def BufferCursor.next (beyond : Nat → UInt8) (cursor : BufferCursor) :
    Option (UInt8 × BufferCursor) :=
  match cursor.current, cursor.rest with
  | value :: current, rest => some (value, ⟨current, rest, cursor.outside⟩)
  | [], [] => none
  | [], (value :: current) :: rest => some (value, ⟨current, rest, cursor.outside⟩)
  -- the switch to an empty buffer is not tested again before `*inData++`
  | [], [] :: rest => some (beyond cursor.outside, ⟨[], rest, cursor.outside + 1⟩)

namespace RangeCoder

/-- The loop of `enet_range_coder_compress`. -/
def encodeLoop (beyond : Nat → UInt8) :
    (fuel : Nat) → BufferCursor → RangeCoder → RangeEncoder →
      BufferCursor × Coding RangeEncoder
  | 0, cursor, _, _ => (cursor, .error (.fault .walk))
  | fuel + 1, cursor, coder, encoder =>
    match cursor.next beyond with
    | none => (cursor, .ok encoder)
    | some (value, cursor) =>
      match coder.encodeValue encoder value with
      | .error stop => (cursor, .error stop)
      | .ok (coder, encoder) => encodeLoop beyond fuel cursor coder encoder

end RangeCoder

/-- The bytes that a function returns, none where it returns 0 early. -/
def codedBytes : Coding (List UInt8) → Except CodingFault (List UInt8)
  | .ok bytes => .ok bytes
  | .error .nothing => .ok []
  | .error (.fault fault) => .error fault

/-- `enet_range_coder_compress` for a table: the bytes it writes and whose number it
returns, and how many bytes it has read from outside the buffers. -/
def rangeCoderCompress (symbols : Nat → CodeSymbol) (beyond : Nat → UInt8)
    (inBuffers : List (List UInt8)) (inLimit outLimit : Nat) :
    Except CodingFault (List UInt8) × Nat :=
  match inBuffers with
  | [] => (.ok [], 0)
  | current :: rest =>
    if inLimit = 0 then (.ok [], 0)
    else
      match RangeCoder.start symbols with
      | .error stop => (codedBytes (.error stop), 0)
      | .ok coder =>
        let turns := (inBuffers.map fun buffer => buffer.length + 1).sum + 1
        let (cursor, coded) :=
          coder.encodeLoop beyond turns ⟨current, rest, 0⟩ ⟨0, 0xFFFFFFFF, [], outLimit⟩
        (codedBytes do
          let encoder ← coded
          let encoder ← encoder.flush 5
          return encoder.output, cursor.outside)

/-! ## Decompression -/

/-- Where the walk of `ENET_CONTEXT_DECODE` ends: at the symbol of a code, or where a
new symbol would go to the left or to the right of a node. -/
inductive DecodeEnd where
  | found (value : Nat) (coded : CodedSymbol)
  | toLeft (node after before : Nat)
  | toRight (node after : Nat)
  deriving DecidableEq, Repr

namespace RangeCoder

/-- The loop of `ENET_CONTEXT_DECODE` down the tree of a context. -/
def decodeWalk (code update minimum : Nat) :
    (fuel : Nat) → RangeCoder → (node under count : Nat) → Coding (RangeCoder × DecodeEnd)
  | 0, _, _, _, _ => .error (.fault .walk)
  | fuel + 1, coder, node, under, count => do
    let symbol ← coder.symbol node
    let after := u16 (under + symbol.under + (symbol.value + 1) * minimum)
    let before := u16 (symbol.count + minimum)
    if after ≤ code then
      let under := u16 (under + symbol.under)
      if symbol.right ≠ 0 then
        decodeWalk code update minimum fuel coder (node + symbol.right) under count
      else return (coder, .toRight node after)
    else if code + before < after then
      let coder ← coder.modify node (·.setUnder (u16 (symbol.under + update)))
      if symbol.left ≠ 0 then
        decodeWalk code update minimum fuel coder (node + symbol.left) under count
      else return (coder, .toLeft node after before)
    else
      let coder ← coder.modify node
        (·.setCount (u8 (symbol.count + update)) (u16 (symbol.under + update)))
      return (coder, .found symbol.value ⟨node, sub16 after before, u16 (count + symbol.count)⟩)

/-- `ENET_CONTEXT_TRY_DECODE`: a code without a symbol ends the function. -/
def contextTryDecode (coder : RangeCoder) (context code : Nat) :
    Coding (RangeCoder × Nat × CodedSymbol) := do
  let symbol ← coder.symbol context
  if symbol.symbols = 0 then throw .nothing
  else
    let (coder, last) ←
      decodeWalk code subcontextSymbolDelta 0 rangeCoderSymbols coder (context + symbol.symbols) 0 0
    match last with
    | .found value coded => return (coder, value, coded)
    | _ => throw .nothing

/-- `ENET_CONTEXT_ROOT_DECODE`: a code without a symbol creates the symbol of a value. -/
def contextRootDecode (coder : RangeCoder) (code : Nat) :
    Coding (RangeCoder × Nat × CodedSymbol) := do
  let root ← coder.symbol 0
  if root.symbols = 0 then
    let value := u8 (code / contextSymbolMinimum)
    let (coder, created) ← coder.symbolCreate value contextSymbolDelta
    let coder ← coder.modify 0 (·.setSymbols (u16 created))
    return (coder, value, ⟨created, code - code % contextSymbolMinimum, contextSymbolMinimum⟩)
  else
    let (coder, last) ←
      decodeWalk code contextSymbolDelta contextSymbolMinimum rangeCoderSymbols coder root.symbols 0
        contextSymbolMinimum
    match last with
    | .found value coded => return (coder, value, coded)
    | .toRight node after =>
      let symbol ← coder.symbol node
      let value := u8 (symbol.value + 1 + (code - after) / contextSymbolMinimum)
      let (coder, created) ← coder.symbolCreate value contextSymbolDelta
      let coder ← coder.modify node (·.setRight (u16 (created - node)))
      return (coder, value,
        ⟨created, code - (code - after) % contextSymbolMinimum, contextSymbolMinimum⟩)
    | .toLeft node after before =>
      let symbol ← coder.symbol node
      let back := (after - before - code - 1) / contextSymbolMinimum
      let value := u8 (symbol.value + 65536 - 1 - back)
      let (coder, created) ← coder.symbolCreate value contextSymbolDelta
      let coder ← coder.modify node (·.setLeft (u16 (created - node)))
      return (coder, value,
        ⟨created, code - (after - before - code - 1) % contextSymbolMinimum,
          contextSymbolMinimum⟩)

/-- The value that was decoded, the context in which it was found, and its symbol there. -/
structure Decoded where
  value : Nat
  subcontext : Nat
  bottom : Nat

/-- The loop of `enet_range_coder_decompress` over the subcontexts, from one of them on:
the value, where it was found in one of them. -/
def decodeSubcontexts :
    (fuel : Nat) → RangeCoder → RangeDecoder → (subcontext : Nat) →
      Coding (RangeCoder × RangeDecoder × Option Decoded)
  | 0, _, _, _ => .error (.fault .walk)
  | fuel + 1, coder, decoder, subcontext =>
    if subcontext = 0 then return (coder, decoder, none)
    else do
      let context ← coder.symbol subcontext
      if context.escapes = 0 ∨ context.total ≤ context.escapes then
        decodeSubcontexts fuel coder decoder context.parent
      else do
        let (decoder, code) ← decoder.read context.total
        if code < context.escapes then do
          let decoder ← decoder.decode 0 context.escapes
          decodeSubcontexts fuel coder decoder context.parent
        else do
          let (coder, value, coded) ← coder.contextTryDecode subcontext (code - context.escapes)
          let decoder ← decoder.decode (context.escapes + coded.under) coded.count
          let coder ← coder.countSubcontext subcontext 0 coded.count
          return (coder, decoder, some ⟨value, subcontext, coded.symbol⟩)

/-- Decode a value in the root context: none at the end of the stream. -/
def decodeRoot (coder : RangeCoder) (decoder : RangeDecoder) :
    Coding (RangeCoder × RangeDecoder × Option Decoded) := do
  let root ← coder.symbol 0
  let (decoder, code) ← decoder.read root.total
  if code < root.escapes then do
    let decoder ← decoder.decode 0 root.escapes
    return (coder, decoder, none)
  else do
    let (coder, value, coded) ← coder.contextRootDecode (code - root.escapes)
    let decoder ← decoder.decode (root.escapes + coded.under) coded.count
    let coder ← coder.countRoot coded.count
    return (coder, decoder, some ⟨value, 0, coded.symbol⟩)

/-- `patchContexts`: count the value in the contexts before the one it was found in. -/
def patchContexts (value subcontext bottom : Nat) :
    (fuel : Nat) → RangeCoder → (patch : Nat) → ParentSlot → Coding RangeCoder
  | 0, _, _, _ => .error (.fault .walk)
  | fuel + 1, coder, patch, parent =>
    if patch = subcontext then coder.setParent parent bottom
    else do
      let (coder, coded) ← coder.contextEncode patch value subcontextSymbolDelta 0
      let coder ← coder.setParent parent coded.symbol
      let coder ← coder.countSubcontext patch (escapeDelta coded.count) coded.count
      let context ← coder.symbol patch
      patchContexts value subcontext bottom fuel coder context.parent (.symbol coded.symbol)

/-- The loop of `enet_range_coder_decompress` before a value is patched: the value,
none at the end of the stream. -/
def decodeNext (coder : RangeCoder) (decoder : RangeDecoder) :
    Coding (RangeCoder × RangeDecoder × Option Decoded) := do
  let (coder, decoder, decoded) ←
    decodeSubcontexts rangeCoderSymbols coder decoder coder.predicted
  match decoded with
  | some decoded => return (coder, decoder, some decoded)
  | none => coder.decodeRoot decoder

/-- The body of the loop of `enet_range_coder_decompress`, with the bytes written: no
coder at the end of the stream. -/
def decodeValue (coder : RangeCoder) (decoder : RangeDecoder) (output : List UInt8)
    (outLimit : Nat) : Coding (Option (RangeCoder × RangeDecoder) × List UInt8) := do
  let (patched, decoder, decoded) ← coder.decodeNext decoder
  match decoded with
  | none => return (none, output)
  | some decoded =>
    let coder ←
      patchContexts decoded.value decoded.subcontext decoded.bottom rangeCoderSymbols patched
        patched.predicted .predicted
    if outLimit ≤ output.length then throw .nothing
    else
      let coder ← coder.nextContext
      return (some (coder, decoder), output ++ [UInt8.ofNat decoded.value])

/-- The loop of `enet_range_coder_decompress`. -/
def decodeLoop (outLimit : Nat) :
    (fuel : Nat) → RangeCoder → RangeDecoder → List UInt8 → Coding (List UInt8)
  | 0, _, _, _ => .error (.fault .walk)
  | fuel + 1, coder, decoder, output => do
    let (next, output) ← coder.decodeValue decoder output outLimit
    match next with
    | none => return output
    | some (coder, decoder) => decodeLoop outLimit fuel coder decoder output

end RangeCoder

/-- `enet_range_coder_decompress` for a table: the bytes it writes and whose number it
returns. -/
def rangeCoderDecompress (symbols : Nat → CodeSymbol) (inData : List UInt8) (outLimit : Nat) :
    Except CodingFault (List UInt8) :=
  if inData.isEmpty then .ok []
  else
    codedBytes do
      let coder ← RangeCoder.start symbols
      coder.decodeLoop outLimit (outLimit + 2) (RangeDecoder.seed inData) []

end Enet
