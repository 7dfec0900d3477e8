import Prospero.Models.Importer

/-!
# Model descriptions

What a description says, whatever buffers it is read through: the documented syntax of
`models/importer.h`, one directive a line, with every number exact.

`readDirective` is the meaning of a line.  It takes the room of the buffers its words and numbers go
through as a parameter: `Buffers.unbounded` is the line itself, `Buffers.importer` the line as far as
the buffers of `models/importer.c` hold it.  `describe` enters the directives of a text in order, and
`printModel` writes a model in the syntax.
-/

namespace Prospero.Importer

open Lexing

/-! ## Directives -/

/-- One directive of a description. -/
inductive Directive where
  /-- `name tiny-lm`. -/
  | name (text : List UInt8)
  /-- `family llm`. -/
  | family (n : ℕ)
  /-- `context 16` and its like. -/
  | field (field : ImpField) (n : ℕ)
  /-- `value 2 f32 [8,4] param weights=tok_embed.bin`. -/
  | value (v : ImpValue)
  /-- `op 1 gemv 2,1 -> 3`. -/
  | op (o : ImpOp)
  /-- `token 0 a`. -/
  | token (t : ImpTok)
deriving DecidableEq

/-- A directive entered in a model.  Values and ops are numbered in order. -/
def ImpModel.enter (m : ImpModel) : Directive → Option ImpModel
  | .name text => some { m with name := text }
  | .family n => some { m with family := n }
  | .field field n => some (m.set n field)
  | .value v =>
    if v.id = m.values.length + 1 ∧ m.values.length < paiGraphMaxValues then
      some { m with values := m.values ++ [v] }
    else none
  | .op o =>
    if o.id = m.ops.length + 1 ∧ m.ops.length < paiGraphMaxOps then some { m with ops := m.ops ++ [o] }
    else none
  | .token t => if m.tokens.length < paiTokMaxTokens then some { m with tokens := m.tokens ++ [t] } else none

/-! ## Reading a line -/

/-- The room for a word, an id of a list and an extent of a shape. -/
structure Buffers where
  /-- Bytes of a word. -/
  word : Option ℕ
  /-- Bytes of an id. -/
  id : Option ℕ
  /-- Bytes of an extent. -/
  extent : Option ℕ

/-- No bound. -/
def Buffers.unbounded : Buffers := ⟨none, none, none⟩

/-- The buffers of the importer, less their zero bytes. -/
def Buffers.importer : Buffers := ⟨some 63, some 15, some 23⟩

/-- What a buffer holds of a text. -/
def held (room : Option ℕ) (text : List UInt8) : List UInt8 :=
  match room with
  | none => text
  | some n => text.take n

variable (b : Buffers)

/-- A list of ids. -/
def ids? (text : List UInt8) : Option (List ℕ) :=
  (chunks 44 text).mapM fun piece => number? 0x100000000 (held b.id piece)

/-- A shape: one to six extents in brackets, and nothing behind them. -/
def shape? : List UInt8 → Option (List ℕ)
  | [] => none
  | first :: text =>
    if first = 91 ∧ text.getLast? = some 93 ∧ 93 ∉ text.dropLast then
      ((chunks 44 text.dropLast).mapM fun piece => number? 0x10000000000000000 (held b.extent piece)).filter
        fun shape => 0 < shape.length && shape.length ≤ paiTensorMaxRank
    else none

/-- The weight file of a value of a kind: what stands behind `weights=` in the one word that is left. -/
def weights? (kind : ℕ) : List (List UInt8) → Option (List UInt8 × Bool)
  | [] => some ([], false)
  | [word] =>
    if weightsKey <+: word ∧ kind = 1 ∧ (word.drop 8).length < impMaxText then some (word.drop 8, true)
    else none
  | _ => none

/-- The words of a value line. -/
def value? : List (List UInt8) → Option Directive
  | id :: dtype :: shape :: kind :: more => do
    let id ← number? 0x100000000 id
    if dtype ≠ literal "f32" then none
    else
      let shape ← shape? b shape
      let kind ← kValueKinds.lookup kind
      let weights ← weights? kind more
      some (.value ⟨id, .f32, shape, kind, weights.1, weights.2⟩)
  | _ => none

/-- One word of the operands of an op.  There is one arrow, alone or between ids. -/
def operand? (op : OpIds) (word : List UInt8) : Option OpIds :=
  match splitArrow word with
  | some (before, behind) =>
    if op.outputs then none
    else do
      let ins ← ids? b before
      let outs ← ids? b behind
      some ⟨true, op.ins ++ ins, op.outs ++ outs⟩
  | none => (ids? b word).map op.append

/-- The operands fit the arrays of an op, and there are some on both sides. -/
def OpIds.fits (op : OpIds) : Bool :=
  0 < op.ins.length && 0 < op.outs.length && op.ins.length ≤ paiGraphMaxArity &&
    op.outs.length ≤ paiGraphMaxArity

/-- The words of an op line. -/
def op? : List (List UInt8) → Option Directive
  | id :: kind :: operands => do
    let id ← number? 0x100000000 id
    let kind ← opKindFromName kind
    let op ← (operands.foldlM (operand? b) ⟨false, [], []⟩).filter OpIds.fits
    some (.op ⟨id, kind, op.ins, op.outs⟩)
  | _ => none

/-- The families by their names. -/
def families : List (List UInt8 × ℕ) := [(literal "llm", paiPaiFamilyLlm), (literal "generic", 0)]

/-- The one word of a line, as far as its buffer holds it. -/
def onlyWord? (p : List UInt8) : Option (List UInt8) :=
  match words isWs p with
  | [word] => some (held b.word word)
  | _ => none

/-- The text of a token: the rest of the line up to a carriage return, which only blanks follow. -/
def tokenText? (p : List UInt8) : Option (List UInt8) :=
  let text := (p.dropWhile isWs).takeWhile (· ≠ 13)
  if 0 < text.length ∧ text.length < impMaxText ∧ ((p.dropWhile isWs).dropWhile (· ≠ 13)).all isWs then
    some text
  else none

/-- What stands behind the first word of a directive. -/
def arguments? (p : List UInt8) : ImpKey → Option Directive
  | .name => ((onlyWord? b p).filter fun word => word.length ≤ paiPaiNameMax).map .name
  | .family => (onlyWord? b p).bind fun word => (families.lookup word).map .family
  | .field field => (onlyWord? b p).bind fun word => (number? 0x100000000 word).map (.field field)
  | .value => value? b ((words isWs p).map (held b.word))
  | .op => op? b ((words isWs p).map (held b.word))
  | .token => do
    let (word, p) ← nextWord isWs p
    let id ← number? 0x100000000 (held b.word word)
    let text ← tokenText? p
    some (.token ⟨id, text⟩)

/-- The directive of a line. -/
def readDirective (line : List UInt8) : Option Directive := do
  let (key, p) ← nextWord isWs line
  arguments? b p (← impKeys.lookup key)

/-- A blank line or a comment. -/
def isComment (line : List UInt8) : Bool := (line.dropWhile isWs).head?.all (· = 35)

/-! ## Reading a text -/

/-- What a line of a text adds to a model. -/
def describeLine (m : ImpModel) (line : List UInt8) : Option ImpModel :=
  if isComment line then some m else (readDirective .unbounded line).bind m.enter

/-- The model that lines of a text describe: every directive is entered, in order. -/
def describe (lines : List (List UInt8)) : Option ImpModel := lines.foldlM describeLine ImpModel.start

/-- After each line of a text, `parse_model` holds every directive read so far, in order and in full. -/
def HeldInOrder (buf : List UInt8) : Prop :=
  ∀ lines, lines <+: descriptionLines buf → lines.foldlM parseModelLine ImpModel.start = describe lines

/-- The line fits the line buffer.  Unless it is a comment, it is a directive of the syntax, and what the
buffers hold of it is the same directive. -/
def Fits (line : List UInt8) : Prop :=
  line.length < impMaxLine ∧
    (isComment line ∨ ∃ d, readDirective .unbounded line = some d ∧ readDirective .importer line = some d)

/-! ## Printing -/

/-- Words with a space between them. -/
def spaced (words : List (List UInt8)) : List UInt8 := joined 32 words

/-- A list of numbers with commas between them. -/
def printNumbers (ns : List ℕ) : List UInt8 := joined 44 (ns.map decimal)

/-- A name of a table. -/
def nameOf {α : Type} [DecidableEq α] (table : List (List UInt8 × α)) (x : α) : List UInt8 :=
  ((table.find? fun entry => entry.2 = x).map Prod.fst).getD []

/-- The line of a value. -/
def printValue (v : ImpValue) : List UInt8 :=
  spaced ([literal "value", decimal v.id, literal "f32", 91 :: printNumbers v.shape ++ [93],
    nameOf kValueKinds v.kind] ++ if v.hasWeight then [weightsKey ++ v.weightFile] else [])

/-- The line of an op. -/
def printOp (o : ImpOp) : List UInt8 :=
  spaced [literal "op", decimal o.id, nameOf kOpKinds o.kind, printNumbers o.inputs, literal "->",
    printNumbers o.outputs]

/-- The line of a token. -/
def printToken (t : ImpTok) : List UInt8 := spaced [literal "token", decimal t.id, t.text]

/-- The lines of a model. -/
def printLines (m : ImpModel) : List (List UInt8) :=
  [spaced [literal "name", m.name], spaced [literal "family", nameOf families m.family],
    spaced [literal "context", decimal m.contextLen], spaced [literal "layers", decimal m.numLayers],
    spaced [literal "kv_bytes", decimal m.kvBytesPerToken], spaced [literal "vocab", decimal m.vocabSize]] ++
  m.tokens.map printToken ++ m.values.map printValue ++ m.ops.map printOp

/-- A model in the canonical line syntax. -/
def printModel (m : ImpModel) : List UInt8 := terminated 10 (printLines m)

/-- A text that can stand in a line as a word. -/
def IsWord (text : List UInt8) : Prop := ∀ c ∈ text, isWs c = false ∧ c ≠ 10 ∧ c ≠ 0

instance (text : List UInt8) : Decidable (IsWord text) :=
  inferInstanceAs (Decidable (∀ c ∈ text, isWs c = false ∧ c ≠ 10 ∧ c ≠ 0))

/-- A value within the limits of the importer. -/
structure ImpValue.Within (v : ImpValue) : Prop where
  dtype : v.dtype = .f32
  rank : 0 < v.shape.length ∧ v.shape.length ≤ paiTensorMaxRank
  extents : ∀ n ∈ v.shape, n < 0x10000000000000000
  kind : v.kind ≤ 3
  weight : v.hasWeight → v.kind = 1
  noWeight : v.hasWeight = false → v.weightFile = []
  file : v.weightFile.length < impMaxText ∧ IsWord v.weightFile

/-- An op within the limits of the importer. -/
structure ImpOp.Within (o : ImpOp) : Prop where
  kind : o.kind ∈ kOpKinds.map Prod.snd
  inputs : 0 < o.inputs.length ∧ o.inputs.length ≤ paiGraphMaxArity
  outputs : 0 < o.outputs.length ∧ o.outputs.length ≤ paiGraphMaxArity
  ids : ∀ n ∈ o.inputs ++ o.outputs, n < 0x100000000

/-- A token within the limits of the importer.  Its text opens with no blank and stays in its line. -/
structure ImpTok.Within (t : ImpTok) : Prop where
  id : t.id < 0x100000000
  text : 0 < t.text.length ∧ t.text.length < impMaxText
  first : ∀ c ∈ t.text.head?, isWs c = false
  line : ∀ c ∈ t.text, c ≠ 13 ∧ c ≠ 10 ∧ c ≠ 0

/-- A model within the limits of the importer. -/
structure ImpModel.Within (m : ImpModel) : Prop where
  name : m.name ≠ [] ∧ m.name.length ≤ paiPaiNameMax ∧ IsWord m.name
  family : m.family ≤ paiPaiFamilyLlm
  fields : ∀ n ∈ [m.contextLen, m.numLayers, m.kvBytesPerToken, m.vocabSize], n < 0x100000000
  values : m.values.length ≤ paiGraphMaxValues
  valueIds : ∀ i (h : i < m.values.length), (m.values.get ⟨i, h⟩).id = i + 1
  value : ∀ v ∈ m.values, v.Within
  ops : m.ops.length ≤ paiGraphMaxOps
  opIds : ∀ i (h : i < m.ops.length), (m.ops.get ⟨i, h⟩).id = i + 1
  op : ∀ o ∈ m.ops, o.Within
  tokens : m.tokens.length ≤ paiTokMaxTokens
  token : ∀ t ∈ m.tokens, t.Within

end Prospero.Importer
