import Prospero.Graph.Graph
import Prospero.Lib.Lexing
import Prospero.Models.Tokenizer
import Prospero.Pai.Container

/-!
# The importer's description parser

`models/importer.c`: a model description is read line by line, a directive a line, into an
`imp_model_t`.  The words of a line go through buffers of `IMP_MAX_TEXT` bytes, the numbers of a list
through buffers of 16 and 24 bytes, and numbers are read by `strtoul` and `strtoull`, whose result is 64
bits wide on the hosts the tool is built for.

The counts of an `imp_model_t` are the lengths of the lists here, and the rank of a value is the length
of its shape.  The raw weights, which a later step loads, are left out.
-/

namespace Prospero.Importer

open Lexing

/-! ## Data -/

/-- `IMP_MAX_LINE`. -/
abbrev impMaxLine : ℕ := 512

/-- `IMP_MAX_TEXT`. -/
abbrev impMaxText : ℕ := 64

/-- `PAI_PAI_FAMILY_LLM`. -/
abbrev paiPaiFamilyLlm : ℕ := 1

/-- The bytes of a string literal. -/
def literal (text : String) : List UInt8 := text.toUTF8.toList

/-- A property of the bytes of a text is decided on the text, and not on every byte. -/
instance (priority := high) decidableForallMem (text : List UInt8) (p : UInt8 → Prop) [DecidablePred p] :
    Decidable (∀ b ∈ text, p b) := List.decidableBAll p text

/-- `imp_value_t`. -/
structure ImpValue where
  /-- Value id, from one on. -/
  id : ℕ
  /-- Element type. -/
  dtype : PaiDtype
  /-- Extents. -/
  shape : List ℕ
  /-- 0 input, 1 param, 2 activation, 3 output. -/
  kind : ℕ
  /-- Name of the weight file. -/
  weightFile : List UInt8
  /-- A weight file is named. -/
  hasWeight : Bool
deriving DecidableEq

/-- `imp_op_t`. -/
structure ImpOp where
  /-- Op id, from one on. -/
  id : ℕ
  /-- Op kind. -/
  kind : OpKind
  /-- Consumed value ids. -/
  inputs : List ℕ
  /-- Produced value ids. -/
  outputs : List ℕ
deriving DecidableEq

/-- `imp_tok_t`. -/
structure ImpTok where
  /-- Token id. -/
  id : ℕ
  /-- Text of the token. -/
  text : List UInt8
deriving DecidableEq

/-- The scalar fields of a model that a directive of their own sets to a number. -/
inductive ImpField where
  | contextLen
  | numLayers
  | kvBytesPerToken
  | vocabSize
deriving DecidableEq

/-- `imp_model_t`. -/
structure ImpModel where
  /-- Model name. -/
  name : List UInt8
  /-- Model family. -/
  family : ℕ
  /-- Context length. -/
  contextLen : ℕ
  /-- Transformer layers. -/
  numLayers : ℕ
  /-- KV bytes per layer per token. -/
  kvBytesPerToken : ℕ
  /-- Vocabulary size. -/
  vocabSize : ℕ
  /-- Values in id order. -/
  values : List ImpValue
  /-- Ops in id order. -/
  ops : List ImpOp
  /-- Vocabulary. -/
  tokens : List ImpTok
deriving DecidableEq

/-- The model `parse_model` starts from. -/
def ImpModel.start : ImpModel := ⟨literal "model", 0, 0, 0, 0, 0, [], [], []⟩

/-- One scalar field of a model set. -/
def ImpModel.set (m : ImpModel) (n : ℕ) : ImpField → ImpModel
  | .contextLen => { m with contextLen := n }
  | .numLayers => { m with numLayers := n }
  | .kvBytesPerToken => { m with kvBytesPerToken := n }
  | .vocabSize => { m with vocabSize := n }

/-! ## Words and numbers -/

/-- The bytes `skip_ws` passes over. -/
def isWs (b : UInt8) : Bool := b = 32 || b = 9 || b = 13

/-- `skip_ws`. -/
def skipWs (p : List UInt8) : List UInt8 := p.dropWhile isWs

/-- `read_tok` into a buffer of `cap` bytes: the word as far as the buffer holds it, and the rest of the
line. -/
def readTok (cap : ℕ) (p : List UInt8) : Option (List UInt8 × List UInt8) :=
  match skipWs p with
  | [] => none
  | b :: text =>
    if b = 10 then none
    else
      let stop := fun b => isWs b || b = 10
      some (((b :: text).takeWhile (! stop ·)).take (cap - 1), (b :: text).dropWhile (! stop ·))

/-- `isspace`. -/
def isSpace (b : UInt8) : Bool := b = 32 || (9 ≤ b && b ≤ 13)

/-- `strtoull` and `strtoul` in base 10: the number and what stands behind it.  A number past the range is
the largest one, and a minus negates modulo the range. -/
def strtoull (s : List UInt8) : ℕ × List UInt8 :=
  let (negative, text) := sign (s.dropWhile isSpace)
  let digits := text.takeWhile isDigit
  if digits = [] then (0, s)
  else
    let v := digitsValue digits
    (if 0x10000000000000000 ≤ v then 0xFFFFFFFFFFFFFFFF
      else if negative then (0x10000000000000000 - v) % 0x10000000000000000 else v,
      text.dropWhile isDigit)

/-- A call of `strtoul` with the test both callers make: it read something, and all of the text. -/
def strtoulWhole (s : List UInt8) : Option ℕ :=
  let (v, rest) := strtoull s
  if rest = s ∨ rest ≠ [] then none else some v

/-- `parse_u32`. -/
def parseU32 (s : List UInt8) : Option ℕ := (strtoulWhole s).map (· % 0x100000000)

/-- The loop of `parse_id_list` and `parse_shape` over the pieces between commas, at most `max` of them. -/
def readNumbers (max : ℕ) (read : List UInt8 → Option ℕ) : ℕ → List (List UInt8) → Option (List ℕ)
  | _, [] => some []
  | n, piece :: pieces =>
    if max ≤ n then none
    else do
      let number ← read piece
      let numbers ← readNumbers max read (n + 1) pieces
      some (number :: numbers)

/-- `parse_id_list`. -/
def parseIdList (s : List UInt8) (max : ℕ) : Option (List ℕ) :=
  readNumbers max (fun piece => parseU32 (piece.take 15)) 0 (chunks 44 s)

/-- One extent of a shape. -/
def parseExtent (piece : List UInt8) : Option ℕ :=
  let tmp := piece.take 23
  if tmp = [] then none else strtoulWhole tmp

/-- `parse_shape`: what stands behind the first `]` is not looked at. -/
def parseShape : List UInt8 → Option (List ℕ)
  | [] => none
  | b :: text =>
    if b ≠ 91 then none
    else do
      let shape ← readNumbers paiTensorMaxRank parseExtent 0 (chunks 44 (text.takeWhile (· ≠ 93)))
      if text.dropWhile (· ≠ 93) = [] ∨ shape = [] then none else some shape

/-- `k_op_kinds`. -/
def kOpKinds : List (List UInt8 × OpKind) :=
  [(literal "add", .add), (literal "mul", .mul), (literal "gemm", .gemm), (literal "gemv", .gemv),
    (literal "matmul", .matmul), (literal "relu", .relu), (literal "softmax", .softmax),
    (literal "layernorm", .layernorm), (literal "rmsnorm", .rmsnorm), (literal "rope", .rope),
    (literal "attention", .attention), (literal "reshape", .reshape), (literal "concat", .concat),
    (literal "convert", .convert), (literal "copy", .copy)]

/-- `op_kind_from_name`. -/
def opKindFromName (name : List UInt8) : Option OpKind := kOpKinds.lookup name

/-- The value kinds by their names. -/
def kValueKinds : List (List UInt8 × ℕ) :=
  [(literal "input", 0), (literal "param", 1), (literal "activation", 2), (literal "output", 3)]

/-! ## Lines -/

/-- `weights=`. -/
def weightsKey : List UInt8 := literal "weights="

/-- `parse_value_line`. -/
def parseValueLine (p : List UInt8) (m : ImpModel) : Option ImpModel := do
  let (tok, p) ← readTok impMaxText p
  let id ← parseU32 tok
  if id ≠ m.values.length + 1 then none
  else
    let (tok, p) ← readTok impMaxText p
    if tok ≠ literal "f32" then none
    else
      let (tok, p) ← readTok impMaxText p
      let shape ← parseShape tok
      let (tok, p) ← readTok impMaxText p
      let kind ← kValueKinds.lookup tok
      let v : ImpValue := ⟨id, .f32, shape, kind, [], false⟩
      match readTok impMaxText p with
      | none => some { m with values := m.values ++ [v] }
      | some (tok, _) =>
        -- a word that names no weight file is not looked at
        if ¬ weightsKey <+: tok then some { m with values := m.values ++ [v] }
        else if kind ≠ 1 ∨ impMaxText < (tok.drop 8).length + 1 then none
        else some { m with values := m.values ++ [{ v with weightFile := tok.drop 8, hasWeight := true }] }

/-- The operands of an op while its line is read, and whether an arrow was seen. -/
structure OpIds where
  /-- An arrow was seen: ids are outputs. -/
  outputs : Bool
  /-- Input ids so far. -/
  ins : List ℕ
  /-- Output ids so far. -/
  outs : List ℕ
deriving DecidableEq

/-- The count of the list that ids go to. -/
def OpIds.count (op : OpIds) : ℕ := if op.outputs then op.outs.length else op.ins.length

/-- Ids put behind the list they go to. -/
def OpIds.append (op : OpIds) (ids : List ℕ) : OpIds :=
  if op.outputs then { op with outs := op.outs ++ ids } else { op with ins := op.ins ++ ids }

/-- `op_append_tok`. -/
def opAppendTok (op : OpIds) (tok : List UInt8) : Option OpIds :=
  (parseIdList tok (paiGraphMaxArity - op.count)).map op.append

/-- `strstr(tok, "->")`: what stands before the first arrow and behind it. -/
def splitArrow : List UInt8 → Option (List UInt8 × List UInt8)
  | [] => none
  | b :: text =>
    if b = 45 ∧ text.head? = some 62 then some ([], text.tail)
    else (splitArrow text).map fun parts => (b :: parts.1, parts.2)

/-- One turn of the loop of `parse_op_line`. -/
def parseOpTok (op : OpIds) (tok : List UInt8) : Option OpIds :=
  match splitArrow tok with
  | some (before, behind) =>
    (if before = [] then some op else opAppendTok op before).bind fun op =>
      let op := { op with outputs := true }
      if behind = [] then some op else opAppendTok op behind
  | none => opAppendTok op tok

/-- The loop of `parse_op_line` over the words that are left of the line, at most one for each byte. -/
def parseOpToks : ℕ → List UInt8 → OpIds → Option OpIds
  | 0, _, op => some op
  | left + 1, p, op =>
    match readTok impMaxText p with
    | none => some op
    | some (tok, p) => do parseOpToks left p (← parseOpTok op tok)

/-- `parse_op_line`. -/
def parseOpLine (p : List UInt8) (m : ImpModel) : Option ImpModel := do
  let (tok, p) ← readTok impMaxText p
  let id ← parseU32 tok
  if id ≠ m.ops.length + 1 then none
  else
    let (tok, p) ← readTok impMaxText p
    let kind ← opKindFromName tok
    let op ← parseOpToks p.length p ⟨false, [], []⟩
    if op.ins.length = 0 ∨ op.outs.length = 0 ∨ paiGraphMaxArity < op.ins.length ∨
        paiGraphMaxArity < op.outs.length then none
    else some { m with ops := m.ops ++ [⟨id, kind, op.ins, op.outs⟩] }

/-- `parse_token_line`. -/
def parseTokenLine (p : List UInt8) (m : ImpModel) : Option ImpModel := do
  let (tok, p) ← readTok impMaxText p
  let id ← parseU32 tok
  let text := (skipWs p).takeWhile fun b => b ≠ 13 && b ≠ 10
  if text.length = 0 ∨ impMaxText ≤ text.length then none
  else some { m with tokens := m.tokens ++ [⟨id, text⟩] }

/-- What a directive's first word asks for. -/
inductive ImpKey where
  | name
  | family
  | field (field : ImpField)
  | value
  | op
  | token
deriving DecidableEq

/-- The directives by their first words. -/
def impKeys : List (List UInt8 × ImpKey) :=
  [(literal "name", .name), (literal "family", .family), (literal "context", .field .contextLen),
    (literal "layers", .field .numLayers), (literal "kv_bytes", .field .kvBytesPerToken),
    (literal "vocab", .field .vocabSize), (literal "value", .value), (literal "op", .op),
    (literal "token", .token)]

/-- The branch of `parse_model` that a directive takes, from what stands behind its first word. -/
def parseDirective (m : ImpModel) (p : List UInt8) : ImpKey → Option ImpModel
  | .name => do
    let (val, _) ← readTok impMaxText p
    if paiPaiNameMax < val.length then none else some { m with name := val }
  | .family => do
    let (val, _) ← readTok impMaxText p
    some { m with family := if val = literal "llm" then paiPaiFamilyLlm else 0 }
  | .field field => do
    let (val, _) ← readTok impMaxText p
    let n ← parseU32 val
    some (m.set n field)
  | .value => if paiGraphMaxValues ≤ m.values.length then none else parseValueLine p m
  | .op => if paiGraphMaxOps ≤ m.ops.length then none else parseOpLine p m
  | .token => if paiTokMaxTokens ≤ m.tokens.length then none else parseTokenLine p m

/-- One turn of the loop of `parse_model`, on the line it copied. -/
def parseModelLine (m : ImpModel) (line : List UInt8) : Option ImpModel :=
  if impMaxLine ≤ line.length then none
  else match skipWs line with
    | [] => some m
    | b :: text =>
      if b = 35 then some m
      else match readTok impMaxText (b :: text) with
        | none => some m
        | some (key, p) => do parseDirective m p (← impKeys.lookup key)

/-- The lines `parse_model` reads: the buffer ends at its first zero byte. -/
def descriptionLines (buf : List UInt8) : List (List UInt8) := chunks 10 (buf.takeWhile (· ≠ 0))

/-- `parse_model`. -/
def parseModel (buf : List UInt8) : Option ImpModel :=
  (descriptionLines buf).foldlM parseModelLine ImpModel.start

end Prospero.Importer
