import Prospero.Lib.Reader
import Prospero.Models.Tokenizer

/-!
# Serialized tokenizers

`pai_tok_serialize` and `pai_tok_deserialize` (`models/tokenizer.c`): a header with two counts, the
vocabulary and the merge rules.  A tokenizer is read back by making the calls that built it, so what
is read has the invariant of a built one.
-/

namespace Prospero

open Buffer ByteString Reader

/-- `PAI_TOK_MAGIC`. -/
def paiTokMagic : UInt32 := 0x314B5450
/-- `PAI_TOK_VERSION`. -/
def paiTokVersion : UInt32 := 1

/-! ## Writing -/

/-- `pai_tok_blob_size`; `0` when the tokenizer cannot be written. -/
def paiTokBlobSize (tok : Tok) : ℕ :=
  let total := 16 + (tok.tokens.map fun t => 5 + t.text.length).sum + tok.merges.length * 12
  if 0xFFFFFFFF < total then 0 else total

/-- The record of a token. -/
def tokenBytes (t : Token) : List UInt8 := u32le t.id ++ (UInt8.ofNat t.text.length :: t.text)

/-- The record of a merge rule. -/
def mergeBytes (m : Merge) : List UInt8 := u32le m.left ++ (u32le m.right ++ u32le m.result)

/-- `pai_tok_serialize` into a buffer of `cap` bytes. -/
def paiTokSerialize (tok : Tok) (cap : ℕ) : Except PaiStatus (List UInt8) :=
  let total := paiTokBlobSize tok
  if total = 0 ∨ cap < total then .error paiErrInvalidArg
  else
    .ok (u32le paiTokMagic ++ (u32le paiTokVersion ++ (u32le (UInt32.ofNat tok.tokens.length) ++
      (u32le (UInt32.ofNat tok.merges.length) ++ (tok.tokens.flatMap tokenBytes ++
        tok.merges.flatMap mergeBytes)))))

/-! ## Reading -/

/-- A building call inside a reader: its status is the error of the reader. -/
def tokCall (r : Tok × PaiStatus) : Read PaiStatus Tok :=
  if r.2 ≠ paiOk then .error (.fail r.2) else .ok r.1

/-- The token loop, with the offset behind the last token. -/
def readTokens (data : List UInt8) : ℕ → ℕ → Tok → Read PaiStatus (Tok × ℕ)
  | 0, p, tok => .ok (tok, p)
  | n + 1, p, tok => do
    refuse (data.length < p + 5) paiErrProtocol
    let id ← u32At data p
    let len ← u8At data (p + 4)
    refuse (len = 0 ∨ paiTokMaxTokenLen < len.toNat ∨ data.length < p + 5 + len.toNat) paiErrProtocol
    let text ← bytesAt data (p + 5) len.toNat
    let tok ← tokCall (paiTokAddToken tok id text)
    readTokens data n (p + 5 + len.toNat) tok

/-- The merge loop. -/
def readMerges (data : List UInt8) : ℕ → ℕ → Tok → Read PaiStatus Tok
  | 0, _, tok => .ok tok
  | n + 1, p, tok => do
    refuse (data.length < p + 12) paiErrProtocol
    let left ← u32At data p
    let right ← u32At data (p + 4)
    let result ← u32At data (p + 8)
    let tok ← tokCall (paiTokAddMerge tok left right result)
    readMerges data n (p + 12) tok

/-- `pai_tok_deserialize`. -/
def paiTokDeserialize (data : List UInt8) : Read PaiStatus Tok := do
  refuse (data.length < 16) paiErrInvalidArg
  let magic ← u32At data 0
  let version ← u32At data 4
  refuse (magic ≠ paiTokMagic ∨ version ≠ paiTokVersion) paiErrProtocol
  let numTokens ← u32At data 8
  let numMerges ← u32At data 12
  refuse (paiTokMaxTokens < numTokens.toNat ∨ paiTokMaxMerges < numMerges.toNat) paiErrProtocol
  let (tok, p) ← readTokens data numTokens.toNat 16 paiTokInit
  let tok ← readMerges data numMerges.toNat p tok
  .ok (paiTokFinalize tok)

end Prospero
