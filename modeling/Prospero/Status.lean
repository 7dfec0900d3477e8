import Mathlib.Tactic.Common

/-!
# Status codes and limits

The status codes shared by every module (`sdk/include/pai/error.h`), with the names
`pai_status_str` gives them (`runtime/version.c`).  A status is a 32-bit integer: application
callbacks may return any value, not only the ones that have a name.  `UINT64_MAX` is the bound the
overflow checks of the runtime compare with.
-/

namespace Prospero

/-- `pai_status_t`. -/
abbrev PaiStatus := Int32

/-- `PAI_OK`. -/
abbrev paiOk : PaiStatus := 0
/-- `PAI_ERR_INVALID_ARG`. -/
abbrev paiErrInvalidArg : PaiStatus := -1
/-- `PAI_ERR_NOMEM`. -/
abbrev paiErrNomem : PaiStatus := -2
/-- `PAI_ERR_UNSUPPORTED`. -/
abbrev paiErrUnsupported : PaiStatus := -3
/-- `PAI_ERR_CAPABILITY`. -/
abbrev paiErrCapability : PaiStatus := -4
/-- `PAI_ERR_TIMEOUT`. -/
abbrev paiErrTimeout : PaiStatus := -5
/-- `PAI_ERR_MISMATCH`. -/
abbrev paiErrMismatch : PaiStatus := -6
/-- `PAI_ERR_IO`. -/
abbrev paiErrIo : PaiStatus := -7
/-- `PAI_ERR_INIT`. -/
abbrev paiErrInit : PaiStatus := -8
/-- `PAI_ERR_INTERNAL`. -/
abbrev paiErrInternal : PaiStatus := -9
/-- `PAI_ERR_PROTOCOL`. -/
abbrev paiErrProtocol : PaiStatus := -10

/-- `UINT64_MAX`. -/
def uint64Max : UInt64 := 0xFFFFFFFFFFFFFFFF

/-- `pai_status_str`: the diagnostic text of a status. -/
def paiStatusStr (status : PaiStatus) : String :=
  if status = paiOk then "ok"
  else if status = paiErrInvalidArg then "invalid argument"
  else if status = paiErrNomem then "out of memory"
  else if status = paiErrUnsupported then "unsupported"
  else if status = paiErrCapability then "capability unavailable"
  else if status = paiErrTimeout then "timeout"
  else if status = paiErrMismatch then "validation mismatch"
  else if status = paiErrIo then "i/o error"
  else if status = paiErrInit then "initialization failed"
  else if status = paiErrInternal then "internal error"
  else if status = paiErrProtocol then "protocol violation"
  else "unknown"

/-- 64-bit arithmetic on sizes and indices. -/
def u64 (x : ℕ) : ℕ := x % 0x10000000000000000

lemma u64_le (x : ℕ) : u64 x ≤ x := Nat.mod_le _ _

lemma u64_of_lt {x : ℕ} (h : x < 0x10000000000000000) : u64 x = x := Nat.mod_eq_of_lt h

end Prospero
