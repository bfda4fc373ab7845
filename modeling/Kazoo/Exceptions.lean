import Mathlib.Data.List.Basic

/-!
# Exceptions of the client

`kazoo/exceptions.py` together with the exceptions of the standard library that the modelled code
raises.  A `ZookeeperError` is known by its code, as in the `EXCEPTIONS` table.
-/

namespace Kazoo

inductive Exn
  -- an instance of `EXCEPTIONS[code]`
  | zookeeper (code : Int)
  -- `ConnectionClosedError("Connection has been closed")`, a `SessionExpiredError` by class
  | connectionClosedError
  | connectionDropped
  | saslException
  -- `handler.timeout_exception`
  | kazooTimeoutError
  | rwServerAvailable
  | forceRetryError
  | retryFailedError
  | cancelledError
  | lockTimeout
  -- `RuntimeError("xids do not match, expected %r received %r", expected, received)`
  | xidsDoNotMatch (expected received : Int)
  -- `RuntimeError("Invalid error code")`
  | invalidErrorCode
  -- `struct.error`
  | structError
  | unicodeEncodeError
  | unicodeDecodeError
  | indexError
  | attributeError
  | typeError
  | valueError
  | configurationError
  -- `OSError`, of which `socket.error` and `select.error` are other names
  | osError
  deriving DecidableEq, Repr

/-- The codes under which `_zookeeper_exception` registers a class. -/
def exceptionCodes : List Int :=
  [0, -1, -2, -3, -4, -5, -6, -7, -8, -12, -13, -14, -100, -101, -102, -103, -108, -110, -111,
    -112, -113, -114, -115, -118, -119, -120, -121, -122, -123, -124, -125, -127]

/-- `EXCEPTIONS[code]()`: the table is a `defaultdict` whose default factory,
`_invalid_error_code`, raises. -/
def EXCEPTIONS (code : Int) : Except Exn Exn :=
  if code ∈ exceptionCodes then .ok (.zookeeper code) else .error .invalidErrorCode

namespace Exn

def connectionLoss : Exn := .zookeeper (-4)
def operationTimeoutError : Exn := .zookeeper (-7)
def noNodeError : Exn := .zookeeper (-101)
def noChildrenForEphemeralsError : Exn := .zookeeper (-108)
def nodeExistsError : Exn := .zookeeper (-110)
def sessionExpiredError : Exn := .zookeeper (-112)
def authFailedError : Exn := .zookeeper (-115)
def sessionClosedRequireSaslError : Exn := .zookeeper (-124)

end Exn

/-- `NoNodeError.code`. -/
def noNodeErrorCode : Int := -101

theorem EXCEPTIONS_of_mem {code : Int} (h : code ∈ exceptionCodes) :
    EXCEPTIONS code = .ok (.zookeeper code) := if_pos h

/-- The table is closed under lookup: what it yields is filed under the code that was asked. -/
theorem EXCEPTIONS_eq_ok_iff {code : Int} {e : Exn} :
    EXCEPTIONS code = .ok e ↔ code ∈ exceptionCodes ∧ e = .zookeeper code := by
  unfold EXCEPTIONS
  split
  · next h => simp only [Except.ok.injEq, h, true_and, eq_comm]
  · next h => simp only [reduceCtorEq, h, false_and]

/-! ## Programs that return -/

theorem bind_eq_ok {ε α β : Type} {x : Except ε α} {f : α → Except ε β} {y : β}
    (h : (x >>= f) = .ok y) : ∃ a, x = .ok a ∧ f a = .ok y := by
  cases x with
  | error e => cases h
  | ok a => exact ⟨a, rfl, h⟩

theorem pure_inj {ε α : Type} {x y : α} (h : (pure x : Except ε α) = .ok y) : x = y :=
  Except.ok.inj h

end Kazoo
