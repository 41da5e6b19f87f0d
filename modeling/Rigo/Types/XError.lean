import Rigo.Foundation.Program
import Rigo.Types.Basic

/-!
# Errors and panics

`types/xerrors/xerror.go`: an error carries a code, a text and possibly a cause,
and `Wrap` puts a new cause at the end of the chain.  An error that is returned
is an ordinary value of the program; a Go panic is not.  Both end the function
that meets them, so a `Fault` is one of the two, and only a returned error can be
caught (`tryXError`).
-/

namespace Rigo

open Foundation

/-- A Go error: one made by `errors.New`, `xerrors.New`, `xerrors.From`, or an
`XError` wrapped around a cause. -/
inductive XError where
  | plain (msg : String)
  | coded (code : Nat) (msg : String)
  | converted (msg : String)
  | wrapped (code : Nat) (msg : String) (cause : XError)
  deriving DecidableEq, Repr

namespace XError

/-- `ErrCodeOrdinary`. -/
def codeOrdinary : Nat := 1

/-- `xerror.Code`.  A plain error has no code of its own. -/
def code : XError → Nat
  | plain _ => 0
  | coded code _ => code
  | converted _ => codeOrdinary
  | wrapped code _ _ => code

/-- `xerror.Error`: the texts along the chain of causes. -/
def error : XError → String
  | plain msg => msg
  | coded _ msg => msg
  | converted msg => msg
  | wrapped _ msg cause => msg ++ "\n\t" ++ cause.error

/-- `xerror.Wrap`: the new cause replaces a plain cause and is passed on to a
coded one. -/
def wrap : XError → XError → XError
  | plain _, err => err
  | coded code msg, err => wrapped code msg err
  | converted msg, err => wrapped codeOrdinary msg err
  | wrapped code msg (plain _), err => wrapped code msg err
  | wrapped code msg cause, err => wrapped code msg (cause.wrap err)

/-- `xerror.Wrapf` with the formatted text. -/
def wrapf (e : XError) (text : String) : XError := e.wrap (plain text)

/-- `xerrors.From`. -/
def fromErr (text : String) : XError := converted text

/-- `xerrors.NewOrdinary`. -/
def newOrdinary (text : String) : XError := coded codeOrdinary text

def errCheckTx : XError := coded 3 "CheckTx failed"
def errBeginBlock : XError := coded 4 "BeginBlock failed"
def errDeliverTx : XError := coded 5 "DeliverTx failed"
def errNotFoundAccount : XError := coded 8 "not found account"
def errInvalidTrx : XError := coded 10 "invalid transaction"
def errNotFoundDelegatee : XError := coded 12 "not found delegatee"
def errNotFoundStake : XError := coded 13 "not found stake"
def errNotFoundVoter : XError := coded 15 "not found voter"
def errUpdatableStakeRatio : XError := coded 17 "exceeded updatable stake ratio"
def errNotFoundResult : XError := coded 1003 "not found result"

def errInvalidGas : XError := errInvalidTrx.wrapf "invalid gas"
def errInvalidGasPrice : XError := errInvalidTrx.wrapf "invalid gas price"
def errInvalidAddress : XError := errInvalidTrx.wrapf "invalid address"
def errInvalidNonce : XError := errInvalidTrx.wrapf "invalid nonce"
def errInvalidAmount : XError := errInvalidTrx.wrapf "invalid amount"
def errInsufficientFund : XError := errInvalidTrx.wrapf "insufficient fund"
def errInvalidTrxPayloadType : XError := errInvalidTrx.wrapf "wrong transaction payload type"
def errInvalidTrxPayloadParams : XError :=
  errInvalidTrx.wrapf "invalid params of transaction payload"
def errInvalidTrxSig : XError := errInvalidTrx.wrapf "invalid signature"

def errUnknownTrxType : XError := newOrdinary "unknown transaction type"
def errNoRight : XError := newOrdinary "no right"
def errNotVotingPeriod : XError := newOrdinary "not voting period"
def errDuplicatedKey : XError := newOrdinary "already existed key"

/-- Wrapping keeps the code of the error that is wrapped around the cause. -/
theorem code_wrap_coded (c : Nat) (msg : String) (err : XError) :
    ((coded c msg).wrap err).code = c := rfl

end XError

/-- The ways a Go program panics. -/
inductive Panic where
  | nilDereference
  | outOfRange
  | divisionByZero
  | typeAssertion
  | explicit (msg : String)
  deriving DecidableEq, Repr

/-- Why a function ended early. -/
inductive Fault where
  | xerr (e : XError)
  | panic (p : Panic)
  deriving DecidableEq, Repr

namespace Fault

/-- The returned error, if the fault is one. -/
def xerr? : Fault → Option XError
  | xerr e => some e
  | panic _ => none

end Fault

/-! ## Ending early -/

section

variable {Op : Type → Type} {α : Type}

/-- Return an error. -/
def throwX (e : XError) : Prog Op Fault α := .fail (.xerr e)

/-- Panic. -/
def crash (p : Panic) : Prog Op Fault α := .fail (.panic p)

/-- Return the error of a failed computation. -/
def ofExcept : Except XError α → Prog Op Fault α
  | .ok value => .pure value
  | .error e => throwX e

/-- Run a function and look at the error it returns; a panic is not caught. -/
def tryXError (p : Prog Op Fault α) : Prog Op Fault (Except XError α) :=
  p.attempt Fault.xerr?

/-- Return the error unless the condition holds. -/
def ensure (condition : Bool) (e : XError) : Prog Op Fault Unit :=
  if condition then .pure () else throwX e

end

end Rigo
