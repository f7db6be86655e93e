import Mathlib.Logic.Basic

/-! The exceptions that the modelled functions raise.

An except clause catches a class together with its subclasses, so the place of a
class in the hierarchy decides whether a failed block is undone. -/

namespace IPchain

inductive ExcClass where
  | exception
  | valueError
  | addressValueError
  | netmaskValueError
  | assertionError
  | keyError
  | indexError
  | typeError
  | attributeError
  | unboundLocalError
  | runtimeError
  | structError
  | invalidTransaction
  | unsignedTransaction
  | invalidNonce
  | insufficientBalance
  | uncategorizedTransaction
  | invalidCategory
  | invalidBlock
  | unsignedBlock
  | invalidBlockSigner
  | dkgBlockRequiresGroupKey
  | addrFormatError
  | zeroDivisionError
  | objectSerializationError
  | dkgGenKeysError
  | dkgGenerateSecretKeyShareError
  | dkgAddContributionSharesError
  | dkgAddVerificationVectorsError
  | blsInvalidGroupSignature
  | blsSignError
  | blsRecoverError
  deriving DecidableEq, Repr

/-- The class a class derives from, as far as the modelled except clauses can tell. -/
def ExcClass.base : ExcClass → ExcClass
  | .addressValueError | .netmaskValueError => .valueError
  | .unsignedTransaction | .invalidNonce | .insufficientBalance | .uncategorizedTransaction
  | .invalidCategory => .invalidTransaction
  | .unsignedBlock | .invalidBlockSigner => .invalidBlock
  | _ => .exception

structure PyExc where
  cls : ExcClass
  text : String := ""
  deriving DecidableEq, Repr

def PyExc.isInstance (e : PyExc) (c : ExcClass) : Bool :=
  e.cls = c || e.cls.base = c || e.cls.base.base = c

/-- `except (ValueError, AssertionError)`. -/
def PyExc.caught (e : PyExc) : Bool := e.isInstance .valueError || e.isInstance .assertionError

end IPchain
