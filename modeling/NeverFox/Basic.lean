import Mathlib.Algebra.Order.Ring.Nat

namespace NeverFox

abbrev Bytes := List UInt8

abbrev Header := String × String

-- The exceptions the modelled code raises itself, with the text it gives them,
-- and those of the builtins and packages it lets through.
inductive Exn
  | connectionError (message : String)
  | ioError (message : String)
  | timeoutError (message : String)
  | httpError (message : String)
  | runtimeError (message : String)
  | valueError
  | typeError
  | indexError
  | attributeError
  | overflowError
  | structError
  | hpackError
  | zlibError
  | otherError
  deriving DecidableEq, Repr

-- `except (ConnectionError, IOError)`: IOError is OSError, of which the other
-- two are subclasses.
def Exn.isIOError : Exn → Bool
  | .connectionError _ | .ioError _ | .timeoutError _ => true
  | _ => false

-- The body argument: octets, or an object that memoryview() rejects.
inductive Body
  | bytes (data : Bytes)
  | other (truthy : Bool)
  deriving DecidableEq, Repr

def Body.truthy : Body → Bool
  | .bytes data => data ≠ []
  | .other truthy => truthy

-- What a backend returns: (status, headers, body).
structure RawResponse where
  status : Option Int
  headers : List Header
  body : Bytes
  deriving DecidableEq

end NeverFox
