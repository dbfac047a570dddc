import ReaderWriter.Capacity
import ReaderWriter.Payload.Basic

/-!
# Designs of payloads

A payload is made from a scheme and, if it is a queue, from the number of
elements it holds at the outset. Under a lock of any kind those elements lie in
one piece of memory and so may be too many; a queue without a lock grows block
by block.
-/

namespace ReaderWriter.Payload

/-- What a payload is made from. -/
inductive Design where
  | list (scheme : Scheme)
  | queue (scheme : Scheme) (length : Nat)
deriving DecidableEq

namespace Design

/-- The bytes of an element. -/
def width : Nat := 8

/-- What is made from a design can be held. -/
def fits : Design → Bool
  | .list _ | .queue .lockFree _ => true
  | .queue _ length => Capacity.holds length width

/-- The payload that a design describes. -/
def payload : Design → Payload
  | .list scheme => .list scheme
  | .queue scheme length => .queue scheme length

/-- Makes the payload, if it can be held. -/
def build? (d : Design) : Option Payload :=
  if d.fits then some d.payload else none

end Design

end ReaderWriter.Payload
