/-!
# Rounding

A quotient that is worked out in a register of double length keeps 53 binary
digits, and a number that is written with so many places keeps those. Both times
what is dropped is rounded: to the nearest number that can be kept, and from the
middle between two of them to the even one.

All of this is done here with natural numbers. The exponents that a register has
room for are far beyond the quotients that are asked for.
-/

namespace ReaderWriter

/-- A quotient of natural numbers. -/
structure Ratio where
  num : Nat
  den : Nat
deriving DecidableEq

namespace Ratio

/-- A natural number as a quotient. -/
def ofNat (n : Nat) : Ratio := ⟨n, 1⟩

/-- The quotient so many times. -/
def times (x : Ratio) (n : Nat) : Ratio := { x with num := x.num * n }

/-- The quotient divided by a number. -/
def dividedBy (x : Ratio) (n : Nat) : Ratio := { x with den := x.den * n }

/-- The whole number that is nearest, or the even one of two. -/
def nearest (x : Ratio) : Nat :=
  let whole := x.num / x.den
  let rest := x.num % x.den
  if 2 * rest < x.den then whole
  else if x.den < 2 * rest then whole + 1
  else whole + whole % 2

/-- The denominator of a quotient that is rounded; it leaves more binary digits of
the quotient than are kept. -/
def scale (x : Ratio) : Nat := 1 <<< (x.den.log2 + 54)

/-- The worth of the last of the 53 binary digits that are kept. -/
def unit (x : Ratio) : Nat := 1 <<< ((x.num * x.scale / x.den).log2 - 52)

/-- The nearest quotient that a register of double length can hold. -/
def double (x : Ratio) : Ratio :=
  ⟨nearest ⟨x.num * x.scale, x.den * x.unit⟩ * x.unit, x.scale⟩

end Ratio

end ReaderWriter
