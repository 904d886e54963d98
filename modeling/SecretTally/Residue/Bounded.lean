import SecretTally.Number.Buffer
import SecretTally.Random.Source
import SecretTally.Residue.Element

/-! Exponents as they are kept: a number, its modulus and the number of bits that a power scans.
Every operation writes the three anew. Nothing but the operations makes them fit together: sums and
differences take it that their operands are below the modulus, and powers that no bit is left
over. -/

namespace SecretTally

structure BoundedExponent where
  value : Nat
  modulus : Modulus
  bound : Nat
deriving DecidableEq

namespace BoundedExponent

def ofNat (n : Nat) (q : Modulus) : BoundedExponent := ⟨n % q.value, q, q.bits⟩

def zero (q : Modulus) : BoundedExponent := ofNat 0 q

def ofWord (w : UInt64) (q : Modulus) : BoundedExponent := ofNat w.toNat q

def ofBytes (bytes : List UInt8) (q : Modulus) : BoundedExponent :=
  ofNat (Bytes.bigEndian (Bytes.lowest (Decimal.width / 8) bytes)) q

def ofBytes? (bytes : List UInt8) (q : Modulus) : Option BoundedExponent :=
  (WideInt.ofBytes? bytes).map fun x => ofNat x.value q

def random {σ ε : Type} [Source σ] (q : Modulus) : Randomized σ ε BoundedExponent := fun s =>
  let (v, s) := Source.draw q s
  (.ok (ofNat v q), s)

def addMod (a b m : Nat) : Nat := if a + b < m then a + b else a + b - m

def subMod (a b m : Nat) : Nat := if b ≤ a then a - b else a + m - b

protected def add (a b : BoundedExponent) : BoundedExponent :=
  ⟨addMod a.value b.value a.modulus.value, a.modulus, a.bound⟩

protected def sub (a b : BoundedExponent) : BoundedExponent :=
  ⟨subMod a.value b.value a.modulus.value, a.modulus, a.bound⟩

protected def mul (a b : BoundedExponent) : BoundedExponent :=
  ⟨a.value * b.value % a.modulus.value, a.modulus, a.bound⟩

protected def neg (a : BoundedExponent) : BoundedExponent :=
  ⟨subMod 0 a.value a.modulus.value, a.modulus, a.bound⟩

instance : Add BoundedExponent := ⟨BoundedExponent.add⟩
instance : Sub BoundedExponent := ⟨BoundedExponent.sub⟩
instance : Mul BoundedExponent := ⟨BoundedExponent.mul⟩
instance : Neg BoundedExponent := ⟨BoundedExponent.neg⟩

def select (choice : Bool) (a b : BoundedExponent) : BoundedExponent :=
  ⟨(if choice then b.value else a.value) % a.modulus.value, a.modulus, a.bound⟩

end BoundedExponent

protected def Element.powBounded (a : Element) (e : BoundedExponent) : Element :=
  ⟨a.modulus, powerLow a.modulus.value e.bound a.value e.value, powerLow_lt a.modulus.pos ..⟩

instance : HPow Element BoundedExponent Element := ⟨Element.powBounded⟩

def Exponent.bounded (e : Exponent) : BoundedExponent := ⟨e.value, e.modulus, e.bound⟩

end SecretTally
