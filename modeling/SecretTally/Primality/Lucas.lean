import SecretTally.Primality.Strong

/-! The strong Lucas probable-prime test with first parameter one. The discriminant is the first of
5, -7, 9, -11, … that is no square modulo the number under test. -/

namespace SecretTally.Primality

/-- The Jacobi symbol of `a` over odd `n`, by reciprocity. Four steps for every bit of `n` are
more than enough; should they run out, the answer is zero. -/
def jacobi : (steps a n : Nat) → Int
  | 0, _, _ => 0
  | steps + 1, a, n =>
    if a = 0 then if n = 1 then 1 else 0
    else if a % 2 = 0 then
      let rest := jacobi steps (a / 2) n
      if n % 8 = 3 ∨ n % 8 = 5 then -rest else rest
    else
      let rest := jacobi steps (n % a) a
      if a % 4 = 3 ∧ n % 4 = 3 then -rest else rest

def signedResidue (negative : Bool) (value n : Nat) : Nat :=
  if negative then (n - value % n) % n else value % n

/-- The first discriminant from `size` on, of alternating sign, whose Jacobi symbol over `n` is
`-1`. A square has none. -/
def discriminant? (n : Nat) : (tries size : Nat) → (negative : Bool) → Option (Nat × Bool)
  | 0, _, _ => none
  | tries + 1, size, negative =>
    if jacobi (4 * n.log2 + 8) (signedResidue negative size n) n = -1 then some (size, negative)
    else discriminant? n tries (size + 2) (!negative)

/-- Term number `k` of the two Lucas sequences, with the `k`-th power of the second parameter. -/
structure LucasTerm where
  u : Nat
  v : Nat
  power : Nat

def halve (n x : Nat) : Nat :=
  let r := x % n
  if r % 2 = 0 then r / 2 else (r + n) / 2

def LucasTerm.double (n : Nat) (t : LucasTerm) : LucasTerm :=
  ⟨t.u * t.v % n, (t.v * t.v + 2 * (n - t.power)) % n, t.power * t.power % n⟩

def LucasTerm.next (n disc second : Nat) (t : LucasTerm) : LucasTerm :=
  ⟨halve n (t.u + t.v), halve n (disc * t.u + t.v), t.power * second % n⟩

def lucasTerm (n disc second : Nat) : (bits k : Nat) → LucasTerm
  | 0, _ => ⟨0, 2 % n, 1 % n⟩
  | bits + 1, k =>
    let even := (lucasTerm n disc second bits (k / 2)).double n
    if k % 2 = 1 then even.next n disc second else even

def doublesVanish (n : Nat) : (count : Nat) → LucasTerm → Bool
  | 0, _ => false
  | count + 1, t => t.v == 0 || doublesVanish n count (t.double n)

def isStrongLucas (n : Nat) : Bool :=
  match discriminant? n 256 5 false with
  | none => false
  | some (size, negative) =>
    let disc := signedResidue negative size n
    let second := if negative then (size + 1) / 4 else (n - (size - 1) / 4 % n) % n
    let bits := (n + 1).log2 + 1
    let s := twos bits (n + 1)
    let t := lucasTerm n disc second bits ((n + 1) >>> s)
    t.u == 0 || doublesVanish n s t

end SecretTally.Primality
