import SecretTally.Random.Source

/-! A random stream of bytes: a given beginning, then the output words of a 64-bit counter generator,
each with its least significant byte first. Integers below a modulus are drawn by rejection. -/

namespace SecretTally

/-- `ready` holds the bytes that come before the next output word, `used` counts those taken. -/
structure ByteStream where
  ready : List UInt8
  state : UInt64
  used : Nat

namespace ByteStream

def start (beginning : List UInt8) (seed : UInt64) : ByteStream := ⟨beginning, seed, 0⟩

def scramble (counter : UInt64) : UInt64 :=
  let z := (counter ^^^ (counter >>> 30)) * 0xbf58476d1ce4e5b9
  let z := (z ^^^ (z >>> 27)) * 0x94d049bb133111eb
  z ^^^ (z >>> 31)

def wordBytes (w : UInt64) : List UInt8 :=
  [0, 8, 16, 24, 32, 40, 48, 56].map fun shift : UInt64 => (w >>> shift).toUInt8

def byte (s : ByteStream) : UInt8 × ByteStream :=
  match s.ready with
  | b :: rest => (b, ⟨rest, s.state, s.used + 1⟩)
  | [] =>
    let state := s.state + 0x9e3779b97f4a7c15
    let word := scramble state
    (word.toUInt8, ⟨(wordBytes word).tail, state, s.used + 1⟩)

def take : (count : Nat) → ByteStream → List UInt8 × ByteStream
  | 0, s => ([], s)
  | count + 1, s =>
    let (b, s) := s.byte
    let (rest, s) := take count s
    (b :: rest, s)

def below (m : Modulus) : (tries : Nat) → ByteStream → Fin m.value × ByteStream
  | 0, s => (⟨0, m.pos⟩, s)
  | tries + 1, s =>
    let (bytes, s) := take ((m.bits + 7) / 8) s
    let v := Bytes.littleEndian bytes
    if h : v < m.value then (⟨v, h⟩, s) else below m tries s

/-- An attempt fails with probability at most 255/256, so the attempts beyond the given beginning
do not run out in practice. -/
instance : Source ByteStream where
  draw m s := below m (s.ready.length + 65536) s

end ByteStream
end SecretTally
