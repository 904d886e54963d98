/-! The SHA-1 digest of a byte string. Each block of sixteen words is expanded while it is consumed:
a window holds the next sixteen words of the schedule. -/

namespace SecretTally.Sha1

structure State where
  a : UInt32
  b : UInt32
  c : UInt32
  d : UInt32
  e : UInt32

def initial : State := ⟨0x67452301, 0xefcdab89, 0x98badcfe, 0x10325476, 0xc3d2e1f0⟩

def rotate (x n : UInt32) : UInt32 := (x <<< n) ||| (x >>> (32 - n))

def mix (t : Nat) (b c d : UInt32) : UInt32 :=
  if t < 20 then ((b &&& c) ||| (~~~b &&& d)) + 0x5a827999
  else if t < 40 then (b ^^^ c ^^^ d) + 0x6ed9eba1
  else if t < 60 then ((b &&& c) ||| (b &&& d) ||| (c &&& d)) + 0x8f1bbcdc
  else (b ^^^ c ^^^ d) + 0xca62c1d6

def round (t : Nat) (word : UInt32) (s : State) : State :=
  ⟨rotate s.a 5 + mix t s.b s.c s.d + s.e + word, s.a, rotate s.b 30, s.c, s.d⟩

def following (window : List UInt32) : UInt32 :=
  rotate (window.getD 13 0 ^^^ window.getD 8 0 ^^^ window.getD 2 0 ^^^ window.getD 0 0) 1

def rounds : (left : Nat) → (window : List UInt32) → State → State
  | left + 1, word :: window, s =>
    rounds left (window ++ [following (word :: window)]) (round (79 - left) word s)
  | _, _, s => s

def compress (s : State) (block : List UInt32) : State :=
  let t := rounds 80 block s
  ⟨s.a + t.a, s.b + t.b, s.c + t.c, s.d + t.d, s.e + t.e⟩

def words : List UInt8 → List UInt32
  | a :: b :: c :: d :: rest =>
    ((a.toUInt32 <<< 24) ||| (b.toUInt32 <<< 16) ||| (c.toUInt32 <<< 8) ||| d.toUInt32)
      :: words rest
  | _ => []

def wordBytes (w : UInt32) : List UInt8 :=
  [(w >>> 24).toUInt8, (w >>> 16).toUInt8, (w >>> 8).toUInt8, w.toUInt8]

def lengthBytes (count : Nat) : List UInt8 :=
  [56, 48, 40, 32, 24, 16, 8, 0].map fun shift => ((8 * count) >>> shift).toUInt8

def pad (message : List UInt8) : List UInt8 :=
  message ++ 0x80 :: List.replicate ((119 - message.length % 64) % 64) 0
    ++ lengthBytes message.length

def absorb : (count : Nat) → List UInt32 → State → State
  | 0, _, s => s
  | count + 1, ws, s => absorb count (ws.drop 16) (compress s (ws.take 16))

def digest (message : List UInt8) : List UInt8 :=
  let padded := words (pad message)
  let s := absorb (padded.length / 16) padded initial
  [s.a, s.b, s.c, s.d, s.e].flatMap wordBytes

theorem length_digest (message : List UInt8) : (digest message).length = 20 := rfl

end SecretTally.Sha1
