import SecretTally.Number.Decimal

/-! Integers of the working width as words of 64 bits, lowest first, and their decimal text by
arithmetic on the words alone. Printing divides by a thousand million again and again, so that every
remainder gives nine digits; reading multiplies by ten and adds a digit, and refuses the carry that the
highest word leaves. -/

namespace SecretTally

abbrev DoubleWord := BitVec 128

namespace Words

def value : List UInt64 → Nat
  | [] => 0
  | w :: rest => w.toNat + Decimal.wordLimit * value rest

def widen (w : UInt64) : DoubleWord := w.toBitVec.setWidth 128

def narrow (x : DoubleWord) : UInt64 := ⟨x.setWidth 64⟩

def chunkLimit : UInt64 := 1000000000

/-- Quotient and remainder by the chunk. The division goes from the highest word down, and each word's
remainder stands in front of the next word. -/
def divide : List UInt64 → List UInt64 × DoubleWord
  | [] => ([], 0)
  | w :: rest =>
    let (quotient, remainder) := divide rest
    let dividend := (remainder <<< 64) ||| widen w
    (narrow (dividend / widen chunkLimit) :: quotient, dividend % widen chunkLimit)

def timesTen (carry : DoubleWord) : List UInt64 → List UInt64 × DoubleWord
  | [] => ([], carry)
  | w :: rest =>
    let product := widen w * 10 + carry
    let (higher, carry) := timesTen (product >>> 64) rest
    (narrow product :: higher, carry)

theorem wordLimit_eq : Decimal.wordLimit = 18446744073709551616 := rfl

theorem toNat_widen (w : UInt64) : (widen w).toNat = w.toNat := by
  have := w.toNat_lt
  rw [widen, BitVec.toNat_setWidth, UInt64.toNat_toBitVec]
  omega

theorem toNat_narrow (x : DoubleWord) : (narrow x).toNat = x.toNat % Decimal.wordLimit := by
  rw [narrow, ← UInt64.toNat_toBitVec, BitVec.toNat_setWidth]
  rfl

theorem toNat_dividend {remainder : DoubleWord} (w : UInt64)
    (h : remainder.toNat < Decimal.wordLimit) :
    ((remainder <<< 64) ||| widen w).toNat = Decimal.wordLimit * remainder.toNat + w.toNat := by
  have hw := w.toNat_lt
  rw [wordLimit_eq] at h ⊢
  rw [BitVec.toNat_or, toNat_widen, BitVec.toNat_shiftLeft, Nat.shiftLeft_eq,
    Nat.mod_eq_of_lt (by omega), ← Nat.shiftLeft_eq, ← Nat.shiftLeft_add_eq_or_of_lt hw,
    Nat.shiftLeft_eq]
  omega

theorem divide_spec (words : List UInt64) :
    value (divide words).1 = value words / 1000000000 ∧
      (divide words).2.toNat = value words % 1000000000 := by
  induction words with
  | nil => exact ⟨rfl, rfl⟩
  | cons w rest ih =>
    obtain ⟨hquotient, hremainder⟩ := ih
    have hw := w.toNat_lt
    have hsmall : (divide rest).2.toNat < Decimal.wordLimit := by
      rw [hremainder, wordLimit_eq]
      omega
    have hchunk : (widen chunkLimit).toNat = 1000000000 := by decide
    simp only [divide, value, toNat_narrow, BitVec.toNat_udiv, BitVec.toNat_umod,
      toNat_dividend w hsmall, hchunk, hquotient, hremainder, wordLimit_eq]
    omega

theorem length_timesTen (carry : DoubleWord) (words : List UInt64) :
    (timesTen carry words).1.length = words.length := by
  induction words generalizing carry with
  | nil => rfl
  | cons w rest ih => rw [timesTen, List.length_cons, ih, List.length_cons]

theorem value_eq_zero_iff {words : List UInt64} : value words = 0 ↔ words.any (· ≠ 0) = false := by
  induction words with
  | nil => exact ⟨fun _ => rfl, fun _ => rfl⟩
  | cons w rest ih =>
    have hw : w = 0 ↔ w.toNat = 0 := ⟨fun h => h ▸ rfl, fun h => UInt64.toNat_inj.mp h⟩
    rw [List.any_cons, Bool.or_eq_false_iff, ← ih, decide_eq_false_iff_not, Decidable.not_not, hw,
      value, wordLimit_eq]
    omega

def chunks (words : List UInt64) : List UInt64 :=
  if words.any (· ≠ 0) = true then narrow (divide words).2 :: chunks (divide words).1 else []
termination_by value words
decreasing_by
  next h =>
    have hpos : value words ≠ 0 := fun hzero =>
      Bool.noConfusion (h.symm.trans (value_eq_zero_iff.mp hzero))
    rw [(divide_spec words).1]
    omega

def chunkText (chunk : UInt64) : List Char := List.leftpad 9 '0' (Decimal.print chunk.toNat)

def chunksText (chunks : List UInt64) : List Char :=
  match chunks.reverse with
  | [] => ['0']
  | leading :: rest => Decimal.print leading.toNat ++ rest.flatMap chunkText

def ofNat : (count n : Nat) → List UInt64
  | 0, _ => []
  | count + 1, n => UInt64.ofNat n :: ofNat count (n / Decimal.wordLimit)

theorem length_ofNat (count n : Nat) : (ofNat count n).length = count := by
  induction count generalizing n with
  | zero => rfl
  | succ count ih => rw [ofNat, List.length_cons, ih]

end Words

structure WideInt where
  words : List UInt64
  length_words : words.length = 32
deriving DecidableEq

namespace WideInt

def value (x : WideInt) : Nat := Words.value x.words

def ofNat (n : Nat) : WideInt := ⟨Words.ofNat 32 n, Words.length_ofNat 32 n⟩

def print (x : WideInt) : List Char := Words.chunksText (Words.chunks x.words)

def push? (x : WideInt) (digit : UInt8) : Option WideInt :=
  let result := Words.timesTen (digit.toBitVec.setWidth 128) x.words
  if result.2 ≠ 0 then none
  else some ⟨result.1, (Words.length_timesTen _ x.words).trans x.length_words⟩

def isDigit (b : UInt8) : Bool := 0x30 ≤ b && b ≤ 0x39

/-- Looks at the bytes of the text: first whether all are digits, then at one after the other. -/
def parse? (text : List Char) : Option WideInt :=
  let bytes := text.flatMap String.utf8EncodeChar
  if bytes = [] ∨ bytes.all isDigit = false then none
  else bytes.foldlM (fun x b => x.push? (b - 0x30)) (ofNat 0)

end WideInt
end SecretTally
