import Mathlib
import SecretTally.Proofs.Refusal

/-! ASCII text as bytes. Every character is one byte, and decoding the bytes gives the text back; no
other bytes give it, since a character of several bytes lies beyond ASCII. -/

namespace SecretTally.Utf8
variable {text : List Char}

theorem utf8Size_eq_one_iff {c : Char} : c.utf8Size = 1 ↔ c.toNat < 128 := by
  rw [Char.utf8Size_eq_one_iff, UInt32.le_iff_toNat_le]
  exact Nat.lt_succ_iff.symm

theorem utf8Size_of_isDigit {c : Char} (h : c.isDigit = true) : c.utf8Size = 1 :=
  utf8Size_eq_one_iff.mpr ((Char.isDigit_iff_toNat.mp h).2.trans_lt (by decide))

theorem toNat_toUInt8 {c : Char} (h : c.toNat < 128) : c.toUInt8.toNat = c.toNat := by
  rw [Char.toUInt8, UInt32.toNat_toUInt8]
  exact Nat.mod_eq_of_lt (h.trans (by decide))

theorem flatMap_utf8EncodeChar (h : ∀ c ∈ text, c.toNat < 128) :
    text.flatMap String.utf8EncodeChar = text.map Char.toUInt8 := by
  rw [List.map_eq_flatMap]
  apply List.flatMap_congr
  intro c hc
  rw [String.utf8EncodeChar_eq_singleton (utf8Size_eq_one_iff.mpr (h c hc)), Char.toUInt8_val]

theorem decodeFrom_map_toUInt8 (h : ∀ c ∈ text, c.toNat < 128) (index : ℕ) :
    decodeFrom index none (text.map Char.toUInt8) = .ok text := by
  induction text generalizing index with
  | nil => rfl
  | cons c text ih =>
    rw [List.forall_mem_cons] at h
    have hbyte : c.toUInt8.toNat = c.toNat := toNat_toUInt8 h.1
    have hascii : c.toUInt8 < 0x80 := by
      rw [UInt8.lt_iff_toNat_lt, hbyte]
      exact h.1
    rw [List.map_cons, decodeFrom, if_pos hascii, hbyte, Char.ofNat_toNat, ih h.2]
    rfl

theorem decode_utf8 (h : ∀ c ∈ text, c.toNat < 128) :
    decode (text.flatMap String.utf8EncodeChar) = .ok text := by
  rw [flatMap_utf8EncodeChar h]
  exact decodeFrom_map_toUInt8 h 0

namespace Pending

def least (p : Pending) : ℕ := 64 ^ (p.owed - 1) * (64 * p.code + (p.low.toNat - 0x80))

def bound (p : Pending) : ℕ := 64 ^ (p.owed - 1) * (64 * p.code + (p.high.toNat - 0x80) + 1)

theorem least_eq (p : Pending) :
    p.least = 64 ^ (p.owed - 1) * (64 * p.code + (p.low.toNat - 0x80)) := rfl

theorem bound_eq (p : Pending) :
    p.bound = 64 ^ (p.owed - 1) * (64 * p.code + (p.high.toNat - 0x80) + 1) := rfl

structure BeyondAscii (p : Pending) : Prop where
  owed_pos : 0 < p.owed
  low_le : 0x80 ≤ p.low.toNat
  least_ge : 128 ≤ p.least
  scalar : p.bound ≤ 0xd800 ∨ 0xe000 ≤ p.least ∧ p.bound ≤ 0x110000

theorem beyondAscii_of_ofLead? {b : UInt8} {p : Pending} (h : ofLead? b = some p) :
    p.BeyondAscii := by
  simp only [ofLead?, UInt8.le_iff_toNat_le, ← UInt8.toNat_inj] at h
  have hbyte := b.toNat_lt
  split at h
  · next hrange =>
    obtain rfl := Option.some.inj h
    constructor <;> simp [least_eq, bound_eq] at hrange ⊢ <;> omega
  split at h
  · obtain rfl := Option.some.inj h
    constructor <;> simp [least_eq, bound_eq]
  split at h
  · obtain rfl := Option.some.inj h
    constructor <;> simp [least_eq, bound_eq]
  split at h
  · next hnotE0 hnotED hrange =>
    obtain rfl := Option.some.inj h
    constructor <;> simp [least_eq, bound_eq] at hrange hnotE0 hnotED ⊢ <;> omega
  split at h
  · obtain rfl := Option.some.inj h
    constructor <;> simp [least_eq, bound_eq]
  split at h
  · next hrange =>
    obtain rfl := Option.some.inj h
    constructor <;> simp [least_eq, bound_eq] at hrange ⊢ <;> omega
  split at h
  · obtain rfl := Option.some.inj h
    constructor <;> simp [least_eq, bound_eq]
  · cases h

variable {p : Pending} (h : p.BeyondAscii) {b : UInt8} (hlow : p.low ≤ b) (hhigh : b ≤ p.high)
include h hlow hhigh

theorem BeyondAscii.completed (howed : p.owed = 1) :
    128 ≤ (Char.ofNat (64 * p.code + (b.toNat - 0x80))).toNat := by
  obtain ⟨-, hmin, hleast, hscalar⟩ := h
  rw [UInt8.le_iff_toNat_le] at hlow hhigh
  simp only [least_eq, bound_eq, howed, Nat.sub_self, pow_zero, one_mul] at hleast hscalar
  have hvalid : (64 * p.code + (b.toNat - 0x80)).isValidChar := by
    unfold Nat.isValidChar
    omega
  rw [Char.toNat_ofNat, if_pos hvalid]
  omega

theorem BeyondAscii.continued (howed : p.owed ≠ 1) : BeyondAscii
    ⟨p.seen + 1, p.owed - 1, 0x80, 0xbf, 64 * p.code + (b.toNat - 0x80)⟩ := by
  obtain ⟨hpos, hmin, hleast, hscalar⟩ := h
  rw [UInt8.le_iff_toNat_le] at hlow hhigh
  obtain ⟨n, hn⟩ := Nat.exists_eq_add_of_le (Nat.lt_of_le_of_ne hpos (Ne.symm howed))
  have hpower : 64 ^ (p.owed - 1) = 64 ^ n * 64 := by
    rw [hn, ← pow_succ]
    congr 1
    omega
  have hlower : p.least ≤ 64 ^ n * 64 * (64 * p.code + (b.toNat - 0x80)) := by
    rw [least_eq, hpower]
    exact Nat.mul_le_mul_left _ (by omega)
  have hupper : 64 ^ n * 64 * (64 * p.code + (b.toNat - 0x80) + 1) ≤ p.bound := by
    rw [bound_eq, hpower]
    exact Nat.mul_le_mul_left _ (by omega)
  have hexponent : p.owed - 1 - 1 = n := by omega
  have hleast' : least ⟨p.seen + 1, p.owed - 1, 0x80, 0xbf, 64 * p.code + (b.toNat - 0x80)⟩ =
      64 ^ n * 64 * (64 * p.code + (b.toNat - 0x80)) := by
    simp [least_eq, hexponent, mul_assoc]
  have hbound' : bound ⟨p.seen + 1, p.owed - 1, 0x80, 0xbf, 64 * p.code + (b.toNat - 0x80)⟩ =
      64 ^ n * 64 * (64 * p.code + (b.toNat - 0x80) + 1) := by
    simp only [bound_eq, hexponent]
    rw [show (0xbf : UInt8).toNat - 0x80 = 63 from rfl]
    ring
  refine ⟨by change 0 < p.owed - 1; omega, le_rfl, ?_, ?_⟩
  · rw [hleast']
    omega
  · rw [hleast', hbound']
    omega

end Pending

theorem exists_nonAscii {p : Pending} (hp : p.BeyondAscii) {bytes : List UInt8} {index : ℕ}
    (h : decodeFrom index (some p) bytes = .ok text) : ∃ c ∈ text, 128 ≤ c.toNat := by
  induction bytes generalizing index p text with
  | nil => cases h
  | cons b rest ih =>
    rw [decodeFrom] at h
    split at h
    · next hrange =>
      split at h
      · next howed =>
        obtain ⟨tail, -, rfl⟩ := map_eq_ok.mp h
        exact ⟨_, List.mem_cons_self, hp.completed hrange.1 hrange.2 howed⟩
      · next howed => exact ih (hp.continued hrange.1 hrange.2 howed) h
    · cases h

theorem eq_map_toUInt8_of_decodeFrom {bytes : List UInt8} {index : ℕ}
    (h : decodeFrom index none bytes = .ok text) (hascii : ∀ c ∈ text, c.toNat < 128) :
    bytes = text.map Char.toUInt8 := by
  induction bytes generalizing index text with
  | nil =>
    cases h
    rfl
  | cons b rest ih =>
    rw [decodeFrom] at h
    split at h
    · next hb =>
      obtain ⟨tail, htail, rfl⟩ := map_eq_ok.mp h
      rw [List.forall_mem_cons] at hascii
      have hbyte : (Char.ofNat b.toNat).toUInt8 = b := by
        rw [UInt8.lt_iff_toNat_lt] at hb
        have hvalid : b.toNat.isValidChar := Or.inl (hb.trans (by decide))
        rw [← UInt8.toNat_inj, Char.toUInt8, UInt32.toNat_toUInt8]
        change (Char.ofNat b.toNat).toNat % 256 = b.toNat
        rw [Char.toNat_ofNat, if_pos hvalid]
        exact Nat.mod_eq_of_lt b.toNat_lt
      rw [List.map_cons, hbyte, ← ih htail hascii.2]
    · split at h
      · cases h
      · next p hlead =>
        obtain ⟨c, hc, hlarge⟩ := exists_nonAscii (Pending.beyondAscii_of_ofLead? hlead) h
        exact absurd (hascii c hc) (Nat.not_lt.mpr hlarge)

theorem decode_eq_ok_iff_of_ascii {bytes : List UInt8} (hascii : ∀ c ∈ text, c.toNat < 128) :
    decode bytes = .ok text ↔ bytes = text.flatMap String.utf8EncodeChar := by
  constructor
  · intro h
    rw [flatMap_utf8EncodeChar hascii]
    exact eq_map_toUInt8_of_decodeFrom h hascii
  · rintro rfl
    exact decode_utf8 hascii

end SecretTally.Utf8
