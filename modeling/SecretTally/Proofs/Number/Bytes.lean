import Mathlib
import SecretTally.Number.Buffer

/-! Bytes as digits in base 256, the first the highest. The last bytes are what is left of the number
modulo a power of the base, and zeros in front change nothing, so that a buffer filled from its end
holds the number as far as there is room for it, and so do the words that are read from it. -/

namespace SecretTally

namespace Bytes
open Checked
variable {bytes : List UInt8}

theorem bigEndian_append (front back : List UInt8) :
    bigEndian (front ++ back) = 256 ^ back.length * bigEndian front + bigEndian back := by
  induction back using List.reverseRecOn with
  | nil => simp [bigEndian]
  | append_singleton back b ih =>
    rw [← List.append_assoc, bigEndian_append_one, bigEndian_append_one, ih, List.length_append,
      List.length_singleton, pow_succ]
    ring

theorem bigEndian_lt (bytes : List UInt8) : bigEndian bytes < 256 ^ bytes.length := by
  induction bytes using List.reverseRecOn with
  | nil => decide
  | append_singleton bytes b ih =>
    have hb := b.toNat_lt
    rw [bigEndian_append_one, List.length_append, List.length_singleton, pow_succ]
    omega

theorem bigEndian_eq_zero_iff : bigEndian bytes = 0 ↔ ∀ b ∈ bytes, b = 0 := by
  induction bytes using List.reverseRecOn with
  | nil => simp [bigEndian]
  | append_singleton bytes b ih =>
    rw [bigEndian_append_one, Nat.add_eq_zero_iff, Nat.mul_eq_zero, List.forall_mem_append, ← ih,
      List.forall_mem_singleton, ← UInt8.toNat_inj]
    simp

theorem bigEndian_eq_ofDigits (bytes : List UInt8) :
    bigEndian bytes = Nat.ofDigits 256 (bytes.reverse.map UInt8.toNat) := by
  induction bytes using List.reverseRecOn with
  | nil => rfl
  | append_singleton bytes b ih =>
    rw [bigEndian_append_one, List.reverse_append, List.reverse_singleton, List.singleton_append,
      List.map_cons, Nat.ofDigits_cons, ih, Nat.add_comm]

theorem foldl_mod (bytes : List UInt8) (m : ℕ) :
    bytes.foldl (fun n b => (256 * n + b.toNat) % m) 0 = bigEndian bytes % m := by
  induction bytes using List.reverseRecOn with
  | nil => exact (Nat.zero_mod m).symm
  | append_singleton bytes b ih =>
    rw [List.foldl_append, ih, List.foldl_cons, List.foldl_nil, bigEndian_append_one, Nat.add_mod,
      Nat.mul_mod, Nat.mod_mod, ← Nat.mul_mod, ← Nat.add_mod]

theorem bigEndian_zeros_append (zeros : ℕ) (bytes : List UInt8) :
    bigEndian (List.replicate zeros 0 ++ bytes) = bigEndian bytes := by
  rw [bigEndian_append, bigEndian_eq_zero_iff.mpr fun b hb => List.eq_of_mem_replicate hb, mul_zero,
    zero_add]

theorem length_lowest (n : ℕ) (bytes : List UInt8) : (lowest n bytes).length = min bytes.length n := by
  rw [lowest, List.length_drop]
  omega

theorem bigEndian_lowest (n : ℕ) (bytes : List UInt8) :
    bigEndian (lowest n bytes) = bigEndian bytes % 256 ^ n := by
  rcases le_total bytes.length n with hshort | hlong
  · have hlt := (bigEndian_lt bytes).trans_le (Nat.pow_le_pow_right (by decide) hshort)
    rw [lowest_of_length_le hshort, Nat.mod_eq_of_lt hlt]
  · have hlength : (lowest n bytes).length = n := by rw [length_lowest, min_eq_right hlong]
    have hsplit : bytes = bytes.take (bytes.length - n) ++ lowest n bytes :=
      (List.take_append_drop _ _).symm
    have hlt := bigEndian_lt (lowest n bytes)
    rw [hlength] at hlt
    conv_rhs => rw [hsplit, bigEndian_append, hlength, Nat.mul_add_mod, Nat.mod_eq_of_lt hlt]

theorem overwrite?_eq {start : ℕ} {buffer source : List UInt8}
    (h : start + source.length = buffer.length) :
    overwrite? start buffer source = some (buffer.take start ++ source) := by
  have htarget : (buffer.drop start).length = source.length := by
    rw [List.length_drop]
    omega
  rw [overwrite?, from?_eq (by omega), Option.bind_eq_bind, Option.bind_some, if_pos htarget]

theorem buffered?_eq (bytes : List UInt8) : buffered? bytes =
    some (List.replicate (width - min bytes.length width) 0 ++ lowest width bytes) := by
  have hlowest : bytes.drop (bytes.length - min bytes.length width) = lowest width bytes := by
    rw [lowest, tsub_min]
  have hroom : width - min bytes.length width + (lowest width bytes).length = width := by
    rw [length_lowest]
    omega
  simp only [buffered?, List.length_replicate, Option.bind_eq_bind, Option.bind_some,
    difference?_eq (Nat.min_le_right _ _), difference?_eq (Nat.min_le_left _ _),
    from?_eq (Nat.sub_le _ _), hlowest]
  rw [overwrite?_eq (by rwa [List.length_replicate]), List.take_replicate,
    Nat.min_eq_left (Nat.sub_le _ _)]

end Bytes

namespace Words

theorem value_append (low high : List UInt64) :
    value (low ++ high) = value low + Decimal.wordLimit ^ low.length * value high := by
  induction low with
  | nil => simp [value]
  | cons w low ih =>
    rw [List.cons_append, value, value, ih, List.length_cons, pow_succ']
    ring

theorem toNat_push_byte {w : UInt64} (b : UInt8) (h : w.toNat < 256 ^ 7) :
    ((w <<< 8) ||| b.toUInt64).toNat = 256 * w.toNat + b.toNat := by
  have hb : b.toNat < 2 ^ 8 := b.toNat_lt
  have hshift : (w <<< 8).toNat = w.toNat <<< 8 := by
    rw [UInt64.toNat_shiftLeft]
    refine Nat.mod_eq_of_lt ?_
    rw [Nat.shiftLeft_eq]
    exact Nat.mul_lt_mul_of_pos_right h (by decide)
  rw [UInt64.toNat_or, hshift, UInt8.toNat_toUInt64, ← Nat.shiftLeft_add_eq_or_of_lt hb,
    Nat.shiftLeft_eq, mul_comm]

theorem toNat_ofBytes {bytes : List UInt8} (h : bytes.length ≤ 8) :
    (ofBytes bytes).toNat = Bytes.bigEndian bytes := by
  induction bytes using List.reverseRecOn with
  | nil => rfl
  | append_singleton bytes b ih =>
    rw [List.length_append, List.length_singleton] at h
    have hword : (ofBytes bytes).toNat = Bytes.bigEndian bytes := ih (by omega)
    have hlt : (ofBytes bytes).toNat < 256 ^ 7 := by
      rw [hword]
      exact (Bytes.bigEndian_lt bytes).trans_le (Nat.pow_le_pow_right (by decide) (by omega))
    have hpush : ofBytes (bytes ++ [b]) = (ofBytes bytes <<< 8) ||| b.toUInt64 := by
      rw [ofBytes, List.foldl_append]
      rfl
    rw [hpush, toNat_push_byte b hlt, hword, Bytes.bigEndian_append_one]

theorem value_ofBuffer {count : ℕ} {buffer : List UInt8} (h : buffer.length = 8 * count) :
    value (ofBuffer count buffer) = Bytes.bigEndian buffer := by
  induction count generalizing buffer with
  | zero =>
    obtain rfl := List.length_eq_zero_iff.mp h
    rfl
  | succ count ih =>
    have hrest : (buffer.drop 8).length = 8 * count := by
      rw [List.length_drop]
      omega
    have hword : (ofBytes (buffer.take 8)).toNat = Bytes.bigEndian (buffer.take 8) :=
      toNat_ofBytes (List.length_take_le _ _)
    have hpower : Decimal.wordLimit ^ count = 256 ^ (8 * count) := by
      rw [pow_mul]
      rfl
    have hbuffer := Bytes.bigEndian_append (buffer.take 8) (buffer.drop 8)
    rw [List.take_append_drop, hrest] at hbuffer
    rw [ofBuffer, value_append, ih hrest, length_ofBuffer, value, value, hword, mul_zero, add_zero,
      hpower, hbuffer, Nat.add_comm]

end Words

namespace WideInt

theorem exists_ofBytes? (bytes : List UInt8) : ∃ x : WideInt, ofBytes? bytes = some x ∧
    x.value = Bytes.bigEndian (Bytes.lowest Bytes.width bytes) := by
  let buffer := List.replicate (Bytes.width - min bytes.length Bytes.width) 0
    ++ Bytes.lowest Bytes.width bytes
  have hlength : buffer.length = Bytes.width := by
    rw [List.length_append, List.length_replicate, Bytes.length_lowest]
    omega
  refine ⟨⟨Words.ofBuffer 32 buffer, Words.length_ofBuffer 32 buffer⟩, ?_, ?_⟩
  · rw [ofBytes?, Bytes.buffered?_eq, Option.bind_eq_bind, Option.bind_some, ofBuffer?, if_pos hlength]
  · rw [value, Words.value_ofBuffer hlength, Bytes.bigEndian_zeros_append]

end WideInt
end SecretTally
