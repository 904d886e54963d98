import Mathlib
import SecretTally.Proof.Challenge
import SecretTally.Proofs.Number.Bytes
import SecretTally.Residue.Bounded

/-! Exponents from bytes. Their number is reduced first to the working width, which nothing but an
overlong string notices, then to the modulus. A digest has room in the width, so that a challenge is
the digest byte by byte modulo the order. -/

namespace SecretTally.Exponent
variable {bytes : List UInt8}

theorem bigEndian_lowest_width (bytes : List UInt8) :
    Bytes.bigEndian (Bytes.lowest Bytes.width bytes) = Bytes.bigEndian bytes % 2 ^ 2048 := by
  have hpower : 256 ^ Bytes.width = 2 ^ 2048 := by decide +kernel
  rw [Bytes.bigEndian_lowest, hpower]

theorem ofBytes_eq (bytes : List UInt8) (q : Modulus) :
    ofBytes bytes q = ofNat (Bytes.bigEndian bytes % 2 ^ 2048) q :=
  congrArg (ofNat · q) (bigEndian_lowest_width bytes)

theorem value_ofBytes_of_length_le (h : bytes.length ≤ 256) (q : Modulus) :
    (ofBytes bytes q).value = bytes.foldl (fun n b => (256 * n + b.toNat) % q.value) 0 := by
  have hwhole : Bytes.lowest (Decimal.width / 8) bytes = bytes := Bytes.lowest_of_length_le h
  rw [Bytes.foldl_mod, ofBytes, hwhole, value_ofNat]

theorem ofBytes?_eq (bytes : List UInt8) (q : Modulus) :
    BoundedExponent.ofBytes? bytes q = some (ofBytes bytes q).bounded := by
  obtain ⟨x, hx, hvalue⟩ := WideInt.exists_ofBytes? bytes
  rw [BoundedExponent.ofBytes?, hx, Option.map_some, hvalue]
  rfl

/-- However many bytes there are, no slice or copy misses them or the buffer, and the exponent is their
number in base 256, reduced to the working width and then to the modulus. Up to that width this is a
reduction after every byte, so that a challenge is its digest reduced byte by byte. Zeros in front never
count. -/
theorem ofBytes_exact :
    (∀ (bytes : List UInt8) (q : Modulus),
      BoundedExponent.ofBytes? bytes q = some (ofBytes bytes q).bounded ∧
      (ofBytes bytes q).modulus = q ∧
      (ofBytes bytes q).value =
        Nat.ofDigits 256 (bytes.reverse.map UInt8.toNat) % 2 ^ 2048 % q.value) ∧
    (∀ (bytes : List UInt8) (q : Modulus), bytes.length ≤ 256 →
      (ofBytes bytes q).value = bytes.foldl (fun n b => (256 * n + b.toNat) % q.value) 0) ∧
    (∀ (zeros : ℕ) (bytes : List UInt8) (q : Modulus),
      ofBytes (List.replicate zeros 0 ++ bytes) q = ofBytes bytes q) ∧
    ∀ (q : Modulus) (text : List Char), (challengeOf standardDigest q text).value =
      (Sha1.digest (text.map Char.toUInt8)).foldl (fun n b => (256 * n + b.toNat) % q.value) 0 := by
  refine ⟨fun bytes q => ⟨ofBytes?_eq bytes q, rfl, ?_⟩,
    fun bytes q h => value_ofBytes_of_length_le h q, fun zeros bytes q => ?_, fun q text => ?_⟩
  · rw [ofBytes_eq, value_ofNat, Bytes.bigEndian_eq_ofDigits]
  · rw [ofBytes_eq, Bytes.bigEndian_zeros_append, ← ofBytes_eq]
  · have hlength := Sha1.length_digest (text.map Char.toUInt8)
    exact value_ofBytes_of_length_le (hlength.trans_le (by decide)) q

theorem ofBytes_exact_overlong :
    let q : Modulus := ⟨1019, rfl, by decide⟩
    let full : List UInt8 := 1 :: List.replicate 255 0
    let overlong : List UInt8 := 1 :: List.replicate 256 0
    full.length ≤ 256 ∧
      (ofBytes full q).value = full.foldl (fun n b => (256 * n + b.toNat) % q.value) 0 ∧
      (ofBytes full q).value ≠ 0 ∧
      BoundedExponent.ofBytes? (List.replicate 300 0 ++ [1, 0, 0]) q = some ⟨320, q, 10⟩ ∧
      (ofBytes overlong q).value = 0 ∧
      overlong.foldl (fun n b => (256 * n + b.toNat) % q.value) 0 ≠ 0 := by
  intro q full overlong
  obtain ⟨hvalue, hfold, hzeros, -⟩ := ofBytes_exact
  have hlength : full.length ≤ 256 := by decide +kernel
  have hfull := hfold full q hlength
  refine ⟨hlength, hfull, ?_, ?_, ?_, by decide +kernel⟩
  · rw [hfull]
    decide +kernel
  · rw [(hvalue _ q).1, hzeros 300 [1, 0, 0] q]
    decide +kernel
  · decide +kernel

end SecretTally.Exponent
