import Mathlib
import SecretTally.Proofs.Number.Bytes
import SecretTally.Proofs.Proof.Acceptance
import SecretTally.Proofs.Wire.Grammar

/-! A proof without branches. There is no equation to check, and no shares add up to zero, so that it
is accepted exactly if the challenge happens to be zero. The domain has no say in it, and a pair that
encrypts none of its values is accepted as well. -/

noncomputable section
namespace SecretTally

namespace MembershipProof
variable {key : PublicKey} {pair : Pair} {domain : Domain} {text : List Char}

def branchless (key : PublicKey) : MembershipProof := ⟨key.p.value, key.q.value, [], [], [], []⟩

def baseDigest (key : PublicKey) (pair : Pair) : List UInt8 :=
  Sha1.digest ((Decimal.print key.g.value ++ Decimal.print key.h.value
    ++ Decimal.print pair.pad.value ++ Decimal.print pair.data.value).map Char.toUInt8)

theorem satisfies_branchless : (branchless key).Satisfies key pair domain ↔
    key.q.value ∣ Bytes.bigEndian (baseDigest key pair) := by
  have htext : (branchless key).hashedText key pair = Decimal.print key.g.value
      ++ Decimal.print key.h.value ++ Decimal.print pair.pad.value
      ++ Decimal.print pair.data.value := List.append_nil _
  constructor
  · intro h
    have hsum := h.share_sum
    rw [htext] at hsum
    exact Nat.modEq_zero_iff_dvd.mp hsum.symm
  · intro hdvd
    refine ⟨⟨rfl, rfl, rfl, Nat.zero_le _, List.forall_mem_nil _, List.forall_mem_nil _,
      List.forall_mem_nil _, List.forall_mem_nil _⟩, fun _ h => absurd h (Nat.not_lt_zero _), ?_⟩
    rw [htext]
    exact (Nat.modEq_zero_iff_dvd.mpr hdvd).symm

theorem check_branchless_eq (howns : key.ownsPair pair = true) (domain : Domain) :
    (branchless key).check standardDigest key pair domain =
      .ok (decide (key.q.value ∣ Bytes.bigEndian (baseDigest key pair))) := by
  obtain ⟨hpad, hdata⟩ := PublicKey.ownsPair_iff.mp howns
  rw [check_eq, if_pos ⟨rfl, rfl, hpad, hdata⟩]
  exact congrArg Except.ok (decide_eq_decide.mpr satisfies_branchless)

theorem bigEndian_baseDigest_lt : Bytes.bigEndian (baseDigest key pair) < 2 ^ 160 := by
  have hlength : (baseDigest key pair).length = 20 := Sha1.length_digest _
  calc Bytes.bigEndian (baseDigest key pair) < 256 ^ (baseDigest key pair).length :=
        Bytes.bigEndian_lt _
    _ = 2 ^ 160 := by rw [hlength]; norm_num

theorem dvd_baseDigest_iff : key.q.value ∣ Bytes.bigEndian (baseDigest key pair) ↔
    baseDigest key pair = List.replicate 20 0 ∨
      key.q.value < 2 ^ 160 ∧ key.q.value ∣ Bytes.bigEndian (baseDigest key pair) := by
  have hlength : (baseDigest key pair).length = 20 := Sha1.length_digest _
  rw [List.eq_replicate_iff, and_iff_right hlength, ← Bytes.bigEndian_eq_zero_iff]
  constructor
  · intro hdvd
    rcases Nat.eq_zero_or_pos (Bytes.bigEndian (baseDigest key pair)) with hzero | hpos
    · exact .inl hzero
    · exact .inr ⟨(Nat.le_of_dvd hpos hdvd).trans_lt bigEndian_baseDigest_lt, hdvd⟩
  · rintro (hzero | ⟨-, hdvd⟩)
    · exact hzero ▸ dvd_zero _
    · exact hdvd

theorem wellFormed_branchless (hkey : key.p.value < Decimal.limit) : (branchless key).WellFormed :=
  ⟨key.p.odd, key.five_le_p, hkey, key.half, rfl, rfl, rfl, List.forall_mem_nil _,
    List.forall_mem_nil _, List.forall_mem_nil _, List.forall_mem_nil _⟩

theorem parse_eq_branchless_iff (hkey : key.p.value < Decimal.limit) :
    parse text = .ok (branchless key) ↔ ∃ digits, Decimal.IsNumeral digits ∧
      Decimal.value digits = key.p.value ∧ text = 'p' :: digits := by
  rw [Numerals.parse_eq_ok_iff]
  constructor
  · rintro ⟨⟨p, y, z, s, c⟩, hproper, rfl, hproof⟩
    simp only [Numerals.proof, branchless, mk.injEq, List.map_eq_nil_iff] at hproof
    obtain ⟨hp, -, rfl, rfl, rfl, rfl⟩ := hproof
    exact ⟨p, hproper.numeral p List.mem_cons_self, hp, by simp [Numerals.text]⟩
  · rintro ⟨digits, hnumeral, hvalue, rfl⟩
    have hproof : Numerals.proof ⟨digits, [], [], [], []⟩ = branchless key := by
      rw [Numerals.proof, hvalue, ← key.half]
      rfl
    refine ⟨⟨digits, [], [], [], []⟩, ⟨?_, hproof ▸ wellFormed_branchless hkey⟩, ?_, hproof⟩
    · simpa [Numerals.all] using hnumeral
    · simp [Numerals.text]

/-- A proof without branches is accepted exactly if the order divides the digest of the key and the
pair, over all domains alike. An order of the length of a digest divides the one of zeros only. Such a
proof can be read from a text, that of the prime alone. -/
theorem check_branchless (key : PublicKey) :
    (∀ (pair : Pair) (domain : Domain), key.ownsPair pair = true →
      (branchless key).check standardDigest key pair domain =
        .ok (decide (key.q.value ∣ Bytes.bigEndian (baseDigest key pair))) ∧
      ((branchless key).check standardDigest key pair domain = .ok true ↔
        baseDigest key pair = List.replicate 20 0 ∨
          key.q.value < 2 ^ 160 ∧ key.q.value ∣ Bytes.bigEndian (baseDigest key pair))) ∧
    (key.p.value < Decimal.limit → ∀ text, parse text = .ok (branchless key) ↔
      ∃ digits, Decimal.IsNumeral digits ∧ Decimal.value digits = key.p.value ∧
        text = 'p' :: digits) := by
  refine ⟨fun pair domain howns => ⟨check_branchless_eq howns domain, ?_⟩,
    fun hkey text => parse_eq_branchless_iff hkey⟩
  rw [check_branchless_eq howns, Except.ok.injEq, decide_eq_true_eq]
  exact dvd_baseDigest_iff

theorem check_branchless_seven :
    let key := PublicKey.small
    let pair := Pair.encrypt key 7 (.ofNat 1 key.q)
    ∃ proof, parse ['p', '2', '3'] = .ok proof ∧
      ∀ domain, proof.check standardDigest key pair domain = .ok true := by
  intro key pair
  obtain ⟨hcheck, hparse⟩ := check_branchless key
  refine ⟨branchless key, (hparse (by decide +kernel) _).mpr ⟨['2', '3'], by decide, by decide, rfl⟩,
    fun domain => ?_⟩
  rw [(hcheck pair domain (by decide)).1]
  exact congrArg Except.ok (decide_eq_true (by decide +kernel))

/-- An encryption of seven passes as one of zero or one. -/
theorem check_branchless_true : ¬ ∀ (key : PublicKey) (pair : Pair) (domain : Domain),
    key.p.value.Prime → key.q.value.Prime → key.ownsPair pair = true →
      (branchless key).check standardDigest key pair domain = .ok false := by
  intro hall
  let pair := Pair.encrypt PublicKey.small 7 (.ofNat 1 PublicKey.small.q)
  have hrefused := hall .small pair ⟨[0, 1], by decide, by decide⟩ (by decide) (by decide)
    (by decide)
  exact absurd hrefused (by decide +kernel)

end MembershipProof
end SecretTally

end
