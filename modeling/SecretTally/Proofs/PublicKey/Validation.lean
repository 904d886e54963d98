import Mathlib
import SecretTally.Proofs.PublicKey.Point
import SecretTally.Proofs.Refusal

/-! Which numbers make a key. A safe prime other than five has an odd order, and by Euler's criterion
the numbers with power one to that order are the quadratic residues. As the order is prime, each of
them but one generates all the others. -/

noncomputable section
namespace SecretTally
variable {p q : Modulus} {n : ℕ}

theorem isGenerator_iff {x : Element} (hx : x.modulus = p) :
    IsGenerator p q x ↔ 1 < x.value ∧ x.toZMod p ^ q.value = 1 := by
  refine ⟨fun h => ⟨h.one_lt, h.pow_order⟩, fun ⟨hone, hpow⟩ => ⟨hx, hone, ?_⟩⟩
  rw [← Element.toZMod_pow_order hx] at hpow
  exact (natCast_eq_one_iff_of_lt (hx ▸ Element.value_lt _)).mp hpow

theorem exists_isGenerator_iff : (∃ x : { x : Element // IsGenerator p q x }, x.val.value = n) ↔
    2 ≤ n ∧ n < p.value ∧ (n : ZMod p.value) ^ q.value = 1 := by
  constructor
  · rintro ⟨⟨x, hx⟩, rfl⟩
    exact ⟨hx.one_lt, hx.modulus_eq ▸ x.value_lt, hx.pow_order⟩
  · rintro ⟨hone, hlt, hpow⟩
    let x : Element := ⟨p, n, hlt⟩
    have hx : IsGenerator p q x := (isGenerator_iff (x := x) rfl).mpr ⟨hone, hpow⟩
    exact ⟨⟨x, hx⟩, rfl⟩

theorem IsGenerator.exists_unit {x : Element} (hq : q.value.Prime) (h : IsGenerator p q x) :
    ∃ u : (ZMod p.value)ˣ, (u : ZMod p.value) = x.value ∧ orderOf u = q.value ∧
      ∀ a b : ℤ, u ^ a = u ^ b ↔ a ≡ b [ZMOD q.value] := by
  have : Fact q.value.Prime := ⟨hq⟩
  let u : (ZMod p.value)ˣ := Units.ofPowEqOne (x.toZMod p) q.value h.pow_order q.pos.ne'
  have hne : u ≠ 1 := by
    intro hu
    have hclass : (x.value : ZMod p.value) = 1 := congrArg Units.val hu
    exact h.one_lt.ne' ((natCast_eq_one_iff_of_lt (h.modulus_eq ▸ x.value_lt)).mp hclass)
  have horder : orderOf u = q.value := orderOf_eq_prime (Units.pow_ofPowEqOne _ _) hne
  exact ⟨u, rfl, horder, fun a b => by rw [zpow_eq_zpow_iff_modEq, horder]⟩

namespace PublicKey
variable {key : PublicKey} {g h f : ℕ}

theorem generator_eq_ok_iff {x : { x : Element // IsGenerator p q x }} :
    generator p q n = .ok x ↔ x.val.value = n := by
  unfold generator
  constructor
  · intro hok
    split at hok
    · dsimp only at hok
      split at hok
      · cases hok
      · split at hok
        · cases hok
          rfl
        · cases hok
    · cases hok
  · rintro rfl
    obtain ⟨⟨m, value, hlt⟩, hgenerator⟩ := x
    obtain rfl : m = p := hgenerator.modulus_eq
    have hone : 1 < value := hgenerator.one_lt
    rw [dif_pos ⟨Nat.zero_lt_of_lt hone, hlt⟩]
    dsimp only
    rw [dif_neg hone.ne', dif_pos hgenerator.power_eq]

theorem ofNats_eq_ok_iff {p : ℕ} : ofNats p g h f = .ok key ↔
    key.p.value = p ∧ key.g.value = g ∧ key.h.value = h ∧ key.f.value = f := by
  constructor
  · intro hok
    unfold ofNats at hok
    split at hok
    · split at hok
      · split at hok
        · obtain ⟨g', hg, hok⟩ := bind_eq_ok.mp hok
          obtain ⟨h', hh, hok⟩ := bind_eq_ok.mp hok
          obtain ⟨f', hf, hok⟩ := bind_eq_ok.mp hok
          cases hok
          exact ⟨rfl, generator_eq_ok_iff.mp hg, generator_eq_ok_iff.mp hh,
            generator_eq_ok_iff.mp hf⟩
        · cases hok
      · cases hok
    · cases hok
  · rintro ⟨rfl, rfl, rfl, rfl⟩
    obtain ⟨p, q, g, h, f, safe, half, hg, hh, hf⟩ := key
    have hodd : p.value % 2 = 1 ∧ 3 ≤ p.value := ⟨p.odd, p.three_le⟩
    have hhalf : (p.value - 1) / 2 % 2 = 1 ∧ 3 ≤ (p.value - 1) / 2 :=
      half ▸ ⟨q.odd, q.three_le⟩
    obtain rfl : q = Modulus.of _ hhalf := Modulus.ext half
    unfold ofNats
    rw [dif_pos safe, dif_pos hodd, dif_pos hhalf]
    refine bind_eq_ok.mpr ⟨⟨g, hg⟩, generator_eq_ok_iff.mpr rfl, ?_⟩
    refine bind_eq_ok.mpr ⟨⟨h, hh⟩, generator_eq_ok_iff.mpr rfl, ?_⟩
    exact bind_eq_ok.mpr ⟨⟨f, hf⟩, generator_eq_ok_iff.mpr rfl, rfl⟩

theorem exists_ofNats_iff {p : ℕ} : (∃ key, ofNats p g h f = .ok key) ↔
    Primality.isSafePrime p = true ∧ ((p - 1) / 2 % 2 = 1 ∧ 3 ≤ (p - 1) / 2) ∧
    ∀ x ∈ [g, h, f], 2 ≤ x ∧ x < p ∧ x ^ ((p - 1) / 2) ≡ 1 [MOD p] := by
  simp only [List.forall_mem_cons, List.not_mem_nil, false_implies, implies_true, and_true,
    ← natCast_pow_eq_one_iff]
  constructor
  · rintro ⟨key, hok⟩
    obtain ⟨rfl, hg, hh, hf⟩ := ofNats_eq_ok_iff.mp hok
    rw [← key.half]
    exact ⟨key.safe, ⟨key.q.odd, key.q.three_le⟩,
      exists_isGenerator_iff.mp ⟨⟨key.g, key.isGenerator_g⟩, hg⟩,
      exists_isGenerator_iff.mp ⟨⟨key.h, key.isGenerator_h⟩, hh⟩,
      exists_isGenerator_iff.mp ⟨⟨key.f, key.isGenerator_f⟩, hf⟩⟩
  · rintro ⟨hsafe, hq, hg, hh, hf⟩
    let p' := Modulus.of p ⟨Primality.isSafePrime_odd hsafe, by omega⟩
    let q' := Modulus.of ((p - 1) / 2) hq
    obtain ⟨g', hg⟩ := (exists_isGenerator_iff (p := p') (q := q')).mpr hg
    obtain ⟨h', hh⟩ := (exists_isGenerator_iff (p := p') (q := q')).mpr hh
    obtain ⟨f', hf⟩ := (exists_isGenerator_iff (p := p') (q := q')).mpr hf
    let key : PublicKey :=
      ⟨p', q', g', h', f', hsafe, rfl, g'.property, h'.property, f'.property⟩
    exact ⟨key, ofNats_eq_ok_iff.mpr ⟨rfl, hg, hh, hf⟩⟩

section SafePrime
variable {p : ℕ} (hp : p.Prime) (hq : ((p - 1) / 2).Prime)
include hp hq

theorem odd_of_prime_half : p % 2 = 1 := by
  have hle := hq.two_le
  exact hp.eq_two_or_odd.resolve_left (by omega)

theorem odd_half_iff : (p - 1) / 2 % 2 = 1 ∧ 3 ≤ (p - 1) / 2 ↔ p ≠ 5 := by
  have hodd := odd_of_prime_half hp hq
  have hle := hq.two_le
  have hparity := hq.eq_two_or_odd
  omega

theorem isSquare_iff_pow {x : ℕ} (hx : 2 ≤ x) (hlt : x < p) :
    IsSquare (x : ZMod p) ↔ x ^ ((p - 1) / 2) ≡ 1 [MOD p] := by
  have : Fact p.Prime := ⟨hp⟩
  have hodd := odd_of_prime_half hp hq
  have hhalf : (p - 1) / 2 = p / 2 := by omega
  rw [← natCast_pow_eq_one_iff, hhalf]
  exact ZMod.euler_criterion p (natCast_ne_zero_of_lt (by omega) hlt)

end SafePrime

/-- Which numbers are accepted as a key, and what an accepted key is: the classes of its generators
have the order for their order, so that the plaintexts modulo the order are told apart. -/
theorem ofNats_exact {p : ℕ}
    (hsafe : Primality.isSafePrime p = true ↔ p.Prime ∧ ((p - 1) / 2).Prime) (g h f : ℕ) :
    ((∃ key, ofNats p g h f = .ok key) ↔ (p.Prime ∧ ((p - 1) / 2).Prime) ∧ p ≠ 5 ∧
      ∀ x ∈ [g, h, f], (2 ≤ x ∧ x < p) ∧ IsSquare (x : ZMod p)) ∧
    (p.Prime → ((p - 1) / 2).Prime → ∀ x, 2 ≤ x → x < p →
      (IsSquare (x : ZMod p) ↔ x ^ ((p - 1) / 2) ≡ 1 [MOD p])) ∧
    ∀ key, ofNats p g h f = .ok key →
      (key.p.value = p ∧ key.q.value = (p - 1) / 2 ∧
        key.g.value = g ∧ key.h.value = h ∧ key.f.value = f) ∧
      (∀ x ∈ [g, h, f], ∃ u : (ZMod p)ˣ, (u : ZMod p) = x ∧ orderOf u = (p - 1) / 2 ∧
        ∀ a b : ℤ, u ^ a = u ^ b ↔ a ≡ b [ZMOD ((p - 1) / 2 : ℕ)]) ∧
      ∀ m m' : ℕ, key.encode m = key.encode m' ↔ m ≡ m' [MOD (p - 1) / 2] := by
  refine ⟨?_, fun hp hq x hx hlt => isSquare_iff_pow hp hq hx hlt, ?_⟩
  · rw [exists_ofNats_iff, hsafe]
    refine and_congr_right fun ⟨hp, hq⟩ => ?_
    rw [odd_half_iff hp hq]
    refine and_congr_right fun _ => forall₂_congr fun x _ => ?_
    rw [and_assoc]
    exact and_congr_right fun hx => and_congr_right fun hlt => (isSquare_iff_pow hp hq hx hlt).symm
  · intro key hok
    obtain ⟨rfl, rfl, rfl, rfl⟩ := ofNats_eq_ok_iff.mp hok
    have hq : key.q.value.Prime := key.half ▸ (hsafe.mp key.safe).2
    rw [← key.half]
    refine ⟨⟨rfl, rfl, rfl, rfl, rfl⟩, ?_, fun m m' => ?_⟩
    · simp only [List.forall_mem_cons, List.not_mem_nil, false_implies, implies_true, and_true]
      exact ⟨key.isGenerator_g.exists_unit hq, key.isGenerator_h.exists_unit hq,
        key.isGenerator_f.exists_unit hq⟩
    · rw [encode_eq, encode_eq, Point.element_inj, smul_fPoint_inj hq,
        ZMod.natCast_eq_natCast_iff]

theorem ofNats_exact_small : ∃ key, ofNats 23 4 12 6 = .ok key ∧ key.encode 3 = key.encode 14 ∧
    key.encode 3 ≠ key.encode 4 := by
  have hsafe : Primality.isSafePrime 23 = true ↔ Nat.Prime 23 ∧ Nat.Prime ((23 - 1) / 2) := by
    decide
  obtain ⟨haccept, -, hkey⟩ := ofNats_exact hsafe 4 12 6
  have hsquares : ∀ x ∈ ([4, 12, 6] : List ℕ), (2 ≤ x ∧ x < 23) ∧ IsSquare (x : ZMod 23) := by
    decide
  obtain ⟨key, hok⟩ := haccept.mpr ⟨hsafe.mp (by decide), by decide, hsquares⟩
  obtain ⟨-, -, hencode⟩ := hkey key hok
  exact ⟨key, hok, (hencode 3 14).mpr (by decide), mt (hencode 3 4).mp (by decide)⟩

example : Primality.isSafePrime 5 = true ∧ ofNats 5 4 4 4 = .error .evenOrder := by decide

end PublicKey
end SecretTally

end
