import Mathlib
import SecretTally.Proofs.Residue.Power
import SecretTally.Residue.Bounded

/-! Exponents as they are kept, whatever they were computed from. Each operation leaves its result
below the modulus and with the bit length of the modulus, so that no power cuts a bit off; and kept
exponents are calculated with as exponents are. -/

namespace SecretTally

theorem powerLow_eq_mod (m bits base e : ℕ) :
    powerLow m bits base e = base ^ (e % 2 ^ bits) % m := by
  rw [← powerLow_eq m (Nat.mod_lt e (Nat.two_pow_pos bits))]
  induction bits generalizing base e with
  | zero => rfl
  | succ bits ih =>
    have hparity : e % 2 ^ (bits + 1) % 2 = e % 2 := Nat.mod_mod_of_dvd e (Dvd.intro_left _ rfl)
    have hhalf : e % 2 ^ (bits + 1) / 2 = e / 2 % 2 ^ bits := by
      rw [pow_succ', Nat.mod_mul_right_div_self]
    rw [powerLow, powerLow, hparity, hhalf, ih]

theorem Modulus.bits_eq_size (m : Modulus) : m.bits = Nat.size m.value := by
  refine le_antisymm ?_ (Nat.size_le.mpr m.value_lt_two_pow_bits)
  exact Nat.lt_size.mpr (Nat.log2_self_le m.pos.ne')

namespace BoundedExponent
variable {a b e : BoundedExponent} {x y : Exponent} {m : ℕ}

theorem addMod_eq {a b : ℕ} (ha : a < m) (hb : b < m) : addMod a b m = (a + b) % m := by
  unfold addMod
  split
  · next hlt => exact (Nat.mod_eq_of_lt hlt).symm
  · next hreached =>
    rw [Nat.mod_eq_sub_mod (Nat.not_lt.mp hreached), Nat.mod_eq_of_lt (by omega)]

theorem subMod_eq {a b : ℕ} (ha : a < m) (hb : b < m) : subMod a b m = (a + (m - b)) % m := by
  unfold subMod
  split
  · next hle =>
    have hsum : a + (m - b) = a - b + m := by omega
    rw [hsum, Nat.add_mod_right, Nat.mod_eq_of_lt (by omega)]
  · next hgreater =>
    rw [Nat.mod_eq_of_lt (by omega)]
    omega

structure Sound (e : BoundedExponent) : Prop where
  value_lt : e.value < e.modulus.value
  bound_eq : e.bound = e.modulus.bits

/-- What numbers, words, draws and bytes give, and what is computed from it. -/
inductive Obtainable : BoundedExponent → Prop
  | ofNat (n : ℕ) (q : Modulus) : Obtainable (ofNat n q)
  | zero (q : Modulus) : Obtainable (zero q)
  | ofWord (w : UInt64) (q : Modulus) : Obtainable (ofWord w q)
  | random {σ ε : Type} [Source σ] (q : Modulus) (s s' : σ) (e : BoundedExponent)
    (h : (random q : Randomized σ ε BoundedExponent) s = (.ok e, s')) : Obtainable e
  | ofBytes (bytes : List UInt8) (q : Modulus) : Obtainable (ofBytes bytes q)
  | add (a b : BoundedExponent) (ha : Obtainable a) (hb : Obtainable b)
    (h : a.modulus = b.modulus) : Obtainable (a + b)
  | sub (a b : BoundedExponent) (ha : Obtainable a) (hb : Obtainable b)
    (h : a.modulus = b.modulus) : Obtainable (a - b)
  | mul (a b : BoundedExponent) (ha : Obtainable a) (hb : Obtainable b)
    (h : a.modulus = b.modulus) : Obtainable (a * b)
  | neg (a : BoundedExponent) (ha : Obtainable a) : Obtainable (-a)
  | select (choice : Bool) (a b : BoundedExponent) (ha : Obtainable a) (hb : Obtainable b) :
    Obtainable (select choice a b)

theorem sound_ofNat (n : ℕ) (q : Modulus) : (ofNat n q).Sound := ⟨q.mod_lt n, rfl⟩

theorem Sound.add (ha : a.Sound) (hb : b.Sound) (h : a.modulus = b.modulus) : (a + b).Sound := by
  refine ⟨?_, ha.bound_eq⟩
  change addMod a.value b.value a.modulus.value < a.modulus.value
  rw [addMod_eq ha.value_lt (h ▸ hb.value_lt)]
  exact a.modulus.mod_lt _

theorem Sound.sub (ha : a.Sound) (hb : b.Sound) (h : a.modulus = b.modulus) : (a - b).Sound := by
  refine ⟨?_, ha.bound_eq⟩
  change subMod a.value b.value a.modulus.value < a.modulus.value
  rw [subMod_eq ha.value_lt (h ▸ hb.value_lt)]
  exact a.modulus.mod_lt _

theorem Sound.mul (ha : a.Sound) (b : BoundedExponent) : (a * b).Sound :=
  ⟨a.modulus.mod_lt _, ha.bound_eq⟩

theorem Sound.neg (ha : a.Sound) : (-a).Sound := by
  refine ⟨?_, ha.bound_eq⟩
  change subMod 0 a.value a.modulus.value < a.modulus.value
  rw [subMod_eq a.modulus.pos ha.value_lt]
  exact a.modulus.mod_lt _

theorem Sound.select (ha : a.Sound) (choice : Bool) (b : BoundedExponent) :
    (BoundedExponent.select choice a b).Sound := ⟨a.modulus.mod_lt _, ha.bound_eq⟩

theorem Obtainable.sound (h : e.Obtainable) : e.Sound := by
  induction h with
  | ofNat n q => exact sound_ofNat n q
  | zero q => exact sound_ofNat 0 q
  | ofWord w q => exact sound_ofNat w.toNat q
  | random q s s' e h =>
    cases h
    exact sound_ofNat _ q
  | ofBytes bytes q => exact sound_ofNat _ q
  | add a b _ _ h ha hb => exact ha.add hb h
  | sub a b _ _ h ha hb => exact ha.sub hb h
  | mul a b _ _ _ ha _ => exact ha.mul b
  | neg a _ ha => exact ha.neg
  | select choice a b _ _ ha _ => exact ha.select choice b

theorem Sound.value_lt_two_pow_bound (h : e.Sound) : e.value < 2 ^ e.bound := by
  rw [h.bound_eq]
  exact h.value_lt.trans e.modulus.value_lt_two_pow_bits

theorem value_powBounded (x : Element) (e : BoundedExponent) :
    (x ^ e).value = x.value ^ (e.value % 2 ^ e.bound) % x.modulus.value :=
  powerLow_eq_mod x.modulus.value e.bound x.value e.value

theorem Sound.value_pow (h : e.Sound) (x : Element) :
    (x ^ e).value = x.value ^ e.value % x.modulus.value := by
  rw [value_powBounded, Nat.mod_eq_of_lt h.value_lt_two_pow_bound]

theorem Sound.exists_exponent (h : e.Sound) : ∃ x : Exponent, x.bounded = e := by
  obtain ⟨value, modulus, bound⟩ := e
  obtain rfl : bound = modulus.bits := h.bound_eq
  exact ⟨⟨modulus, value, h.value_lt⟩, rfl⟩

theorem obtainable_bounded (x : Exponent) : x.bounded.Obtainable := by
  rw [← x.ofNat_value]
  exact .ofNat x.value x.modulus

theorem bounded_add (h : x.modulus = y.modulus) : (x + y).bounded = x.bounded + y.bounded := by
  have hvalue := addMod_eq x.value_lt (h ▸ y.value_lt)
  change _ = BoundedExponent.mk (addMod x.value y.value x.modulus.value) x.modulus x.bound
  rw [hvalue]
  rfl

theorem bounded_sub (h : x.modulus = y.modulus) : (x - y).bounded = x.bounded - y.bounded := by
  have hy : y.value < x.modulus.value := h ▸ y.value_lt
  have hvalue : (x - y).value = (x.value + (x.modulus.value - y.value % x.modulus.value)) %
    x.modulus.value := rfl
  rw [Nat.mod_eq_of_lt hy, ← subMod_eq x.value_lt hy] at hvalue
  change BoundedExponent.mk (x - y).value x.modulus x.bound = _
  rw [hvalue]
  rfl

theorem bounded_neg (x : Exponent) : (-x).bounded = -x.bounded := by
  have hvalue := subMod_eq x.modulus.pos x.value_lt
  rw [Nat.zero_add] at hvalue
  change _ = BoundedExponent.mk (subMod 0 x.value x.modulus.value) x.modulus x.bound
  rw [hvalue]
  rfl

theorem bounded_mul (x y : Exponent) : (x * y).bounded = x.bounded * y.bounded := rfl

theorem bounded_select (choice : Bool) (x y : Exponent) :
    (Exponent.select choice x y).bounded = select choice x.bounded y.bounded := rfl

theorem pow_bounded (a : Element) (x : Exponent) : a ^ x.bounded = a ^ x := rfl

/-- Every computation ends in a value below its modulus with the bit length of the modulus, and a
power to it has the full value for its exponent. What is kept are exactly the exponents, and the
operations on what is kept are those on exponents. -/
theorem pow_exact :
    (∀ e : BoundedExponent, e.Obtainable →
      e.value < e.modulus.value ∧ e.bound = Nat.size e.modulus.value) ∧
    (∀ (a : Element) (e : BoundedExponent), (a ^ e).modulus = a.modulus ∧
      (a ^ e).value = a.value ^ (e.value % 2 ^ e.bound) % a.modulus.value) ∧
    (∀ (a : Element) (e : BoundedExponent), e.Obtainable →
      (a ^ e).value = a.value ^ e.value % a.modulus.value) ∧
    (∀ e : BoundedExponent, e.Obtainable ↔ ∃ x : Exponent, x.bounded = e) ∧
    (∀ x y : Exponent, x.modulus = y.modulus → (x + y).bounded = x.bounded + y.bounded ∧
      (x - y).bounded = x.bounded - y.bounded ∧ (x * y).bounded = x.bounded * y.bounded) ∧
    (∀ x : Exponent, (-x).bounded = -x.bounded) ∧
    (∀ (choice : Bool) (x y : Exponent),
      (Exponent.select choice x y).bounded = select choice x.bounded y.bounded ∧
      (select choice x.bounded y.bounded).modulus = x.modulus) ∧
    ∀ (a : Element) (x : Exponent), a ^ x.bounded = a ^ x := by
  refine ⟨fun e h => ⟨h.sound.value_lt, ?_⟩, fun a e => ⟨rfl, value_powBounded a e⟩,
    fun a e h => h.sound.value_pow a, fun e => ⟨fun h => h.sound.exists_exponent, ?_⟩,
    fun x y h => ⟨bounded_add h, bounded_sub h, bounded_mul x y⟩, bounded_neg,
    fun choice x y => ⟨bounded_select choice x y, rfl⟩, pow_bounded⟩
  · rw [h.sound.bound_eq, Modulus.bits_eq_size]
  · rintro ⟨x, rfl⟩
    exact obtainable_bounded x

theorem pow_exact_eleven :
    let q : Modulus := ⟨11, rfl, by decide⟩
    let other : Modulus := ⟨1019, rfl, by decide⟩
    let a : Element := ⟨⟨23, rfl, by decide⟩, 5, by decide⟩
    let e := -select true (ofNat 3 q) (ofBytes [1, 0, 0] other) * ofWord 7 q
    e.Obtainable ∧ (e.value < e.modulus.value ∧ e.bound = Nat.size e.modulus.value) ∧
      (a ^ e).value = 5 ^ e.value % 23 ∧ e.modulus = q := by
  intro q other a e
  obtain ⟨hsound, -, hpow, -⟩ := pow_exact
  have hselect : (select true (ofNat 3 q) (ofBytes [1, 0, 0] other)).Obtainable :=
    .select true _ _ (.ofNat 3 q) (.ofBytes [1, 0, 0] other)
  have he : e.Obtainable := .mul _ _ (.neg _ hselect) (.ofWord 7 q) rfl
  exact ⟨he, hsound e he, hpow a e he, rfl⟩

end BoundedExponent
end SecretTally
