import Mathlib
import SecretTally.PublicKey
import SecretTally.Proofs.Residue.Ring

/-! The subgroup of order `q`, written additively and with the exponents as scalars. Every element
of the subgroup comes from one point, products are sums and powers are multiples, so that an
equation between elements is one between linear combinations. -/

noncomputable section
namespace SecretTally

theorem Element.toZMod_pow_order {p : Modulus} {x : Element} (hx : x.modulus = p) (q : Modulus) :
    (x ^ Exponent.ofNat (q.value - 1) q * x).toZMod p = x.toZMod p ^ q.value := by
  have hvalue : (Exponent.ofNat (q.value - 1) q).value = q.value - 1 :=
    Nat.mod_eq_of_lt (Nat.sub_lt q.pos Nat.one_pos)
  rw [Element.toZMod_mul (by simpa using hx), Element.toZMod_pow hx, hvalue,
    pow_sub_one_mul q.pos.ne']

theorem IsGenerator.pow_order {p q : Modulus} {x : Element} (h : IsGenerator p q x) :
    x.toZMod p ^ q.value = 1 := by
  rw [← Element.toZMod_pow_order h.modulus_eq, Element.toZMod, h.power_eq, Nat.cast_one]

def Point (key : PublicKey) : Type :=
  Additive (rootsOfUnity key.q.value (ZMod key.p.value))

namespace Point
variable {key : PublicKey}

instance : AddCommGroup (Point key) := inferInstanceAs (AddCommGroup (Additive _))

def unit (u : Point key) : (ZMod key.p.value)ˣ :=
  (Additive.toMul (show Additive (rootsOfUnity key.q.value (ZMod key.p.value)) from u)).val

theorem unit_injective : Function.Injective (@unit key) := fun _ _ h => Subtype.ext h

theorem unit_pow_order (u : Point key) : u.unit ^ key.q.value = 1 :=
  (Additive.toMul (show Additive (rootsOfUnity key.q.value (ZMod key.p.value)) from u)).property

theorem unit_zero : (0 : Point key).unit = 1 := rfl

theorem unit_add (u v : Point key) : (u + v).unit = u.unit * v.unit := rfl

theorem unit_neg (u : Point key) : (-u).unit = u.unit⁻¹ := rfl

theorem unit_nsmul (n : ℕ) (u : Point key) : (n • u).unit = u.unit ^ n := rfl

theorem order_nsmul (u : Point key) : key.q.value • u = 0 :=
  unit_injective (unit_pow_order u)

instance : Module (ZMod key.q.value) (Point key) := AddCommGroup.zmodModule order_nsmul

def element (u : Point key) : Element := ⟨key.p, (u.unit : ZMod key.p.value).val, ZMod.val_lt _⟩

@[simp] theorem modulus_element (u : Point key) : u.element.modulus = key.p := rfl

@[simp] theorem toZMod_element (u : Point key) : u.element.toZMod key.p = u.unit := by
  simp [Element.toZMod, element]

@[simp] theorem element_inj {u v : Point key} : u.element = v.element ↔ u = v := by
  rw [← Element.toZMod_inj (modulus_element u) (modulus_element v), toZMod_element,
    toZMod_element, Units.val_inj, unit_injective.eq_iff]

theorem value_element_eq_one_iff {u : Point key} : u.element.value = 1 ↔ u = 0 := by
  rw [← natCast_eq_one_iff_of_lt u.element.value_lt, ← unit_injective.eq_iff, unit_zero,
    ← Units.val_inj, Units.val_one, ← toZMod_element]
  rfl

theorem value_element_inj {u v : Point key} : u.element.value = v.element.value ↔ u = v :=
  ⟨fun h => element_inj.mp (Element.ext rfl h), fun h => h ▸ rfl⟩

@[simp] theorem element_mul (u v : Point key) : u.element * v.element = (u + v).element := by
  rw [← Element.toZMod_inj (p := key.p) rfl rfl, Element.toZMod_mul (modulus_element u)]
  simp [unit_add]

@[simp] theorem element_div (u v : Point key) : u.element / v.element = (u - v).element := by
  rw [← Element.toZMod_inj (p := key.p) rfl rfl,
    Element.toZMod_div (modulus_element u) (by simp)]
  simp [sub_eq_add_neg, unit_add, unit_neg, ZMod.inv_coe_unit]

@[simp] theorem element_pow (u : Point key) (e : Exponent) :
    u.element ^ e = (e.toZMod key.q • u).element := by
  rw [← Element.toZMod_inj (p := key.p) rfl rfl, Element.toZMod_pow (modulus_element u),
    Exponent.toZMod, Nat.cast_smul_eq_nsmul]
  simp [unit_nsmul]

theorem element_value_pos (u : Point key) : 0 < u.element.value := by
  have : Fact (1 < key.p.value) := ⟨by have := key.p.three_le; omega⟩
  exact Nat.pos_of_ne_zero fun h => u.unit.ne_zero ((ZMod.val_eq_zero _).mp h)

theorem element_pow_order (u : Point key) : u.element.toZMod key.p ^ key.q.value = 1 := by
  rw [toZMod_element, ← Units.val_pow_eq_pow_val, unit_pow_order, Units.val_one]

def ofElement (x : Element) (h : x.toZMod key.p ^ key.q.value = 1) : Point key :=
  Additive.ofMul (rootsOfUnity.mkOfPowEq (x.toZMod key.p) h)

theorem element_ofElement {x : Element} (hm : x.modulus = key.p)
    (h : x.toZMod key.p ^ key.q.value = 1) : (ofElement x h).element = x := by
  rw [← Element.toZMod_inj (modulus_element _) hm, toZMod_element]
  rfl

theorem ofElement_ne_zero {x : Element} (h : IsGenerator key.p key.q x) :
    ofElement x h.pow_order ≠ 0 := by
  rw [Ne, ← value_element_eq_one_iff, element_ofElement h.modulus_eq]
  exact h.one_lt.ne'

section PrimeOrder
variable (hq : key.q.value.Prime) {u : Point key} (hu : u ≠ 0)
include hq hu

theorem smul_inj {a b : ZMod key.q.value} : a • u = b • u ↔ a = b := by
  have : Fact key.q.value.Prime := ⟨hq⟩
  rw [← sub_eq_zero, ← sub_smul, smul_eq_zero, sub_eq_zero]
  exact or_iff_left hu

theorem exists_smul_eq (hp : key.p.value.Prime) (v : Point key) :
    ∃ c : ZMod key.q.value, c • u = v := by
  have : Fact key.p.value.Prime := ⟨hp⟩
  have hinjective : Function.Injective fun c : ZMod key.q.value => c • u :=
    fun _ _ h => (smul_inj hq hu).mp h
  have : Finite (Point key) := inferInstanceAs (Finite (Additive (rootsOfUnity _ _)))
  have hcard : Nat.card (Point key) ≤ Nat.card (ZMod key.q.value) := by
    rw [Nat.card_zmod]
    exact card_rootsOfUnity (ZMod key.p.value) key.q.value
  exact (hinjective.bijective_of_nat_card_le hcard).surjective v

end PrimeOrder

end Point

namespace PublicKey
variable (key : PublicKey)

def gPoint : Point key := .ofElement key.g key.isGenerator_g.pow_order

def hPoint : Point key := .ofElement key.h key.isGenerator_h.pow_order

def fPoint : Point key := .ofElement key.f key.isGenerator_f.pow_order

theorem g_eq : key.g = key.gPoint.element :=
  (Point.element_ofElement key.isGenerator_g.modulus_eq _).symm

theorem h_eq : key.h = key.hPoint.element :=
  (Point.element_ofElement key.isGenerator_h.modulus_eq _).symm

theorem f_eq : key.f = key.fPoint.element :=
  (Point.element_ofElement key.isGenerator_f.modulus_eq _).symm

theorem encode_eq (m : ℕ) : key.encode m = ((m : ZMod key.q.value) • key.fPoint).element := by
  rw [encode, f_eq, Point.element_pow, Exponent.toZMod_ofNat]

theorem toZMod_encode (m : ℕ) : (key.encode m).toZMod key.p = key.f.toZMod key.p ^ m := by
  rw [encode, Element.toZMod_pow key.isGenerator_f.modulus_eq, Exponent.value_ofNat,
    ← pow_eq_pow_mod m key.isGenerator_f.pow_order]

theorem smul_fPoint_inj {key : PublicKey} (hq : key.q.value.Prime) {a b : ZMod key.q.value} :
    a • key.fPoint = b • key.fPoint ↔ a = b :=
  Point.smul_inj hq (Point.ofElement_ne_zero key.isGenerator_f)

/-- A key with eleven plaintexts, small enough to compute with by hand. -/
def small : PublicKey where
  p := ⟨23, rfl, by decide⟩
  q := ⟨11, rfl, by decide⟩
  g := ⟨⟨23, rfl, by decide⟩, 4, by decide⟩
  h := ⟨⟨23, rfl, by decide⟩, 12, by decide⟩
  f := ⟨⟨23, rfl, by decide⟩, 6, by decide⟩
  safe := by decide
  half := rfl
  isGenerator_g := ⟨rfl, by decide, by decide⟩
  isGenerator_h := ⟨rfl, by decide, by decide⟩
  isGenerator_f := ⟨rfl, by decide, by decide⟩

end PublicKey
end SecretTally

end
