import Mathlib
import SecretTally.Number.Decimal

/-! Numbers with zeros in front. A run of digits prints as itself once its superfluous zeros are left
out, so that a number has one text without them. -/

namespace SecretTally.Decimal

structure IsNumeral (digits : List Char) : Prop where
  ne_nil : digits ≠ []
  isDigit : ∀ c ∈ digits, c.isDigit = true

theorem isNumeral_iff {digits : List Char} :
    IsNumeral digits ↔ digits ≠ [] ∧ digits.all Char.isDigit = true :=
  ⟨fun h => ⟨h.ne_nil, List.all_eq_true.mpr h.isDigit⟩, fun h => ⟨h.1, List.all_eq_true.mp h.2⟩⟩

instance (digits : List Char) : Decidable (IsNumeral digits) := decidable_of_iff' _ isNumeral_iff

theorem isNumeral_print (n : ℕ) : IsNumeral (print n) :=
  ⟨print_ne_nil n, fun _ => isDigit_of_mem_print⟩

def trim : List Char → List Char
  | '0' :: c :: rest => trim (c :: rest)
  | digits => digits

variable {digits text : List Char} {c : Char} {v : ℕ}

theorem trim_sublist (digits : List Char) : (trim digits).Sublist digits := by
  induction digits using trim.induct with
  | case1 c rest ih =>
    rw [trim]
    exact ih.cons '0'
  | case2 digits h => rw [trim.eq_2 digits h]

theorem trim_eq_self_iff :
    trim digits = digits ↔ ¬ ∃ c rest, digits = '0' :: c :: rest := by
  constructor
  · rintro h ⟨c, rest, rfl⟩
    rw [trim] at h
    have hlength := (trim_sublist (c :: rest)).length_le
    rw [h] at hlength
    exact absurd hlength (by simp)
  · intro h
    exact trim.eq_2 digits fun c rest heq => h ⟨c, rest, heq⟩

theorem digitChar_of_isDigit (hc : c.isDigit = true) :
    c.toNat - '0'.toNat < 10 ∧ (c.toNat - '0'.toNat).digitChar = c := by
  obtain ⟨hlow, hhigh⟩ : 48 ≤ c.toNat ∧ c.toNat ≤ 57 := Char.isDigit_iff_toNat.mp hc
  have hlt : c.toNat - '0'.toNat < 10 := by
    change c.toNat - 48 < 10
    omega
  refine ⟨hlt, Char.toNat_inj.mp ?_⟩
  rw [Nat.toNat_digitChar_of_lt_ten hlt]
  exact Nat.add_sub_cancel' hlow

theorem print_ofDigitChars (hv : 0 < v) (hdigit : ∀ c ∈ digits, c.isDigit = true) :
    print (Nat.ofDigitChars 10 digits v) = print v ++ digits := by
  induction digits generalizing v with
  | nil => rw [Nat.ofDigitChars_nil, List.append_nil]
  | cons c digits ih =>
    rw [List.forall_mem_cons] at hdigit
    obtain ⟨hlt, hchar⟩ := digitChar_of_isDigit hdigit.1
    have hnext : print (10 * v + (c.toNat - '0'.toNat)) = print v ++ [c] := by
      rw [print, ← Nat.toDigits_append_toDigits (by decide) hv hlt, Nat.toDigits_of_lt_base hlt,
        hchar, print]
    rw [Nat.ofDigitChars_cons, ih (by omega) hdigit.2, hnext, List.append_assoc, List.singleton_append]

theorem print_mul_pow_add {a b k : ℕ} (ha : 0 < a) (hk : 0 < k) (hb : b < 10 ^ k) :
    print (10 ^ k * a + b) = print a ++ List.leftpad k '0' (print b) := by
  have hlength : (print b).length ≤ k := (Nat.length_toDigits_le_iff (by decide) hk).mpr hb
  have hvalue : Nat.ofDigitChars 10 (List.leftpad k '0' (print b)) a = 10 ^ k * a + b := by
    rw [Nat.ofDigitChars_eq_ofDigitChars_zero, List.length_leftpad, max_eq_left hlength,
      List.leftpad, Nat.ofDigitChars_append, Nat.ofDigitChars_replicate_zero, mul_zero]
    exact congrArg (10 ^ k * a + ·) (value_print b)
  rw [← hvalue]
  refine print_ofDigitChars ha fun c hc => ?_
  rcases List.mem_append.mp hc with hzero | hc
  · rw [List.eq_of_mem_replicate hzero]
    rfl
  · exact isDigit_of_mem_print hc

theorem value_zero_cons (digits : List Char) : value ('0' :: digits) = value digits := by
  rw [value, Nat.ofDigitChars_cons]
  rfl

theorem print_value (h : IsNumeral digits) : print (value digits) = trim digits := by
  obtain ⟨hne, hdigit⟩ := h
  induction digits using trim.induct with
  | case1 c rest ih =>
    rw [value_zero_cons, trim]
    exact ih (by simp) fun d hd => hdigit d (List.mem_cons_of_mem _ hd)
  | case2 digits h =>
    rw [trim.eq_2 digits h]
    cases digits with
    | nil => exact absurd rfl hne
    | cons c rest =>
      rw [List.forall_mem_cons] at hdigit
      obtain ⟨hlt, hchar⟩ := digitChar_of_isDigit hdigit.1
      have hsingle : print (c.toNat - '0'.toNat) = [c] := by
        rw [print, Nat.toDigits_of_lt_base hlt, hchar]
      rw [value, Nat.ofDigitChars_cons, Nat.mul_zero, Nat.zero_add]
      cases rest with
      | nil => rw [Nat.ofDigitChars_nil, hsingle]
      | cons d rest =>
        have hpos : 0 < c.toNat - '0'.toNat := by
          refine Nat.pos_of_ne_zero fun hzero => h d rest ?_
          rw [← hchar, hzero]
          rfl
        rw [print_ofDigitChars hpos hdigit.2, hsingle, List.singleton_append]

theorem print_ne_zero_cons {n : ℕ} (hn : 0 < n) (rest : List Char) : print n ≠ '0' :: rest := by
  intro h
  cases rest with
  | nil =>
    have hvalue := value_print n
    rw [h] at hvalue
    exact hn.ne hvalue
  | cons c rest =>
    have htrim : trim (print n) = print n := by
      rw [← print_value (isNumeral_print n), value_print]
    exact trim_eq_self_iff.mp htrim ⟨c, rest, h⟩

theorem parse?_eq_some_iff :
    parse? text = some v ↔ IsNumeral text ∧ value text = v ∧ v < limit := by
  have hnumeral : IsNumeral text ↔ _ := isNumeral_iff
  unfold parse?
  split
  · next h =>
    obtain ⟨hne, hall, hlt⟩ := h
    rw [Option.some.injEq]
    constructor
    · rintro rfl
      exact ⟨hnumeral.mpr ⟨hne, hall⟩, rfl, hlt⟩
    · exact fun h => h.2.1
  · next h =>
    refine ⟨fun hnone => (nomatch hnone), ?_⟩
    rintro ⟨hdigits, rfl, hlt⟩
    obtain ⟨hne, hall⟩ := hnumeral.mp hdigits
    exact absurd ⟨hne, hall, hlt⟩ h

end SecretTally.Decimal
