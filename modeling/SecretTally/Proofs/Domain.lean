import Mathlib
import SecretTally.Domain

/-! Members of a domain: they lie between its ends, occur once, and are found at their positions. A
sum of two domains is refused if it is too great or too wide, and has all sums of their members; and
where a domain spans less than the order, no two of its members are congruent. -/

namespace SecretTally.Domain
variable {domain a b : Domain} {value q : ℕ}

theorem contains_iff : domain.contains value = true ↔ value ∈ domain.values := by
  simp [contains, position?]

theorem position?_lt {i : ℕ} (h : domain.position? value = some i) : i < domain.size := by
  obtain ⟨hi, _⟩ := List.idxOf?_eq_some_iff.mp h
  exact hi

theorem nodup (domain : Domain) : domain.values.Nodup := domain.increasing.imp Nat.ne_of_lt

theorem position?_eq_some_iff {i : ℕ} :
    domain.position? value = some i ↔ domain.values[i]? = some value := by
  rw [position?, List.idxOf?_eq_some_iff]
  constructor
  · rintro ⟨hi, hvalue, -⟩
    rw [List.getElem?_eq_getElem hi, hvalue]
  · intro h
    obtain ⟨hi, rfl⟩ := List.getElem?_eq_some_iff.mp h
    exact ⟨hi, rfl, fun j hj hsame => hj.ne (domain.nodup.getElem_inj_iff.mp hsame)⟩

theorem count_eq_one (h : value ∈ domain.values) : domain.values.count value = 1 :=
  List.count_eq_one_of_mem domain.nodup h

theorem min_le (h : value ∈ domain.values) : domain.min ≤ value :=
  (domain.increasing.imp Nat.le_of_lt).rel_head h

theorem le_max (h : value ∈ domain.values) : value ≤ domain.max :=
  (domain.increasing.imp Nat.le_of_lt).rel_getLast h

def uncovered (merged domain : Domain) : ℕ := merged.values.countP fun d => d ∉ domain.values

theorem eq_of_values_eq (h : a.values = b.values) : a = b := by
  cases a
  cases b
  cases h
  rfl

theorem min_le_max (domain : Domain) : domain.min ≤ domain.max :=
  min_le (List.getLast_mem domain.nonempty)

theorem ofList_eq_ok_iff {values : List ℕ} :
    ofList values = .ok domain ↔ domain.values = values := by
  unfold ofList
  constructor
  · intro h
    split at h
    · cases h
    · split at h
      · cases h
        rfl
      · cases h
  · rintro rfl
    rw [dif_neg domain.nonempty, dif_pos (isIncreasing_iff.mpr domain.increasing)]

theorem range_eq_ok_iff {least greatest : ℕ} : range least greatest = .ok domain ↔
    least ≤ greatest ∧ greatest - least < maxWidth ∧
      domain.values = List.range' least (greatest - least + 1) := by
  unfold range
  split
  · next hreversed => simp [Nat.not_le.mpr hreversed]
  · next hle =>
    split
    · next hwide => simp [Nat.not_lt.mpr hwide]
    · next hnarrow =>
      rw [Except.ok.injEq]
      constructor
      · rintro rfl
        exact ⟨Nat.not_lt.mp hle, Nat.not_le.mp hnarrow, rfl⟩
      · exact fun h => eq_of_values_eq h.2.2.symm

theorem sum_eq_ok_iff : a.sum b = .ok domain ↔ a.max + b.max < Decimal.wordLimit ∧
    a.max + b.max - (a.min + b.min) < maxWidth ∧
    domain.values = List.range' (a.min + b.min) (a.max + b.max - (a.min + b.min) + 1) := by
  have ha := a.min_le_max
  have hb := b.min_le_max
  unfold sum
  split
  · next hfits =>
    rw [range_eq_ok_iff, and_iff_right (Nat.add_le_add ha hb), and_iff_right hfits.2]
  · next hoverflow =>
    have hgreatest : ¬ a.max + b.max < Decimal.wordLimit := fun h => hoverflow ⟨by omega, h⟩
    simp [hgreatest]

theorem exists_sum_iff : (∃ d, a.sum b = .ok d) ↔ a.max + b.max < Decimal.wordLimit ∧
    a.max + b.max - (a.min + b.min) < maxWidth := by
  constructor
  · rintro ⟨d, hd⟩
    obtain ⟨hfits, hnarrow, -⟩ := sum_eq_ok_iff.mp hd
    exact ⟨hfits, hnarrow⟩
  · rintro ⟨hfits, hnarrow⟩
    exact ⟨⟨List.range' (a.min + b.min) (a.max + b.max - (a.min + b.min) + 1), by simp,
      List.pairwise_lt_range'⟩, sum_eq_ok_iff.mpr ⟨hfits, hnarrow, rfl⟩⟩

theorem mem_sum (h : a.sum b = .ok domain) :
    value ∈ domain.values ↔ a.min + b.min ≤ value ∧ value ≤ a.max + b.max := by
  have ha := a.min_le_max
  have hb := b.min_le_max
  rw [(sum_eq_ok_iff.mp h).2.2, List.mem_range'_1]
  omega

theorem add_mem_sum {x y : ℕ} (h : a.sum b = .ok domain) (hx : x ∈ a.values) (hy : y ∈ b.values) :
    x + y ∈ domain.values :=
  (mem_sum h).mpr ⟨Nat.add_le_add (min_le hx) (min_le hy), Nat.add_le_add (le_max hx) (le_max hy)⟩

def UpTo (domain : Domain) (n : ℕ) : Prop := domain.values = List.range (n + 1)

theorem UpTo.mem_iff {n : ℕ} (h : domain.UpTo n) : value ∈ domain.values ↔ value ≤ n := by
  rw [h, List.mem_range, Nat.lt_succ_iff]

theorem UpTo.min_eq {n : ℕ} (h : domain.UpTo n) : domain.min = 0 :=
  Nat.le_zero.mp (min_le (h.mem_iff.mpr (Nat.zero_le n)))

theorem UpTo.max_eq {n : ℕ} (h : domain.UpTo n) : domain.max = n :=
  Nat.le_antisymm (h.mem_iff.mp (List.getLast_mem domain.nonempty)) (le_max (h.mem_iff.mpr le_rfl))

theorem UpTo.sum {m n : ℕ} (ha : a.UpTo m) (hb : b.UpTo n) (hwidth : m + n < maxWidth) :
    ∃ merged, a.sum b = .ok merged ∧ merged.UpTo (m + n) := by
  have hlimit : m + n < Decimal.wordLimit := hwidth.trans (by decide)
  obtain ⟨merged, hsum⟩ : ∃ merged, a.sum b = .ok merged := by
    rw [exists_sum_iff, ha.min_eq, ha.max_eq, hb.min_eq, hb.max_eq]
    exact ⟨hlimit, hwidth⟩
  have hvalues := (sum_eq_ok_iff.mp hsum).2.2
  rw [ha.min_eq, ha.max_eq, hb.min_eq, hb.max_eq] at hvalues
  exact ⟨merged, hsum, hvalues.trans List.range_eq_range'.symm⟩

theorem eq_of_modEq (hwidth : domain.max - domain.min < q) {x y : ℕ} (hx : x ∈ domain.values)
    (hy : y ∈ domain.values) (h : x ≡ y [MOD q]) : x = y := by
  have hclose : ∀ {x y : ℕ}, x ∈ domain.values → y ∈ domain.values → x - y < q := by
    intro x y hx hy
    have hxmax := le_max hx
    have hymin := min_le hy
    omega
  rcases Nat.le_total x y with hle | hle
  · have hdvd := (Nat.modEq_iff_dvd' hle).mp h
    have hzero := Nat.eq_zero_of_dvd_of_lt hdvd (hclose hy hx)
    omega
  · have hdvd := (Nat.modEq_iff_dvd' hle).mp h.symm
    have hzero := Nat.eq_zero_of_dvd_of_lt hdvd (hclose hx hy)
    omega

theorem countP_eq_one_iff {P : ℕ → Prop} [DecidablePred P] :
    domain.values.countP P = 1 ↔ ∃! d, d ∈ domain.values ∧ P d := by
  constructor
  · intro h
    rw [List.countP_eq_length_filter, List.length_eq_one_iff] at h
    obtain ⟨d, hd⟩ := h
    have hmem (e : ℕ) : e ∈ domain.values ∧ P e ↔ e = d := by
      rw [← List.mem_singleton, ← hd, List.mem_filter, decide_eq_true_eq]
    exact ⟨d, (hmem d).mpr rfl, fun e he => (hmem e).mp he⟩
  · rintro ⟨d, ⟨hd, hP⟩, hunique⟩
    rw [← count_eq_one hd, List.count_eq_countP]
    refine List.countP_congr fun e he => ?_
    rw [decide_eq_true_eq, beq_iff_eq]
    exact ⟨fun h => hunique e ⟨he, h⟩, fun heq => heq ▸ hP⟩

theorem countP_modEq_eq_one (hwidth : domain.max - domain.min < q) (h : value ∈ domain.values) :
    (domain.values.countP fun d => d ≡ value [MOD q]) = 1 :=
  countP_eq_one_iff.mpr ⟨value, ⟨h, Nat.ModEq.rfl⟩, fun _ hd => eq_of_modEq hwidth hd.1 h hd.2⟩

end SecretTally.Domain
