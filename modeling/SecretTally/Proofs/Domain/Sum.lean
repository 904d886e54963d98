import Mathlib
import SecretTally.Proofs.Domain
import SecretTally.Proofs.Refusal

/-! Adding up domains. A sum exists if its greatest value fits a word and it is not too wide, and then
its ends are the sums of the ends. Both conditions only grow harder with every further domain, so no
sum on the way fails if the last one exists: neither order nor grouping makes a difference. -/

namespace SecretTally.Domain
variable {a b c d : Domain}

theorem ends_sum (h : a.sum b = .ok d) : d.min = a.min + b.min ∧ d.max = a.max + b.max := by
  have ha := a.min_le_max
  have hb := b.min_le_max
  have hmin := (mem_sum h).mp (List.head_mem d.nonempty)
  have hmax := (mem_sum h).mp (List.getLast_mem d.nonempty)
  have hleast := min_le ((mem_sum h).mpr ⟨le_rfl, Nat.add_le_add ha hb⟩)
  have hgreatest := le_max ((mem_sum h).mpr ⟨Nat.add_le_add ha hb, le_rfl⟩)
  exact ⟨Nat.le_antisymm hleast hmin.1, Nat.le_antisymm hmax.2 hgreatest⟩

theorem sum_comm (a b : Domain) : a.sum b = b.sum a := by
  rw [sum, sum, Nat.add_comm a.min, Nat.add_comm a.max]

/-- Domains added up two at a time, in some order and grouping. -/
inductive Grouping where
  | one (domain : Domain)
  | join (left right : Grouping)

namespace Grouping
variable {s t left right : Grouping}

def leaves : Grouping → List Domain
  | one domain => [domain]
  | join left right => left.leaves ++ right.leaves

def sum : Grouping → Except DomainFault Domain
  | one domain => .ok domain
  | join left right => do
    let a ← left.sum
    let b ← right.sum
    a.sum b

def chain (first : Grouping) (rest : List Domain) : Grouping :=
  rest.foldl (fun t domain => join t (one domain)) first

def least (t : Grouping) : ℕ := (t.leaves.map Domain.min).sum

def greatest (t : Grouping) : ℕ := (t.leaves.map Domain.max).sum

theorem least_join (left right : Grouping) : (join left right).least = left.least + right.least := by
  simp [least, leaves]

theorem greatest_join (left right : Grouping) :
    (join left right).greatest = left.greatest + right.greatest := by
  simp [greatest, leaves]

theorem least_le_greatest (t : Grouping) : t.least ≤ t.greatest := by
  induction t with
  | one domain => simpa [least, greatest, leaves] using domain.min_le_max
  | join left right hleft hright =>
    rw [least_join, greatest_join]
    exact Nat.add_le_add hleft hright

theorem ends (h : t.sum = .ok d) : d.min = t.least ∧ d.max = t.greatest := by
  induction t generalizing d with
  | one domain =>
    cases h
    simp [least, greatest, leaves]
  | join left right hleft hright =>
    obtain ⟨a, ha, h⟩ := bind_eq_ok.mp h
    obtain ⟨b, hb, h⟩ := bind_eq_ok.mp h
    obtain ⟨hmin, hmax⟩ := ends_sum h
    rw [least_join, greatest_join, hmin, hmax, (hleft ha).1, (hleft ha).2, (hright hb).1,
      (hright hb).2]
    exact ⟨rfl, rfl⟩

theorem exists_sum (hfits : t.greatest < Decimal.wordLimit)
    (hnarrow : t.greatest - t.least < maxWidth) : ∃ d, t.sum = .ok d := by
  induction t with
  | one domain => exact ⟨domain, rfl⟩
  | join left right hleft hright =>
    have hl := left.least_le_greatest
    have hr := right.least_le_greatest
    rw [greatest_join] at hfits hnarrow
    rw [least_join] at hnarrow
    obtain ⟨a, ha⟩ := hleft (by omega) (by omega)
    obtain ⟨b, hb⟩ := hright (by omega) (by omega)
    obtain ⟨d, hd⟩ : ∃ d, a.sum b = .ok d := by
      rw [exists_sum_iff, (ends ha).1, (ends ha).2, (ends hb).1, (ends hb).2]
      exact ⟨hfits, hnarrow⟩
    exact ⟨d, bind_eq_ok.mpr ⟨a, ha, bind_eq_ok.mpr ⟨b, hb, hd⟩⟩⟩

theorem of_sum_join (h : (join left right).sum = .ok d) :
    (join left right).greatest < Decimal.wordLimit ∧
    (join left right).greatest - (join left right).least < maxWidth ∧
    d.values = List.range' (join left right).least
      ((join left right).greatest - (join left right).least + 1) := by
  obtain ⟨a, ha, h⟩ := bind_eq_ok.mp h
  obtain ⟨b, hb, h⟩ := bind_eq_ok.mp h
  rw [sum_eq_ok_iff, (ends ha).1, (ends ha).2, (ends hb).1, (ends hb).2] at h
  rwa [greatest_join, least_join]

theorem sum_join_eq_ok_iff : (join left right).sum = .ok d ↔
    (join left right).greatest < Decimal.wordLimit ∧
    (join left right).greatest - (join left right).least < maxWidth ∧
    d.values = List.range' (join left right).least
      ((join left right).greatest - (join left right).least + 1) := by
  refine ⟨of_sum_join, fun ⟨hfits, hnarrow, hvalues⟩ => ?_⟩
  obtain ⟨e, he⟩ := exists_sum hfits hnarrow
  rw [he, eq_of_values_eq (hvalues.trans (of_sum_join he).2.2.symm)]

theorem length_leaves_pos (t : Grouping) : 0 < t.leaves.length := by
  induction t with
  | one domain => exact Nat.one_pos
  | join left right hleft hright =>
    rw [leaves, List.length_append]
    omega

theorem sum_eq_ok_iff_of_perm (h : s.leaves.Perm t.leaves) : s.sum = .ok d ↔ t.sum = .ok d := by
  have hleast : s.least = t.least := (h.map Domain.min).sum_eq
  have hgreatest : s.greatest = t.greatest := (h.map Domain.max).sum_eq
  have hlength := h.length_eq
  cases s with
  | one a =>
    cases t with
    | one b => rw [List.singleton_perm_singleton.mp h]
    | join left right =>
      have := left.length_leaves_pos
      have := right.length_leaves_pos
      simp only [leaves, List.length_singleton, List.length_append] at hlength
      omega
  | join sl sr =>
    cases t with
    | one b =>
      have := sl.length_leaves_pos
      have := sr.length_leaves_pos
      simp only [leaves, List.length_singleton, List.length_append] at hlength
      omega
    | join tl tr => rw [sum_join_eq_ok_iff, sum_join_eq_ok_iff, hleast, hgreatest]

theorem leaves_chain (first : Grouping) (rest : List Domain) :
    (chain first rest).leaves = first.leaves ++ rest := by
  induction rest generalizing first with
  | nil => exact (List.append_nil _).symm
  | cons domain rest ih =>
    rw [chain, List.foldl_cons]
    exact (ih _).trans (List.append_assoc ..)

theorem sum_chain (first : Grouping) (rest : List Domain) :
    (chain first rest).sum = (first.sum >>= fun d => rest.foldlM Domain.sum d) := by
  induction rest generalizing first with
  | nil =>
    change first.sum = _
    cases first.sum <;> rfl
  | cons domain rest ih =>
    refine (ih (join first (one domain))).trans ?_
    rw [sum]
    cases first.sum <;> rfl

end Grouping

theorem foldlM_sum_eq_ok_iff_of_perm {first first' : Domain} {rest rest' : List Domain}
    (h : (first :: rest).Perm (first' :: rest')) :
    rest.foldlM Domain.sum first = .ok d ↔ rest'.foldlM Domain.sum first' = .ok d := by
  have hchain : ∀ (domain : Domain) (domains : List Domain),
      ((Grouping.one domain).chain domains).sum = domains.foldlM Domain.sum domain :=
    fun domain domains => Grouping.sum_chain (.one domain) domains
  rw [← hchain, ← hchain]
  refine Grouping.sum_eq_ok_iff_of_perm ?_
  rwa [Grouping.leaves_chain, Grouping.leaves_chain]

/-- When a sum of domains exists and which values it has; it does not depend on the order, and as far
as it exists, neither on the grouping, over any number of domains. -/
theorem sum_laws :
    (∀ a b : Domain, (∃ d, a.sum b = .ok d) ↔
      a.max + b.max < 2 ^ 64 ∧ a.max + b.max - (a.min + b.min) < 2 ^ 16) ∧
    (∀ a b d : Domain, a.sum b = .ok d →
      d.values = List.range' (a.min + b.min) (a.max + b.max - (a.min + b.min) + 1) ∧
      (∀ v, v ∈ d.values ↔ a.min + b.min ≤ v ∧ v ≤ a.max + b.max) ∧
      d.values.Pairwise (· < ·) ∧ ∀ x ∈ a.values, ∀ y ∈ b.values, x + y ∈ d.values) ∧
    (∀ a b : Domain, a.sum b = b.sum a) ∧
    (∀ a b c d : Domain,
      (do let ab ← a.sum b; ab.sum c) = .ok d ↔ (do let bc ← b.sum c; a.sum bc) = .ok d) ∧
    (∀ s t : Grouping, s.leaves.Perm t.leaves → ∀ d, s.sum = .ok d ↔ t.sum = .ok d) ∧
    ∀ (first first' : Domain) (rest rest' : List Domain),
      (first :: rest).Perm (first' :: rest') → ∀ d,
        rest.foldlM Domain.sum first = .ok d ↔ rest'.foldlM Domain.sum first' = .ok d := by
  refine ⟨fun a b => exists_sum_iff, fun a b d h => ?_, sum_comm, fun a b c d => ?_,
    fun s t h d => Grouping.sum_eq_ok_iff_of_perm h,
    fun first first' rest rest' h d => foldlM_sum_eq_ok_iff_of_perm h⟩
  · exact ⟨(sum_eq_ok_iff.mp h).2.2, fun v => mem_sum h, d.increasing,
      fun x hx y hy => add_mem_sum h hx hy⟩
  · exact Grouping.sum_eq_ok_iff_of_perm (d := d)
      (s := .join (.join (.one a) (.one b)) (.one c)) (t := .join (.one a) (.join (.one b) (.one c)))
      (.refl _)

def gapped : Domain := ⟨[0, 7], by decide, by decide⟩

def late : Domain := ⟨[18446744073709551596, 18446744073709551598], by decide, by decide⟩

theorem sum_laws_late : ∃ d e, gapped.sum gapped = .ok d ∧ d.values = List.range' 0 15 ∧
    d.sum late = .ok e ∧ 14 + 18446744073709551596 ∈ e.values ∧
    (do let sum ← gapped.sum late; gapped.sum sum) = .ok e ∧
    (Grouping.join (.one late) (.join (.one gapped) (.one gapped))).sum = .ok e ∧
    [gapped, gapped].foldlM Domain.sum late = .ok e := by
  obtain ⟨hexists, hvalues, -, hassoc, hgrouping, hfold⟩ := sum_laws
  obtain ⟨d, hd⟩ := (hexists gapped gapped).mpr (by decide)
  obtain ⟨hmin, hmax⟩ := ends_sum hd
  obtain ⟨e, he⟩ := (hexists d late).mpr (by rw [hmin, hmax]; decide)
  have hleft : (do let sum ← gapped.sum gapped; sum.sum late) = .ok e := bind_eq_ok.mpr ⟨d, hd, he⟩
  have hmem := (hvalues _ _ _ he).2.2.2
  refine ⟨d, e, hd, (hvalues _ _ _ hd).1, he, ?_, (hassoc _ _ _ _).mp hleft, ?_, ?_⟩
  · exact hmem 14 (((hvalues _ _ _ hd).2.1 14).mpr (by decide)) 18446744073709551596 (by decide)
  · refine (hgrouping (.join (.join (.one gapped) (.one gapped)) (.one late)) _ ?_ e).mp ?_
    · exact List.perm_append_comm
    · have htwice : (Grouping.join (.one gapped) (.one gapped)).sum = .ok d :=
        bind_eq_ok.mpr ⟨gapped, rfl, bind_eq_ok.mpr ⟨gapped, rfl, hd⟩⟩
      exact bind_eq_ok.mpr ⟨d, htwice, bind_eq_ok.mpr ⟨late, rfl, he⟩⟩
  · refine (hfold gapped late [gapped, late] [gapped, gapped] ?_ e).mp ?_
    · exact (List.perm_append_comm : ([gapped, gapped] ++ [late]).Perm _)
    · rw [List.foldlM_cons, bind_eq_ok]
      refine ⟨d, hd, ?_⟩
      rw [List.foldlM_cons, bind_eq_ok]
      exact ⟨e, he, rfl⟩

def wideGap : Domain := ⟨[0, 131072], by decide, by decide⟩

def far : Domain := ⟨[9223372036854775808], by decide, by decide⟩

example : wideGap.sum far = .error .wideRange ∧ far.sum far = .error .overflow := by
  decide +kernel

end SecretTally.Domain
