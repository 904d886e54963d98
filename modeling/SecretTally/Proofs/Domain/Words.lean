import Mathlib
import SecretTally.Domain.Words
import SecretTally.Proofs.Domain

/-! Stored domains and what is looked up in them. However a domain is made, it has values and they
increase, so that neighbours tell the order of all. No lookup in it misses the list: the ends are
the least and the greatest value, the search finds a value exactly where it stands, and everything
agrees with the same operation on numbers. -/

namespace SecretTally

namespace WordDomain
variable {values : List UInt64} {a b d : WordDomain} {least greatest wanted : UInt64} {base size : ℕ}

def Increasing (values : List UInt64) : Prop := values ≠ [] ∧ values.Pairwise (· < ·)

inductive Obtainable : WordDomain → Prop
  | ofList (values : List UInt64) (d : WordDomain) (h : ofList values = .ok d) : Obtainable d
  | range (least greatest : UInt64) (d : WordDomain) (h : range least greatest = .ok d) :
    Obtainable d
  | sum (a b d : WordDomain) (ha : Obtainable a) (hb : Obtainable b)
    (h : a.sum b = some (.ok d)) : Obtainable d

theorem any_neighbours (values : List UInt64) : (neighbours values).any (fun (a, b) => a ≥ b) =
    !Domain.isIncreasing (values.map UInt64.toNat) := by
  induction values with
  | nil => rfl
  | cons v rest ih =>
    cases rest with
    | nil => rfl
    | cons w rest =>
      have hpair : decide (v ≥ w) = !decide (v.toNat < w.toNat) := by
        rw [← decide_not]
        exact decide_eq_decide.mpr (UInt64.le_iff_toNat_le.trans Nat.not_lt.symm)
      change (decide (v ≥ w) || (neighbours (w :: rest)).any _) = _
      rw [ih, hpair, ← Bool.not_and]
      rfl

theorem increasing_iff : Increasing values ↔
    values.map UInt64.toNat ≠ [] ∧ (values.map UInt64.toNat).Pairwise (· < ·) := by
  rw [Increasing, Ne, Ne, List.map_eq_nil_iff, List.pairwise_map]
  rfl

theorem ofList_eq_ok_iff : ofList values = .ok d ↔ Increasing values ∧ d.values = values := by
  obtain ⟨stored⟩ := d
  rw [increasing_iff, ← Domain.isIncreasing_iff, Ne, List.map_eq_nil_iff, ofList, any_neighbours]
  cases values with
  | nil => exact ⟨nofun, fun h => absurd rfl h.1.1⟩
  | cons v rest =>
    cases Domain.isIncreasing ((v :: rest).map UInt64.toNat) with
    | false => exact ⟨nofun, fun h => nomatch h.1.2⟩
    | true =>
      rw [List.isEmpty_cons, if_neg Bool.false_ne_true, Bool.not_true, if_neg Bool.false_ne_true,
        Except.ok.injEq, mk.injEq, and_iff_right ⟨List.cons_ne_nil v rest, rfl⟩, eq_comm]

theorem Increasing.obtainable (h : Increasing d.values) : d.Obtainable :=
  .ofList d.values d (ofList_eq_ok_iff.mpr ⟨h, rfl⟩)

theorem increasing_of_range (h : range least greatest = .ok d) : Increasing d.values := by
  unfold range at h
  split at h
  · cases h
  · split at h
    · cases h
    · obtain ⟨hinc, hvalues⟩ := ofList_eq_ok_iff.mp h
      rwa [hvalues]

theorem increasing_of_sum (h : a.sum b = some (.ok d)) : Increasing d.values := by
  obtain ⟨_, -, h⟩ := Option.bind_eq_some_iff.mp h
  obtain ⟨_, -, h⟩ := Option.bind_eq_some_iff.mp h
  obtain ⟨_, -, h⟩ := Option.bind_eq_some_iff.mp h
  obtain ⟨_, -, h⟩ := Option.bind_eq_some_iff.mp h
  dsimp only at h
  split at h
  · exact increasing_of_range (Option.some.inj h)
  · cases h

theorem Obtainable.increasing (h : d.Obtainable) : Increasing d.values := by
  cases h with
  | ofList values d h =>
    obtain ⟨hinc, hvalues⟩ := ofList_eq_ok_iff.mp h
    rwa [hvalues]
  | range least greatest d h => exact increasing_of_range h
  | sum a b d ha hb h => exact increasing_of_sum h

theorem min?_eq_head? (d : WordDomain) : d.min? = d.values.head? := List.head?_eq_getElem?.symm

theorem max?_eq_getLast? (d : WordDomain) : d.max? = d.values.getLast? := by
  rw [List.getLast?_eq_getElem?, max?]
  cases d.values with
  | nil => rfl
  | cons v rest => rfl

theorem exists_min? (h : Increasing d.values) :
    ∃ least, d.min? = some least ∧ IsLeast {v | v ∈ d.values} least := by
  obtain ⟨hne, hinc⟩ := h
  refine ⟨d.values.head hne, ?_, List.head_mem hne, fun v hv => ?_⟩
  · rw [min?_eq_head?, List.head?_eq_some_head]
  · exact (hinc.imp UInt64.le_of_lt).rel_head hv

theorem exists_max? (h : Increasing d.values) :
    ∃ greatest, d.max? = some greatest ∧ IsGreatest {v | v ∈ d.values} greatest := by
  obtain ⟨hne, hinc⟩ := h
  refine ⟨d.values.getLast hne, ?_, List.getLast_mem hne, fun v hv => ?_⟩
  · rw [max?_eq_getLast?, List.getLast?_eq_some_getLast]
  · exact (hinc.imp UInt64.le_of_lt).rel_getLast hv

theorem getElem_gt_iff (hinc : values.Pairwise (· < ·)) {middle k : ℕ}
    (hmiddle : middle < values.length) (hk : values[k]? = some wanted) :
    values[middle] > wanted ↔ k < middle := by
  obtain ⟨hlt, rfl⟩ := List.getElem?_eq_some_iff.mp hk
  have hbelow := List.pairwise_iff_getElem.mp hinc
  constructor
  · intro hgreater
    refine Nat.lt_of_not_le fun hle => ?_
    rcases Nat.lt_or_eq_of_le hle with hmiddlek | rfl
    · exact UInt64.lt_asymm hgreater (hbelow middle k hmiddle hlt hmiddlek)
    · exact UInt64.lt_irrefl _ hgreater
  · exact hbelow k middle hlt hmiddle

/-- Every probe is in the list, and the value does not leave the stretch. -/
theorem narrow_spec (wanted : UInt64) (hinc : values.Pairwise (· < ·)) (hpos : 0 < size)
    (hfits : base + size ≤ values.length) : ∃ i < values.length,
    narrow values wanted base size = some i ∧
      ∀ k, base ≤ k → k < base + size → values[k]? = some wanted → i = k := by
  induction size using Nat.strong_induction_on generalizing base with
  | _ size ih =>
    unfold narrow
    split
    · exact ⟨base, by omega, rfl, fun k hlow hhigh _ => by omega⟩
    · next hmany =>
      have hmiddle : base + size / 2 < values.length := by omega
      dsimp only
      rw [List.getElem?_eq_getElem hmiddle, Option.bind_eq_bind, Option.bind_some]
      split
      · next hgreater =>
        have hfront : base + (size - size / 2) ≤ values.length := by omega
        obtain ⟨i, hi, hnarrow, hfound⟩ := ih (size - size / 2) (by omega) (by omega) hfront
        refine ⟨i, hi, hnarrow, fun k hlow hhigh hk => hfound k hlow ?_ hk⟩
        have hbefore := (getElem_gt_iff hinc hmiddle hk).mp hgreater
        omega
      · next hreached =>
        have hback : base + size / 2 + (size - size / 2) ≤ values.length := by omega
        obtain ⟨i, hi, hnarrow, hfound⟩ := ih (size - size / 2) (by omega) (by omega) hback
        refine ⟨i, hi, hnarrow, fun k hlow hhigh hk => hfound k ?_ (by omega) hk⟩
        exact Nat.le_of_not_lt (mt (getElem_gt_iff hinc hmiddle hk).mpr hreached)

theorem exists_position (h : Increasing d.values) (wanted : UInt64) :
    ∃ found, d.position wanted = some found ∧
      ∀ i, found = some i ↔ d.values[i]? = some wanted := by
  obtain ⟨hne, hinc⟩ := h
  have hpos := List.length_pos_iff.mpr hne
  obtain ⟨i, hi, hnarrow, hfound⟩ := narrow_spec wanted hinc hpos (Nat.zero_add _).le
  refine ⟨if d.values[i] = wanted then some i else none, ?_, fun k => ?_⟩
  · rw [position, if_neg hpos.ne', hnarrow, Option.bind_eq_bind, Option.bind_some,
      List.getElem?_eq_getElem hi]
    rfl
  · constructor
    · intro hk
      obtain ⟨hvalue, hik⟩ := Option.ite_none_right_eq_some.mp hk
      rw [← Option.some.inj hik, List.getElem?_eq_getElem hi, hvalue]
    · intro hk
      obtain ⟨hlt, hvalue⟩ := List.getElem?_eq_some_iff.mp hk
      obtain rfl := hfound k (Nat.zero_le k) (by omega) hk
      rw [if_pos hvalue]

section Numbers
variable {domain other : Domain}

theorem domain_eq_ok_iff : d.domain = .ok domain ↔ domain.values = d.numbers :=
  Domain.ofList_eq_ok_iff

theorem Increasing.exists_domain (h : Increasing d.values) : ∃ domain, d.domain = .ok domain :=
  ⟨⟨d.numbers, (increasing_iff.mp h).1, (increasing_iff.mp h).2⟩, domain_eq_ok_iff.mpr rfl⟩

theorem bind_domain_ofList (values : List UInt64) :
    (ofList values >>= WordDomain.domain) = Domain.ofList (values.map UInt64.toNat) := by
  rw [ofList, any_neighbours]
  cases values with
  | nil => rfl
  | cons v rest =>
    have hne : (v :: rest).map UInt64.toNat ≠ [] := List.cons_ne_nil _ _
    rw [List.isEmpty_cons, if_neg Bool.false_ne_true]
    cases hinc : Domain.isIncreasing ((v :: rest).map UInt64.toNat) with
    | false =>
      rw [Domain.ofList, dif_neg hne, dif_neg (Bool.eq_false_iff.mp hinc)]
      rfl
    | true => rfl

theorem map_toNat_interval (h : least ≤ greatest) : (interval least greatest).map UInt64.toNat =
    List.range' least.toNat (greatest.toNat - least.toNat + 1) := by
  have hle := UInt64.le_iff_toNat_le.mp h
  have hfits := greatest.toNat_lt
  rw [interval, List.map_map, UInt64.toNat_sub_of_le _ _ h, List.range'_eq_map_range]
  refine List.map_congr_left fun i hi => ?_
  have hi := List.mem_range.mp hi
  change (least + UInt64.ofNat i).toNat = _
  rw [UInt64.toNat_add, UInt64.toNat_ofNat']
  omega

theorem bind_domain_range (least greatest : UInt64) :
    (range least greatest >>= WordDomain.domain) =
      Domain.range least.toNat greatest.toNat := by
  unfold range Domain.range
  by_cases hreversed : least > greatest
  · rw [if_pos hreversed, if_pos (UInt64.lt_iff_toNat_lt.mp hreversed)]
    rfl
  · have hle : least ≤ greatest := UInt64.not_lt.mp hreversed
    have hwidth : greatest - least ≥ maxWidth ↔
        Domain.maxWidth ≤ greatest.toNat - least.toNat := by
      rw [ge_iff_le, UInt64.le_iff_toNat_le, UInt64.toNat_sub_of_le _ _ hle]
      rfl
    rw [if_neg hreversed, if_neg (mt UInt64.lt_iff_toNat_lt.mpr hreversed)]
    by_cases hwide : greatest - least ≥ maxWidth
    · rw [if_pos hwide, if_pos (hwidth.mp hwide)]
      rfl
    · rw [if_neg hwide, if_neg (mt hwidth.mpr hwide), bind_domain_ofList, map_toNat_interval hle]
      exact Domain.ofList_eq_ok_iff.mpr rfl

section Stored
variable (h : d.domain = .ok domain)
include h

theorem length_values : d.values.length = domain.size := by
  rw [Domain.size, domain_eq_ok_iff.mp h, numbers, List.length_map]

theorem map_toNat_min? : d.min?.map UInt64.toNat = some domain.min := by
  rw [min?_eq_head?, ← List.head?_map]
  change d.numbers.head? = _
  rw [← domain_eq_ok_iff.mp h, List.head?_eq_some_head domain.nonempty]
  rfl

theorem map_toNat_max? : d.max?.map UInt64.toNat = some domain.max := by
  rw [max?_eq_getLast?, ← List.getLast?_map]
  change d.numbers.getLast? = _
  rw [← domain_eq_ok_iff.mp h, List.getLast?_eq_some_getLast domain.nonempty]
  rfl

theorem increasing_of_domain : Increasing d.values := by
  have hvalues : domain.values = d.values.map UInt64.toNat := domain_eq_ok_iff.mp h
  rw [increasing_iff, ← hvalues]
  exact ⟨domain.nonempty, domain.increasing⟩

theorem getElem?_numbers (i : ℕ) (wanted : UInt64) :
    domain.values[i]? = some wanted.toNat ↔ d.values[i]? = some wanted := by
  have hinjective : Function.Injective UInt64.toNat := fun _ _ => UInt64.toNat_inj.mp
  rw [domain_eq_ok_iff.mp h, numbers, List.getElem?_map, ← Option.map_some,
    (Option.map_injective hinjective).eq_iff]

theorem toNat_mem_iff (wanted : UInt64) : wanted.toNat ∈ domain.values ↔ wanted ∈ d.values := by
  rw [List.mem_iff_getElem?, List.mem_iff_getElem?]
  exact exists_congr fun i => getElem?_numbers h i wanted

theorem position_eq (wanted : UInt64) :
    d.position wanted = some (domain.position? wanted.toNat) := by
  obtain ⟨found, hposition, hfound⟩ := exists_position (increasing_of_domain h) wanted
  rw [hposition]
  congr 1
  ext i
  rw [hfound, Domain.position?_eq_some_iff, getElem?_numbers h]

theorem contains_eq (wanted : UInt64) :
    d.contains wanted = some (domain.contains wanted.toNat) := by
  rw [contains, position_eq h]
  rfl

end Stored

theorem toNat_add_of_lt {a b : UInt64} (h : a.toNat + b.toNat < Decimal.wordLimit) :
    (a + b).toNat = a.toNat + b.toNat := by
  rw [UInt64.toNat_add]
  exact Nat.mod_eq_of_lt h

theorem sum_eq (ha : a.domain = .ok domain) (hb : b.domain = .ok other) :
    ∃ outcome, a.sum b = some outcome ∧ (outcome >>= WordDomain.domain) = domain.sum other := by
  obtain ⟨aLeast, haLeast, haMin⟩ := Option.map_eq_some_iff.mp (map_toNat_min? ha)
  obtain ⟨bLeast, hbLeast, hbMin⟩ := Option.map_eq_some_iff.mp (map_toNat_min? hb)
  obtain ⟨aGreatest, haGreatest, haMax⟩ := Option.map_eq_some_iff.mp (map_toNat_max? ha)
  obtain ⟨bGreatest, hbGreatest, hbMax⟩ := Option.map_eq_some_iff.mp (map_toNat_max? hb)
  rw [sum, haLeast, hbLeast, haGreatest, hbGreatest, Domain.sum, ← haMin, ← hbMin, ← haMax, ← hbMax]
  simp only [Option.bind_eq_bind, Option.bind_some]
  by_cases hfits : aLeast.toNat + bLeast.toNat < Decimal.wordLimit ∧
      aGreatest.toNat + bGreatest.toNat < Decimal.wordLimit
  · obtain ⟨hleast, hgreatest⟩ := hfits
    rw [if_pos ⟨hleast, hgreatest⟩, add?, add?, if_pos hleast, if_pos hgreatest]
    refine ⟨_, rfl, ?_⟩
    rw [bind_domain_range, toNat_add_of_lt hleast, toNat_add_of_lt hgreatest]
  · rw [if_neg hfits]
    refine ⟨.error .overflow, ?_, rfl⟩
    unfold add?
    split
    · next hleast hgreatest =>
      exact absurd ⟨(Option.ite_none_right_eq_some.mp hleast).1,
        (Option.ite_none_right_eq_some.mp hgreatest).1⟩ hfits
    · rfl

end Numbers

/-- What is looked up is what the list holds, and no index misses the list. -/
structure Lookups (d : WordDomain) : Prop where
  position : ∀ wanted, ∃ found, d.position wanted = some found ∧
    ∀ i, found = some i ↔ d.values[i]? = some wanted
  contains : ∀ wanted, ∃ answer, d.contains wanted = some answer ∧
    (answer = true ↔ wanted ∈ d.values)
  min : ∃ least, d.min? = some least ∧ IsLeast {v | v ∈ d.values} least
  max : ∃ greatest, d.max? = some greatest ∧ IsGreatest {v | v ∈ d.values} greatest

structure Agrees (d : WordDomain) (domain : Domain) : Prop where
  values : domain.values = d.values.map UInt64.toNat
  position : ∀ wanted, d.position wanted = some (domain.position? wanted.toNat)
  contains : ∀ wanted, d.contains wanted = some (domain.contains wanted.toNat)
  min : d.min?.map UInt64.toNat = some domain.min
  max : d.max?.map UInt64.toNat = some domain.max

theorem agrees_of_domain {domain : Domain} (h : d.domain = .ok domain) : d.Agrees domain where
  values := domain_eq_ok_iff.mp h
  position := position_eq h
  contains := contains_eq h
  min := map_toNat_min? h
  max := map_toNat_max? h

theorem Increasing.lookups (h : Increasing d.values) : d.Lookups where
  position := exists_position h
  contains wanted := by
    obtain ⟨domain, hdomain⟩ := h.exists_domain
    refine ⟨_, contains_eq hdomain wanted, ?_⟩
    rw [Domain.contains_iff, toNat_mem_iff hdomain]
  min := exists_min? h
  max := exists_max? h

/-- The lists that become domains are those with values that increase, and they are kept as they
are. In each domain every lookup is exact and stays inside the list, and making domains and looking
things up in them is the same as on numbers. -/
theorem lookups_exact :
    (∀ d : WordDomain, d.Obtainable ↔ d.values ≠ [] ∧ d.values.Pairwise (· < ·)) ∧
    (∀ (values : List UInt64) (d : WordDomain), ofList values = .ok d ↔
      (values ≠ [] ∧ values.Pairwise (· < ·)) ∧ d.values = values) ∧
    (∀ d : WordDomain, d.Obtainable → d.Lookups ∧ ∃ domain, d.domain = .ok domain ∧
      d.Agrees domain) ∧
    (∀ values : List UInt64,
      (ofList values >>= WordDomain.domain) = Domain.ofList (values.map UInt64.toNat)) ∧
    (∀ least greatest : UInt64,
      (range least greatest >>= WordDomain.domain) = Domain.range least.toNat greatest.toNat) ∧
    (∀ a b : WordDomain, a.Obtainable → b.Obtainable → ∃ domain other outcome,
      a.domain = .ok domain ∧ b.domain = .ok other ∧ a.sum b = some outcome ∧
      (outcome >>= WordDomain.domain) = domain.sum other) := by
  refine ⟨fun d => ⟨Obtainable.increasing, Increasing.obtainable⟩, fun values d => ofList_eq_ok_iff,
    fun d h => ⟨h.increasing.lookups, ?_⟩, bind_domain_ofList, bind_domain_range,
    fun a b ha hb => ?_⟩
  · obtain ⟨domain, hdomain⟩ := h.increasing.exists_domain
    exact ⟨domain, hdomain, agrees_of_domain hdomain⟩
  · obtain ⟨domain, hdomain⟩ := ha.increasing.exists_domain
    obtain ⟨other, hother⟩ := hb.increasing.exists_domain
    obtain ⟨outcome, hsum, hsame⟩ := sum_eq hdomain hother
    exact ⟨domain, other, outcome, hdomain, hother, hsum, hsame⟩

theorem lookups_exact_greatest :
    let d : WordDomain := ⟨[0, 3, 9223372036854775808, 18446744073709551615]⟩
    d.Obtainable ∧ d.position 18446744073709551615 = some (some 3) ∧ d.position 4 = some none ∧
      d.contains 3 = some true ∧ ∃ greatest, d.max? = some greatest ∧
        IsGreatest {v | v ∈ d.values} greatest := by
  intro d
  obtain ⟨hobtainable, -, hlookups, -⟩ := lookups_exact
  have hd : d.Obtainable := (hobtainable d).mpr ⟨by decide, by decide⟩
  obtain ⟨⟨hposition, hcontains, -, hmax⟩, -⟩ := hlookups d hd
  obtain ⟨last, hlast, hiff⟩ := hposition 18446744073709551615
  obtain ⟨gap, hgap, hnone⟩ := hposition 4
  obtain ⟨three, hthree, hmem⟩ := hcontains 3
  refine ⟨hd, ?_, ?_, ?_, hmax⟩
  · rw [hlast, (hiff 3).mpr rfl]
  · have habsent : (4 : UInt64) ∉ d.values := by decide
    have hgapNone : gap = none := Option.eq_none_iff_forall_ne_some.mpr fun i hi =>
      habsent (List.mem_of_getElem? ((hnone i).mp hi))
    rw [hgap, hgapNone]
  · rw [hthree, hmem.mpr (by decide)]

end WordDomain
end SecretTally
