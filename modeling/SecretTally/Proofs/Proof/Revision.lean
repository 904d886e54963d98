import Mathlib
import SecretTally.Proof.Revision
import SecretTally.Proofs.Domain.Words
import SecretTally.Proofs.Proof.Consumption

/-! What a revision makes of a proof. It is the stretched proof: the test against the ends and the
search find the values that the proof answers, wherever they stand. So an answer is kept exactly if
its value is one of the merged domain, in the order of the values; all others are the draws in
turn. -/

noncomputable section
namespace SecretTally
open Source

variable {σ : Type} [Source σ] {key : PublicKey} {proof : MembershipProof} {summand : Summand}
  {own merged : WordDomain} {domain : Domain}

/-- The values' own answers, and the draws in turn where they have none; no draw is left over. -/
inductive Fills {α : Type} (own? : α → Option Answer) : List α → List Answer → List Answer → Prop
  | nil : Fills own? [] [] []
  | kept {d : α} {ds : List α} {own : Answer} {drawn answers : List Answer}
    (hown : own? d = some own) (rest : Fills own? ds drawn answers) :
    Fills own? (d :: ds) drawn (own :: answers)
  | drawn {d : α} {ds : List α} {a : Answer} {drawn answers : List Answer}
    (hgap : own? d = none) (rest : Fills own? ds drawn answers) :
    Fills own? (d :: ds) (a :: drawn) (a :: answers)

namespace Fills
variable {α : Type} {own? : α → Option Answer} {d : α} {ds : List α} {drawn answers : List Answer}

theorem length_eq (h : Fills own? ds drawn answers) : answers.length = ds.length := by
  induction h with
  | nil => rfl
  | kept _ _ ih => exact congrArg Nat.succ ih
  | drawn _ _ ih => exact congrArg Nat.succ ih

theorem getElem?_eq (h : Fills own? ds drawn answers) {i : ℕ} (hd : ds[i]? = some d) :
    answers[i]? = (own? d).or drawn[(ds.take i).countP fun d => (own? d).isNone]? := by
  induction h generalizing i with
  | nil => exact nomatch hd
  | @kept e ds own drawn answers hown _ ih =>
    cases i with
    | zero =>
      cases hd
      rw [hown]
      rfl
    | succ i =>
      rw [List.getElem?_cons_succ, ih hd, List.take_succ_cons,
        List.countP_cons_of_neg (by simp [hown])]
  | @drawn e ds a drawn answers hgap _ ih =>
    cases i with
    | zero =>
      cases hd
      rw [hgap]
      rfl
    | succ i =>
      rw [List.getElem?_cons_succ, ih hd, List.take_succ_cons,
        List.countP_cons_of_pos (by simp [hgap]), List.getElem?_cons_succ]

theorem exists_draw (h : Fills own? ds drawn answers) {i : ℕ} (hd : ds[i]? = some d)
    (hgap : own? d = none) : ∃ a, answers[i]? = some a ∧
      drawn[(ds.take i).countP fun d => (own? d).isNone]? = some a := by
  obtain ⟨hi, -⟩ := List.getElem?_eq_some_iff.mp hd
  have hanswer := h.getElem?_eq hd
  rw [hgap, Option.none_or, List.getElem?_eq_getElem (h.length_eq ▸ hi)] at hanswer
  exact ⟨_, List.getElem?_eq_getElem (h.length_eq ▸ hi), hanswer.symm⟩

theorem drawn_eq (h : Fills own? ds drawn answers) :
    ((ds.zip answers).filter fun x => (own? x.1).isNone).map Prod.snd = drawn := by
  induction h with
  | nil => rfl
  | kept hown _ ih => rw [List.zip_cons_cons, List.filter_cons_of_neg (by simp [hown]), ih]
  | drawn hgap _ ih =>
    rw [List.zip_cons_cons, List.filter_cons_of_pos (by simp [hgap]), List.map_cons, ih]

end Fills

theorem Summand.fills_filled {ds : List UInt64} {drawn : List Answer}
    (hdrawn : drawn.length = ds.countP fun d => (summand.answer? key d.toNat).isNone) :
    Fills (fun d => summand.answer? key d.toNat) ds drawn
      (summand.filled key (ds.map UInt64.toNat) drawn) := by
  induction ds generalizing drawn with
  | nil =>
    obtain rfl := List.length_eq_zero_iff.mp hdrawn
    exact .nil
  | cons d ds ih =>
    cases hd : summand.answer? key d.toNat with
    | some own =>
      rw [List.countP_cons_of_neg (by simp [hd])] at hdrawn
      rw [List.map_cons, Summand.filled_of_some hd]
      exact .kept hd (ih hdrawn)
    | none =>
      rw [List.countP_cons_of_pos (by simp [hd])] at hdrawn
      obtain ⟨a, drawn, rfl⟩ := List.exists_cons_of_length_eq_add_one hdrawn
      rw [List.map_cons, Summand.filled_of_none hd]
      exact .drawn hd (ih (Nat.succ.inj hdrawn))

namespace MembershipProof

section Stored
variable (hown : own.domain = .ok domain)
include hown

omit [Source σ] in
theorem locate_eq {least greatest : UInt64} (hleast : own.min? = some least)
    (hgreatest : own.max? = some greatest) (d : UInt64) :
    (locate own least greatest d : Randomized σ SumFailure (Option ℕ)) =
      pure (domain.position? d.toNat) := by
  have hmin := WordDomain.map_toNat_min? hown
  have hmax := WordDomain.map_toNat_max? hown
  rw [hleast, Option.map_some, Option.some.injEq] at hmin
  rw [hgreatest, Option.map_some, Option.some.injEq] at hmax
  unfold locate
  split
  · next hbeyond =>
    rw [Bool.or_eq_true, decide_eq_true_eq, decide_eq_true_eq, gt_iff_lt, UInt64.lt_iff_toNat_lt,
      UInt64.lt_iff_toNat_lt, hmin, hmax] at hbeyond
    have habsent : domain.position? d.toNat = none := by
      rw [Domain.position?, List.idxOf?_eq_none_iff]
      intro hmem
      have hlow := Domain.min_le hmem
      have hhigh := Domain.le_max hmem
      omega
    rw [habsent]
  · rw [WordDomain.position_eq hown]
    rfl

theorem revisedAt_eq {least greatest : UInt64} (hleast : own.min? = some least)
    (hgreatest : own.max? = some greatest) (hdomain : summand.domain = domain) (d : UInt64) :
    (revisedAt key summand.proof own least greatest d : Randomized σ SumFailure Answer) =
      summand.answerAt key d.toNat := by
  subst hdomain
  rw [revisedAt, locate_eq hown hleast hgreatest, pure_bind, Summand.answerAt]
  cases summand.domain.position? d.toNat with
  | none => rfl
  | some j =>
    dsimp only
    cases summand.proof.s[j]? with
    | none => rfl
    | some s => cases summand.proof.c[j]? <;> rfl

theorem revise_eq_stretch (hsummand : summand.domain = domain) {mergedDomain : Domain}
    (hmerged : merged.domain = .ok mergedDomain) :
    (revise key summand.proof own merged : Randomized σ SumFailure (List Answer)) =
      summand.stretch key mergedDomain := by
  have hsize : own.values.length = summand.domain.size :=
    (WordDomain.length_values hown).trans (congrArg Domain.size hsummand.symm)
  obtain ⟨least, hleast, -⟩ := Option.map_eq_some_iff.mp (WordDomain.map_toNat_min? hown)
  obtain ⟨greatest, hgreatest, -⟩ := Option.map_eq_some_iff.mp (WordDomain.map_toNat_max? hown)
  have hanswer : (revisedAt key summand.proof own least greatest :
      UInt64 → Randomized σ SumFailure Answer) = summand.answerAt key ∘ UInt64.toNat :=
    funext (revisedAt_eq hown hleast hgreatest hsummand)
  rw [revise, Summand.stretch, hsize, hleast, hgreatest, WordDomain.domain_eq_ok_iff.mp hmerged,
    WordDomain.numbers, List.mapM_map, ← hanswer]
  split <;> rfl

end Stored

end MembershipProof

namespace Summand

theorem answer?_toNat (hown : own.domain = .ok summand.domain) {j : ℕ} {d : UInt64}
    (hd : own.values[j]? = some d) :
    summand.answer? key d.toNat = (summand.proof.answers key)[j]? := by
  rw [answer?, Domain.position?_eq_some_iff.mpr ((WordDomain.getElem?_numbers hown j d).mpr hd),
    Option.bind_some]

theorem isNone_answer? (hown : own.domain = .ok summand.domain)
    (hs : summand.proof.s.length = summand.domain.size)
    (hc : summand.proof.c.length = summand.domain.size) (d : UInt64) :
    (summand.answer? key d.toNat).isNone = decide (d ∉ own.values) := by
  rw [Bool.eq_iff_iff, ← Bool.not_eq_false, Option.isNone_eq_false_iff, Option.isSome_iff_exists,
    exists_answer?_iff hs hc, WordDomain.toNat_mem_iff hown, decide_eq_true_eq]

end Summand

section Increasing
variable {β : Type} {xs ys : List UInt64} {as bs : List β}

theorem pairwise_fst_zip (hxs : xs.Pairwise (· < ·)) (hlength : xs.length = as.length) :
    (xs.zip as).Pairwise fun x y => x.1 < y.1 := by
  rwa [← List.pairwise_map (f := Prod.fst) (R := (· < ·)), List.map_fst_zip hlength.le]

theorem mem_filter_zip
    (h : ∀ (i j : ℕ) (d : UInt64), xs[i]? = some d → ys[j]? = some d → as[i]? = bs[j]?)
    {x : UInt64 × β} (hx : x ∈ (xs.zip as).filter fun x => x.1 ∈ ys) :
    x ∈ (ys.zip bs).filter fun x => x.1 ∈ xs := by
  obtain ⟨hzip, hmem⟩ := List.mem_filter.mp hx
  obtain ⟨i, hi⟩ := List.mem_iff_getElem?.mp hzip
  obtain ⟨hxs, has⟩ := List.getElem?_zip_eq_some.mp hi
  obtain ⟨j, hj⟩ := List.mem_iff_getElem?.mp (of_decide_eq_true hmem)
  have hbs : bs[j]? = some x.2 := (h i j x.1 hxs hj).symm.trans has
  refine List.mem_filter.mpr ⟨List.mem_iff_getElem?.mpr ⟨j, ?_⟩, ?_⟩
  · exact List.getElem?_zip_eq_some.mpr ⟨hj, hbs⟩
  · exact decide_eq_true (List.mem_of_getElem? hxs)

theorem filter_zip_eq (hxs : xs.Pairwise (· < ·)) (hys : ys.Pairwise (· < ·))
    (has : xs.length = as.length) (hbs : ys.length = bs.length)
    (h : ∀ (i j : ℕ) (d : UInt64), xs[i]? = some d → ys[j]? = some d → as[i]? = bs[j]?) :
    ((xs.zip as).filter fun x => x.1 ∈ ys) = (ys.zip bs).filter fun x => x.1 ∈ xs := by
  have hleft := (pairwise_fst_zip hxs has).filter fun x => x.1 ∈ ys
  have hright := (pairwise_fst_zip hys hbs).filter fun x => x.1 ∈ xs
  have hirrefl : Std.Irrefl fun x y : UInt64 × β => x.1 < y.1 := ⟨fun x => UInt64.lt_irrefl x.1⟩
  refine List.Perm.eq_of_pairwise (fun x y _ _ hxy hyx => ?_) hleft hright ?_
  · exact absurd hxy (UInt64.lt_asymm hyx)
  rw [List.perm_ext_iff_of_nodup hleft.nodup hright.nodup]
  exact fun x => ⟨mem_filter_zip h, mem_filter_zip fun i j d hi hj => (h j i d hj hi).symm⟩

end Increasing

/-- What a revision makes of a proof over `own`, with the draws from `s` on: at each value of the
merged domain the reduced entries that the proof has there, and at the values that it lacks the
draws in turn. All the draws stand at those values, and nothing of the proof is lost but what has no
value in the merged domain. -/
structure LockStep (key : PublicKey) (proof : MembershipProof) (own merged : WordDomain) (s : σ)
    (answers : List Answer) : Prop where
  length_eq : answers.length = merged.values.length
  kept : ∀ (i j : ℕ) (d : UInt64), merged.values[i]? = some d → own.values[j]? = some d →
    ∃ sj cj : ℕ, proof.s[j]? = some sj ∧ proof.c[j]? = some cj ∧
      answers[i]? = some ⟨.ofNat sj key.q, .ofNat cj key.q⟩
  drawn : ∀ (i : ℕ) (d : UInt64), merged.values[i]? = some d → d ∉ own.values →
    let k := (merged.values.take i).countP fun e => e ∉ own.values
    answers[i]? = some
      ⟨exponent key.q (after key.q (2 * k) s), exponent key.q (after key.q (2 * k + 1) s)⟩
  all_drawn : ((merged.values.zip answers).filter fun x => x.1 ∉ own.values).map Prod.snd =
    Source.answers key.q (merged.values.countP fun d => d ∉ own.values) s
  all_kept : ((merged.values.zip answers).filter fun x => x.1 ∈ own.values) =
    (own.values.zip (proof.answers key)).filter fun x => x.1 ∈ merged.values

section LockStep
variable (hown : own.domain = .ok summand.domain)
  (hs : summand.proof.s.length = summand.domain.size)
  (hc : summand.proof.c.length = summand.domain.size)
include hown hs hc

omit hs hc in
theorem uncovered_eq (hmerged : merged.domain = .ok domain) :
    domain.uncovered summand.domain = merged.values.countP fun d => d ∉ own.values := by
  rw [Domain.uncovered, WordDomain.domain_eq_ok_iff.mp hmerged, WordDomain.numbers, List.countP_map]
  simp only [Function.comp_def, WordDomain.toNat_mem_iff hown]

theorem Fills.kept_eq {drawn answers : List Answer}
    (h : Fills (fun d => summand.answer? key d.toNat) merged.values drawn answers)
    (i j : ℕ) (d : UInt64) (hi : merged.values[i]? = some d) (hj : own.values[j]? = some d) :
    answers[i]? = (summand.proof.answers key)[j]? := by
  have hlength : (summand.proof.answers key).length = summand.domain.size :=
    Summand.length_own hs hc
  obtain ⟨hlt, -⟩ := List.getElem?_eq_some_iff.mp hj
  rw [WordDomain.length_values hown, ← hlength] at hlt
  rw [h.getElem?_eq hi, Summand.answer?_toNat hown hj, List.getElem?_eq_getElem hlt, Option.some_or]

theorem Fills.lockStep (hmerged : merged.values.Pairwise (· < ·)) {s : σ} {answers : List Answer}
    (h : Fills (fun d => summand.answer? key d.toNat) merged.values
      (Source.answers key.q (merged.values.countP fun d => d ∉ own.values) s) answers) :
    LockStep key summand.proof own merged s answers where
  length_eq := h.length_eq
  kept i j d hi hj := by
    obtain ⟨hlt, -⟩ := List.getElem?_eq_some_iff.mp hj
    rw [WordDomain.length_values hown] at hlt
    have hsj := List.getElem?_eq_getElem (hs ▸ hlt)
    have hcj := List.getElem?_eq_getElem (hc ▸ hlt)
    refine ⟨_, _, hsj, hcj, ?_⟩
    rw [h.kept_eq hown hs hc i j d hi hj, MembershipProof.answers, List.getElem?_zipWith, hsj, hcj]
  drawn i d hi hd := by
    have hgap (e : UInt64) : (summand.answer? key e.toNat).isNone = decide (e ∉ own.values) :=
      Summand.isNone_answer? hown hs hc e
    have hnone : summand.answer? key d.toNat = none :=
      Option.isNone_iff_eq_none.mp ((hgap d).trans (decide_eq_true hd))
    obtain ⟨a, ha, hdraw⟩ := h.exists_draw hi hnone
    simp only [hgap] at hdraw
    obtain ⟨hk, -⟩ := List.getElem?_eq_some_iff.mp hdraw
    rw [length_answers] at hk
    rw [ha, ← hdraw, getElem?_answers hk]
  all_drawn := by
    have hdrawn := h.drawn_eq
    simpa only [Summand.isNone_answer? hown hs hc] using hdrawn
  all_kept := filter_zip_eq hmerged (WordDomain.increasing_of_domain hown).2 h.length_eq.symm
    ((WordDomain.length_values hown).trans (Summand.length_own hs hc).symm) (h.kept_eq hown hs hc)

theorem exists_lockStep (hmerged : merged.domain = .ok domain) (s : σ) :
    ∃ answers, summand.stretch key domain s =
      (.ok answers, after key.q (2 * merged.values.countP fun d => d ∉ own.values) s) ∧
      LockStep key summand.proof own merged s answers := by
  refine ⟨_, ?_, Fills.lockStep hown hs hc (WordDomain.increasing_of_domain hmerged).2
    (Summand.fills_filled ?_)⟩
  · rw [Summand.stretch_eq hs hc, uncovered_eq hown hmerged, WordDomain.domain_eq_ok_iff.mp hmerged]
    rfl
  · simp only [length_answers, Summand.isNone_answer? hown hs hc]

end LockStep

namespace MembershipProof

/-- Revision keeps a proof in step with the merged domain, and draws twice for each value that the
proof lacks. It is what stretching is on numbers, whatever the lengths of the lists are. -/
theorem revise_lockStep (key : PublicKey) (proof : MembershipProof) (hown : own.Obtainable)
    (hmerged : merged.Obtainable) :
    (proof.s.length = own.values.length → proof.c.length = own.values.length → ∀ s : σ,
      ∃ answers, revise key proof own merged s =
        (.ok answers, after key.q (2 * merged.values.countP fun d => d ∉ own.values) s) ∧
        LockStep key proof own merged s answers) ∧
    ∀ (summand : Summand) (domain : Domain), summand.proof = proof →
      own.domain = .ok summand.domain → merged.domain = .ok domain →
      ∀ s : σ, revise key proof own merged s = summand.stretch key domain s := by
  obtain ⟨ownDomain, hownDomain⟩ := hown.increasing.exists_domain
  obtain ⟨domain, hdomain⟩ := hmerged.increasing.exists_domain
  refine ⟨fun hs hc s => ?_, ?_⟩
  · let summand : Summand := ⟨⟨key.g, key.h⟩, proof, .zero key.q, ownDomain⟩
    have hsummand : own.domain = .ok summand.domain := hownDomain
    have hlength := WordDomain.length_values hsummand
    have hrun : (revise key summand.proof own merged : Randomized σ SumFailure (List Answer)) =
        summand.stretch key domain := revise_eq_stretch hsummand rfl hdomain
    obtain ⟨answers, hanswers, hstep⟩ :=
      exists_lockStep hsummand (hs.trans hlength) (hc.trans hlength) hdomain s
    exact ⟨answers, (congrFun hrun s).trans hanswers, hstep⟩
  · rintro summand merged rfl hown hmerged s
    exact congrFun (revise_eq_stretch hown rfl hmerged) s

theorem revise_lockStep_overlapping :
    let q := PublicKey.small.q
    let proof : MembershipProof := ⟨23, 11, [], [], [4, 15, 6, 7], [1, 2, 30, 9]⟩
    let own : WordDomain := ⟨[2, 5, 9, 12]⟩
    let merged : WordDomain := ⟨[1, 5, 7, 9, 20]⟩
    own.Obtainable ∧ merged.Obtainable ∧ ∃ answers,
      revise .small proof own merged (⟨[3, 4, 5, 6, 7, 8, 9]⟩ : Tape) = (.ok answers, ⟨[9]⟩) ∧
      answers.length = 5 ∧ answers[1]? = some ⟨.ofNat 15 q, .ofNat 2 q⟩ ∧
      answers[3]? = some ⟨.ofNat 6 q, .ofNat 30 q⟩ ∧
      answers[4]? = some ⟨.ofNat 7 q, .ofNat 8 q⟩ ∧
      ((merged.values.zip answers).filter fun x => x.1 ∈ own.values) =
        [(5, ⟨.ofNat 15 q, .ofNat 2 q⟩), (9, ⟨.ofNat 6 q, .ofNat 30 q⟩)] := by
  intro q proof own merged
  have hown : own.Obtainable := WordDomain.Increasing.obtainable ⟨by decide, by decide⟩
  have hmerged : merged.Obtainable := WordDomain.Increasing.obtainable ⟨by decide, by decide⟩
  obtain ⟨answers, hrun, hstep⟩ := (revise_lockStep .small proof hown hmerged).1 rfl rfl
    (⟨[3, 4, 5, 6, 7, 8, 9]⟩ : Tape)
  obtain ⟨_, _, hs₁, hc₁, hfive⟩ := hstep.kept 1 1 5 rfl rfl
  obtain ⟨_, _, hs₂, hc₂, hnine⟩ := hstep.kept 3 2 9 rfl rfl
  cases hs₁
  cases hc₁
  cases hs₂
  cases hc₂
  have hstate : after q (2 * merged.values.countP fun d => d ∉ own.values)
      (⟨[3, 4, 5, 6, 7, 8, 9]⟩ : Tape) = ⟨[9]⟩ := by decide
  have htwenty := hstep.drawn 4 20 rfl (by decide)
  have hkept := hstep.all_kept
  exact ⟨hown, hmerged, answers, hrun.trans (congrArg _ hstate), hstep.length_eq, hfive, hnine,
    htwenty, hkept.trans (by decide)⟩

end MembershipProof

end SecretTally

end
