import Mathlib
import SecretTally.Proof.Branch
import SecretTally.Proofs.Proof.Check
import SecretTally.Proofs.Proof.Commitment

/-! Closing a proof. If every branch is answered from the start, or open at a value that the pair
encrypts, then each commitment of the closed proof fits its answer. The shares add up to the
challenge as well, unless several open branches hold what is left of it. -/

noncomputable section
namespace SecretTally

variable {key : PublicKey} {m d : ℕ} {r t share : Exponent}

/-- The two ways to make a branch for `d` when the pair encrypts `m` with randomness `r`. -/
inductive Branch.Fits (key : PublicKey) (m : ℕ) (r t : Exponent) (d : ℕ) : Branch → Prop
  | simulated {a : Answer} (ha : a.InRing key.q) :
      Fits key m r t d (.simulated (a.commitment key (Pair.encrypt key m r) d) a)
  | committed (hd : (d : ZMod key.q.value) = m) : Fits key m r t d (.committed key t)

def Branch.closed (closing : Answer) (b : Branch) : Answer := b.answer.getD closing

structure Branch.InGroup (key : PublicKey) (b : Branch) : Prop where
  modulus_y : b.commitment.y.modulus = key.p
  modulus_z : b.commitment.z.modulus = key.p
  inRing : ∀ a, b.answer = some a → a.InRing key.q

namespace Branch
variable {a : Answer}

theorem inGroup_simulated {commitment : Commitment} (hy : commitment.y.modulus = key.p)
    (hz : commitment.z.modulus = key.p) (ha : a.InRing key.q) :
    (simulated commitment a).InGroup key :=
  ⟨hy, hz, fun _ h => Option.some.inj h ▸ ha⟩

theorem inGroup_committed : (committed key t).InGroup key :=
  ⟨key.isGenerator_g.modulus_eq, key.isGenerator_h.modulus_eq, fun _ h => nomatch h⟩

theorem InGroup.closed_inRing {b : Branch} {closing : Answer} (h : b.InGroup key)
    (hclosing : closing.InRing key.q) : (b.closed closing).InRing key.q := by
  unfold closed
  cases hanswer : b.answer with
  | none => exact hclosing
  | some a => exact h.inRing a hanswer

end Branch

theorem closingAnswer_inRing (hs : share.modulus = key.q) :
    (closingAnswer t r share).InRing key.q := ⟨hs, hs⟩

theorem closingAnswer_commitment (hs : share.modulus = key.q) (hd : (d : ZMod key.q.value) = m) :
    (closingAnswer t r share).commitment key (Pair.encrypt key m r) d = ⟨key.g ^ t, key.h ^ t⟩ := by
  have hresponse : (closingAnswer t r share).s.toZMod key.q =
      share.toZMod key.q * r.toZMod key.q + t.toZMod key.q := by
    rw [closingAnswer, Exponent.toZMod_add (by simpa using hs), Exponent.toZMod_mul hs]
  rw [Pair.encrypt_eq, Answer.commitment_eq (closingAnswer_inRing hs), hresponse, hd]
  simp only [closingAnswer, PublicKey.g_eq, PublicKey.h_eq, Point.element_pow, Commitment.mk.injEq,
    Point.element_inj]
  constructor <;> module

theorem closingAnswer_eq {a : Answer} (ha : a.InRing key.q) (r : Exponent) :
    closingAnswer (a.s - a.c * r) r a.c = a := by
  have hproduct : (a.c * r).modulus = key.q := ha.modulus_c
  have hsum : (a.c * r + (a.s - a.c * r)).modulus = key.q := ha.modulus_c
  have hs : a.c * r + (a.s - a.c * r) = a.s := by
    rw [← Exponent.toZMod_inj hsum ha.modulus_s, Exponent.toZMod_add hproduct,
      Exponent.toZMod_sub ha.modulus_s, add_sub_cancel]
  rw [closingAnswer, hs]

theorem closingAnswer_scalar_inj {t' share' : Exponent} (ht : t.modulus = key.q)
    (ht' : t'.modulus = key.q) (hs : share.modulus = key.q)
    (h : closingAnswer t r share = closingAnswer t' r share') : t = t' := by
  obtain ⟨hresponse, rfl⟩ := Answer.mk.inj h
  have hproduct : (share * r).modulus = key.q := hs
  have hclass := congrArg (Exponent.toZMod key.q) hresponse
  rw [Exponent.toZMod_add hproduct, Exponent.toZMod_add hproduct, add_right_inj] at hclass
  exact (Exponent.toZMod_inj ht ht').mp hclass

namespace Branch.Fits
variable {b : Branch} (h : b.Fits key m r t d)
include h

theorem inGroup : b.InGroup key := by
  cases h with
  | simulated ha =>
    exact Branch.inGroup_simulated (modulus_commitment_y _ _ d) (modulus_commitment_z _ _ d) ha
  | committed _ => exact Branch.inGroup_committed

theorem closed_commitment (hs : share.modulus = key.q) :
    (b.closed (closingAnswer t r share)).commitment key (Pair.encrypt key m r) d =
      b.commitment := by
  cases h with
  | simulated _ => rfl
  | committed hd => exact closingAnswer_commitment hs hd

theorem exists_points : ∃ y z : Point key, b.commitment = ⟨y.element, z.element⟩ := by
  cases h with
  | @simulated a ha =>
    change ∃ y z : Point key, a.commitment key (Pair.encrypt key m r) d = _
    rw [Pair.encrypt_eq, Answer.commitment_eq ha]
    exact ⟨_, _, rfl⟩
  | committed _ =>
    refine ⟨t.toZMod key.q • key.gPoint, t.toZMod key.q • key.hPoint, ?_⟩
    simp [Branch.committed, PublicKey.g_eq, PublicKey.h_eq]

end Branch.Fits

theorem forall₂_zipWith {α β γ : Type} {R : α → γ → Prop} {f : α → β → γ} {as : List α}
    {bs : List β} (hlength : bs.length = as.length) (h : ∀ a, ∀ b ∈ bs, R a (f a b)) :
    List.Forall₂ R as (List.zipWith f as bs) := by
  induction as generalizing bs with
  | nil => exact .nil
  | cons a as ih =>
    obtain _ | ⟨b, bs⟩ := bs
    · cases hlength
    · refine .cons (h a b List.mem_cons_self) (ih (Nat.succ.inj hlength) fun a c hc => ?_)
      exact h a c (List.mem_cons_of_mem _ hc)

theorem forall_mem_zipWith {α β γ : Type} {P : γ → Prop} {f : α → β → γ} {as : List α}
    {bs : List β} (h : ∀ a, ∀ b ∈ bs, P (f a b)) : ∀ c ∈ List.zipWith f as bs, P c := by
  intro c hc
  obtain ⟨i, hi, rfl⟩ := List.mem_iff_getElem.mp hc
  rw [List.getElem_zipWith]
  exact h _ _ (List.getElem_mem _)

theorem exists_of_mem_right {α β : Type} {R : α → β → Prop} {as : List α} {bs : List β}
    (h : List.Forall₂ R as bs) {b : β} (hb : b ∈ bs) : ∃ a, R a b := by
  induction h with
  | nil => cases hb
  | cons hab _ ih =>
    rcases List.mem_cons.mp hb with rfl | hb
    · exact ⟨_, hab⟩
    · exact ih hb

theorem countP_zipWith {α β γ : Type} {f : α → β → γ} {as : List α} {bs : List β} {p : γ → Bool}
    {p' : α → Bool} (hlength : bs.length = as.length) (h : ∀ a b, p (f a b) = p' a) :
    (List.zipWith f as bs).countP p = as.countP p' := by
  induction as generalizing bs with
  | nil => rfl
  | cons a as ih =>
    obtain _ | ⟨b, bs⟩ := bs
    · cases hlength
    · rw [List.zipWith_cons_cons, List.countP_cons, List.countP_cons, ih (Nat.succ.inj hlength), h]

theorem modulus_foldl_share (as : List Answer) (start : Exponent) :
    (as.foldl (fun sum a => sum + a.c) start).modulus = start.modulus := by
  induction as generalizing start with
  | nil => rfl
  | cons a as ih => exact ih (start + a.c)

theorem toZMod_foldl_share {q : Modulus} (as : List Answer) {start : Exponent}
    (h : start.modulus = q) : (as.foldl (fun sum a => sum + a.c) start).toZMod q =
      start.toZMod q + (as.map fun a => a.c.toZMod q).sum := by
  induction as generalizing start with
  | nil => simp
  | cons a as ih =>
    have hnext : (start + a.c).modulus = q := h
    rw [List.foldl_cons, ih hnext, Exponent.toZMod_add h, List.map_cons, List.sum_cons, add_assoc]

def answeredShare (q : Modulus) : List Branch → ZMod q.value
  | [] => 0
  | ⟨_, none⟩ :: rest => answeredShare q rest
  | ⟨_, some a⟩ :: rest => a.c.toZMod q + answeredShare q rest

theorem modulus_remainingShare (challenge : Exponent) (branches : List Branch) :
    (remainingShare challenge branches).modulus = challenge.modulus := by
  induction branches generalizing challenge with
  | nil => rfl
  | cons b branches ih =>
    rcases b with ⟨commitment, _ | a⟩
    · exact ih challenge
    · exact ih (challenge - a.c)

theorem toZMod_remainingShare {q : Modulus} {challenge : Exponent} (h : challenge.modulus = q)
    (branches : List Branch) : (remainingShare challenge branches).toZMod q =
      challenge.toZMod q - answeredShare q branches := by
  induction branches generalizing challenge with
  | nil => rw [remainingShare, answeredShare, sub_zero]
  | cons b branches ih =>
    rcases b with ⟨commitment, _ | a⟩
    · exact ih h
    · have hnext : (challenge - a.c).modulus = q := h
      rw [remainingShare, answeredShare, ih hnext, Exponent.toZMod_sub h, sub_sub]

theorem sum_closed_share (q : Modulus) (closing : Answer) (branches : List Branch) :
    ((branches.map (Branch.closed closing)).map fun a => a.c.toZMod q).sum =
      answeredShare q branches + branches.countP Branch.isOpen * closing.c.toZMod q := by
  induction branches with
  | nil => simp [answeredShare]
  | cons b branches ih =>
    rw [List.map_cons, List.map_cons, List.sum_cons, ih]
    rcases b with ⟨commitment, _ | a⟩
    · simp only [answeredShare, Branch.closed, Branch.isOpen, List.countP_cons, Option.getD_none,
        Option.isNone_none, if_true]
      push_cast
      ring
    · simp only [answeredShare, Branch.closed, Branch.isOpen, List.countP_cons, Option.getD_some,
        Option.isNone_some]
      push_cast
      ring

variable {digest : Digest} {ds : List ℕ} {branches : List Branch}

def closingShare (digest : Digest) (key : PublicKey) (pair : Pair) (branches : List Branch) :
    Exponent :=
  remainingShare (key.challenge digest pair (branches.map Branch.commitment)) branches

theorem modulus_challenge (pair : Pair) (commitments : List Commitment) :
    (key.challenge digest pair commitments).modulus = key.q := rfl

theorem modulus_closingShare (pair : Pair) :
    (closingShare digest key pair branches).modulus = key.q := modulus_remainingShare _ _

theorem size_closeProof (pair : Pair) :
    (closeProof digest key pair t r branches).size = branches.length := by
  simp [closeProof, MembershipProof.size]

theorem closeProof_c_of_isOpen (pair : Pair) {b : Branch} {i : ℕ} (hb : branches[i]? = some b)
    (hopen : b.isOpen = true) : (closeProof digest key pair t r branches).c[i]? =
      some (closingShare digest key pair branches).value := by
  obtain ⟨commitment, _ | a⟩ := b
  · simp [closeProof, hb, closingAnswer, closingShare]
  · cases hopen

theorem mul_share_eq_self_iff {q : Modulus} {k : ℕ} (hpos : 0 < k) {share : Exponent} :
    k * share.toZMod q = share.toZMod q ↔ (k - 1) * share.value ≡ 0 [MOD q.value] := by
  obtain ⟨k, rfl⟩ := Nat.exists_eq_add_of_lt hpos
  rw [zero_add, Nat.add_sub_cancel, Exponent.toZMod, ← ZMod.natCast_eq_natCast_iff]
  push_cast
  rw [add_one_mul, add_eq_right]

theorem zipWith_ofNat_value {q : Modulus} {as : List Answer} (h : ∀ a ∈ as, a.InRing q) :
    List.zipWith (fun s c => Answer.mk (Exponent.ofNat s q) (Exponent.ofNat c q))
      (as.map fun a => a.s.value) (as.map fun a => a.c.value) = as := by
  induction as with
  | nil => rfl
  | cons a as ih =>
    have ha := h a List.mem_cons_self
    have hs : Exponent.ofNat a.s.value q = a.s := ha.modulus_s ▸ a.s.ofNat_value
    have hc : Exponent.ofNat a.c.value q = a.c := ha.modulus_c ▸ a.c.ofNat_value
    rw [List.map_cons, List.map_cons, List.zipWith_cons_cons, hs, hc,
      ih fun b hb => h b (List.mem_cons_of_mem _ hb)]

section InGroup
variable (h : ∀ b ∈ branches, b.InGroup key) (pair : Pair)
include h

theorem closed_inRing : ∀ b ∈ branches,
    (b.closed (closingAnswer t r (closingShare digest key pair branches))).InRing key.q :=
  fun b hb => (h b hb).closed_inRing (closingAnswer_inRing (modulus_closingShare pair))

theorem closeProof_y_lt : ∀ y ∈ (closeProof digest key pair t r branches).y, y < key.p.value := by
  simp only [closeProof, List.forall_mem_map]
  exact fun b hb => (h b hb).modulus_y ▸ b.commitment.y.value_lt

theorem closeProof_z_lt : ∀ z ∈ (closeProof digest key pair t r branches).z, z < key.p.value := by
  simp only [closeProof, List.forall_mem_map]
  exact fun b hb => (h b hb).modulus_z ▸ b.commitment.z.value_lt

theorem closeProof_s_lt : ∀ s ∈ (closeProof digest key pair t r branches).s, s < key.q.value := by
  simp only [closeProof, List.map_map, List.forall_mem_map]
  exact fun b hb => (closed_inRing h pair b hb).s_lt

theorem closeProof_c_lt : ∀ c ∈ (closeProof digest key pair t r branches).c, c < key.q.value := by
  simp only [closeProof, List.map_map, List.forall_mem_map]
  exact fun b hb => (closed_inRing h pair b hb).c_lt

theorem closeProof_answers :
    (closeProof digest key pair t r branches).answers key =
      branches.map (Branch.closed (closingAnswer t r (closingShare digest key pair branches))) := by
  refine zipWith_ofNat_value fun a ha => ?_
  obtain ⟨b, hb, rfl⟩ := List.mem_map.mp ha
  exact closed_inRing h pair b hb

/-- The shares miss the challenge by one closing share for every open branch but one. -/
theorem closeProof_totalShare :
    ((closeProof digest key pair t r branches).totalShare key).toZMod key.q =
      (key.challenge digest pair (branches.map Branch.commitment)).toZMod key.q
        - (closingShare digest key pair branches).toZMod key.q
        + branches.countP Branch.isOpen * (closingShare digest key pair branches).toZMod key.q := by
  rw [MembershipProof.totalShare, toZMod_foldl_share _ (Exponent.modulus_zero key.q),
    closeProof_answers h, sum_closed_share]
  have hshare : (closingShare digest key pair branches).toZMod key.q =
      (key.challenge digest pair (branches.map Branch.commitment)).toZMod key.q
        - answeredShare key.q branches := toZMod_remainingShare rfl branches
  rw [closingAnswer, hshare, Exponent.toZMod_zero]
  ring

theorem closeProof_totalShare_eq_iff (hpos : 0 < branches.countP Branch.isOpen) :
    (closeProof digest key pair t r branches).totalShare key =
        key.challenge digest pair (branches.map Branch.commitment) ↔
      (branches.countP Branch.isOpen - 1) * (closingShare digest key pair branches).value
        ≡ 0 [MOD key.q.value] := by
  have hmodulus : ((closeProof digest key pair t r branches).totalShare key).modulus = key.q :=
    modulus_foldl_share _ _
  rw [← Exponent.toZMod_inj hmodulus (modulus_challenge _ _), closeProof_totalShare h pair,
    ← mul_share_eq_self_iff hpos, sub_add, sub_eq_self, sub_eq_zero]
  exact eq_comm

end InGroup

section Fitting
variable (h : List.Forall₂ (Branch.Fits key m r t) ds branches)
include h

theorem inGroup_of_fits : ∀ b ∈ branches, b.InGroup key := by
  intro b hb
  obtain ⟨d, hfits⟩ := exists_of_mem_right h hb
  exact hfits.inGroup

theorem zipWith_closed_commitment (hs : share.modulus = key.q) (rest : List ℕ) :
    List.zipWith (fun d a => a.commitment key (Pair.encrypt key m r) d) (ds ++ rest)
      (branches.map (Branch.closed (closingAnswer t r share))) =
        branches.map Branch.commitment := by
  induction h with
  | nil => simp
  | cons hfits _ ih =>
    rw [List.cons_append, List.map_cons, List.map_cons, List.zipWith_cons_cons,
      hfits.closed_commitment hs, ih]

theorem closeProof_commitments {domain : Domain} (hd : ds <+: domain.values) :
    (closeProof digest key (Pair.encrypt key m r) t r branches).commitments key
      (Pair.encrypt key m r) domain = branches.map Branch.commitment := by
  obtain ⟨rest, hrest⟩ := hd
  rw [MembershipProof.commitments, closeProof_answers (inGroup_of_fits h), ← hrest]
  exact zipWith_closed_commitment h (modulus_closingShare _) rest

theorem closeProof_wellShaped (pair : Pair) {domain : Domain} (hd : ds <+: domain.values) :
    (closeProof digest key pair t r branches).WellShaped key domain := by
  have hgroup : ∀ b ∈ branches, b.InGroup key := inGroup_of_fits h
  refine ⟨?_, ?_, ?_, ?_, closeProof_s_lt hgroup pair, closeProof_c_lt hgroup pair, ?_, ?_⟩
  · simp [closeProof, MembershipProof.size]
  · simp [closeProof, MembershipProof.size]
  · simp [closeProof, MembershipProof.size]
  · simpa [closeProof, MembershipProof.size, Domain.size, ← h.length_eq] using hd.length_le
  · simp only [closeProof, List.forall_mem_map]
    intro b hb
    obtain ⟨d, hfits⟩ := exists_of_mem_right h hb
    obtain ⟨y, z, hpoints⟩ := hfits.exists_points
    rw [hpoints]
    exact ⟨y.element_value_pos, y.element.value_lt⟩
  · simp only [closeProof, List.forall_mem_map]
    intro b hb
    obtain ⟨d, hfits⟩ := exists_of_mem_right h hb
    obtain ⟨y, z, hpoints⟩ := hfits.exists_points
    rw [hpoints]
    exact ⟨z.element_value_pos, z.element.value_lt⟩

theorem check_closeProof {domain : Domain} (hd : ds <+: domain.values) :
    (closeProof digest key (Pair.encrypt key m r) t r branches).check digest key
      (Pair.encrypt key m r) domain = .ok (decide (branches.countP Branch.isOpen
        * (closingShare digest key (Pair.encrypt key m r) branches).toZMod key.q =
          (closingShare digest key (Pair.encrypt key m r) branches).toZMod key.q)) := by
  have hmatch : (closeProof digest key (Pair.encrypt key m r) t r branches).matchesKey key = true :=
    by simp [closeProof, MembershipProof.matchesKey]
  have hcommitments : (closeProof digest key (Pair.encrypt key m r) t r branches).commitments key
      (Pair.encrypt key m r) domain = branches.map Branch.commitment := closeProof_commitments h hd
  rw [MembershipProof.check_of_matches hmatch (PublicKey.ownsPair_encrypt m r), Except.ok.injEq,
    Bool.eq_iff_iff, MembershipProof.holds_iff, decide_eq_true_eq]
  constructor
  · intro hholds
    have htotal := congrArg (Exponent.toZMod key.q) hholds.total_eq
    rw [closeProof_totalShare (inGroup_of_fits h), hcommitments] at htotal
    linear_combination htotal
  · intro hshare
    refine ⟨closeProof_wellShaped h _ hd, ?_, ?_, ?_⟩
    · rw [hcommitments, List.map_map]
      rfl
    · rw [hcommitments, List.map_map]
      rfl
    · have htotal := @closeProof_totalShare _ r t digest _ (inGroup_of_fits h) (Pair.encrypt key m r)
      rw [hshare, sub_add_cancel] at htotal
      rw [hcommitments]
      exact (Exponent.toZMod_inj (modulus_foldl_share _ _) (modulus_challenge _ _)).mp htotal

end Fitting

section Reclosing
variable {proof : MembershipProof} {pair : Pair} {domain : Domain} {closing : Answer}
  (h : proof.Holds digest key pair domain)
  (hcommitments : branches.map Branch.commitment = proof.commitments key pair domain)
include h hcommitments

theorem closingShare_eq_of_holds (hclosing : closing.InRing key.q)
    (hclosed : branches.map (Branch.closed closing) = proof.answers key)
    (hone : branches.countP Branch.isOpen = 1) :
    closingShare digest key pair branches = closing.c := by
  have hsum := sum_closed_share key.q closing branches
  have htotal := congrArg (Exponent.toZMod key.q) h.total_eq
  rw [MembershipProof.totalShare, toZMod_foldl_share _ (Exponent.modulus_zero key.q), ← hclosed,
    hsum, hone, ← hcommitments, Exponent.toZMod_zero, zero_add, Nat.cast_one, one_mul] at htotal
  rw [← Exponent.toZMod_inj (modulus_closingShare pair) hclosing.modulus_c, closingShare,
    toZMod_remainingShare (modulus_challenge _ _), ← htotal, add_sub_cancel_left]

theorem closeProof_eq_of_holds (hmatch : proof.matchesKey key = true)
    (hclosed : branches.map (Branch.closed (closingAnswer t r
      (closingShare digest key pair branches))) = proof.answers key) :
    closeProof digest key pair t r branches = proof := by
  obtain ⟨p, q, y, z, s, c⟩ := proof
  simp only [MembershipProof.matchesKey, Bool.and_eq_true, decide_eq_true_eq] at hmatch
  have hy := h.y_eq
  have hz := h.z_eq
  have hs := h.shape.map_s_answers
  have hc := h.shape.map_c_answers
  rw [← hcommitments, List.map_map] at hy hz
  rw [← hclosed] at hs hc
  rw [closeProof, MembershipProof.mk.injEq]
  exact ⟨hmatch.1.symm, hmatch.2.symm, hy.symm, hz.symm, hs, hc⟩

end Reclosing
end SecretTally

end
