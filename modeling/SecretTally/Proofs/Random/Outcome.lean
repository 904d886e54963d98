import Mathlib
import SecretTally.Random.Source

/-! What randomized computations end in, whatever they draw: an outcome with a property, a value with
a property, no value without it, or one failure. The rules take a computation apart step by step. -/

namespace SecretTally.Randomized
variable {σ ε α β : Type}

def Ends (x : Randomized σ ε α) (R : Except ε α → Prop) : Prop := ∀ s, R (x s).1

/-- No draw leads to a failure or to a value without `P`. -/
def Returns (x : Randomized σ ε α) (P : α → Prop) : Prop :=
  Ends x fun outcome => ∃ a, outcome = .ok a ∧ P a

/-- No draw leads to a value without `P`; failures are allowed. -/
def Yields (x : Randomized σ ε α) (P : α → Prop) : Prop :=
  Ends x fun outcome => ∀ a, outcome = .ok a → P a

def Fails (x : Randomized σ ε α) (e : ε) : Prop := Ends x (· = .error e)

theorem bind_apply (x : Randomized σ ε α) (f : α → Randomized σ ε β) (s : σ) :
    (x >>= f) s = match x s with
      | (.ok a, s) => f a s
      | (.error e, s) => (.error e, s) := by
  change (x s >>= fun o => ExceptT.bindCont f o.1 o.2 : Id _) = _
  rcases x s with ⟨_ | a, s'⟩ <;> rfl

theorem bind_of_ok {x : Randomized σ ε α} {s s' : σ} {a : α} (hx : x s = (.ok a, s'))
    (f : α → Randomized σ ε β) : (x >>= f) s = f a s' := by
  rw [bind_apply, hx]

theorem ends_pure {R : Except ε α → Prop} {a : α} (h : R (.ok a)) :
    Ends (pure a : Randomized σ ε α) R := fun _ => h

theorem ends_throw {R : Except ε α → Prop} {e : ε} (h : R (.error e)) :
    Ends (throw e : Randomized σ ε α) R := fun _ => h

theorem returns_pure {P : α → Prop} {a : α} (h : P a) :
    Returns (pure a : Randomized σ ε α) P := ends_pure ⟨a, rfl, h⟩

theorem Returns.bind_ends {x : Randomized σ ε α} {f : α → Randomized σ ε β} {P : α → Prop}
    {R : Except ε β → Prop} (hx : Returns x P) (hf : ∀ a, P a → Ends (f a) R) :
    Ends (x >>= f) R := by
  intro s
  obtain ⟨a, ha, hp⟩ := hx s
  rw [bind_apply]
  rcases hs : x s with ⟨outcome, s'⟩
  rw [hs] at ha
  subst ha
  exact hf a hp s'

theorem Returns.bind {x : Randomized σ ε α} {f : α → Randomized σ ε β} {P : α → Prop}
    {Q : β → Prop} (hx : Returns x P) (hf : ∀ a, P a → Returns (f a) Q) :
    Returns (x >>= f) Q := hx.bind_ends hf

theorem Returns.imp {x : Randomized σ ε α} {P Q : α → Prop} (hx : Returns x P)
    (h : ∀ a, P a → Q a) : Returns x Q :=
  fun s => (hx s).imp fun a ha => ⟨ha.1, h a ha.2⟩

theorem returns_mapM {f : α → Randomized σ ε β} {R : α → β → Prop} {items : List α}
    (hf : ∀ a ∈ items, Returns (f a) (R a)) : Returns (items.mapM f) (List.Forall₂ R items) := by
  induction items with
  | nil => exact returns_pure .nil
  | cons a items ih =>
    rw [List.mapM_cons]
    refine (hf a List.mem_cons_self).bind fun b hb => ?_
    refine (ih fun a ha => hf a (List.mem_cons_of_mem _ ha)).bind fun bs hbs => ?_
    exact returns_pure (.cons hb hbs)

theorem returns_random [Source σ] (q : Modulus) :
    Returns (Exponent.random q : Randomized σ ε Exponent) (·.modulus = q) :=
  fun _ => ⟨_, rfl, rfl⟩

theorem Returns.adapt {ε' : Type} {x : Randomized σ ε α} {P : α → Prop} (hx : Returns x P)
    (f : ε → ε') : Returns (ExceptT.adapt f x : Randomized σ ε' α) P := by
  intro s
  obtain ⟨a, ha, hp⟩ := hx s
  refine ⟨a, ?_, hp⟩
  change (x s).1.mapError f = .ok a
  rw [ha]
  rfl

theorem Returns.yields {x : Randomized σ ε α} {P : α → Prop} (hx : Returns x P) : Yields x P := by
  intro s b hb
  obtain ⟨a, ha, hp⟩ := hx s
  exact Except.ok.inj (ha.symm.trans hb) ▸ hp

theorem yields_pure {P : α → Prop} {a : α} (h : P a) : Yields (pure a : Randomized σ ε α) P :=
  (returns_pure h).yields

theorem yields_throw {P : α → Prop} (e : ε) : Yields (throw e : Randomized σ ε α) P :=
  ends_throw fun _ h => nomatch h

theorem Yields.bind {x : Randomized σ ε α} {f : α → Randomized σ ε β} {P : α → Prop}
    {Q : β → Prop} (hx : Yields x P) (hf : ∀ a, P a → Yields (f a) Q) : Yields (x >>= f) Q := by
  intro s b hb
  have hvalue := hx s
  rw [bind_apply] at hb
  rcases hs : x s with ⟨_ | a, s'⟩
  · rw [hs] at hb
    cases hb
  · rw [hs] at hb hvalue
    exact hf a (hvalue a rfl) s' b hb

theorem Yields.imp {x : Randomized σ ε α} {P Q : α → Prop} (hx : Yields x P)
    (h : ∀ a, P a → Q a) : Yields x Q := fun s a ha => h a (hx s a ha)

theorem yields_mapM {f : α → Randomized σ ε β} {R : α → β → Prop} {items : List α}
    (hf : ∀ a ∈ items, Yields (f a) (R a)) : Yields (items.mapM f) (List.Forall₂ R items) := by
  induction items with
  | nil => exact yields_pure .nil
  | cons a items ih =>
    rw [List.mapM_cons]
    refine (hf a List.mem_cons_self).bind fun b hb => ?_
    refine (ih fun a ha => hf a (List.mem_cons_of_mem _ ha)).bind fun bs hbs => ?_
    exact yields_pure (.cons hb hbs)

theorem Ends.imp {x : Randomized σ ε α} {R S : Except ε α → Prop} (hx : Ends x R)
    (h : ∀ outcome, R outcome → S outcome) : Ends x S := fun s => h _ (hx s)

theorem Ends.bind_pure {x : Randomized σ ε α} {R : Except ε α → Prop} (hx : Ends x R) (f : α → β) :
    Ends (x >>= fun a => pure (f a)) fun outcome => ∃ before, R before ∧ outcome = before.map f := by
  intro s
  have hbefore := hx s
  rw [bind_apply]
  rcases hs : x s with ⟨_ | a, s'⟩ <;> rw [hs] at hbefore <;> exact ⟨_, hbefore, rfl⟩

theorem fails_throw (e : ε) : Fails (throw e : Randomized σ ε α) e := ends_throw rfl

theorem Fails.bind {x : Randomized σ ε α} {e : ε} (hx : Fails x e) (f : α → Randomized σ ε β) :
    Fails (x >>= f) e := by
  intro s
  have hfail := hx s
  rw [bind_apply]
  rcases hs : x s with ⟨outcome, s'⟩
  rw [hs] at hfail
  subst hfail
  rfl

theorem fails_mapM {f : α → Randomized σ ε β} {P : β → Prop} {items : List α} {e : ε}
    (hf : ∀ a ∈ items, Returns (f a) P ∨ Fails (f a) e) (hfails : ∃ a ∈ items, Fails (f a) e) :
    Fails (items.mapM f) e := by
  induction items with
  | nil => simp at hfails
  | cons a items ih =>
    rw [List.forall_mem_cons] at hf
    rw [List.exists_mem_cons_iff] at hfails
    rw [List.mapM_cons]
    rcases hfails with hhead | htail
    · exact hhead.bind _
    · have hrest := ih hf.2 htail
      rcases hf.1 with hreturns | hhead
      · exact hreturns.bind_ends fun b _ => hrest.bind _
      · exact hhead.bind _

end SecretTally.Randomized
