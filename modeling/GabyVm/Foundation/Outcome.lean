import Mathlib.Tactic.TypeStar

/-!
Actions on a state that may abort.

An action maps a state to a value and a new state, to an abort that carries a
reason and the state reached so far, or to `timeout` when its fuel ran out.
Two rules are developed here for reasoning about actions: `Outcome.Ensures`
states a postcondition of the normal result, and `Outcome.Rel` compares two
results up to a relation on their states.
-/

namespace GabyVm.Foundation

inductive Outcome (ε σ α : Type) where
  | ok (value : α) (state : σ)
  | abort (reason : ε) (state : σ)
  | timeout
  deriving DecidableEq, Repr

namespace Outcome

variable {ε σ σ' α β γ : Type}

def bind (o : Outcome ε σ α) (f : α → σ → Outcome ε σ β) : Outcome ε σ β :=
  match o with
  | .ok a s => f a s
  | .abort e s => .abort e s
  | .timeout => .timeout

@[simp] theorem bind_ok (a : α) (s : σ) (f : α → σ → Outcome ε σ β) :
    (Outcome.ok a s).bind f = f a s := rfl

@[simp] theorem bind_abort (e : ε) (s : σ) (f : α → σ → Outcome ε σ β) :
    (Outcome.abort e s : Outcome ε σ α).bind f = .abort e s := rfl

@[simp] theorem bind_timeout (f : α → σ → Outcome ε σ β) :
    (Outcome.timeout : Outcome ε σ α).bind f = .timeout := rfl

@[simp] theorem bind_ok_self (o : Outcome ε σ α) : (o.bind fun a s => .ok a s) = o := by
  cases o <;> rfl

@[simp] theorem bind_ok_unit (o : Outcome ε σ Unit) : (o.bind fun _ s => .ok () s) = o :=
  bind_ok_self o

theorem bind_assoc (o : Outcome ε σ α) (f : α → σ → Outcome ε σ β)
    (g : β → σ → Outcome ε σ γ) :
    (o.bind f).bind g = o.bind fun a s => (f a s).bind g := by
  cases o <;> rfl

theorem bind_eq_ok {o : Outcome ε σ α} {f : α → σ → Outcome ε σ β} {b : β} {t : σ} :
    o.bind f = .ok b t ↔ ∃ a s, o = .ok a s ∧ f a s = .ok b t := by
  cases o with
  | ok a s =>
      constructor
      · intro h
        exact ⟨a, s, rfl, h⟩
      · rintro ⟨_, _, ⟨⟩, h⟩
        exact h
  | abort e s => simp
  | timeout => simp

theorem bind_eq_abort {o : Outcome ε σ α} {f : α → σ → Outcome ε σ β} {e : ε} {t : σ} :
    o.bind f = .abort e t ↔
      o = .abort e t ∨ ∃ a s, o = .ok a s ∧ f a s = .abort e t := by
  cases o with
  | ok a s =>
      constructor
      · intro h
        exact .inr ⟨a, s, rfl, h⟩
      · rintro (h | ⟨_, _, ⟨⟩, h⟩)
        · cases h
        · exact h
  | abort e s => simp
  | timeout => simp

def state? : Outcome ε σ α → Option σ
  | .ok _ s => some s
  | .abort _ s => some s
  | .timeout => none

/-- The value and the state of a normal result. -/
def result? : Outcome ε σ α → Option (α × σ)
  | .ok a s => some (a, s)
  | .abort _ _ => none
  | .timeout => none

def reason? : Outcome ε σ α → Option ε
  | .ok _ _ => none
  | .abort e _ => some e
  | .timeout => none

theorem eq_ok_of_result? {o : Outcome ε σ α} (h : o.result?.isSome = true) :
    ∃ a s, o = .ok a s := by
  cases o with
  | ok a s => exact ⟨a, s, rfl⟩
  | abort e s => cases h
  | timeout => cases h

theorem eq_ok_of_result?_eq {o : Outcome ε σ α} {a : α} {s : σ} (h : o.result? = some (a, s)) :
    o = .ok a s := by
  cases o with
  | ok a' s' =>
      cases h
      rfl
  | abort e s => cases h
  | timeout => cases h

/-! ## Postconditions -/

/-- `P` holds of a normal result and `Q` of an abort. -/
def Ensures (P : α → σ → Prop) (Q : ε → σ → Prop) : Outcome ε σ α → Prop
  | .ok a s => P a s
  | .abort e s => Q e s
  | .timeout => True

@[simp] theorem ensures_ok {P : α → σ → Prop} {Q : ε → σ → Prop} {a : α} {s : σ} :
    (Outcome.ok a s).Ensures P Q ↔ P a s := Iff.rfl

@[simp] theorem ensures_abort {P : α → σ → Prop} {Q : ε → σ → Prop} {e : ε} {s : σ} :
    (Outcome.abort e s).Ensures P Q ↔ Q e s := Iff.rfl

@[simp] theorem ensures_timeout {P : α → σ → Prop} {Q : ε → σ → Prop} :
    (Outcome.timeout : Outcome ε σ α).Ensures P Q := trivial

theorem Ensures.of_eq_ok {P : α → σ → Prop} {Q : ε → σ → Prop} {o : Outcome ε σ α}
    (h : o.Ensures P Q) {a : α} {s : σ} (ho : o = .ok a s) :
    P a s := by
  subst ho
  exact h

theorem Ensures.of_eq_abort {P : α → σ → Prop} {Q : ε → σ → Prop} {o : Outcome ε σ α}
    (h : o.Ensures P Q) {e : ε} {s : σ} (ho : o = .abort e s) :
    Q e s := by
  subst ho
  exact h

theorem Ensures.mono {P P' : α → σ → Prop} {Q Q' : ε → σ → Prop} {o : Outcome ε σ α}
    (h : o.Ensures P Q) (hP : ∀ a s, P a s → P' a s) (hQ : ∀ e s, Q e s → Q' e s) :
    o.Ensures P' Q' := by
  cases o with
  | ok a s => exact hP a s h
  | abort e s => exact hQ e s h
  | timeout => exact h

theorem Ensures.bind {P : α → σ → Prop} {P' : β → σ → Prop} {Q : ε → σ → Prop}
    {o : Outcome ε σ α} {f : α → σ → Outcome ε σ β}
    (ho : o.Ensures P Q) (hf : ∀ a s, P a s → (f a s).Ensures P' Q) :
    (o.bind f).Ensures P' Q := by
  cases o with
  | ok a s => exact hf a s ho
  | abort e s => exact ho
  | timeout => exact ho

/-! ## Comparing two results -/

/--
The same kind of result, with the same value or abort reason; the states of
normal results are related by `R`, those of aborts by `Q`.
-/
inductive Rel (R Q : σ → σ' → Prop) : Outcome ε σ α → Outcome ε σ' α → Prop where
  | ok {a : α} {s : σ} {t : σ'} (h : R s t) : Rel R Q (.ok a s) (.ok a t)
  | abort {e : ε} {s : σ} {t : σ'} (h : Q s t) : Rel R Q (.abort e s) (.abort e t)
  | timeout : Rel R Q .timeout .timeout

theorem Rel.refl {R Q : σ → σ → Prop} (hR : ∀ s, R s s) (hQ : ∀ s, Q s s)
    (o : Outcome ε σ α) :
    Rel R Q o o := by
  cases o with
  | ok a s => exact .ok (hR s)
  | abort e s => exact .abort (hQ s)
  | timeout => exact .timeout

theorem Rel.mono {R R' Q Q' : σ → σ' → Prop} {o : Outcome ε σ α} {o' : Outcome ε σ' α}
    (h : Rel R Q o o') (hR : ∀ s t, R s t → R' s t) (hQ : ∀ s t, Q s t → Q' s t) :
    Rel R' Q' o o' := by
  cases h with
  | ok h => exact .ok (hR _ _ h)
  | abort h => exact .abort (hQ _ _ h)
  | timeout => exact .timeout

theorem Rel.symm {R Q : σ → σ' → Prop} {R' Q' : σ' → σ → Prop}
    {o : Outcome ε σ α} {o' : Outcome ε σ' α} (h : Rel R Q o o')
    (hR : ∀ s t, R s t → R' t s) (hQ : ∀ s t, Q s t → Q' t s) :
    Rel R' Q' o' o := by
  cases h with
  | ok h => exact .ok (hR _ _ h)
  | abort h => exact .abort (hQ _ _ h)
  | timeout => exact .timeout

theorem Rel.trans {R Q : σ → σ → Prop} {o o' o'' : Outcome ε σ α}
    (hR : ∀ s t u, R s t → R t u → R s u) (hQ : ∀ s t u, Q s t → Q t u → Q s u)
    (h : Rel R Q o o') (h' : Rel R Q o' o'') :
    Rel R Q o o'' := by
  cases h with
  | ok h =>
      cases h' with
      | ok h' => exact .ok (hR _ _ _ h h')
  | abort h =>
      cases h' with
      | abort h' => exact .abort (hQ _ _ _ h h')
  | timeout => exact h'

theorem Rel.bind {R R' Q : σ → σ' → Prop}
    {o : Outcome ε σ α} {o' : Outcome ε σ' α}
    {f : α → σ → Outcome ε σ β} {g : α → σ' → Outcome ε σ' β}
    (h : Rel R Q o o')
    (hfg : ∀ a s t, o = .ok a s → o' = .ok a t → R s t → Rel R' Q (f a s) (g a t)) :
    Rel R' Q (o.bind f) (o'.bind g) := by
  cases h with
  | ok h => exact hfg _ _ _ rfl rfl h
  | abort h => exact .abort h
  | timeout => exact .timeout

theorem Rel.ok_right {R Q : σ → σ' → Prop} {o : Outcome ε σ α} {o' : Outcome ε σ' α}
    (h : Rel R Q o o') {a : α} {s : σ} (ho : o = .ok a s) :
    ∃ t, o' = .ok a t ∧ R s t := by
  subst ho
  cases h with
  | ok h => exact ⟨_, rfl, h⟩

/-- A postcondition of the first result is a fact about the states that are related. -/
theorem Rel.and_ensures {R Q : σ → σ' → Prop} {P : α → σ → Prop} {o : Outcome ε σ α}
    {o' : Outcome ε σ' α} {P' : σ → Prop} (h : Rel R Q o o') (ho : o.Ensures P fun _ _ => True)
    (hP : ∀ a s, P a s → P' s) :
    Rel (fun s t => R s t ∧ P' s) Q o o' := by
  cases h with
  | ok h => exact .ok ⟨h, hP _ _ ho⟩
  | abort h => exact .abort h
  | timeout => exact .timeout

/-- An outcome without the reason of its abort. -/
def forget : Outcome ε σ α → Outcome Unit σ α
  | .ok a s => .ok a s
  | .abort _ s => .abort () s
  | .timeout => .timeout

@[simp] theorem forget_ok (a : α) (s : σ) : (Outcome.ok a s : Outcome ε σ α).forget = .ok a s := rfl

theorem forget_bind (o : Outcome ε σ α) (f : α → σ → Outcome ε σ β) :
    (o.bind f).forget = o.forget.bind fun a s => (f a s).forget := by
  cases o <;> rfl

theorem forget_eq_ok {o : Outcome ε σ α} {a : α} {s : σ} : o.forget = .ok a s ↔ o = .ok a s := by
  cases o <;> simp [forget]

theorem forget_eq_abort {o : Outcome ε σ α} {s : σ} :
    o.forget = .abort () s ↔ ∃ e, o = .abort e s := by
  cases o <;> simp [forget]

theorem Rel.forget {R Q : σ → σ' → Prop} {o : Outcome ε σ α} {o' : Outcome ε σ' α}
    (h : Rel R Q o o') :
    Rel R Q o.forget o'.forget := by
  cases h with
  | ok h => exact .ok h
  | abort h => exact .abort h
  | timeout => exact .timeout

theorem Rel.result?_isSome {R Q : σ → σ' → Prop} {o : Outcome ε σ α} {o' : Outcome ε σ' α}
    (h : Rel R Q o o') :
    o.result?.isSome = o'.result?.isSome := by
  cases h <;> rfl

end Outcome

/-! ## Actions -/

def Action (ε σ α : Type) : Type := σ → Outcome ε σ α

namespace Action

variable {ε σ α β : Type}

instance : Monad (Action ε σ) where
  pure a := fun s => .ok a s
  bind x f := fun s => (x s).bind fun a t => f a t

def get : Action ε σ σ := fun s => .ok s s

def modify (f : σ → σ) : Action ε σ Unit := fun s => .ok () (f s)

def abort (e : ε) : Action ε σ α := fun s => .abort e s

def timeout : Action ε σ α := fun _ => .timeout

/-- Abort with `e` unless `b` holds. -/
def require (b : Bool) (e : ε) : Action ε σ Unit :=
  fun s => if b then .ok () s else .abort e s

@[simp] theorem pure_apply (a : α) (s : σ) :
    (pure a : Action ε σ α) s = .ok a s := rfl

@[simp] theorem bind_apply (x : Action ε σ α) (f : α → Action ε σ β) (s : σ) :
    (x >>= f) s = (x s).bind fun a t => f a t := rfl

@[simp] theorem get_apply (s : σ) : (get : Action ε σ σ) s = .ok s s := rfl

@[simp] theorem modify_apply (f : σ → σ) (s : σ) :
    (modify f : Action ε σ Unit) s = .ok () (f s) := rfl

@[simp] theorem abort_apply (e : ε) (s : σ) :
    (abort e : Action ε σ α) s = .abort e s := rfl

@[simp] theorem timeout_apply (s : σ) :
    (timeout : Action ε σ α) s = .timeout := rfl

@[simp] theorem require_true (e : ε) (s : σ) :
    (require true e : Action ε σ Unit) s = .ok () s := rfl

@[simp] theorem require_false (e : ε) (s : σ) :
    (require false e : Action ε σ Unit) s = .abort e s := rfl

theorem require_eq_ok {b : Bool} {e : ε} {s t : σ} {u : Unit} :
    (require b e : Action ε σ Unit) s = .ok u t ↔ b = true ∧ t = s := by
  cases b <;> simp [eq_comm]

theorem require_rel {σ' : Type} {R Q : σ → σ' → Prop} {s : σ} {t : σ'} (b : Bool) (e : ε)
    (hR : R s t) (hQ : Q s t) :
    Outcome.Rel R Q ((require b e : Action ε σ Unit) s)
      ((require b e : Action ε σ' Unit) t) := by
  cases b with
  | false => exact .abort hQ
  | true => exact .ok hR

theorem require_ensures {P : σ → Prop} {Q : ε → σ → Prop} {s : σ} (b : Bool) (e : ε)
    (hP : b = true → P s) (hQ : b = false → Q e s) :
    ((require b e : Action ε σ Unit) s).Ensures (fun _ t => P t) Q := by
  cases b with
  | false => exact hQ rfl
  | true => exact hP rfl

end Action

end GabyVm.Foundation
