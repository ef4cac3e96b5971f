/-! # Operations with state and errors

An operation may fail, and then leaves the state it had reached. It keeps a property of states if
the property holds again afterwards, whether it succeeded or not; it is seen through a view of the
state as another operation if the two agree on results, errors and viewed states.
-/

namespace X25.Effect

variable {ε σ τ α β : Type}

/-- The state that an operation leaves. -/
def final : EStateM.Result ε σ α → σ
  | .ok _ s => s
  | .error _ s => s

/-- Replaces the state by its view. -/
def seen (view : σ → τ) : EStateM.Result ε σ α → EStateM.Result ε τ α
  | .ok a s => .ok a (view s)
  | .error e s => .error e (view s)

def reached : EStateM.Result ε σ α → Option σ
  | .ok _ s => some s
  | .error _ _ => none

/-- The state that a success leaves, or the error of a failure. -/
def outcome : EStateM.Result ε σ α → Except ε σ
  | .ok _ s => .ok s
  | .error e _ => .error e

def answer : EStateM.Result ε σ α → Except ε α
  | .ok a _ => .ok a
  | .error e _ => .error e

@[simp] theorem final_ok (a : α) (s : σ) : final (.ok a s : EStateM.Result ε σ α) = s := rfl

@[simp] theorem final_error (e : ε) (s : σ) : final (.error e s : EStateM.Result ε σ α) = s := rfl

@[simp] theorem seen_ok (view : σ → τ) (a : α) (s : σ) :
    seen view (.ok a s : EStateM.Result ε σ α) = .ok a (view s) := rfl

@[simp] theorem seen_error (view : σ → τ) (e : ε) (s : σ) :
    seen view (.error e s : EStateM.Result ε σ α) = .error e (view s) := rfl

@[simp] theorem reached_ok (a : α) (s : σ) :
    reached (.ok a s : EStateM.Result ε σ α) = some s := rfl

@[simp] theorem reached_error (e : ε) (s : σ) :
    reached (.error e s : EStateM.Result ε σ α) = none := rfl

@[simp] theorem outcome_ok (a : α) (s : σ) :
    outcome (.ok a s : EStateM.Result ε σ α) = .ok s := rfl

@[simp] theorem outcome_error (e : ε) (s : σ) :
    outcome (.error e s : EStateM.Result ε σ α) = .error e := rfl

@[simp] theorem answer_ok (a : α) (s : σ) :
    answer (.ok a s : EStateM.Result ε σ α) = .ok a := rfl

@[simp] theorem answer_error (e : ε) (s : σ) :
    answer (.error e s : EStateM.Result ε σ α) = .error e := rfl

theorem outcome_eq_ok {r : EStateM.Result ε σ α} {s : σ} :
    outcome r = .ok s ↔ ∃ a, r = .ok a s := by
  cases r <;> simp

theorem answer_seen (view : σ → τ) (r : EStateM.Result ε σ α) :
    answer (seen view r) = answer r := by
  cases r <;> rfl

theorem final_seen (view : σ → τ) (r : EStateM.Result ε σ α) :
    final (seen view r) = view (final r) := by
  cases r <;> rfl

theorem seen_eq_ok {view : σ → τ} {r : EStateM.Result ε σ α} {a : α} {t : τ}
    (h : seen view r = .ok a t) : ∃ s, r = .ok a s ∧ t = view s := by
  cases r with
  | ok a' s => cases h; exact ⟨s, rfl, rfl⟩
  | error e s => cases h

theorem seen_eq_error {view : σ → τ} {r : EStateM.Result ε σ α} {e : ε} {t : τ}
    (h : seen view r = .error e t) : ∃ s, r = .error e s ∧ t = view s := by
  cases r with
  | ok a s => cases h
  | error e' s => cases h; exact ⟨s, rfl, rfl⟩

section Bind

variable {x : EStateM ε σ α} {f : α → EStateM ε σ β} {s s' t : σ} {a : α} {b : β} {e : ε}

theorem bind_of_ok (h : x s = .ok a s') : (x >>= f) s = f a s' := by
  simp only [bind, EStateM.bind, h]

theorem bind_of_error (h : x s = .error e s') : (x >>= f) s = .error e s' := by
  simp only [bind, EStateM.bind, h]

theorem bind_congr_at {y : EStateM ε σ α} (h : x s = y t) : (x >>= f) s = (y >>= f) t := by
  simp only [bind, EStateM.bind, h]

theorem bind_get (g : σ → EStateM ε σ α) (s : σ) : (get >>= g) s = g s s := rfl

theorem bind_modify (g : σ → σ) (y : PUnit → EStateM ε σ α) (s : σ) :
    (modify g >>= y) s = y ⟨⟩ (g s) := rfl

theorem bind_eq_ok :
    (x >>= f) s = .ok b t ↔ ∃ a s', x s = .ok a s' ∧ f a s' = .ok b t := by
  cases h : x s with
  | ok a s' => simp [bind_of_ok h, and_assoc]
  | error e s' => simp [bind_of_error h]

theorem bind_eq_error :
    (x >>= f) s = .error e t ↔
      x s = .error e t ∨ ∃ a s', x s = .ok a s' ∧ f a s' = .error e t := by
  cases h : x s with
  | ok a s' => simp [bind_of_ok h, and_assoc]
  | error e s' => simp [bind_of_error h]

theorem reached_bind (x : EStateM ε σ α) (y : EStateM ε σ β) (s : σ) :
    reached ((x >>= fun _ => y) s) = (reached (x s)).bind fun s' => reached (y s') := by
  cases h : x s with
  | ok a s' => rw [bind_of_ok h]; rfl
  | error e s' => rw [bind_of_error h]; rfl

theorem discard_eq_bind (x : EStateM ε σ α) : discard x = x >>= fun _ => pure () := by
  funext s
  show EStateM.map _ x s = EStateM.bind x _ s
  simp only [EStateM.map, EStateM.bind]
  cases x s <;> rfl

theorem discard_of_ok (h : x s = .ok a s') : discard x s = .ok () s' := by
  rw [discard_eq_bind, bind_of_ok h]
  rfl

theorem discard_of_error (h : x s = .error e s') : discard x s = .error e s' := by
  rw [discard_eq_bind, bind_of_error h]

theorem final_discard (x : EStateM ε σ α) (s : σ) : final (discard x s) = final (x s) := by
  cases h : x s with
  | ok a s' => rw [discard_of_ok h]; rfl
  | error e s' => rw [discard_of_error h]; rfl

end Bind

def Keeps (P : σ → Prop) (x : EStateM ε σ α) : Prop :=
  ∀ s, P s → P (final (x s))

namespace Keeps

variable {P : σ → Prop} {x : EStateM ε σ α} {f : α → EStateM ε σ β}

theorem of_pure (a : α) : Keeps P (pure a : EStateM ε σ α) :=
  fun _ h => h

theorem of_throw (e : ε) : Keeps P (throw e : EStateM ε σ α) :=
  fun _ h => h

theorem bind (hx : Keeps P x) (hf : ∀ a, Keeps P (f a)) : Keeps P (x >>= f) := by
  intro s hs
  have h := hx s hs
  cases hr : x s with
  | ok a s' =>
    rw [hr] at h
    rw [bind_of_ok hr]
    exact hf a s' h
  | error e s' =>
    rw [hr] at h
    rw [bind_of_error hr]
    exact h

theorem discard (hx : Keeps P x) : Keeps P (discard x) := by
  rw [discard_eq_bind]
  exact hx.bind fun _ => .of_pure ()

end Keeps

/-- Wherever the property holds, the one operation is seen as the other. -/
def SeenAs (P : σ → Prop) (view : σ → τ) (x : EStateM ε σ α) (y : EStateM ε τ α) : Prop :=
  ∀ s, P s → seen view (x s) = y (view s)

theorem SeenAs.bind {P : σ → Prop} {view : σ → τ} {x : EStateM ε σ α} {y : EStateM ε τ α}
    {f : α → EStateM ε σ β} {g : α → EStateM ε τ β} (hx : SeenAs P view x y) (hk : Keeps P x)
    (hf : ∀ a, SeenAs P view (f a) (g a)) : SeenAs P view (x >>= f) (y >>= g) := by
  intro s hs
  have hv := hx s hs
  have hp := hk s hs
  cases hr : x s with
  | ok a s' =>
    rw [hr] at hv hp
    rw [bind_of_ok hr, bind_of_ok hv.symm]
    exact hf a s' hp
  | error e s' =>
    rw [hr] at hv
    rw [bind_of_error hr, bind_of_error hv.symm]
    rfl

end X25.Effect
