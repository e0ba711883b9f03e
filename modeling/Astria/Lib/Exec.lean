import Mathlib.Data.List.Basic
import Mathlib.Order.Defs.Unbundled

/-!
# Fallible state-passing computations

The monad `Exec ε σ` runs over a state `σ` and may fail with an error `ε`.  A
failure keeps the writes made before it, so that a caller that swallows the
error goes on with them.

Results:
* `bind_eq_ok`: a successful sequence is two successful runs;
* `Keeps.bind`, `Keeps.forEach`: a relation kept by every part of a computation is
  kept by the whole, successful or not;
* `forEach_invariant`: an invariant of the body of a loop is one of the loop;
* `Fails.bind`: what every error of the parts satisfies, every error of the whole satisfies.
-/

namespace Astria.Lib

/-- A computation over `σ` that returns an `α` or fails with an `ε`; the state is
returned in both cases. -/
abbrev Exec (ε σ : Type) := EStateM ε σ

namespace Exec

variable {ε σ τ α β : Type}

/-- The state at the end of a run, successful or not. -/
def final : EStateM.Result ε σ α → σ
  | .ok _ s => s
  | .error _ s => s

/-- Whether a run succeeded. -/
def isOk : EStateM.Result ε σ α → Bool
  | .ok _ _ => true
  | .error _ _ => false

/-- A run that succeeds without a value succeeds with the state at its end. -/
theorem eq_ok_of_isOk {r : EStateM.Result ε σ Unit} (h : isOk r = true) : r = .ok () (final r) := by
  cases r with
  | ok a s => rfl
  | error e s => cases h

theorem exists_ok_of_isOk {r : EStateM.Result ε σ α} (h : isOk r = true) : ∃ a, r = .ok a (final r) := by
  cases r with
  | ok a s => exact ⟨a, rfl⟩
  | error e s => cases h

theorem exists_error_of_not_isOk {r : EStateM.Result ε σ α} (h : ¬isOk r = true) : ∃ e s, r = .error e s := by
  cases r with
  | ok a s => exact absurd rfl h
  | error e s => exact ⟨e, s, rfl⟩

/-- Reads a value off the state. -/
def reads (f : σ → α) : Exec ε σ α := fun s => .ok (f s) s

/-- Reads a value off the state that may be missing or invalid. -/
def tryReads (f : σ → Except ε α) : Exec ε σ α := fun s =>
  match f s with
  | .ok a => .ok a s
  | .error e => .error e s

/-- Writes the state. -/
def writes (f : σ → σ) : Exec ε σ Unit := fun s => .ok () (f s)

/-- Fails with `e`. -/
def fail (e : ε) : Exec ε σ α := fun s => .error e s

/-- Goes on only if `p` holds, as `ensure!`. -/
def ensure (p : Prop) [Decidable p] (e : ε) : Exec ε σ Unit :=
  if p then pure () else fail e

/-- Goes on with the value of `o`, as `ok_or_eyre`. -/
def require (o : Option α) (e : ε) : Exec ε σ α :=
  match o with
  | some a => pure a
  | none => fail e

/-- A fallible computation that uses no state. -/
def lift (x : Except ε α) : Exec ε σ α :=
  match x with
  | .ok a => pure a
  | .error e => fail e

/-- Maps the error of a computation, as `wrap_err`. -/
def mapErr (f : ε → ε) (x : Exec ε σ α) : Exec ε σ α := fun s =>
  match x s with
  | .ok a s' => .ok a s'
  | .error e s' => .error (f e) s'

/-- Runs a computation and returns its error as a value; the writes before it stay. -/
def attempt (x : Exec ε σ α) : Exec ε σ (Except ε α) := fun s =>
  match x s with
  | .ok a s' => .ok (.ok a) s'
  | .error e s' => .ok (.error e) s'

/-- Runs a computation on a copy of the state that is dropped if the run fails. -/
def delta (x : Exec ε σ α) : Exec ε σ α := fun s =>
  match x s with
  | .ok a s' => .ok a s'
  | .error e _ => .error e s

/-- Runs `body` on every element of a list, in order. -/
def forEach : List α → (α → Exec ε σ Unit) → Exec ε σ Unit
  | [], _ => pure ()
  | a :: as, body => do
    body a
    forEach as body

/-- Runs a computation on the part of the state that `get` reads and `set` writes back. -/
def zoom (get : σ → τ) (set : τ → σ → σ) (x : Exec ε τ α) : Exec ε σ α := fun s =>
  match x (get s) with
  | .ok a t => .ok a (set t s)
  | .error e t => .error e (set t s)

/-! ## Successful runs -/

section Ok

variable {x : Exec ε σ α} {s s' : σ} {a b : α} {e : ε}

@[simp] theorem pure_eq_ok : (pure a : Exec ε σ α) s = .ok b s' ↔ b = a ∧ s' = s := by
  constructor
  · intro h
    cases h
    exact ⟨rfl, rfl⟩
  · rintro ⟨rfl, rfl⟩
    rfl

@[simp] theorem reads_eq_ok {f : σ → α} :
    (reads f : Exec ε σ α) s = .ok b s' ↔ b = f s ∧ s' = s := by
  constructor
  · intro h
    cases h
    exact ⟨rfl, rfl⟩
  · rintro ⟨rfl, rfl⟩
    rfl

@[simp] theorem tryReads_eq_ok {f : σ → Except ε α} :
    (tryReads f : Exec ε σ α) s = .ok b s' ↔ f s = .ok b ∧ s' = s := by
  unfold tryReads
  cases f s with
  | ok a => simp [eq_comm]
  | error e => simp

@[simp] theorem writes_eq_ok {f : σ → σ} {u : Unit} :
    (writes f : Exec ε σ Unit) s = .ok u s' ↔ s' = f s := by
  constructor
  · intro h
    cases h
    rfl
  · rintro rfl
    rfl

@[simp] theorem fail_eq_ok : (fail e : Exec ε σ α) s = .ok b s' ↔ False := by
  constructor <;> intro h
  · cases h
  · exact h.elim

@[simp] theorem ensure_eq_ok {p : Prop} [Decidable p] {u : Unit} :
    (ensure p e : Exec ε σ Unit) s = .ok u s' ↔ p ∧ s' = s := by
  unfold ensure
  split_ifs with hp <;> simp [hp]

@[simp] theorem require_eq_ok {o : Option α} :
    (require o e : Exec ε σ α) s = .ok b s' ↔ o = some b ∧ s' = s := by
  cases o with
  | none => simp [require]
  | some a => simp [require, eq_comm]

@[simp] theorem lift_eq_ok {x : Except ε α} :
    (lift x : Exec ε σ α) s = .ok b s' ↔ x = .ok b ∧ s' = s := by
  cases x with
  | ok a => simp [lift, eq_comm]
  | error e => simp [lift]

@[simp] theorem mapErr_eq_ok {f : ε → ε} : mapErr f x s = .ok b s' ↔ x s = .ok b s' := by
  unfold mapErr
  cases x s <;> simp

/-- A successful sequence is two successful runs. -/
@[simp] theorem bind_eq_ok {x : Exec ε σ α} {f : α → Exec ε σ β} {c : β} :
    (x >>= f) s = .ok c s' ↔ ∃ a t, x s = .ok a t ∧ f a t = .ok c s' := by
  change EStateM.bind x f s = _ ↔ _
  unfold EStateM.bind
  cases h : x s <;> simp

@[simp] theorem delta_eq_ok : delta x s = .ok b s' ↔ x s = .ok b s' := by
  unfold delta
  cases x s <;> simp

/-- What a sequence does behind a successful run. -/
theorem bind_of_ok {x : Exec ε σ α} {f : α → Exec ε σ β} (h : x s = .ok a s') :
    (x >>= f) s = f a s' := by
  change EStateM.bind x f s = _
  unfold EStateM.bind
  rw [h]

theorem attempt_eq_ok {r : Except ε α} :
    attempt x s = .ok r s' ↔
      (∃ a, x s = .ok a s' ∧ r = .ok a) ∨ ∃ e, x s = .error e s' ∧ r = .error e := by
  unfold attempt
  cases h : x s with
  | ok a t =>
    simp only [EStateM.Result.ok.injEq, reduceCtorEq, false_and, exists_false, or_false]
    constructor
    · rintro ⟨rfl, rfl⟩
      exact ⟨a, ⟨rfl, rfl⟩, rfl⟩
    · rintro ⟨a', ⟨rfl, rfl⟩, rfl⟩
      exact ⟨rfl, rfl⟩
  | error e t =>
    simp only [EStateM.Result.ok.injEq, EStateM.Result.error.injEq, reduceCtorEq, false_and,
      exists_false, false_or]
    constructor
    · rintro ⟨rfl, rfl⟩
      exact ⟨e, ⟨rfl, rfl⟩, rfl⟩
    · rintro ⟨e', ⟨rfl, rfl⟩, rfl⟩
      exact ⟨rfl, rfl⟩

theorem zoom_eq_ok {get : σ → τ} {set : τ → σ → σ} {x : Exec ε τ α} :
    zoom get set x s = .ok b s' ↔ ∃ t, x (get s) = .ok b t ∧ s' = set t s := by
  unfold zoom
  cases h : x (get s) with
  | ok c t =>
    simp only [EStateM.Result.ok.injEq]
    constructor
    · rintro ⟨rfl, rfl⟩
      exact ⟨t, ⟨rfl, rfl⟩, rfl⟩
    · rintro ⟨t', ⟨rfl, rfl⟩, rfl⟩
      exact ⟨rfl, rfl⟩
  | error e t => simp

@[simp] theorem forEach_nil_eq_ok {body : α → Exec ε σ Unit} {u : Unit} :
    forEach [] body s = .ok u s' ↔ s' = s := by
  simp [forEach]

@[simp] theorem forEach_cons_eq_ok {as : List α} {body : α → Exec ε σ Unit} {u : Unit} :
    forEach (a :: as) body s = .ok u s' ↔
      ∃ t, body a s = .ok () t ∧ forEach as body t = .ok u s' := by
  rw [forEach, bind_eq_ok]
  exact ⟨fun ⟨_, t, h⟩ => ⟨t, h⟩, fun ⟨t, h⟩ => ⟨(), t, h⟩⟩

theorem forEach_map {β : Type} (f : β → α) (bs : List β) (body : α → Exec ε σ Unit) :
    forEach (bs.map f) body = forEach bs fun b => body (f b) := by
  induction bs with
  | nil => rfl
  | cons b bs ih =>
    funext s
    simp only [List.map_cons, forEach, ih]

/-- A loop over two lists is a loop over the first and then one over the second. -/
theorem forEach_append (as bs : List α) (body : α → Exec ε σ Unit) :
    forEach (as ++ bs) body = forEach as body >>= fun _ => forEach bs body := by
  induction as with
  | nil => exact (pure_bind () fun _ => forEach bs body).symm
  | cons a as ih => rw [List.cons_append, forEach, forEach, ih, bind_assoc]

theorem forEach_append_eq_ok {as bs : List α} {body : α → Exec ε σ Unit} {u : Unit} :
    forEach (as ++ bs) body s = .ok u s' ↔
      ∃ t, forEach as body s = .ok () t ∧ forEach bs body t = .ok u s' := by
  rw [forEach_append, bind_eq_ok]
  exact ⟨fun ⟨_, t, h⟩ => ⟨t, h⟩, fun ⟨t, h⟩ => ⟨(), t, h⟩⟩

/-- A loop of checks succeeds if every check does. -/
theorem forEach_check_eq_ok {as : List α} {body : α → Exec ε σ Unit} {P : σ → α → Prop} {u : Unit}
    (hbody : ∀ a s s', body a s = .ok () s' ↔ P s a ∧ s' = s) :
    forEach as body s = .ok u s' ↔ (∀ a ∈ as, P s a) ∧ s' = s := by
  induction as with
  | nil => simp
  | cons a as ih =>
    rw [forEach_cons_eq_ok]
    simp only [hbody, List.mem_cons, forall_eq_or_imp]
    constructor
    · rintro ⟨t, ⟨ha, rfl⟩, has⟩
      exact ⟨⟨ha, (ih.mp has).1⟩, (ih.mp has).2⟩
    · rintro ⟨⟨ha, has⟩, rfl⟩
      exact ⟨s', ⟨ha, rfl⟩, ih.mpr ⟨has, rfl⟩⟩

end Ok

/-! ## Failed runs -/

section Error

variable {x : Exec ε σ α} {s s' : σ} {a : α} {e e' : ε}

@[simp] theorem pure_eq_error : (pure a : Exec ε σ α) s = .error e s' ↔ False :=
  ⟨(nomatch ·), False.elim⟩

@[simp] theorem reads_eq_error {f : σ → α} :
    (reads f : Exec ε σ α) s = .error e s' ↔ False :=
  ⟨(nomatch ·), False.elim⟩

@[simp] theorem tryReads_eq_error {f : σ → Except ε α} :
    (tryReads f : Exec ε σ α) s = .error e s' ↔ f s = .error e ∧ s' = s := by
  unfold tryReads
  cases f s with
  | ok a => simp
  | error e => simp [eq_comm]

@[simp] theorem writes_eq_error {f : σ → σ} :
    (writes f : Exec ε σ Unit) s = .error e s' ↔ False :=
  ⟨(nomatch ·), False.elim⟩

@[simp] theorem fail_eq_error : (fail e : Exec ε σ α) s = .error e' s' ↔ e' = e ∧ s' = s := by
  unfold fail
  simp [eq_comm]

@[simp] theorem ensure_eq_error {p : Prop} [Decidable p] :
    (ensure p e : Exec ε σ Unit) s = .error e' s' ↔ ¬p ∧ e' = e ∧ s' = s := by
  unfold ensure
  split_ifs with hp <;> simp [hp]

@[simp] theorem require_eq_error {o : Option α} :
    (require o e : Exec ε σ α) s = .error e' s' ↔ o = none ∧ e' = e ∧ s' = s := by
  cases o with
  | none => simp [require]
  | some a => simp [require]

@[simp] theorem lift_eq_error {x : Except ε α} :
    (lift x : Exec ε σ α) s = .error e s' ↔ x = .error e ∧ s' = s := by
  cases x with
  | ok a => simp [lift]
  | error e => simp [lift, eq_comm (a := e)]

@[simp] theorem mapErr_eq_error {f : ε → ε} :
    mapErr f x s = .error e s' ↔ ∃ e', x s = .error e' s' ∧ e = f e' := by
  unfold mapErr
  cases x s with
  | ok a t => simp
  | error e' t => simp [eq_comm, and_comm]

/-- A failure leaves the state as it was. -/
@[simp] theorem delta_eq_error :
    delta x s = .error e s' ↔ (∃ t, x s = .error e t) ∧ s' = s := by
  unfold delta
  cases x s <;> simp [eq_comm]

/-- A sequence fails in its first part, or in its second after the first succeeded. -/
@[simp] theorem bind_eq_error {f : α → Exec ε σ β} :
    (x >>= f) s = .error e s' ↔
      x s = .error e s' ∨ ∃ a t, x s = .ok a t ∧ f a t = .error e s' := by
  change EStateM.bind x f s = _ ↔ _
  unfold EStateM.bind
  cases h : x s <;> simp

@[simp] theorem attempt_eq_error : attempt x s = .error e s' ↔ False := by
  unfold attempt
  cases x s <;> simp

theorem zoom_eq_error {get : σ → τ} {set : τ → σ → σ} {x : Exec ε τ α} :
    zoom get set x s = .error e s' ↔ ∃ t, x (get s) = .error e t ∧ s' = set t s := by
  unfold zoom
  cases h : x (get s) with
  | ok c t => simp
  | error e' t => simp [eq_comm, and_comm]

end Error

/-! ## Relations kept by a run -/

/-- `x` keeps the relation `R`: it relates the state before a run to the state after
it, whether the run succeeds or fails. -/
def Keeps (R : σ → σ → Prop) (x : Exec ε σ α) : Prop :=
  ∀ s, R s (final (x s))

section Keeps

variable {R : σ → σ → Prop}

theorem Keeps.of_ok {x : Exec ε σ α} (h : Keeps R x) {s s' : σ} {a : α}
    (hx : x s = .ok a s') : R s s' := by
  have hs := h s
  rw [hx] at hs
  exact hs

theorem Keeps.of_error {x : Exec ε σ α} (h : Keeps R x) {s s' : σ} {e : ε}
    (hx : x s = .error e s') : R s s' := by
  have hs := h s
  rw [hx] at hs
  exact hs

@[simp] theorem keeps_writes {f : σ → σ} (hf : ∀ s, R s (f s)) : Keeps R (writes f : Exec ε σ Unit) :=
  fun s => hf s

@[simp] theorem Keeps.mapErr {x : Exec ε σ α} (h : Keeps R x) (f : ε → ε) :
    Keeps R (mapErr f x) := by
  intro s
  have hs := h s
  unfold Exec.mapErr
  cases hx : x s <;> rw [hx] at hs <;> exact hs

/-- A computation on a part of the state keeps what its results keep when they are put back. -/
theorem Keeps.zoom {get : σ → τ} {set : τ → σ → σ} {Q : τ → τ → Prop} {x : Exec ε τ α}
    (h : Keeps Q x) (hset : ∀ s t, Q (get s) t → R s (set t s)) : Keeps R (zoom get set x) := by
  intro s
  have hs := h (get s)
  unfold Exec.zoom
  cases hx : x (get s) <;> rw [hx] at hs <;> exact hset s _ hs

@[simp] theorem Keeps.attempt {x : Exec ε σ α} (h : Keeps R x) : Keeps R (attempt x) := by
  intro s
  have hs := h s
  unfold Exec.attempt
  cases hx : x s <;> rw [hx] at hs <;> exact hs

@[simp] theorem Keeps.delta [IsPreorder σ R] {x : Exec ε σ α} (h : Keeps R x) :
    Keeps R (delta x) := by
  intro s
  have hs := h s
  unfold Exec.delta
  cases hx : x s with
  | ok a t =>
    rw [hx] at hs
    exact hs
  | error e t => exact refl_of R s

@[simp] theorem Keeps.ite {p : Prop} [Decidable p] {x y : Exec ε σ α} (hx : Keeps R x)
    (hy : Keeps R y) : Keeps R (if p then x else y) := by
  split_ifs
  · exact hx
  · exact hy

variable [IsPreorder σ R]

@[simp] theorem keeps_pure (a : α) : Keeps R (pure a : Exec ε σ α) :=
  fun s => refl_of R s

@[simp] theorem keeps_reads (f : σ → α) : Keeps R (reads f : Exec ε σ α) :=
  fun s => refl_of R s

@[simp] theorem keeps_tryReads (f : σ → Except ε α) : Keeps R (tryReads f : Exec ε σ α) := by
  intro s
  unfold tryReads
  cases f s <;> exact refl_of R s

@[simp] theorem keeps_fail (e : ε) : Keeps R (fail e : Exec ε σ α) :=
  fun s => refl_of R s

@[simp] theorem keeps_ensure (p : Prop) [Decidable p] (e : ε) :
    Keeps R (ensure p e : Exec ε σ Unit) :=
  Keeps.ite (keeps_pure ()) (keeps_fail e)

@[simp] theorem keeps_require (o : Option α) (e : ε) : Keeps R (require o e : Exec ε σ α) := by
  cases o with
  | none => exact keeps_fail e
  | some a => exact keeps_pure a

@[simp] theorem keeps_lift (x : Except ε α) : Keeps R (lift x : Exec ε σ α) := by
  cases x with
  | error e => exact keeps_fail e
  | ok a => exact keeps_pure a

@[simp] theorem Keeps.bind {x : Exec ε σ α} {f : α → Exec ε σ β} (hx : Keeps R x)
    (hf : ∀ a, Keeps R (f a)) : Keeps R (x >>= f) := by
  intro s
  change R s (final (EStateM.bind x f s))
  unfold EStateM.bind
  have hs := hx s
  cases h : x s with
  | ok a t =>
    rw [h] at hs
    exact trans_of R hs (hf a t)
  | error e t =>
    rw [h] at hs
    exact hs

/-- A loop keeps what each run of its body keeps. -/
theorem Keeps.forEach_of_mem {body : α → Exec ε σ Unit} {as : List α}
    (hbody : ∀ a ∈ as, Keeps R (body a)) : Keeps R (forEach as body) := by
  induction as with
  | nil => exact keeps_pure ()
  | cons a as ih =>
    exact Keeps.bind (hbody a List.mem_cons_self) fun _ =>
      ih fun b hb => hbody b (List.mem_cons_of_mem _ hb)

theorem Keeps.forEach {body : α → Exec ε σ Unit} (hbody : ∀ a, Keeps R (body a))
    (as : List α) : Keeps R (forEach as body) :=
  Keeps.forEach_of_mem fun a _ => hbody a

theorem keeps_forEach_writes {f : α → σ → σ} (hf : ∀ a s, R s (f a s)) (as : List α) :
    Keeps R (forEach as fun a => (writes (f a) : Exec ε σ Unit)) :=
  Keeps.forEach (fun a => keeps_writes (hf a)) as

end Keeps

/-- An invariant of every successful run of the body is one of the whole loop. -/
theorem forEach_invariant {I : σ → Prop} {body : α → Exec ε σ Unit} {as : List α}
    (hbody : ∀ a ∈ as, ∀ s s', I s → body a s = .ok () s' → I s') {s s' : σ} (hs : I s)
    (h : forEach as body s = .ok () s') : I s' := by
  induction as generalizing s with
  | nil =>
    rw [forEach_nil_eq_ok] at h
    exact h ▸ hs
  | cons a as ih =>
    rw [forEach_cons_eq_ok] at h
    obtain ⟨t, ha, ht⟩ := h
    exact ih (fun b hb => hbody b (List.mem_cons_of_mem _ hb))
      (hbody a List.mem_cons_self s t hs ha) ht

/-! ## Errors of a run -/

/-- Every error of `x` satisfies `P`. -/
def Fails (P : ε → Prop) (x : Exec ε σ α) : Prop :=
  ∀ s s' e, x s = .error e s' → P e

section Fails

variable {P : ε → Prop}

@[simp] theorem fails_pure (a : α) : Fails P (pure a : Exec ε σ α) :=
  fun _ _ _ h => (pure_eq_error.mp h).elim

@[simp] theorem fails_reads (f : σ → α) : Fails P (reads f : Exec ε σ α) :=
  fun _ _ _ h => (reads_eq_error.mp h).elim

@[simp] theorem fails_writes (f : σ → σ) : Fails P (writes f : Exec ε σ Unit) :=
  fun _ _ _ h => (writes_eq_error.mp h).elim

theorem fails_ensure {p : Prop} [Decidable p] {e : ε} (h : P e) :
    Fails P (ensure p e : Exec ε σ Unit) := by
  intro s s' e' he
  obtain ⟨-, rfl, -⟩ := ensure_eq_error.mp he
  exact h

theorem fails_require {o : Option α} {e : ε} (h : P e) : Fails P (require o e : Exec ε σ α) := by
  intro s s' e' he
  obtain ⟨-, rfl, -⟩ := require_eq_error.mp he
  exact h

theorem fails_tryReads {f : σ → Except ε α} (h : ∀ s e, f s = .error e → P e) :
    Fails P (tryReads f : Exec ε σ α) := by
  intro s s' e he
  exact h s e (tryReads_eq_error.mp he).1

theorem fails_mapErr {f : ε → ε} (h : ∀ e, P (f e)) (x : Exec ε σ α) : Fails P (mapErr f x) := by
  intro s s' e he
  obtain ⟨e', -, rfl⟩ := mapErr_eq_error.mp he
  exact h e'

/-- What the errors of a run satisfy, its mapped errors satisfy in the mapped form. -/
theorem Fails.mapErr {Q : ε → Prop} {x : Exec ε σ α} {f : ε → ε} (hx : Fails Q x)
    (h : ∀ e, Q e → P (f e)) : Fails P (mapErr f x) := by
  intro s s' e he
  obtain ⟨e', he', rfl⟩ := mapErr_eq_error.mp he
  exact h e' (hx s s' e' he')

theorem Fails.mono {Q : ε → Prop} {x : Exec ε σ α} (hx : Fails Q x) (h : ∀ e, Q e → P e) :
    Fails P x :=
  fun s s' e he => h e (hx s s' e he)

theorem Fails.bind {x : Exec ε σ α} {f : α → Exec ε σ β} (hx : Fails P x)
    (hf : ∀ a, Fails P (f a)) : Fails P (x >>= f) := by
  intro s s' e he
  rcases bind_eq_error.mp he with he | ⟨a, t, -, he⟩
  · exact hx s s' e he
  · exact hf a t s' e he

/-- An error that the first part of a sequence does not raise is raised by the second. -/
theorem Fails.bind_error {x : Exec ε σ α} {f : α → Exec ε σ β} {s s' : σ} {e : ε} (hx : Fails P x)
    (he : ¬P e) (h : (x >>= f) s = .error e s') : ∃ a t, x s = .ok a t ∧ f a t = .error e s' := by
  rcases bind_eq_error.mp h with h | h
  · exact absurd (hx s s' e h) he
  · exact h

/-- An error that a check does not raise is raised in the same state by what follows. -/
theorem Fails.check_error {x : Exec ε σ α} {f : α → Exec ε σ β} {s s' : σ} {e : ε} (hx : Fails P x)
    (hkeeps : Keeps Eq x) (he : ¬P e) (h : (x >>= f) s = .error e s') :
    ∃ a, x s = .ok a s ∧ f a s = .error e s' := by
  obtain ⟨a, t, ha, h⟩ := hx.bind_error he h
  obtain rfl : s = t := hkeeps.of_ok ha
  exact ⟨a, ha, h⟩

theorem Fails.ite {p : Prop} [Decidable p] {x y : Exec ε σ α} (hx : Fails P x) (hy : Fails P y) :
    Fails P (if p then x else y) := by
  split_ifs
  · exact hx
  · exact hy

end Fails

end Exec

end Astria.Lib
