import Astria.Lib.Exec

/-!
# Changes of the state that a computation does not see

A computation is oblivious to a change `f` of the state if it does the same on a changed state, and
the change is still there at the end, whether the run succeeds or fails.  What the computation reads
is then left alone by `f`, and what it writes commutes with `f`.

Results:
* `Oblivious.bind`, `Oblivious.forEach`: parts that do not see a change make a whole that does not;
* `Oblivious.ok`, `Oblivious.error`: a run on the changed state, from one on the other;
* `Oblivious.isOk_eq`: the change does not decide whether a run succeeds;
* `Parts.UsesLeft.comm`: computations that use different parts of a state can run in either order.
-/

namespace Astria.Lib.Exec

variable {ε σ τ α β : Type} {f : σ → σ}

@[simp] theorem final_mapErr (g : ε → ε) (x : Exec ε σ α) (s : σ) :
    final (mapErr g x s) = final (x s) := by
  unfold mapErr
  cases x s <;> rfl

@[simp] theorem final_zoom (get : σ → τ) (set : τ → σ → σ) (x : Exec ε τ α) (s : σ) :
    final (zoom get set x s) = set (final (x (get s))) s := by
  unfold zoom
  cases x (get s) <;> rfl

@[simp] theorem isOk_mapErr (g : ε → ε) (x : Exec ε σ α) (s : σ) :
    isOk (mapErr g x s) = isOk (x s) := by
  unfold mapErr
  cases x s <;> rfl

@[simp] theorem isOk_zoom (get : σ → τ) (set : τ → σ → σ) (x : Exec ε τ α) (s : σ) :
    isOk (zoom get set x s) = isOk (x (get s)) := by
  unfold zoom
  cases x (get s) <;> rfl

/-- What holds wherever a sequence stops: at its first part, or behind it. -/
theorem final_bind {P : σ → Prop} {x : Exec ε σ α} {y : α → Exec ε σ β} {s : σ}
    (herror : ∀ e t, x s = .error e t → P t) (hok : ∀ a t, x s = .ok a t → P (final (y a t))) :
    P (final ((x >>= y) s)) := by
  change P (final (EStateM.bind x y s))
  unfold EStateM.bind
  cases h : x s with
  | ok a t => exact hok a t h
  | error e t => exact herror e t h

/-- The same result with another state. -/
def mapState (f : σ → τ) : EStateM.Result ε σ α → EStateM.Result ε τ α
  | .ok a s => .ok a (f s)
  | .error e s => .error e (f s)

/-- `x` does not see the change `f`. -/
def Oblivious (f : σ → σ) (x : Exec ε σ α) : Prop := ∀ s, x (f s) = mapState f (x s)

namespace Oblivious

section

variable {x : Exec ε σ α} {s s' : σ} {a : α} {e : ε}

theorem ok (h : Oblivious f x) (hx : x s = .ok a s') : x (f s) = .ok a (f s') := by
  rw [h s, hx]
  rfl

theorem error (h : Oblivious f x) (hx : x s = .error e s') : x (f s) = .error e (f s') := by
  rw [h s, hx]
  rfl

theorem isOk_eq (h : Oblivious f x) (s : σ) : isOk (x (f s)) = isOk (x s) := by
  rw [h s]
  cases x s <;> rfl

theorem final_eq (h : Oblivious f x) (s : σ) : final (x (f s)) = f (final (x s)) := by
  rw [h s]
  cases x s <;> rfl

end

/-! ## Parts of computations -/

theorem pure (a : α) : Oblivious f (Pure.pure a : Exec ε σ α) := fun _ => rfl

theorem fail (e : ε) : Oblivious f (fail e : Exec ε σ α) := fun _ => rfl

theorem ensure (p : Prop) [Decidable p] (e : ε) : Oblivious f (ensure p e : Exec ε σ Unit) := by
  intro s
  unfold Exec.ensure
  split_ifs <;> rfl

theorem require (o : Option α) (e : ε) : Oblivious f (require o e : Exec ε σ α) := by
  intro s
  cases o <;> rfl

theorem lift (x : Except ε α) : Oblivious f (lift x : Exec ε σ α) := by
  intro s
  cases x <;> rfl

/-- A read of what the change leaves alone. -/
theorem reads {g : σ → α} (hg : ∀ s, g (f s) = g s) : Oblivious f (reads g : Exec ε σ α) := by
  intro s
  change EStateM.Result.ok (g (f s)) (f s) = _
  rw [hg]
  rfl

theorem tryReads {g : σ → Except ε α} (hg : ∀ s, g (f s) = g s) : Oblivious f (tryReads g) := by
  intro s
  unfold Exec.tryReads
  rw [hg]
  cases g s <;> rfl

/-- A write that commutes with the change. -/
theorem writes {g : σ → σ} (hg : ∀ s, g (f s) = f (g s)) :
    Oblivious f (writes g : Exec ε σ Unit) := by
  intro s
  change EStateM.Result.ok () (g (f s)) = _
  rw [hg]
  rfl

theorem bind {x : Exec ε σ α} {y : α → Exec ε σ β} (hx : Oblivious f x)
    (hy : ∀ a, Oblivious f (y a)) : Oblivious f (x >>= y) := by
  intro s
  change EStateM.bind x y (f s) = mapState f (EStateM.bind x y s)
  unfold EStateM.bind
  rw [hx s]
  cases x s with
  | ok a t => exact hy a t
  | error e t => rfl

theorem mapErr {x : Exec ε σ α} (hx : Oblivious f x) (g : ε → ε) : Oblivious f (mapErr g x) := by
  intro s
  unfold Exec.mapErr
  rw [hx s]
  cases x s <;> rfl

theorem ite {p : Prop} [Decidable p] {x y : Exec ε σ α} (hx : Oblivious f x)
    (hy : Oblivious f y) : Oblivious f (if p then x else y) := by
  split_ifs
  · exact hx
  · exact hy

theorem forEach {body : α → Exec ε σ Unit} (as : List α)
    (hbody : ∀ a ∈ as, Oblivious f (body a)) : Oblivious f (forEach as body) := by
  induction as with
  | nil => exact pure ()
  | cons a as ih =>
    have hrest := ih fun b hb => hbody b (List.mem_cons_of_mem a hb)
    exact bind (hbody a List.mem_cons_self) fun _ => hrest

/-- A computation on a part of the state that the change leaves alone, or changes by `g`. -/
theorem zoom {get : σ → τ} {set : τ → σ → σ} {g : τ → τ} {x : Exec ε τ α} (hx : Oblivious g x)
    (hget : ∀ s, get (f s) = g (get s)) (hset : ∀ s t, set (g t) (f s) = f (set t s)) :
    Oblivious f (zoom get set x) := by
  intro s
  unfold Exec.zoom
  rw [hget, hx (get s)]
  cases x (get s) with
  | ok a t =>
    change EStateM.Result.ok a (set (g t) (f s)) = _
    rw [hset]
    rfl
  | error e t =>
    change EStateM.Result.error e (set (g t) (f s)) = _
    rw [hset]
    rfl

/-- No computation sees a change that changes nothing. -/
theorem id (x : Exec ε σ α) : Oblivious id x := by
  intro s
  change x s = _
  cases x s <;> rfl

end Oblivious

/-! ## Computations on two parts of a state -/

/-- A state that consists of two parts. -/
structure Parts (σ τ υ : Type) where
  left : σ → τ
  right : σ → υ
  join : τ → υ → σ
  join_left_right : ∀ s, join (left s) (right s) = s
  left_join : ∀ l r, left (join l r) = l
  right_join : ∀ l r, right (join l r) = r

namespace Parts

variable {υ : Type} (p : Parts σ τ υ)

/-- `x` uses the left part only: it does not see another right part. -/
def UsesLeft (x : Exec ε σ α) : Prop := ∀ r, Oblivious (fun s => p.join (p.left s) r) x

/-- `x` uses the right part only. -/
def UsesRight (x : Exec ε σ α) : Prop := ∀ l, Oblivious (fun s => p.join l (p.right s)) x

/-- The two parts the other way round. -/
def swap : Parts σ υ τ where
  left := p.right
  right := p.left
  join r l := p.join l r
  join_left_right := p.join_left_right
  left_join r l := p.right_join l r
  right_join r l := p.left_join l r

variable {p} {x : Exec ε σ α} {y : Exec ε σ β} {s t : σ} {a : α} {b : β}

/-- A computation that uses the left part leaves the right one. -/
theorem UsesLeft.right_eq (hx : p.UsesLeft x) (s : σ) : p.right (final (x s)) = p.right s := by
  have hsame : final (x (p.join (p.left s) (p.right s))) =
      p.join (p.left (final (x s))) (p.right s) := (hx (p.right s)).final_eq s
  rw [p.join_left_right] at hsame
  rw [hsame, p.right_join]

theorem UsesRight.left_eq (hy : p.UsesRight y) (s : σ) : p.left (final (y s)) = p.left s :=
  UsesLeft.right_eq (p := p.swap) hy s

/-- A computation that uses the left part does not see a change of the right one. -/
theorem UsesLeft.oblivious (hx : p.UsesLeft x) (g : υ → υ) :
    Oblivious (fun s => p.join (p.left s) (g (p.right s))) x := by
  intro s
  have hrun : x (p.join (p.left s) (g (p.right s))) =
      mapState (fun t => p.join (p.left t) (g (p.right s))) (x s) := hx (g (p.right s)) s
  have hright := hx.right_eq s
  rw [hrun]
  cases hs : x s with
  | ok a t =>
    rw [hs] at hright
    exact congrArg (fun r => EStateM.Result.ok a (p.join (p.left t) (g r))) hright.symm
  | error e t =>
    rw [hs] at hright
    exact congrArg (fun r => EStateM.Result.error e (p.join (p.left t) (g r))) hright.symm

theorem UsesRight.oblivious (hy : p.UsesRight y) (g : τ → τ) :
    Oblivious (fun s => p.join (g (p.left s)) (p.right s)) y :=
  UsesLeft.oblivious (p := p.swap) hy g

/-- A computation that uses the left part can run before one that uses the right part. -/
theorem UsesLeft.before (hx : p.UsesLeft x) (hy : p.UsesRight y) {s' : σ} (hys : y s = .ok b t)
    (hxt : x t = .ok a s') : ∃ t', x s = .ok a t' ∧ y t' = .ok b s' := by
  -- the state in between differs from the first one in its right part only
  have hleft : p.left t = p.left s := by
    have h := hy.left_eq s
    rw [hys] at h
    exact h
  have ht : t = p.join (p.left s) (p.right t) := by
    rw [← hleft, p.join_left_right]
  have hxs : x (p.join (p.left s) (p.right t)) = mapState _ (x s) := hx (p.right t) s
  rw [← ht, hxt] at hxs
  cases h : x s with
  | error e t' =>
    rw [h] at hxs
    cases hxs
  | ok a' t' =>
    rw [h] at hxs
    obtain ⟨rfl, hs'⟩ := EStateM.Result.ok.inj hxs
    have hright : p.right t' = p.right s := by
      have h' := hx.right_eq s
      rw [h] at h'
      exact h'
    have ht' : t' = p.join (p.left t') (p.right s) := by
      rw [← hright, p.join_left_right]
    have hyt : y (p.join (p.left t') (p.right s)) = .ok b (p.join (p.left t') (p.right t)) :=
      (hy (p.left t')).ok hys
    rw [← ht'] at hyt
    exact ⟨t', rfl, hyt.trans (by rw [hs'])⟩

/-- Two computations on different parts can run in either order. -/
theorem UsesLeft.comm (hx : p.UsesLeft x) (hy : p.UsesRight y) {s' : σ} :
    (∃ t, x s = .ok a t ∧ y t = .ok b s') ↔ ∃ t, y s = .ok b t ∧ x t = .ok a s' := by
  constructor
  · rintro ⟨t, hxs, hyt⟩
    exact UsesLeft.before (p := p.swap) hy hx hxs hyt
  · rintro ⟨t, hys, hxt⟩
    exact hx.before hy hys hxt

end Parts

end Astria.Lib.Exec
