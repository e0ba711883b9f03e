import Mathlib.Data.List.Range
import Mathlib.Data.List.Pairwise
import Mathlib.Order.Defs.LinearOrder
import Mathlib.Data.Nat.Basic

/-!
# Bounded channels and numbers in flight

A bounded first-in-first-out channel between one sender and one receiver, either of which may hang up,
and the two orders in which numbered messages travel through one.

A channel keeps what its receiver took, so that statements can be about everything that was ever sent.

Results:
* `trySend_eq_ok`, `recv_eq_some`: what the two ends of a channel do;
* `Follows.push`, `Follows.raise`, `Follows.take`: messages that never run ahead of a counter;
* `Consecutive.push`, `Consecutive.take`: messages that are exactly the next ones of a counter;
* `InFlight`: what the orders of messages in flight have in common.
-/

namespace Astria.Lib

/-! ## Channels -/

/-- A channel: what was received and what waits, the oldest first. -/
structure Channel (α : Type) where
  capacity : ℕ
  received : List α
  queue : List α
  /-- The receiver closed the channel. -/
  closed : Bool
  /-- The sender is gone. -/
  senderDropped : Bool

/-- Why a message is not sent. -/
inductive TrySendError where
  | full
  | closed
  deriving DecidableEq

namespace Channel

variable {α : Type}

/-- A new channel; a sender that nobody keeps is dropped. -/
def create (capacity : ℕ) (hasSender : Bool) : Channel α :=
  { capacity := capacity, received := [], queue := [], closed := false, senderDropped := !hasSender }

/-- Everything that was sent, the oldest first. -/
def sent (c : Channel α) : List α := c.received ++ c.queue

def trySend (a : α) (c : Channel α) : Except TrySendError (Channel α) :=
  if c.closed then .error .closed
  else if c.queue.length < c.capacity then .ok { c with queue := c.queue ++ [a] }
  else .error .full

/-- Takes the oldest message that waits; a closed channel still has its messages. -/
def recv (c : Channel α) : Option (α × Channel α) :=
  match c.queue with
  | [] => none
  | a :: as => some (a, { c with received := c.received ++ [a], queue := as })

/-- No message waits, and none will come. -/
def finished (c : Channel α) : Bool := c.queue.isEmpty && (c.closed || c.senderDropped)

def close (c : Channel α) : Channel α := { c with closed := true }

def dropSender (c : Channel α) : Channel α := { c with senderDropped := true }

section

variable {c c' : Channel α} {a : α}

@[simp] theorem create_queue (capacity : ℕ) (hasSender : Bool) :
    (create capacity hasSender : Channel α).queue = [] := rfl
@[simp] theorem create_sent (capacity : ℕ) (hasSender : Bool) :
    (create capacity hasSender : Channel α).sent = [] := rfl
@[simp] theorem close_queue : c.close.queue = c.queue := rfl
@[simp] theorem close_sent : c.close.sent = c.sent := rfl
@[simp] theorem close_senderDropped : c.close.senderDropped = c.senderDropped := rfl
@[simp] theorem dropSender_queue : c.dropSender.queue = c.queue := rfl
@[simp] theorem dropSender_sent : c.dropSender.sent = c.sent := rfl
@[simp] theorem dropSender_senderDropped : c.dropSender.senderDropped = true := rfl
@[simp] theorem dropSender_closed : c.dropSender.closed = c.closed := rfl

theorem trySend_eq_ok :
    c.trySend a = .ok c' ↔ c.closed = false ∧ c.queue.length < c.capacity ∧
      c' = { c with queue := c.queue ++ [a] } := by
  unfold trySend
  cases hclosed : c.closed with
  | true => simp
  | false =>
    by_cases hlt : c.queue.length < c.capacity
    · simp [hlt, eq_comm]
    · simp [hlt]

/-- A message that is sent waits behind the others. -/
theorem queue_of_trySend (h : c.trySend a = .ok c') : c'.queue = c.queue ++ [a] := by
  obtain ⟨-, -, rfl⟩ := trySend_eq_ok.mp h
  rfl

theorem sent_of_trySend (h : c.trySend a = .ok c') : c'.sent = c.sent ++ [a] := by
  obtain ⟨-, -, rfl⟩ := trySend_eq_ok.mp h
  show c.received ++ (c.queue ++ [a]) = c.received ++ c.queue ++ [a]
  rw [List.append_assoc]

theorem recv_eq_some :
    c.recv = some (a, c') ↔ ∃ as, c.queue = a :: as ∧
      c' = { c with received := c.received ++ [a], queue := as } := by
  unfold recv
  cases hqueue : c.queue with
  | nil => simp
  | cons b bs =>
    simp only [Option.some.injEq, Prod.mk.injEq, List.cons.injEq]
    constructor
    · rintro ⟨rfl, rfl⟩
      exact ⟨bs, ⟨rfl, rfl⟩, rfl⟩
    · rintro ⟨as, ⟨rfl, rfl⟩, rfl⟩
      exact ⟨rfl, rfl⟩

theorem recv_eq_none : c.recv = none ↔ c.queue = [] := by
  unfold recv
  cases c.queue <;> simp

/-- Receiving does not change what was sent. -/
theorem sent_of_recv (h : c.recv = some (a, c')) : c'.sent = c.sent := by
  obtain ⟨as, hqueue, rfl⟩ := recv_eq_some.mp h
  show c.received ++ [a] ++ as = c.received ++ c.queue
  rw [hqueue, List.append_assoc]
  rfl

theorem mem_sent_of_recv (h : c.recv = some (a, c')) : a ∈ c'.sent := by
  obtain ⟨as, -, rfl⟩ := recv_eq_some.mp h
  exact List.mem_append_left _ (List.mem_append_right _ (List.mem_singleton_self a))

theorem senderDropped_of_recv (h : c.recv = some (a, c')) : c'.senderDropped = c.senderDropped := by
  obtain ⟨as, -, rfl⟩ := recv_eq_some.mp h
  rfl

theorem queue_of_recv (h : c.recv = some (a, c')) : c.queue = a :: c'.queue := by
  obtain ⟨as, hqueue, rfl⟩ := recv_eq_some.mp h
  exact hqueue

theorem finished_eq_true :
    c.finished = true ↔ c.queue = [] ∧ (c.closed = true ∨ c.senderDropped = true) := by
  simp [finished]

end

end Channel

/-! ## Numbers in flight -/

/-- The numbers in flight towards a counter at `n` never run ahead of it, where a number equal to the
counter advances it and a smaller one is dropped; `next` is the number to be sent next. -/
def Follows (n : ℕ) : List ℕ → ℕ → Prop
  | [], next => next ≤ n
  | k :: ks, next => k ≤ n ∧ Follows (max n (k + 1)) ks next

section

variable {n m next k : ℕ} {ks : List ℕ}

theorem Follows.mono (h : Follows n ks next) (hle : n ≤ m) : Follows m ks next := by
  induction ks generalizing n m with
  | nil => exact le_trans h hle
  | cons k ks ih =>
    obtain ⟨hk, hks⟩ := h
    exact ⟨le_trans hk hle, ih hks (by omega)⟩

/-- Sending the next number. -/
theorem Follows.push (h : Follows n ks next) : Follows n (ks ++ [next]) (next + 1) := by
  induction ks generalizing n with
  | nil =>
    have h : next ≤ n := h
    refine ⟨h, ?_⟩
    show next + 1 ≤ max n (next + 1)
    omega
  | cons k ks ih =>
    obtain ⟨hk, hks⟩ := h
    exact ⟨hk, ih hks⟩

/-- The sender may catch up with the counter. -/
theorem Follows.raise (h : Follows n ks next) (hle : m ≤ n) : Follows n ks (max next m) := by
  induction ks generalizing n with
  | nil =>
    have h : next ≤ n := h
    show max next m ≤ n
    omega
  | cons k ks ih =>
    obtain ⟨hk, hks⟩ := h
    exact ⟨hk, ih hks (by omega)⟩

/-- The receiver takes the oldest number. -/
theorem Follows.take (h : Follows n (k :: ks) next) : k ≤ n ∧ Follows (max n (k + 1)) ks next := h

/-- Where every number in flight is behind the counter, the next one is not ahead of it. -/
theorem Follows.next_le (h : Follows n ks next) (hlt : ∀ k ∈ ks, k < n) : next ≤ n := by
  induction ks with
  | nil => exact h
  | cons k ks ih =>
    obtain ⟨-, hks⟩ := h
    have hk := hlt k (List.mem_cons_self ..)
    rw [max_eq_left (by omega)] at hks
    exact ih hks fun j hj => hlt j (List.mem_cons_of_mem _ hj)

/-- What was sent last may be lost. -/
theorem Follows.dropLast (h : Follows n (ks ++ [k]) next) : ∃ next', Follows n ks next' := by
  induction ks generalizing n with
  | nil =>
    obtain ⟨hk, -⟩ := h
    exact ⟨k, hk⟩
  | cons j ks ih =>
    obtain ⟨hj, hks⟩ := h
    obtain ⟨next', hnext⟩ := ih hks
    exact ⟨next', hj, hnext⟩

/-- The numbers in flight towards a counter at `n` are exactly the next ones. -/
def Consecutive (n : ℕ) (ks : List ℕ) (next : ℕ) : Prop :=
  ks = List.range' n ks.length ∧ next = n + ks.length

theorem Consecutive.push (h : Consecutive n ks next) : Consecutive n (ks ++ [next]) (next + 1) := by
  obtain ⟨hks, rfl⟩ := h
  rw [Consecutive, List.length_append, List.length_singleton, List.range'_concat, Nat.one_mul, ← hks]
  exact ⟨rfl, by omega⟩

theorem Consecutive.take (h : Consecutive n (k :: ks) next) :
    k = n ∧ Consecutive (n + 1) ks next := by
  obtain ⟨hks, rfl⟩ := h
  rw [List.length_cons, List.range'_succ, List.cons.injEq] at hks
  obtain ⟨rfl, hks⟩ := hks
  refine ⟨rfl, hks, ?_⟩
  rw [List.length_cons]
  omega

theorem Consecutive.dropLast (h : Consecutive n (ks ++ [k]) next) : ∃ next', Consecutive n ks next' := by
  obtain ⟨hks, -⟩ := h
  rw [List.length_append, List.length_singleton, List.range'_concat] at hks
  exact ⟨n + ks.length, (List.append_inj_left' hks rfl), rfl⟩

/-- Numbers that ascend and stay below the next one. -/
def Ascends (ks : List ℕ) (next : ℕ) : Prop := ks.Pairwise (· < ·) ∧ ∀ k ∈ ks, k < next

theorem Ascends.nil (next : ℕ) : Ascends [] next := ⟨.nil, fun _ h => absurd h List.not_mem_nil⟩

theorem Ascends.push (h : Ascends ks next) : Ascends (ks ++ [next]) (next + 1) := by
  obtain ⟨hks, hlt⟩ := h
  refine ⟨List.pairwise_append.mpr ⟨hks, List.pairwise_singleton _ _, ?_⟩, ?_⟩
  · intro k hk j hj
    rw [List.mem_singleton] at hj
    rw [hj]
    exact hlt k hk
  · intro k hk
    rw [List.mem_append, List.mem_singleton] at hk
    obtain hk | rfl := hk
    · have := hlt k hk
      omega
    · omega

theorem Ascends.raise (h : Ascends ks next) (hle : next ≤ m) : Ascends ks m :=
  ⟨h.1, fun k hk => lt_of_lt_of_le (h.2 k hk) hle⟩

theorem Ascends.dropLast (h : Ascends (ks ++ [k]) next) : Ascends ks next :=
  ⟨(List.pairwise_append.mp h.1).1, fun j hj => h.2 j (List.mem_append_left _ hj)⟩

/-- An order of the numbers in flight that a sender starting at `n` keeps by sending the next number,
and by losing the last one. -/
structure InFlight (P : List ℕ → ℕ → Prop) (n : ℕ) : Prop where
  start : P [] n
  push : ∀ ks next, P ks next → P (ks ++ [next]) (next + 1)
  dropLast : ∀ ks k next, P (ks ++ [k]) next → ∃ next', P ks next'

theorem Follows.inFlight (n : ℕ) : InFlight (Follows n) n :=
  ⟨le_refl n, fun _ _ => Follows.push, fun _ _ _ => Follows.dropLast⟩

theorem Consecutive.inFlight (n : ℕ) : InFlight (Consecutive n) n :=
  ⟨⟨rfl, rfl⟩, fun _ _ => Consecutive.push, fun _ _ _ => Consecutive.dropLast⟩

theorem Ascends.inFlight (n : ℕ) : InFlight Ascends n :=
  ⟨Ascends.nil n, fun _ _ => Ascends.push, fun _ _ next h => ⟨next, h.dropLast⟩⟩

end

end Astria.Lib
