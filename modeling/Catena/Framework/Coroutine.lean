import Mathlib.Data.List.Basic

/-!
# Coroutines

A coroutine yields values of one type until it returns one. Its handle is suspended at the start
and after each value; the caller takes the value out of the promise. A coroutine that always
yields what it was given before it makes the next value delays every value by one step, and the
rules for `Emits` say which values it makes.
-/

namespace Catena.Framework

/-- The body of a coroutine that yields in `β` and returns in `α`. -/
inductive Coroutine (β α : Type) where
  | ret (a : α)
  | yield (b : β) (resume : Coroutine β α)

namespace Coroutine

variable {β α γ ι : Type}

def bind : Coroutine β α → (α → Coroutine β γ) → Coroutine β γ
  | .ret a, k => k a
  | .yield b m, k => .yield b (m.bind k)

/-- `for (x : xs) s = body(x, s)`. -/
def forEach (xs : List ι) (body : ι → α → Coroutine β α) (s : α) : Coroutine β α :=
  match xs with
  | [] => .ret s
  | x :: xs => (body x s).bind (forEach xs body)

/-- The values in the order the caller gets them, the returned one last. -/
def values : Coroutine β β → List β
  | .ret b => [b]
  | .yield b m => b :: m.values

/-- A step that is given a pending value passes it on before the values it makes. -/
def Emits (step : β → Coroutine β β) (out : List β) : Prop := ∀ b, (step b).values = b :: out

theorem emits_ret : Emits (fun b : β => .ret b) [] := fun _ => rfl

theorem values_bind {step : β → Coroutine β β} {out : List β} (h : Emits step out)
    (m : Coroutine β β) : (m.bind step).values = m.values ++ out := by
  induction m with
  | ret b => exact h b
  | yield b m ih => exact congrArg (b :: ·) ih

theorem Emits.bind {first second : β → Coroutine β β} {out out' : List β} (h : Emits first out)
    (h' : Emits second out') : Emits (fun b => (first b).bind second) (out ++ out') := by
  intro b
  rw [values_bind h', h b]
  rfl

theorem Emits.forEach {body : ι → β → Coroutine β β} {out : ι → List β}
    (h : ∀ x, Emits (body x) (out x)) (xs : List ι) :
    Emits (Coroutine.forEach xs body) (xs.flatMap out) := by
  induction xs with
  | nil => exact emits_ret
  | cons x xs ih => exact (h x).bind ih

theorem Emits.forEach_map (f : ι → β) (xs : List ι) :
    Emits (Coroutine.forEach xs fun x pending => .yield pending (.ret (f x))) (xs.map f) := by
  rw [List.map_eq_flatMap]
  exact Emits.forEach (fun _ _ => rfl) xs

theorem Emits.forEach_filter (p : ι → Prop) [DecidablePred p] (f : ι → β) (xs : List ι) :
    Emits (Coroutine.forEach xs fun x pending =>
      if p x then .yield pending (.ret (f x)) else .ret pending) ((xs.filter p).map f) := by
  induction xs with
  | nil => exact emits_ret
  | cons x xs ih =>
    by_cases hx : p x
    · intro pending
      simp only [Coroutine.forEach, hx, if_true, List.filter_cons_of_pos, decide_true, List.map_cons]
      exact congrArg (pending :: ·) (ih (f x))
    · intro pending
      simp only [Coroutine.forEach, hx, if_false]
      rw [List.filter_cons_of_neg (by simpa using hx)]
      exact ih pending

/-- A coroutine handle, without a body once it is done, and the value in its promise. -/
structure Handle (β : Type) where
  body : Option (Coroutine β β)
  promise : β

namespace Handle

/-- `!handle.done()`. -/
def hasMore (h : Handle β) : Bool := h.body.isSome

/-- Run to the next suspension and move the value out of the promise, which leaves `moved`. -/
def getNext (moved : β) (h : Handle β) : β × Handle β :=
  match h.body with
  | none => (h.promise, ⟨none, moved⟩)
  | some (.ret b) => (b, ⟨none, moved⟩)
  | some (.yield b m) => (b, ⟨some m, moved⟩)

/-- `while (hasMore()) getNext()`, for at most so many turns: what it gets, and the handle
afterwards. -/
def drain (moved : β) : Nat → Handle β → List β × Handle β
  | 0, h => ([], h)
  | n + 1, h =>
      if h.hasMore then
        let next := h.getNext moved
        let rest := drain moved n next.2
        (next.1 :: rest.1, rest.2)
      else ([], h)

/-- With as many turns as there are values, the loop gets them all and ends. -/
theorem drain_eq (moved promise : β) (m : Coroutine β β) (n : Nat) (hn : m.values.length ≤ n) :
    drain moved n ⟨some m, promise⟩ = (m.values, ⟨none, moved⟩) := by
  induction m generalizing n promise with
  | ret b =>
    cases n with
    | zero => cases hn
    | succ n => cases n <;> rfl
  | yield b m ih =>
    cases n with
    | zero => cases hn
    | succ n =>
      have hrest := ih moved n (Nat.le_of_succ_le_succ hn)
      simp only [drain, hasMore, getNext, Option.isSome_some, if_true, hrest, values]

/-- Calling `getNext` until `hasMore` is false gives these values. -/
def Delivers (moved : β) (h : Handle β) (values : List β) : Prop :=
  ∀ n, values.length ≤ n → ∃ ended, h.drain moved n = (values, ended) ∧ ended.hasMore = false

theorem delivers_values (moved promise : β) (m : Coroutine β β) :
    Delivers moved ⟨some m, promise⟩ m.values :=
  fun n hn => ⟨_, drain_eq moved promise m n hn, rfl⟩

def remaining (h : Handle β) : List β := h.body.elim [] values

theorem remaining_of_hasMore (moved : β) {h : Handle β} (hmore : h.hasMore = true) :
    h.remaining = (h.getNext moved).1 :: (h.getNext moved).2.remaining := by
  obtain ⟨body, promise⟩ := h
  cases body with
  | none => cases hmore
  | some m => cases m <;> rfl

theorem remaining_of_not_hasMore {h : Handle β} (hmore : h.hasMore = false) :
    h.remaining = [] := by
  obtain ⟨body, promise⟩ := h
  cases body with
  | none => rfl
  | some m => cases hmore

end Handle

end Coroutine

end Catena.Framework
