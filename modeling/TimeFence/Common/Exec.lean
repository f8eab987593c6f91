import Mathlib

/-!
# Running Rust code that may panic

A Rust function either returns a value or panics. `Exec α` is the type of such
runs: a panic carries its reason, and a run that panics stops there.

`Returns c Q` is total correctness: the run `c` does not panic and its result
satisfies `Q`. The rules below follow the structure of a `do` block: `bind` for
a `let`, `foldlM` for a `for` loop over a slice, `foldlM_zipIdx` for a loop over
`.iter().enumerate()`, `whileLt` for a counting `while` loop and `mapM` for
`.map(f).collect()`. The rules for loops over slices take an invariant indexed by
the prefix of the slice that has been consumed.
-/

namespace TimeFence.Common

/-- Why a run of a Rust program panics. -/
inductive Panic where
  /-- An arithmetic result outside the range of its type. -/
  | arithmeticOverflow
  /-- A remainder by zero. -/
  | remainderByZero
  /-- A failed `assert!`, with its message. -/
  | assertFailed (message : String)
  /-- `expect` on `None`, with its message. -/
  | expectFailed (message : String)
  /-- An index outside a slice. -/
  | indexOutOfBounds
  deriving DecidableEq, Repr

/-- The runs of a Rust function with result type `α`. -/
abbrev Exec (α : Type) := Except Panic α

/-- `assert!(condition, message)`. -/
def assertThat (condition : Prop) [Decidable condition] (message : String) : Exec Unit :=
  if condition then .ok () else .error (.assertFailed message)

/-- `option.expect(message)`. -/
def expect {α : Type} (message : String) : Option α → Exec α
  | some a => .ok a
  | none => .error (.expectFailed message)

/-- `xs[i]`. -/
def index {α : Type} (xs : List α) (i : ℕ) : Exec α :=
  match xs[i]? with
  | some x => .ok x
  | none => .error .indexOutOfBounds

/-- `while i < n { body; i += 1 }`, where the body may read the counter. -/
def whileLt {σ : Type} (n : ℕ) (body : ℕ → σ → Exec σ) (i : ℕ) (s : σ) : Exec σ :=
  if i < n then do
    let s ← body i s
    whileLt n body (i + 1) s
  else
    pure s
termination_by n - i

theorem assertThat_of {condition : Prop} [Decidable condition] {message : String}
    (h : condition) : assertThat condition message = .ok () := by
  rw [assertThat, if_pos h]

@[simp] theorem expect_some {α : Type} (message : String) (a : α) :
    expect message (some a) = .ok a := rfl

theorem index_of_lt {α : Type} {xs : List α} {i : ℕ} (h : i < xs.length) :
    index xs i = .ok xs[i] := by
  rw [index, List.getElem?_eq_getElem h]

@[simp] theorem ok_bind {α β : Type} (a : α) (f : α → Exec β) :
    ((.ok a : Exec α) >>= f) = f a := rfl

@[simp] theorem error_bind {α β : Type} (e : Panic) (f : α → Exec β) :
    ((.error e : Exec α) >>= f) = .error e := rfl

/-- A `do` block returned exactly when its first action did and then the rest. -/
theorem bind_eq_ok_iff {α β : Type} {c : Exec α} {f : α → Exec β} {b : β} :
    (c >>= f) = .ok b ↔ ∃ a, c = .ok a ∧ f a = .ok b := by
  cases c with
  | error e => simp
  | ok a => simp

/-! ## Total correctness -/

/-- The run `c` returns, and its result satisfies `Q`. -/
def Returns {α : Type} (c : Exec α) (Q : α → Prop) : Prop := ∃ a, c = .ok a ∧ Q a

section Rules

variable {α β σ : Type} {Q : α → Prop} {R : β → Prop}

theorem Returns.ok {a : α} (h : Q a) : Returns (.ok a) Q := ⟨a, rfl, h⟩

theorem Returns.pure {a : α} (h : Q a) : Returns (Pure.pure a) Q := ⟨a, rfl, h⟩

@[simp] theorem returns_ok_iff {a : α} : Returns (.ok a) Q ↔ Q a := by
  constructor
  · rintro ⟨b, hb, hQ⟩
    cases hb
    exact hQ
  · exact Returns.ok

theorem Returns.mono {P : α → Prop} {c : Exec α} (h : Returns c P) (hPQ : ∀ a, P a → Q a) :
    Returns c Q := by
  obtain ⟨a, ha, hP⟩ := h
  exact ⟨a, ha, hPQ a hP⟩

/-- The result of a run that returned. -/
theorem Returns.of_eq_ok {c : Exec α} {a : α} (h : Returns c Q) (ha : c = .ok a) : Q a := by
  obtain ⟨b, hb, hQ⟩ := h
  rw [ha] at hb
  cases hb
  exact hQ

/-- The `let` rule. -/
theorem Returns.bind {c : Exec α} {f : α → Exec β} (h : Returns c Q)
    (hf : ∀ a, Q a → Returns (f a) R) : Returns (c >>= f) R := by
  obtain ⟨a, rfl, hQ⟩ := h
  exact hf a hQ

/-- The prefix that a loop has consumed is shorter than the slice. -/
theorem length_lt_of_split {xs pre post : List α} {x : α} (h : xs = pre ++ x :: post) :
    pre.length < xs.length := by
  rw [h, List.length_append, List.length_cons]
  omega

/-- The loop rule for `for x in xs`: `Inv pre s` holds of the state `s` reached
    after the prefix `pre` of `xs`. -/
theorem Returns.foldlM {f : σ → α → Exec σ} {xs : List α} {s₀ : σ} (Inv : List α → σ → Prop)
    (h₀ : Inv [] s₀)
    (step : ∀ pre x post s, xs = pre ++ x :: post → Inv pre s →
      Returns (f s x) (Inv (pre ++ [x]))) :
    Returns (xs.foldlM f s₀) (Inv xs) := by
  -- Induction on the elements left, with the consumed prefix `pre` general.
  have key : ∀ post pre s, xs = pre ++ post → Inv pre s → Returns (post.foldlM f s) (Inv xs) := by
    intro post
    induction post with
    | nil =>
      intro pre s hxs hs
      rw [List.append_nil] at hxs
      subst hxs
      exact Returns.pure hs
    | cons x post ih =>
      intro pre s hxs hs
      rw [List.foldlM_cons]
      refine (step pre x post s hxs hs).bind fun s' hs' => ?_
      exact ih (pre ++ [x]) s' (by simp [hxs]) hs'
  exact key xs [] s₀ rfl h₀

/-- An enumerated list split at a pair: the index is the number of pairs before it. -/
theorem zipIdx_eq_append_cons {xs : List α} {pre post : List (α × ℕ)} {x : α} {i : ℕ}
    (h : xs.zipIdx = pre ++ (x, i) :: post) :
    i = pre.length ∧ xs = pre.map Prod.fst ++ x :: post.map Prod.fst := by
  constructor
  · have hget : xs.zipIdx[pre.length]? = some (x, i) := by
      rw [h]
      simp
    rw [List.getElem?_zipIdx, Option.map_eq_some_iff] at hget
    obtain ⟨y, -, hpair⟩ := hget
    simpa using (congrArg Prod.snd hpair).symm
  · rw [← List.zipIdx_map_fst 0 xs, h, List.map_append, List.map_cons]

/-- The loop rule for `for (i, x) in xs.iter().enumerate()`: the index of the
    next element is the length of the consumed prefix. -/
theorem Returns.foldlM_zipIdx {f : σ → α × ℕ → Exec σ} {xs : List α} {s₀ : σ}
    (Inv : List α → σ → Prop) (h₀ : Inv [] s₀)
    (step : ∀ pre x post s, xs = pre ++ x :: post → Inv pre s →
      Returns (f s (x, pre.length)) (Inv (pre ++ [x]))) :
    Returns (xs.zipIdx.foldlM f s₀) (Inv xs) := by
  -- The loop over the pairs, whose invariant forgets the indices.
  have hloop : Returns (xs.zipIdx.foldlM f s₀) fun s => Inv (xs.zipIdx.map Prod.fst) s := by
    refine Returns.foldlM (fun pre s => Inv (pre.map Prod.fst) s) h₀ ?_
    rintro pre ⟨x, i⟩ post s hsplit hs
    obtain ⟨rfl, hxs⟩ := zipIdx_eq_append_cons hsplit
    have hstep := step _ x _ s hxs hs
    rw [List.length_map] at hstep
    rwa [List.map_append, List.map_singleton]
  rwa [List.zipIdx_map_fst] at hloop

/-- A loop that stops at the first element behind a prefix over which it runs. -/
theorem Returns.foldlM_zipIdx_eq_error {f : σ → α × ℕ → Exec σ} {pre post : List α} {x : α}
    {s₀ : σ} {P : σ → Prop} {e : Panic} (hpre : Returns (pre.zipIdx.foldlM f s₀) P)
    (hx : ∀ s, P s → f s (x, pre.length) = .error e) :
    (pre ++ x :: post).zipIdx.foldlM f s₀ = .error e := by
  obtain ⟨s, hs, hP⟩ := hpre
  rw [List.zipIdx_append, List.foldlM_append, hs, ok_bind, List.zipIdx_cons, List.foldlM_cons,
    Nat.zero_add, hx s hP]
  rfl

/-- A loop that pushes one result for each element: the results are in the order
    of the elements, and each satisfies the postcondition of its iteration. -/
theorem Returns.foldlM_push {g : α → ℕ → Exec β} {xs : List α} {P : ℕ → α → β → Prop}
    (h : ∀ k x, xs[k]? = some x → Returns (g x k) (P k x)) :
    Returns (xs.zipIdx.foldlM (fun bs (x, i) => do
        let b ← g x i
        Pure.pure (bs ++ [b])) [])
      fun bs => bs.length = xs.length ∧
        ∀ k x b, xs[k]? = some x → bs[k]? = some b → P k x b := by
  refine Returns.foldlM_zipIdx (fun (pre : List α) (bs : List β) => bs.length = pre.length ∧
    ∀ k x b, pre[k]? = some x → bs[k]? = some b → P k x b) (by simp) ?_
  intro pre x post bs hxs ⟨hlen, hP⟩
  have hx : xs[pre.length]? = some x := by rw [hxs]; simp
  refine (h _ x hx).bind fun b hb => Returns.pure ⟨by simp [hlen], ?_⟩
  intro k y b' hy hb'
  rcases lt_trichotomy k pre.length with hk | hk | hk
  · rw [List.getElem?_append_left hk] at hy
    rw [List.getElem?_append_left (by omega)] at hb'
    exact hP k y b' hy hb'
  · subst hk
    rw [List.getElem?_concat_length] at hy
    rw [← hlen, List.getElem?_concat_length] at hb'
    cases hy
    cases hb'
    exact hb
  · rw [List.getElem?_eq_none (by simp; omega)] at hy
    cases hy

/-- The rule for a counting loop: `Inv i s` holds of the state `s` with which the
    iteration `i` starts. -/
theorem Returns.whileLt {n : ℕ} {body : ℕ → σ → Exec σ} (Inv : ℕ → σ → Prop)
    (step : ∀ i s, i < n → Inv i s → Returns (body i s) (Inv (i + 1))) {i : ℕ} {s : σ}
    (hi : i ≤ n) (h : Inv i s) : Returns (whileLt n body i s) (Inv n) := by
  -- Induction on the number of iterations left.
  induction hk : n - i generalizing i s with
  | zero =>
    have hin : i = n := by omega
    subst hin
    rw [Common.whileLt, if_neg (lt_irrefl i)]
    exact Returns.pure h
  | succ k ih =>
    have hlt : i < n := by omega
    rw [Common.whileLt, if_pos hlt]
    exact (step i s hlt h).bind fun s' hs' => ih (by omega) hs' (by omega)

/-- The rule for `xs.iter().map(f).collect()`: the results correspond to the
    elements one by one. -/
theorem Returns.mapM {f : α → Exec β} {xs : List α} {P : α → β → Prop}
    (h : ∀ x ∈ xs, Returns (f x) (P x)) : Returns (xs.mapM f) (List.Forall₂ P xs) := by
  induction xs with
  | nil => exact Returns.pure .nil
  | cons x xs ih =>
    rw [List.mapM_cons]
    refine (h x List.mem_cons_self).bind fun b hb => ?_
    refine (ih fun y hy => h y (List.mem_cons_of_mem x hy)).bind fun bs hbs => ?_
    exact Returns.pure (.cons hb hbs)

/-! ## Partial correctness -/

/-- The last iteration of a loop. -/
theorem foldlM_concat_eq_ok_iff {f : σ → α → Exec σ} {xs : List α} {x : α} {s s' : σ} :
    (xs ++ [x]).foldlM f s = .ok s' ↔ ∃ s₁, xs.foldlM f s = .ok s₁ ∧ f s₁ x = .ok s' := by
  rw [List.foldlM_append, bind_eq_ok_iff]
  refine exists_congr fun s₁ => and_congr_right fun _ => ?_
  show (f s₁ x >>= Pure.pure) = .ok s' ↔ f s₁ x = .ok s'
  rw [bind_pure]

/-- The invariant rule for a run of a state machine, one input after the other:
    whatever the inputs, a run that has not panicked keeps the invariant.
    `Inv pre s` is about the state `s` after the inputs `pre`. -/
theorem foldlM_invariant {f : σ → α → Exec σ} {xs : List α} {s₀ s : σ} (Inv : List α → σ → Prop)
    (h₀ : Inv [] s₀) (step : ∀ pre x s s', Inv pre s → f s x = .ok s' → Inv (pre ++ [x]) s')
    (hrun : xs.foldlM f s₀ = .ok s) : Inv xs s := by
  induction xs using List.reverseRecOn generalizing s with
  | nil =>
    cases hrun
    exact h₀
  | append_singleton xs x ih =>
    obtain ⟨s', hxs, hx⟩ := foldlM_concat_eq_ok_iff.mp hrun
    exact step xs x s' s (ih hxs) hx

end Rules

end TimeFence.Common
