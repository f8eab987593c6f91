import Mathlib.Data.Fintype.Card
import Mathlib.Logic.Function.Basic

/-!
# A shared counter without atomic increments

Several parties increment one counter of `w` bits. An increment is a load and a
later store of the loaded value plus one, and between the two steps of one party
the others go on. `request` is the point at which a party owes an increment.

* `Reaches.le_stores`: the counter never exceeds the number of stores.
* `Reaches.requests_eq`: the increments that are owed are those of the parties
  that are not idle.
* `Reaches.eq_of_exclusive`: the count is exact while no two parties are between
  their load and their store at the same time.
* `exists_lost`: two different parties can lose an increment.
-/

namespace TimeFence.Common

/-- Where a party stands. -/
inductive CounterPoint (w : ℕ) where
  | idle
  /-- It owes an increment. -/
  | requested
  /-- It has loaded `v`, and stores `v + 1` next. -/
  | loaded (v : BitVec w)
  deriving DecidableEq, Repr

structure SharedCounter (κ : Type) (w : ℕ) where
  value : BitVec w
  point : κ → CounterPoint w

inductive CounterAction (κ : Type) where
  | request (k : κ)
  | load (k : κ)
  | store (k : κ)
  deriving DecidableEq, Repr

namespace SharedCounter

variable {κ : Type} {w : ℕ}

def init : SharedCounter κ w := ⟨0#w, fun _ => .idle⟩

/-- Every party is between two increments. -/
def Quiet (c : SharedCounter κ w) : Prop := ∀ k, c.point k = .idle

/-- At most one party is between its load and its store. -/
def Exclusive (c : SharedCounter κ w) : Prop :=
  ∀ k l u v, c.point k = .loaded u → c.point l = .loaded v → k = l

variable [DecidableEq κ]

inductive Step : SharedCounter κ w → CounterAction κ → SharedCounter κ w → Prop
  | request {c : SharedCounter κ w} {k : κ} : c.point k = .idle →
      Step c (.request k) ⟨c.value, Function.update c.point k .requested⟩
  | load {c : SharedCounter κ w} {k : κ} : c.point k = .requested →
      Step c (.load k) ⟨c.value, Function.update c.point k (.loaded c.value)⟩
  | store {c : SharedCounter κ w} {k : κ} {v : BitVec w} : c.point k = .loaded v →
      Step c (.store k) ⟨v + 1#w, Function.update c.point k .idle⟩

/-- `c` is the counter after these actions. -/
inductive Reaches : List (CounterAction κ) → SharedCounter κ w → Prop
  | init : Reaches [] init
  | step {actions : List (CounterAction κ)} {c c' : SharedCounter κ w} {a : CounterAction κ} :
      Reaches actions c → Step c a c' → Reaches (actions ++ [a]) c'

def isRequest : CounterAction κ → Bool
  | .request _ => true
  | _ => false

def isStore : CounterAction κ → Bool
  | .store _ => true
  | _ => false

/-- How many increments have been owed so far. -/
def requests (actions : List (CounterAction κ)) : ℕ := actions.countP isRequest

/-- How many of them have been made. -/
def stores (actions : List (CounterAction κ)) : ℕ := actions.countP isStore

omit [DecidableEq κ] in
theorem requests_concat (actions : List (CounterAction κ)) (a : CounterAction κ) :
    requests (actions ++ [a]) = requests actions + if isRequest a then 1 else 0 := by
  rw [requests, List.countP_append, List.countP_singleton]
  rfl

omit [DecidableEq κ] in
theorem stores_concat (actions : List (CounterAction κ)) (a : CounterAction κ) :
    stores (actions ++ [a]) = stores actions + if isStore a then 1 else 0 := by
  rw [stores, List.countP_append, List.countP_singleton]
  rfl

/-! ## Points -/

/-- The point of one party is written, those of the others stay. -/
theorem point_update {point : κ → CounterPoint w} {k l : κ} {x y : CounterPoint w}
    (h : Function.update point k x l = y) : (l = k ∧ x = y) ∨ (l ≠ k ∧ point l = y) := by
  by_cases hl : l = k
  · subst hl
    rw [Function.update_self] at h
    exact .inl ⟨rfl, h⟩
  · rw [Function.update_of_ne hl] at h
    exact .inr ⟨hl, h⟩

/-! ## No increment is counted twice -/

/-- Neither the counter nor a loaded value exceeds the number of stores. -/
theorem Reaches.le_stores {actions : List (CounterAction κ)} {c : SharedCounter κ w}
    (h : Reaches actions c) :
    c.value.toNat ≤ stores actions ∧ ∀ k v, c.point k = .loaded v → v.toNat ≤ stores actions := by
  induction h with
  | init => exact ⟨by simp [SharedCounter.init], by simp [SharedCounter.init]⟩
  | @step actions c c' a hreach hstep ih =>
    obtain ⟨hvalue, hloaded⟩ := ih
    rw [stores_concat]
    cases hstep with
    | request hidle =>
      refine ⟨by simpa [isStore] using hvalue, fun l v hl => ?_⟩
      rcases point_update hl with ⟨-, hl⟩ | ⟨-, hl⟩
      · cases hl
      · exact hloaded l v hl
    | load hrequested =>
      refine ⟨by simpa [isStore] using hvalue, fun l v hl => ?_⟩
      rcases point_update hl with ⟨-, hl⟩ | ⟨-, hl⟩
      · cases hl
        exact hvalue
      · exact hloaded l v hl
    | @store k u hu =>
      -- What is stored is one more than a value that was loaded.
      have hle := hloaded k u hu
      have hsum : (u + 1#w).toNat ≤ u.toNat + 1 := by
        rw [BitVec.toNat_add, BitVec.toNat_ofNat]
        calc (u.toNat + 1 % 2 ^ w) % 2 ^ w ≤ u.toNat + 1 % 2 ^ w := Nat.mod_le _ _
          _ ≤ u.toNat + 1 := Nat.add_le_add_left (Nat.mod_le _ _) _
      refine ⟨hsum.trans (Nat.add_le_add_right hle 1), fun l v hl => ?_⟩
      rcases point_update hl with ⟨-, hl⟩ | ⟨-, hl⟩
      · cases hl
      · exact (hloaded l v hl).trans (Nat.le_add_right _ _)

/-! ## No increment is forgotten -/

section Busy

variable [Fintype κ]

/-- The parties that owe an increment. -/
def busy (c : SharedCounter κ w) : Finset κ := {k | c.point k ≠ .idle}

omit [DecidableEq κ] in
theorem mem_busy {c : SharedCounter κ w} {k : κ} : k ∈ c.busy ↔ c.point k ≠ .idle := by
  simp [busy]

omit [DecidableEq κ] in
theorem busy_eq_empty_iff {c : SharedCounter κ w} : c.busy = ∅ ↔ c.Quiet := by
  simp [busy, Quiet, Finset.filter_eq_empty_iff]

/-- Every owed increment is either made or still owed by one of the parties. -/
theorem Reaches.requests_eq {actions : List (CounterAction κ)} {c : SharedCounter κ w}
    (h : Reaches actions c) : requests actions = stores actions + c.busy.card := by
  induction h with
  | init => simp [requests, stores, busy, SharedCounter.init]
  | @step actions c c' a hreach hstep ih =>
    rw [requests_concat, stores_concat]
    cases hstep with
    | @request k hidle =>
      have hbusy : busy ⟨c.value, Function.update c.point k .requested⟩ = insert k c.busy := by
        ext l
        rw [mem_busy, Finset.mem_insert, mem_busy]
        by_cases hl : l = k
        · simp [hl]
        · simp [hl]
      have hk : k ∉ c.busy := by simpa [mem_busy] using hidle
      rw [hbusy, Finset.card_insert_of_notMem hk, ih]
      simp only [isRequest, isStore]
      simp
      omega
    | @load k hrequested =>
      have hbusy : busy ⟨c.value, Function.update c.point k (.loaded c.value)⟩ = c.busy := by
        ext l
        rw [mem_busy, mem_busy]
        by_cases hl : l = k
        · simp [hl, hrequested]
        · simp [hl]
      rw [hbusy, ih]
      simp [isRequest, isStore]
    | @store k v hv =>
      have hbusy : busy ⟨v + 1#w, Function.update c.point k .idle⟩ = c.busy.erase k := by
        ext l
        rw [mem_busy, Finset.mem_erase, mem_busy]
        by_cases hl : l = k
        · simp [hl]
        · simp [hl]
      have hk : k ∈ c.busy := by simp [mem_busy, hv]
      have hcard := Finset.card_erase_add_one hk
      rw [hbusy, ih]
      simp only [isRequest, isStore]
      simp
      omega

end Busy

/-! ## When the count is exact -/

/-- As long as no two parties are between their load and their store at the same
    time, the counter is the number of stores. -/
theorem Reaches.eq_of_exclusive {actions : List (CounterAction κ)} {c : SharedCounter κ w}
    (h : Reaches actions c)
    (hexclusive : ∀ pre t, pre <+: actions → Reaches pre t → Exclusive (t : SharedCounter κ w)) :
    c.value = BitVec.ofNat w (stores actions) ∧
      ∀ k v, c.point k = .loaded v → v = BitVec.ofNat w (stores actions) := by
  induction h with
  | init => exact ⟨rfl, by simp [SharedCounter.init]⟩
  | @step actions c c' a hreach hstep ih =>
    obtain ⟨hvalue, hloaded⟩ := ih fun pre t hpre ht =>
      hexclusive pre t (hpre.trans (List.prefix_append _ _)) ht
    rw [stores_concat]
    cases hstep with
    | request hidle =>
      refine ⟨by simpa [isStore] using hvalue, fun l v hl => ?_⟩
      rcases point_update hl with ⟨-, hl⟩ | ⟨-, hl⟩
      · cases hl
      · simpa [isStore] using hloaded l v hl
    | load hrequested =>
      refine ⟨by simpa [isStore] using hvalue, fun l v hl => ?_⟩
      rcases point_update hl with ⟨-, hl⟩ | ⟨-, hl⟩
      · cases hl
        simpa [isStore] using hvalue
      · simpa [isStore] using hloaded l v hl
    | @store k u hu =>
      have hsum : u + 1#w = BitVec.ofNat w (stores actions + 1) := by
        rw [hloaded k u hu, BitVec.ofNat_add]
      refine ⟨by simpa [isStore] using hsum, fun l v hl => ?_⟩
      rcases point_update hl with ⟨-, hl⟩ | ⟨hne, hl⟩
      · cases hl
      · -- Nobody else has loaded a value.
        exact absurd (hexclusive actions c (List.prefix_append _ _) hreach l k v u hl hu) hne

/-- Two parties load the same value, and one of the two increments is lost. -/
theorem exists_lost {k l : κ} (hne : k ≠ l) :
    ∃ (actions : List (CounterAction κ)) (c : SharedCounter κ w),
      Reaches actions c ∧ c.Quiet ∧ requests actions = 2 ∧ c.value = 1#w := by
  have hl : l ≠ k := hne.symm
  refine ⟨[.request k, .request l, .load k, .load l, .store k, .store l], _,
    ((((((Reaches.init.step (.request (k := k) rfl)).step (.request (k := l) ?_)).step
      (.load (k := k) ?_)).step (.load (k := l) ?_)).step
      (.store (k := k) (v := 0#w) ?_)).step (.store (k := l) (v := 0#w) ?_)), fun j => ?_, rfl, ?_⟩
  case refine_6 =>
    by_cases hjk : j = k
    · simp [hjk, hne]
    · by_cases hjl : j = l
      · simp [hjl]
      · simp [hjk, hjl, SharedCounter.init]
  all_goals simp [hne, hl, SharedCounter.init]

end SharedCounter

end TimeFence.Common
