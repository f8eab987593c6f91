import TimeFence.Algebra.SparseDigits
import TimeFence.Common.Search
import TimeFence.Metrics.Main
import TimeFence.Metrics.Main1

/-!
# The collision searches of the metrics programs

Model of `exhaustive_len2_collision_search` and `exhaustive_len3_collision_search`
(`ksentry-metrics/src/main.rs`, lines 334–384) and of
`bounded_collision_search_len2` and `bounded_collision_search_len3`
(`ksentry-metrics/src/bin/main1.rs`, lines 243–285): nested loops over all pairs of
logs of two or three entries up to a bound.

* `exhaustiveCollisionSearch_report`, `boundedCollisionSearch_report`: what they
  return is right, they find a collision whenever there are more logs than states,
  and none when the bound is below the base and the largest log below the modulus.
-/

namespace TimeFence.Metrics

open TimeFence.Common TimeFence.Algebra

/-! ## Model -/

/-- The values of `0..=bound`. -/
def upTo (bound : U64) : List U64 := (List.range (bound.toNat + 1)).map (BitVec.ofNat 64)

/-- Model of `exhaustive_len2_collision_search` (lines 334–356). -/
def Main.exhaustiveLen2CollisionSearch (q p bound : U64) :
    Exec (Option ((U64 × U64) × (U64 × U64) × U64)) := do
  let ks ← KSentry.new q p
  (upTo bound).findSomeM? fun a => (upTo bound).findSomeM? fun b => do
    let s1 ← Main.stateForLogs ks [a, b]
    (upTo bound).findSomeM? fun c => (upTo bound).findSomeM? fun d =>
      if a = c ∧ b = d then pure none
      else do
        let s2 ← Main.stateForLogs ks [c, d]
        pure (if s1 = s2 then some ((a, b), (c, d), s1) else none)

/-- Model of `exhaustive_len3_collision_search` (lines 358–384). -/
def Main.exhaustiveLen3CollisionSearch (q p bound : U64) :
    Exec (Option ((U64 × U64 × U64) × (U64 × U64 × U64) × U64)) := do
  let ks ← KSentry.new q p
  (upTo bound).findSomeM? fun a => (upTo bound).findSomeM? fun b =>
    (upTo bound).findSomeM? fun c => do
      let s1 ← Main.stateForLogs ks [a, b, c]
      (upTo bound).findSomeM? fun x => (upTo bound).findSomeM? fun y =>
        (upTo bound).findSomeM? fun z =>
          if a = x ∧ b = y ∧ c = z then pure none
          else do
            let s2 ← Main.stateForLogs ks [x, y, z]
            pure (if s1 = s2 then some ((a, b, c), (x, y, z), s1) else none)

/-- Model of `bounded_collision_search_len2` (lines 243–261). -/
def Main1.boundedCollisionSearchLen2 (ks : KSentry) (bound : U64) : Exec Bool := do
  let found ← (upTo bound).findSomeM? fun a => (upTo bound).findSomeM? fun b =>
    (upTo bound).findSomeM? fun c => (upTo bound).findSomeM? fun d =>
      if a = c ∧ b = d then pure none
      else do
        let s1 ← Main1.stateForLogs ks [a, b]
        let s2 ← Main1.stateForLogs ks [c, d]
        pure (if s1 = s2 then some true else none)
  pure (found.getD false)

/-- Model of `bounded_collision_search_len3` (lines 263–285). -/
def Main1.boundedCollisionSearchLen3 (ks : KSentry) (bound : U64) : Exec Bool := do
  let found ← (upTo bound).findSomeM? fun a => (upTo bound).findSomeM? fun b =>
    (upTo bound).findSomeM? fun c => (upTo bound).findSomeM? fun d =>
      (upTo bound).findSomeM? fun e => (upTo bound).findSomeM? fun f =>
        if a = d ∧ b = e ∧ c = f then pure none
        else do
          let s1 ← Main1.stateForLogs ks [a, b, c]
          let s2 ← Main1.stateForLogs ks [d, e, f]
          pure (if s1 = s2 then some true else none)
  pure (found.getD false)

/-! ## Candidates -/

section

variable {bound : U64}

theorem mem_upTo {x : U64} : x ∈ upTo bound ↔ x.toNat ≤ bound.toNat := by
  have hlt := bound.isLt
  rw [upTo, List.mem_map]
  constructor
  · rintro ⟨n, hn, rfl⟩
    rw [List.mem_range] at hn
    rw [BitVec.toNat_ofNat, Nat.mod_eq_of_lt (by omega)]
    omega
  · intro h
    exact ⟨x.toNat, List.mem_range.mpr (by omega), by simp⟩

theorem length_upTo (bound : U64) : (upTo bound).length = bound.toNat + 1 := by simp [upTo]

theorem nodup_upTo (bound : U64) : (upTo bound).Nodup := by
  have hlt := bound.isLt
  refine List.Nodup.map_on ?_ List.nodup_range
  intro m hm n hn h
  rw [List.mem_range] at hm hn
  have hnat := congrArg BitVec.toNat h
  rwa [BitVec.toNat_ofNat, BitVec.toNat_ofNat, Nat.mod_eq_of_lt (by omega),
    Nat.mod_eq_of_lt (by omega)] at hnat

/-- The candidates of a search: all logs of `n` entries up to the bound, each once. -/
structure Candidates {α : Type} (log : α → List U64) (bound : U64) (n : ℕ) (cands : List α) :
    Prop where
  nodup : cands.Nodup
  length_eq : cands.length = (bound.toNat + 1) ^ n
  mem_iff : ∀ x, x ∈ cands ↔ ∀ v ∈ log x, v.toNat ≤ bound.toNat
  injective : Function.Injective log
  length_log : ∀ x, (log x).length = n

/-- The log of a pair and of a triple. -/
def log2 (x : U64 × U64) : List U64 := [x.1, x.2]

def log3 (x : U64 × U64 × U64) : List U64 := [x.1, x.2.1, x.2.2]

theorem candidates_pair (bound : U64) : Candidates log2 bound 2 (upTo bound ×ˢ upTo bound) where
  nodup := (nodup_upTo bound).product (nodup_upTo bound)
  length_eq := by rw [List.length_product, length_upTo, pow_two]
  mem_iff := by
    rintro ⟨a, b⟩
    simp [log2, List.mem_product, mem_upTo]
  injective := by
    rintro ⟨a, b⟩ ⟨c, d⟩ h
    simpa [log2] using h
  length_log := fun _ => rfl

theorem candidates_triple (bound : U64) :
    Candidates log3 bound 3 (upTo bound ×ˢ (upTo bound ×ˢ upTo bound)) where
  nodup := (nodup_upTo bound).product ((nodup_upTo bound).product (nodup_upTo bound))
  length_eq := by
    rw [List.length_product, List.length_product, length_upTo]
    ring
  mem_iff := by
    rintro ⟨a, b, c⟩
    simp [log3, List.mem_product, mem_upTo]
  injective := by
    rintro ⟨a, b, c⟩ ⟨x, y, z⟩ h
    simpa [log3] using h
  length_log := fun _ => rfl

end

/-! ## The generic search -/

section

variable {ks : KSentry} {exponent : U64 → Exec U64} {e : ℕ → ℕ}

/-- A state as the residue of an integer. -/
theorem stateForLogs_toNat (hp : 1 < ks.p.toNat) (logs : List U64)
    (he : ∀ i < logs.length, Returns (exponent (BitVec.ofNat 64 i)) fun t => t.toNat = e i) :
    Returns (ks.stateForLogs exponent logs) fun d =>
      d.toNat = wsum (fun i => ks.q.toNat ^ e i) (logs.map BitVec.toNat) % ks.p.toNat := by
  refine (KSentry.stateForLogs_rep hp logs e he).mono fun d hd => ?_
  have hsum : wsum (fun i => (ks.q.toNat : ZMod ks.p.toNat) ^ e i) (residues ks.p.toNat logs) =
      ((wsum (fun i => ks.q.toNat ^ e i) (logs.map BitVec.toNat) : ℕ) : ZMod ks.p.toNat) := by
    rw [wsum_map_eq_sum, ← wsum_residues ks.p.toNat fun i => ks.q.toNat ^ e i]
    push_cast
    rfl
  exact (hd.congr hsum).toNat_eq_mod

variable {α : Type} {log : α → List U64} {bound : U64} {n : ℕ} {cands : List α} {value : α → U64}

/-- The state of every candidate. -/
theorem Candidates.exists_value (h : Candidates log bound n cands) (hp : 1 < ks.p.toNat)
    (he : ∀ i < n, Returns (exponent (BitVec.ofNat 64 i)) fun t => t.toNat = e i) :
    ∃ value : α → U64, ∀ x, ks.stateForLogs exponent (log x) = .ok (value x) ∧
      (value x).toNat =
        wsum (fun i => ks.q.toNat ^ e i) ((log x).map BitVec.toNat) % ks.p.toNat := by
  have hall : ∀ x, ∃ d, ks.stateForLogs exponent (log x) = .ok d ∧
      d.toNat = wsum (fun i => ks.q.toNat ^ e i) ((log x).map BitVec.toNat) % ks.p.toNat :=
    fun x => stateForLogs_toNat hp (log x) (by rwa [h.length_log])
  choose value hvalue using hall
  exact ⟨value, hvalue⟩

/-- More logs than states. -/
theorem Candidates.collides (h : Candidates log bound n cands) (hp : 1 < ks.p.toNat)
    (hvalue : ∀ x, ks.stateForLogs exponent (log x) = .ok (value x) ∧ (value x).toNat =
      wsum (fun i => ks.q.toNat ^ e i) ((log x).map BitVec.toNat) % ks.p.toNat)
    (hmany : ks.p.toNat < (bound.toNat + 1) ^ n) :
    Collides (fun x => ks.stateForLogs exponent (log x)) cands := by
  have hlt : ∀ x ∈ cands, (value x).toNat < ks.p.toNat := by
    intro x _
    rw [(hvalue x).2]
    exact Nat.mod_lt _ (by omega)
  obtain ⟨x, hx, y, hy, hne, heq⟩ :=
    exists_collision_of_lt_length h.nodup hlt (by rw [h.length_eq]; exact hmany)
  refine ⟨x, hx, y, hy, hne, ?_⟩
  dsimp only
  rw [(hvalue x).1, (hvalue y).1, BitVec.toNat_inj.mp heq]

/-- Entries below the base are digits, and their number is below the modulus. -/
theorem Candidates.not_collides (h : Candidates log bound n cands)
    (hvalue : ∀ x, ks.stateForLogs exponent (log x) = .ok (value x) ∧ (value x).toNat =
      wsum (fun i => ks.q.toNat ^ e i) ((log x).map BitVec.toNat) % ks.p.toNat)
    (he : StrictMono e) (hq : bound.toNat < ks.q.toNat)
    (hroom : bound.toNat * ∑ i ∈ Finset.range n, ks.q.toNat ^ e i < ks.p.toNat) :
    ¬ Collides (fun x => ks.stateForLogs exponent (log x)) cands := by
  have hdigits : ∀ x ∈ cands, ∀ d ∈ (log x).map BitVec.toNat, d ≤ bound.toNat := by
    intro x hx d hd
    obtain ⟨v, hv, rfl⟩ := List.mem_map.mp hd
    exact (h.mem_iff x).mp hx v hv
  have hvalue' : ∀ x ∈ cands,
      (value x).toNat = wsum (fun i => ks.q.toNat ^ e i) ((log x).map BitVec.toNat) := by
    intro x hx
    have hle := wsum_pow_le (q := ks.q.toNat) (e := e) (hdigits x hx) (n := n)
      (by rw [List.length_map, h.length_log])
    rw [(hvalue x).2, Nat.mod_eq_of_lt (by omega)]
  rintro ⟨x, hx, y, hy, hne, heq⟩
  dsimp only at heq
  rw [(hvalue x).1, (hvalue y).1, Except.ok.injEq, ← BitVec.toNat_inj, hvalue' x hx, hvalue' y hy,
    wsum_pow_eq_iff hq he (hdigits x hx) (hdigits y hy)] at heq
  -- Equal digits at every position, and equally many of them.
  have hmap : (log x).map BitVec.toNat = (log y).map BitVec.toNat := by
    refine List.ext_getElem (by simp [h.length_log]) fun i hi hi' => ?_
    rw [← List.getD_eq_getElem _ 0 hi, ← List.getD_eq_getElem _ 0 hi']
    exact heq i
  have hinj : Function.Injective (BitVec.toNat (w := 64)) := fun _ _ => BitVec.toNat_inj.mp
  exact hne (h.injective (List.map_injective_iff.mpr hinj hmap))

/-- What a search for two logs of `n` entries up to the bound, with the weights
    `q^(e i)`, says when it returns `r`. -/
structure SearchReport (ks : KSentry) (state : List U64 → Exec U64) (e : ℕ → ℕ)
    (log : α → List U64) (bound : U64) (n : ℕ) (r : Option (α × α × U64)) : Prop where
  sound : ∀ x y s, r = some (x, y, s) → x ≠ y ∧ state (log x) = .ok s ∧ state (log y) = .ok s ∧
    ∀ v ∈ log x ++ log y, v.toNat ≤ bound.toNat
  complete : r = none → ∀ x y, (∀ v ∈ log x ++ log y, v.toNat ≤ bound.toNat) →
    state (log x) = state (log y) → x = y
  many : ks.p.toNat < (bound.toNat + 1) ^ n → r ≠ none
  few : bound.toNat < ks.q.toNat →
    bound.toNat * ∑ i ∈ Finset.range n, ks.q.toNat ^ e i < ks.p.toNat → r = none

/-- The same for a search that returns a flag. -/
structure FlagReport (ks : KSentry) (state : List U64 → Exec U64) (e : ℕ → ℕ)
    (log : α → List U64) (bound : U64) (n : ℕ) (found : Bool) : Prop where
  iff : found = true ↔ ∃ x y, x ≠ y ∧ (∀ v ∈ log x ++ log y, v.toNat ≤ bound.toNat) ∧
    state (log x) = state (log y)
  many : ks.p.toNat < (bound.toNat + 1) ^ n → found = true
  few : bound.toNat < ks.q.toNat →
    bound.toNat * ∑ i ∈ Finset.range n, ks.q.toNat ^ e i < ks.p.toNat → found = false

theorem Candidates.mem_append_iff (h : Candidates log bound n cands) {x y : α} :
    (∀ v ∈ log x ++ log y, v.toNat ≤ bound.toNat) ↔ x ∈ cands ∧ y ∈ cands := by
  rw [h.mem_iff, h.mem_iff, List.forall_mem_append]

variable [DecidableEq α]

theorem Candidates.firstCollision_report (h : Candidates log bound n cands) (hp : 1 < ks.p.toNat)
    (he : ∀ i < n, Returns (exponent (BitVec.ofNat 64 i)) fun t => t.toNat = e i)
    (hmono : StrictMono e) :
    Returns (firstCollision (fun x => ks.stateForLogs exponent (log x)) cands)
      (SearchReport ks (ks.stateForLogs exponent) e log bound n) := by
  obtain ⟨value, hvalue⟩ := h.exists_value hp he
  refine (firstCollision_returns fun x _ => (hvalue x).1).mono fun r hr => ?_
  obtain ⟨hnone, hsome⟩ := hr
  refine ⟨fun x y s hxy => ?_, fun hr x y hxy heq => ?_, fun hmany hr => ?_, fun hq hroom => ?_⟩
  · obtain ⟨hx, hy, hne, hsx, hsy⟩ := hsome x y s hxy
    exact ⟨hne, hsx, hsy, h.mem_append_iff.mpr ⟨hx, hy⟩⟩
  · by_contra hne
    obtain ⟨hx, hy⟩ := h.mem_append_iff.mp hxy
    exact hnone.mp hr ⟨x, hx, y, hy, hne, heq⟩
  · exact hnone.mp hr (h.collides hp hvalue hmany)
  · exact hnone.mpr (h.not_collides hvalue hmono hq hroom)

theorem Candidates.hasCollision_report (h : Candidates log bound n cands) (hp : 1 < ks.p.toNat)
    (he : ∀ i < n, Returns (exponent (BitVec.ofNat 64 i)) fun t => t.toNat = e i)
    (hmono : StrictMono e) :
    Returns (hasCollision (fun x => ks.stateForLogs exponent (log x)) cands)
      (FlagReport ks (ks.stateForLogs exponent) e log bound n) := by
  obtain ⟨value, hvalue⟩ := h.exists_value hp he
  refine (hasCollision_returns fun x _ => (hvalue x).1).mono fun found hfound => ?_
  refine ⟨?_, fun hmany => hfound.mpr (h.collides hp hvalue hmany), fun hq hroom => ?_⟩
  · rw [hfound]
    constructor
    · rintro ⟨x, hx, y, hy, hne, heq⟩
      exact ⟨x, y, hne, h.mem_append_iff.mpr ⟨hx, hy⟩, heq⟩
    · rintro ⟨x, y, hne, hxy, heq⟩
      obtain ⟨hx, hy⟩ := h.mem_append_iff.mp hxy
      exact ⟨x, hx, y, hy, hne, heq⟩
  · rw [← Bool.not_eq_true, hfound]
    exact h.not_collides hvalue hmono hq hroom

end

/-! ## The searches of the two programs -/

theorem Main.exhaustiveLen2CollisionSearch_eq (q p bound : U64) :
    Main.exhaustiveLen2CollisionSearch q p bound = KSentry.new q p >>= fun ks =>
      firstCollision (fun x => Main.stateForLogs ks (log2 x)) (upTo bound ×ˢ upTo bound) := by
  simp only [Main.exhaustiveLen2CollisionSearch, firstCollision, findSomeM?_product, log2,
    Prod.mk.injEq]

theorem Main.exhaustiveLen3CollisionSearch_eq (q p bound : U64) :
    Main.exhaustiveLen3CollisionSearch q p bound = KSentry.new q p >>= fun ks =>
      firstCollision (fun x => Main.stateForLogs ks (log3 x))
        (upTo bound ×ˢ (upTo bound ×ˢ upTo bound)) := by
  simp only [Main.exhaustiveLen3CollisionSearch, firstCollision, findSomeM?_product, log3,
    Prod.mk.injEq]

theorem Main1.boundedCollisionSearchLen2_eq (ks : KSentry) (bound : U64) :
    Main1.boundedCollisionSearchLen2 ks bound =
      hasCollision (fun x => Main1.stateForLogs ks (log2 x)) (upTo bound ×ˢ upTo bound) := by
  simp only [Main1.boundedCollisionSearchLen2, hasCollision, findSomeM?_product, log2,
    Prod.mk.injEq]

theorem Main1.boundedCollisionSearchLen3_eq (ks : KSentry) (bound : U64) :
    Main1.boundedCollisionSearchLen3 ks bound =
      hasCollision (fun x => Main1.stateForLogs ks (log3 x))
        (upTo bound ×ˢ (upTo bound ×ˢ upTo bound)) := by
  simp only [Main1.boundedCollisionSearchLen3, hasCollision, findSomeM?_product, log3,
    Prod.mk.injEq]

theorem square_strictMono : StrictMono fun i : ℕ => i * i := by
  intro i j hij
  exact Nat.mul_self_lt_mul_self hij

/-- The square searches for logs of two and of three entries. -/
theorem Main.exhaustiveCollisionSearch_report {q p : U64} (hp : 1 < p.toNat) (hq : 1 ≤ q.toNat)
    (bound : U64) :
    ∃ ks, KSentry.new q p = .ok ks ∧
      Returns (Main.exhaustiveLen2CollisionSearch q p bound)
        (SearchReport ks (Main.stateForLogs ks) (fun i => i * i) log2 bound 2) ∧
      Returns (Main.exhaustiveLen3CollisionSearch q p bound)
        (SearchReport ks (Main.stateForLogs ks) (fun i => i * i) log3 bound 3) := by
  obtain ⟨ks, hks, rfl, rfl⟩ := KSentry.exists_new hp hq
  have he : ∀ {n}, n ≤ 2 ^ 32 → ∀ i < n,
      Returns (Main.squareExponent (BitVec.ofNat 64 i)) fun t => t.toNat = i * i :=
    fun hn i hi => Main.squareExponent_returns (show i < 2 ^ 32 by omega)
  refine ⟨ks, hks, ?_, ?_⟩
  · rw [Main.exhaustiveLen2CollisionSearch_eq, hks, ok_bind]
    exact (candidates_pair bound).firstCollision_report hp (he (by norm_num)) square_strictMono
  · rw [Main.exhaustiveLen3CollisionSearch_eq, hks, ok_bind]
    exact (candidates_triple bound).firstCollision_report hp (he (by norm_num)) square_strictMono

/-- The triangular searches, for any accumulator. -/
theorem Main1.boundedCollisionSearch_report {ks : KSentry} (hp : 1 < ks.p.toNat) (bound : U64) :
    Returns (Main1.boundedCollisionSearchLen2 ks bound)
        (FlagReport ks (Main1.stateForLogs ks) tri log2 bound 2) ∧
      Returns (Main1.boundedCollisionSearchLen3 ks bound)
        (FlagReport ks (Main1.stateForLogs ks) tri log3 bound 3) := by
  have he : ∀ {n}, n ≤ 2 ^ 32 → ∀ i < n,
      Returns (Main1.triangularExponent (BitVec.ofNat 64 i)) fun t => t.toNat = tri i := by
    intro n hn i hi
    have hin : (BitVec.ofNat 64 i).toNat = i := toNat_ofNat_index (by omega)
    have h := Main1.triangularExponent_returns (BitVec.ofNat 64 i) (by rw [hin]; omega)
    rwa [hin] at h
  constructor
  · rw [Main1.boundedCollisionSearchLen2_eq]
    exact (candidates_pair bound).hasCollision_report hp (he (by norm_num)) tri_strictMono
  · rw [Main1.boundedCollisionSearchLen3_eq]
    exact (candidates_triple bound).hasCollision_report hp (he (by norm_num)) tri_strictMono

/-- The runs of the program: no collision among entries up to `5` and up to `3`. -/
theorem Main.exhaustiveCollisionSearch_report_program :
    Main.exhaustiveLen2CollisionSearch 7#64 18446744073709551557#64 5#64 = .ok none ∧
      Main.exhaustiveLen3CollisionSearch 7#64 18446744073709551557#64 3#64 = .ok none := by
  have hp : 1 < (18446744073709551557#64).toNat := by decide
  have hq : 1 ≤ (7#64).toNat := by decide
  obtain ⟨ks, hks, ⟨r, hr, hreport⟩, -⟩ := Main.exhaustiveCollisionSearch_report hp hq 5#64
  obtain ⟨ks', hks', -, ⟨r', hr', hreport'⟩⟩ := Main.exhaustiveCollisionSearch_report hp hq 3#64
  rw [KSentry.new_returns hp hq] at hks hks'
  cases hks
  cases hks'
  refine ⟨?_, ?_⟩
  · rw [hr, hreport.few (by decide) (by decide)]
  · rw [hr', hreport'.few (by decide) (by decide)]

/-- The same for the triangular program; over `p = 5` the search succeeds. -/
theorem Main1.boundedCollisionSearch_report_program :
    Main1.boundedCollisionSearchLen2 ⟨0#64, 7#64, 18446744073709551557#64⟩ 5#64 = .ok false ∧
      Main1.boundedCollisionSearchLen3 ⟨0#64, 7#64, 5#64⟩ 3#64 = .ok true := by
  have hp : 1 < (KSentry.mk 0#64 7#64 18446744073709551557#64).p.toNat := by decide
  have hp' : 1 < (KSentry.mk 0#64 7#64 5#64).p.toNat := by decide
  obtain ⟨⟨r, hr, hreport⟩, -⟩ := Main1.boundedCollisionSearch_report hp 5#64
  obtain ⟨-, ⟨r', hr', hreport'⟩⟩ := Main1.boundedCollisionSearch_report hp' 3#64
  refine ⟨?_, ?_⟩
  · rw [hr, hreport.few (by decide) (by decide)]
  · rw [hr', hreport'.many (by decide)]

end TimeFence.Metrics
