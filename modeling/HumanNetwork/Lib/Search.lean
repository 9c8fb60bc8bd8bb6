import HumanNetwork.Lib.Outcome

/-!
# Searches with a counter

`search step e rounds acc` tries the counters from `acc` on, and fails with `e` after so many rounds. A computation
`FindsFirst` hit if it returns exactly when there is one, and then the one of the least counter; a search in which no round
fails is such a computation (`search_findsFirst`).
-/

namespace Outcome
universe u v
variable {ε : Type v} {α : Type u}

def search (step : ℕ → Outcome ε (Option α)) (e : ε) : (rounds acc : ℕ) → Outcome ε α
  | 0, _ => fail e
  | rounds + 1, acc => do
    match ← step acc with
    | some a => pure a
    | none => search step e rounds (acc + 1)

/-- The computation returns the hit of the least counter below a bound, if there is one. -/
structure FindsFirst (x : Outcome ε α) (rounds : ℕ) (Hit : ℕ → α → Prop) : Prop where
  noPanic : NoPanic x
  exists_ok : (∃ a, x = .ok a) ↔ ∃ n < rounds, ∃ a, Hit n a
  ok_iff : ∀ a, x = .ok a ↔ ∃ n < rounds, Hit n a ∧ ∀ m < n, ∀ b, ¬ Hit m b

variable {step : ℕ → Outcome ε (Option α)} {e : ε} {f : ℕ → Option α} (hstep : ∀ acc, step acc = .ok (f acc))
include hstep

theorem search_succ_of_some {acc : ℕ} {a : α} (h : f acc = some a) (rounds : ℕ) :
    search step e (rounds + 1) acc = .ok a := by
  rw [search, hstep, bind_ok, h]
  rfl

theorem search_succ_of_none {acc : ℕ} (h : f acc = none) (rounds : ℕ) :
    search step e (rounds + 1) acc = search step e rounds (acc + 1) := by
  rw [search, hstep, bind_ok, h]

theorem search_cases (rounds acc : ℕ) :
    (∃ n, acc ≤ n ∧ n < acc + rounds ∧ (∀ m, acc ≤ m → m < n → f m = none) ∧
      ∃ a, f n = some a ∧ search step e rounds acc = .ok a) ∨
    (∀ m, acc ≤ m → m < acc + rounds → f m = none) ∧ search step e rounds acc = fail e := by
  induction rounds generalizing acc with
  | zero => exact .inr ⟨fun m hm hm' => absurd hm' (by omega), rfl⟩
  | succ rounds ih =>
    cases h : f acc with
    | some a =>
      exact .inl ⟨acc, Nat.le_refl acc, by omega, fun m hm hm' => absurd hm' (by omega), a, h, search_succ_of_some hstep h rounds⟩
    | none =>
      have hnone : ∀ m, acc ≤ m → (acc + 1 ≤ m → f m = none) → f m = none := by
        intro m hm hrest
        rcases Nat.eq_or_lt_of_le hm with rfl | hlt
        · exact h
        · exact hrest hlt
      rw [search_succ_of_none hstep h]
      rcases ih (acc + 1) with ⟨n, hn, hn', hfirst, a, ha, hsearch⟩ | ⟨hfirst, hsearch⟩
      · refine .inl ⟨n, by omega, by omega, fun m hm hm' => ?_, a, ha, hsearch⟩
        exact hnone m hm fun hle => hfirst m hle hm'
      · refine .inr ⟨fun m hm hm' => ?_, hsearch⟩
        exact hnone m hm fun hle => hfirst m hle (by omega)

theorem search_ok_or_fail (rounds acc : ℕ) :
    (∃ a, search step e rounds acc = .ok a) ∨ search step e rounds acc = fail e := by
  rcases search_cases hstep rounds acc with ⟨_, -, -, -, a, -, hsearch⟩ | ⟨-, hsearch⟩
  · exact .inl ⟨a, hsearch⟩
  · exact .inr hsearch

theorem search_eq_ok_iff {rounds : ℕ} {a : α} : search step e rounds 0 = .ok a ↔
    ∃ n < rounds, f n = some a ∧ ∀ m < n, f m = none := by
  constructor
  · intro h
    rcases search_cases hstep rounds 0 with ⟨n, -, hn, hfirst, b, hb, hsearch⟩ | ⟨-, hsearch⟩
    · obtain rfl := Except.ok.inj (hsearch.symm.trans h)
      exact ⟨n, by omega, hb, fun m hm => hfirst m (Nat.zero_le m) hm⟩
    · cases hsearch.symm.trans h
  · rintro ⟨n, hn, ha, hfirst⟩
    rcases search_cases hstep rounds 0 with ⟨n', -, -, hfirst', b, hb, hsearch⟩ | ⟨hnone, -⟩
    · -- neither hit is before the other
      obtain rfl : n' = n := by
        by_contra hne
        rcases Nat.lt_or_gt_of_ne hne with hlt | hlt
        · cases (hfirst n' hlt).symm.trans hb
        · cases (hfirst' n (Nat.zero_le n) hlt).symm.trans ha
      rw [hsearch, Option.some.inj (hb.symm.trans ha)]
    · cases (hnone n (Nat.zero_le n) (by omega)).symm.trans ha

theorem search_findsFirst {Hit : ℕ → α → Prop} (hhit : ∀ n a, f n = some a ↔ Hit n a) (rounds : ℕ) :
    FindsFirst (search step e rounds 0) rounds Hit where
  noPanic msg h := by
    rcases search_ok_or_fail hstep rounds 0 with ⟨a, ha⟩ | hfail
    · cases ha.symm.trans h
    · cases hfail.symm.trans h
  exists_ok := by
    rcases search_cases hstep rounds 0 with ⟨n, -, hn, -, a, ha, hsearch⟩ | ⟨hnone, hsearch⟩
    · exact iff_of_true ⟨a, hsearch⟩ ⟨n, by omega, a, (hhit n a).1 ha⟩
    · refine iff_of_false ?_ ?_
      · rintro ⟨a, ha⟩
        cases hsearch.symm.trans ha
      · rintro ⟨n, hn, a, ha⟩
        cases (hnone n (Nat.zero_le n) (by omega)).symm.trans ((hhit n a).2 ha)
  ok_iff a := by
    have hnone : ∀ m, f m = none ↔ ∀ b, ¬ Hit m b := by
      intro m
      simp only [← hhit, Option.eq_none_iff_forall_ne_some]
    rw [search_eq_ok_iff hstep]
    simp only [hhit, hnone]

theorem search_map {β : Type u} {g : α → β} {step' : ℕ → Outcome ε (Option β)}
    (hstep' : ∀ acc, step' acc = .ok ((f acc).map g)) (rounds acc : ℕ) :
    search step' e rounds acc = search step e rounds acc >>= fun a => pure (g a) := by
  induction rounds generalizing acc with
  | zero => rfl
  | succ rounds ih =>
    cases h : f acc with
    | some a =>
      rw [search_succ_of_some hstep h, search_succ_of_some hstep' (by rw [h, Option.map_some])]
      rfl
    | none => rw [search_succ_of_none hstep h, search_succ_of_none hstep' (by rw [h, Option.map_none]), ih]

end Outcome
