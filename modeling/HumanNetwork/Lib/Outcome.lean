import Mathlib.Data.List.Forall2

/-!
# Computations that return, fail or panic

`Outcome ε α` is the result of a function of type `Result<α, ε>` that may also panic: a value, an
error `Fault.error e` of the function's own error type, or `Fault.panic msg`. It is `Except` over
`Fault ε`, so `do` blocks short-circuit on both, and every proof about a block peels it apart with
`Outcome.bind_eq_ok` and, for the loops, with `Outcome.foldlM_eq_ok` and `Outcome.mapM_eq_ok`.
`Outcome.ErrorsIn` bounds the errors of a computation, `Outcome.NoPanic` excludes its panics.
-/

/-- Why a computation did not return: a panic, or an error value of its own error type. -/
inductive Fault (ε : Type*) where
  | panic (msg : String)
  | error (e : ε)
deriving Repr, DecidableEq

/-- A computation with error type `ε` that may panic. -/
abbrev Outcome (ε α : Type*) := Except (Fault ε) α

namespace Outcome
universe u v w
variable {ε : Type v} {ε' : Type w} {α β : Type u}

/-- `Err(e)`. -/
def fail (e : ε) : Outcome ε α := .error (.error e)

/-- `panic!(msg)`. -/
def crash (msg : String) : Outcome ε α := .error (.panic msg)

/-- `assert!(p, msg)`. -/
def check (p : Prop) [Decidable p] (msg : String) : Outcome ε Unit :=
  if p then .ok () else crash msg

/-- `if !p { return Err(e) }`. -/
def ensure (p : Prop) [Decidable p] (e : ε) : Outcome ε Unit :=
  if p then .ok () else fail e

/-- `o.ok_or(e)`. -/
def okOr (o : Option α) (e : ε) : Outcome ε α :=
  match o with
  | some a => .ok a
  | none => fail e

/-- `o.unwrap()`, with the message of the panic. -/
def unwrap (o : Option α) (msg : String) : Outcome ε α :=
  match o with
  | some a => .ok a
  | none => crash msg

/-- `r.unwrap()`, with the text of the error. -/
def unwrapOk (debug : ε → String) (r : Outcome ε α) : Outcome ε' α :=
  match r with
  | .ok a => .ok a
  | .error (.panic msg) => .error (.panic msg)
  | .error (.error e) => crash ("called `Result::unwrap()` on an `Err` value: " ++ debug e)

/-- `r.map_err(f)`: panics pass through. -/
def mapErr (f : ε → ε') (r : Outcome ε α) : Outcome ε' α :=
  match r with
  | .ok a => .ok a
  | .error (.panic msg) => .error (.panic msg)
  | .error (.error e) => .error (.error (f e))

/-- `r.ok()`: panics pass through. -/
def toOption (r : Outcome ε α) : Outcome ε' (Option α) :=
  match r with
  | .ok a => .ok (some a)
  | .error (.panic msg) => .error (.panic msg)
  | .error (.error _) => .ok none

/-- What is left after the computation, if it does not fail. -/
def result? (r : Outcome ε α) : Option α :=
  match r with
  | .ok a => some a
  | .error _ => none

@[simp] theorem bind_ok (a : α) (f : α → Outcome ε β) : ((.ok a : Outcome ε α) >>= f) = f a := rfl

@[simp] theorem bind_error (e : Fault ε) (f : α → Outcome ε β) :
    ((.error e : Outcome ε α) >>= f) = .error e := rfl

theorem pure_eq_ok (a : α) : (pure a : Outcome ε α) = .ok a := rfl

theorem bind_eq_ok {x : Outcome ε α} {f : α → Outcome ε β} {b : β} :
    (x >>= f) = .ok b ↔ ∃ a, x = .ok a ∧ f a = .ok b := by
  cases x with
  | ok a => simp
  | error e => simp

theorem bind_eq_error {x : Outcome ε α} {f : α → Outcome ε β} {e : Fault ε} :
    (x >>= f) = .error e ↔ x = .error e ∨ ∃ a, x = .ok a ∧ f a = .error e := by
  cases x with
  | ok a => simp
  | error e' => simp

@[simp] theorem check_eq_ok {p : Prop} [Decidable p] {msg : String} {u : Unit} :
    (check p msg : Outcome ε Unit) = .ok u ↔ p := by
  unfold check crash; split <;> simp_all

theorem check_of {p : Prop} [Decidable p] {msg : String} (h : p) : (check p msg : Outcome ε Unit) = .ok () :=
  if_pos h

@[simp] theorem ensure_eq_ok {p : Prop} [Decidable p] {e : ε} {u : Unit} : ensure p e = .ok u ↔ p := by
  unfold ensure fail; split <;> simp_all

@[simp] theorem okOr_eq_ok {o : Option α} {e : ε} {a : α} : okOr o e = .ok a ↔ o = some a := by
  cases o <;> simp [okOr, fail]

@[simp] theorem unwrap_eq_ok {o : Option α} {msg : String} {a : α} :
    (unwrap o msg : Outcome ε α) = .ok a ↔ o = some a := by
  cases o <;> simp [unwrap, crash]

@[simp] theorem unwrapOk_eq_ok {debug : ε → String} {r : Outcome ε α} {a : α} :
    (unwrapOk debug r : Outcome ε' α) = .ok a ↔ r = .ok a := by
  unfold unwrapOk crash; split <;> simp_all

@[simp] theorem mapErr_eq_ok {f : ε → ε'} {r : Outcome ε α} {a : α} :
    mapErr f r = .ok a ↔ r = .ok a := by
  unfold mapErr; split <;> simp_all

theorem toOption_eq_some {r : Outcome ε α} {a : α} : (toOption r : Outcome ε' _) = .ok (some a) ↔ r = .ok a := by
  unfold toOption; split <;> simp_all

theorem ne_ok_of_toOption {r : Outcome ε α} {o : Option α} (h : (toOption r : Outcome ε' _) = .ok o)
    (hnone : ∀ a, o = some a → False) (a : α) : r ≠ .ok a := by
  rintro rfl
  exact hnone a (Except.ok.inj h).symm

@[simp] theorem result?_eq_some {r : Outcome ε α} {a : α} : r.result? = some a ↔ r = .ok a := by
  cases r <;> simp [result?]

theorem result?_map_fst {r : Outcome ε (α × β)} {a : α} : r.result?.map Prod.fst = some a ↔ ∃ b, r = .ok (a, b) := by
  cases r <;> simp [result?, Prod.ext_iff]

/-! ### Errors -/

/-- The computation may panic, but the errors it returns all satisfy `p`. -/
def ErrorsIn (p : ε → Prop) (x : Outcome ε α) : Prop := ∀ e, x = .error (.error e) → p e

variable {p : ε → Prop}

theorem ErrorsIn.ok (a : α) : ErrorsIn p (.ok a) := by intro e h; cases h

theorem ErrorsIn.crash (msg : String) : ErrorsIn p (Outcome.crash msg : Outcome ε α) := by intro e h; cases h

theorem ErrorsIn.fail {e : ε} (he : p e) : ErrorsIn p (Outcome.fail e : Outcome ε α) := by
  intro e' h; cases h; exact he

theorem ErrorsIn.bind {x : Outcome ε α} {f : α → Outcome ε β} (hx : ErrorsIn p x)
    (hf : ∀ a, x = .ok a → ErrorsIn p (f a)) : ErrorsIn p (x >>= f) := by
  intro e h
  rcases bind_eq_error.1 h with h | ⟨a, ha, h⟩
  · exact hx e h
  · exact hf a ha e h

theorem ErrorsIn.of_bind {x : Outcome ε α} {f : α → Outcome ε β} (h : ErrorsIn p (x >>= f)) : ErrorsIn p x := by
  intro e he
  exact h e (bind_eq_error.2 (.inl he))

theorem ErrorsIn.check {q : Prop} [Decidable q] (msg : String) :
    ErrorsIn p (Outcome.check q msg : Outcome ε Unit) := by
  unfold Outcome.check; split
  · exact ErrorsIn.ok _
  · exact ErrorsIn.crash _

theorem ErrorsIn.unwrap (o : Option α) (msg : String) : ErrorsIn p (Outcome.unwrap o msg : Outcome ε α) := by
  cases o with
  | some a => exact ErrorsIn.ok a
  | none => exact ErrorsIn.crash msg

theorem ErrorsIn.unwrapOk (debug : ε' → String) (r : Outcome ε' α) :
    ErrorsIn p (Outcome.unwrapOk debug r : Outcome ε α) := by
  unfold Outcome.unwrapOk; split
  · exact ErrorsIn.ok _
  · exact ErrorsIn.crash _
  · exact ErrorsIn.crash _

theorem ErrorsIn.okOr (o : Option α) {e : ε} (he : p e) : ErrorsIn p (Outcome.okOr o e : Outcome ε α) := by
  cases o with
  | some a => exact ErrorsIn.ok a
  | none => exact ErrorsIn.fail he

theorem ErrorsIn.mapErr {f : ε' → ε} (r : Outcome ε' α) (hf : ∀ e, p (f e)) : ErrorsIn p (Outcome.mapErr f r) := by
  unfold Outcome.mapErr; split
  · exact ErrorsIn.ok _
  · exact ErrorsIn.crash _
  · exact ErrorsIn.fail (hf _)

theorem ErrorsIn.foldlM {f : β → α → Outcome ε β} {l : List α} (hf : ∀ b, ∀ a ∈ l, ErrorsIn p (f b a)) (b : β) :
    ErrorsIn p (l.foldlM f b) := by
  induction l generalizing b with
  | nil => exact ErrorsIn.ok b
  | cons a l ih =>
    rw [List.foldlM_cons]
    exact (hf b a (by simp)).bind fun b' _ => ih (fun b a ha => hf b a (by simp [ha])) b'

theorem ErrorsIn.forM {f : α → Outcome ε PUnit} {l : List α} (hf : ∀ a ∈ l, ErrorsIn p (f a)) :
    ErrorsIn p (l.forM f) := by
  induction l with
  | nil => exact ErrorsIn.ok _
  | cons a l ih =>
    rw [List.forM_eq_forM, List.forM_cons]
    exact (hf a (by simp)).bind fun _ _ => ih fun a ha => hf a (by simp [ha])

theorem ErrorsIn.mapM {f : α → Outcome ε β} {l : List α} (hf : ∀ a ∈ l, ErrorsIn p (f a)) : ErrorsIn p (l.mapM f) := by
  induction l with
  | nil => exact ErrorsIn.ok _
  | cons a l ih =>
    rw [List.mapM_cons]
    exact (hf a (by simp)).bind fun _ _ => (ih fun a ha => hf a (by simp [ha])).bind fun _ _ => .ok _

/-! ### Panics -/

/-- The computation returns a value or an error. -/
def NoPanic (x : Outcome ε α) : Prop := ∀ msg, x ≠ .error (.panic msg)

theorem NoPanic.ok (a : α) : NoPanic (.ok a : Outcome ε α) := by intro msg h; cases h

theorem NoPanic.fail (e : ε) : NoPanic (Outcome.fail e : Outcome ε α) := by intro msg h; cases h

theorem NoPanic.okOr (o : Option α) (e : ε) : NoPanic (Outcome.okOr o e) := by
  cases o with
  | some a => exact .ok a
  | none => exact .fail e

theorem NoPanic.ensure {q : Prop} [Decidable q] (e : ε) : NoPanic (Outcome.ensure q e) := by
  unfold Outcome.ensure; split
  · exact .ok _
  · exact .fail e

theorem noPanic_bind {x : Outcome ε α} {f : α → Outcome ε β} :
    NoPanic (x >>= f) ↔ NoPanic x ∧ ∀ a, x = .ok a → NoPanic (f a) := by
  cases x with
  | ok a => simp [NoPanic]
  | error e => simp [NoPanic]

theorem noPanic_check_bind {β : Type} {q : Prop} [Decidable q] {msg : String} {f : Unit → Outcome ε β} :
    NoPanic (check q msg >>= f) ↔ q ∧ NoPanic (f ()) := by
  unfold check
  split
  next hq => exact (and_iff_right hq).symm
  next hq => exact iff_of_false (fun hx => hx msg rfl) fun h => hq h.1

theorem noPanic_unwrap_bind {o : Option α} {msg : String} {f : α → Outcome ε β} :
    NoPanic (unwrap o msg >>= f) ↔ ∃ a, o = some a ∧ NoPanic (f a) := by
  cases o with
  | some a => simp [unwrap]
  | none => exact iff_of_false (fun hx => hx msg rfl) (by simp)

theorem NoPanic.toOption_eq {x : Outcome ε α} (h : NoPanic x) : (toOption x : Outcome ε' _) = .ok x.result? := by
  cases x with
  | ok a => rfl
  | error e =>
    cases e with
    | panic msg => exact absurd rfl (h msg)
    | error e => rfl

theorem noPanic_mapErr {f : ε → ε'} {r : Outcome ε α} : NoPanic (mapErr f r) ↔ NoPanic r := by
  cases r with
  | ok a => exact iff_of_true (.ok a) (.ok a)
  | error e =>
    cases e with
    | panic msg => exact iff_of_false (fun h => h msg rfl) fun h => h msg rfl
    | error e => exact iff_of_true (.fail (f e)) (.fail e)

theorem noPanic_unwrapOk {debug : ε → String} {r : Outcome ε α} :
    NoPanic (unwrapOk debug r : Outcome ε' α) ↔ ∃ a, r = .ok a := by
  cases r with
  | ok a => exact iff_of_true (.ok a) ⟨a, rfl⟩
  | error e => cases e <;> exact iff_of_false (fun h => h _ rfl) (by simp)

theorem ErrorsIn.noPanic_iff {x : Outcome ε α} (h : ErrorsIn (fun _ => False) x) : NoPanic x ↔ ∃ a, x = .ok a := by
  cases x with
  | ok a => exact iff_of_true (.ok a) ⟨a, rfl⟩
  | error e =>
    cases e with
    | panic msg => exact iff_of_false (fun hx => hx msg rfl) (by simp)
    | error e => exact (h e rfl).elim

theorem NoPanic.foldlM {f : β → α → Outcome ε β} {l : List α} (hf : ∀ b, ∀ a ∈ l, NoPanic (f b a)) (b : β) :
    NoPanic (l.foldlM f b) := by
  induction l generalizing b with
  | nil => exact .ok b
  | cons a l ih =>
    rw [List.foldlM_cons, noPanic_bind]
    exact ⟨hf b a (by simp), fun b' _ => ih (fun b a ha => hf b a (by simp [ha])) b'⟩

theorem NoPanic.forM {f : α → Outcome ε PUnit} {l : List α} (hf : ∀ a ∈ l, NoPanic (f a)) : NoPanic (l.forM f) := by
  induction l with
  | nil => exact .ok _
  | cons a l ih =>
    rw [List.forM_eq_forM, List.forM_cons, noPanic_bind]
    exact ⟨hf a (by simp), fun _ _ => ih fun a ha => hf a (by simp [ha])⟩

/-! ### Loops -/

theorem foldlM_eq_ok {f : β → α → Outcome ε β} {g : β → α → β} {l : List α}
    (h : ∀ b, ∀ a ∈ l, f b a = .ok (g b a)) (b : β) : l.foldlM f b = .ok (l.foldl g b) := by
  induction l generalizing b with
  | nil => rfl
  | cons a l ih =>
    rw [List.foldlM_cons, h b a (by simp), bind_ok, ih (fun b a ha => h b a (by simp [ha]))]
    rfl

theorem exists_of_foldlM {f : β → α → Outcome ε β} {l : List α} {b b' : β} (h : l.foldlM f b = .ok b') {a : α}
    (ha : a ∈ l) : ∃ c d, f c a = .ok d := by
  induction l generalizing b with
  | nil => cases ha
  | cons x l ih =>
    rw [List.foldlM_cons, bind_eq_ok] at h
    obtain ⟨d, hd, h⟩ := h
    rcases List.mem_cons.1 ha with rfl | ha
    · exact ⟨b, d, hd⟩
    · exact ih h ha

/-- `mapM` returns exactly when every element does, and then element by element. -/
theorem mapM_eq_ok {f : α → Outcome ε β} {l : List α} {bs : List β} :
    l.mapM f = .ok bs ↔ List.Forall₂ (fun a b => f a = .ok b) l bs := by
  induction l generalizing bs with
  | nil =>
    rw [List.mapM_nil, pure_eq_ok, Except.ok.injEq, List.forall₂_nil_left_iff]
    exact eq_comm
  | cons a l ih =>
    rw [List.mapM_cons, bind_eq_ok, List.forall₂_cons_left_iff]
    constructor
    · rintro ⟨b, hb, h⟩
      obtain ⟨bs', h', h⟩ := bind_eq_ok.1 h
      rw [pure_eq_ok, Except.ok.injEq] at h
      exact ⟨b, bs', hb, ih.1 h', h.symm⟩
    · rintro ⟨b, bs', hb, h', rfl⟩
      exact ⟨b, hb, by rw [ih.2 h', bind_ok, pure_eq_ok]⟩

theorem exists_of_mapM {f : α → Outcome ε β} {l : List α} {bs : List β} (h : l.mapM f = .ok bs) :
    (∀ a ∈ l, ∃ b ∈ bs, f a = .ok b) ∧ ∀ b ∈ bs, ∃ a ∈ l, f a = .ok b := by
  rw [mapM_eq_ok] at h
  induction h with
  | nil => simp
  | cons hab _ ih =>
    simp only [List.forall_mem_cons, List.exists_mem_cons_iff]
    exact ⟨⟨.inl hab, fun a ha => .inr (ih.1 a ha)⟩, .inl hab, fun b hb => .inr (ih.2 b hb)⟩

/-- `mapM` stops at the first element that does not return. -/
theorem mapM_cases (f : α → Outcome ε β) (l : List α) :
    (∃ bs, l.mapM f = .ok bs) ∨ ∃ a ∈ l, ∃ e, f a = .error e ∧ l.mapM f = .error e := by
  induction l with
  | nil => exact .inl ⟨[], rfl⟩
  | cons a l ih =>
    rw [List.mapM_cons]
    cases ha : f a with
    | error e => exact .inr ⟨a, List.mem_cons_self, e, ha, rfl⟩
    | ok b =>
      rcases ih with ⟨bs, hbs⟩ | ⟨a', ha', e, hfe, he⟩
      · exact .inl ⟨b :: bs, by rw [hbs]; rfl⟩
      · exact .inr ⟨a', List.mem_cons_of_mem _ ha', e, hfe, by rw [he]; rfl⟩

theorem exists_mapM_eq_ok {f : α → Outcome ε β} {l : List α} : (∃ bs, l.mapM f = .ok bs) ↔ ∀ a ∈ l, ∃ b, f a = .ok b := by
  constructor
  · rintro ⟨bs, h⟩ a ha
    obtain ⟨b, -, hb⟩ := (exists_of_mapM h).1 a ha
    exact ⟨b, hb⟩
  · intro h
    rcases mapM_cases f l with hok | ⟨a, ha, e, he, -⟩
    · exact hok
    · obtain ⟨b, hb⟩ := h a ha
      rw [hb] at he
      cases he

theorem mapM_eq_ok_map {f : α → Outcome ε β} {g : α → β} {l : List α} (h : ∀ a ∈ l, f a = .ok (g a)) :
    l.mapM f = .ok (l.map g) := by
  rw [mapM_eq_ok, List.forall₂_map_right_iff, List.forall₂_same]
  exact h

theorem forM_eq_ok {f : α → Outcome ε PUnit} {l : List α} {x : PUnit} :
    l.forM f = .ok x ↔ ∀ a ∈ l, f a = .ok ⟨⟩ := by
  induction l with
  | nil => simp [pure_eq_ok]
  | cons a l ih =>
    rw [List.forM_eq_forM, List.forM_cons, bind_eq_ok, List.forall_mem_cons, ← ih]
    constructor
    · rintro ⟨_, ha, hl⟩; exact ⟨ha, hl⟩
    · rintro ⟨ha, hl⟩; exact ⟨⟨⟩, ha, hl⟩

/-- A loop that computes a value from each item and folds it in is `mapM` and a pure loop. -/
theorem foldlM_bind_pure {γ : Type u} {δ : Type u} (f : γ → Outcome ε δ) (g : β → δ → β) (l : List γ) (b : β) :
    l.foldlM (fun b a => f a >>= fun d => pure (g b d)) b =
      l.mapM f >>= fun ds => pure (ds.foldl g b) := by
  induction l generalizing b with
  | nil => rfl
  | cons a l ih =>
    rw [List.foldlM_cons, List.mapM_cons]
    cases f a with
    | error e => rfl
    | ok d =>
      simp only [bind_ok, pure_eq_ok] at ih ⊢
      rw [ih]
      cases l.mapM f with
      | error e => rfl
      | ok ds => rfl

end Outcome
