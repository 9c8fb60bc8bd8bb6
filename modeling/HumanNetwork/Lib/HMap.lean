import HumanNetwork.Lib.Outcome
import Mathlib.Data.List.Nodup
import Mathlib.Data.List.Perm.Basic
import Mathlib.Algebra.BigOperators.Group.Finset.Basic

/-!
# Hash maps with an open iteration order

`HMap K V` lists the entries of a hash map in the order in which it iterates, one entry for each
key. The order is part of the value: a statement about every `HMap` with given lookups is a
statement about every iteration order. `values_eq_map` and `sum_map_keys` are how a sum over the
values is reduced to a sum over the set of keys.
-/

universe u v w

/-- A hash map: its entries in iteration order, one for each key. -/
@[ext]
structure HMap (K : Type u) (V : Type v) where
  entries : List (K × V)
  nodup : (entries.map Prod.fst).Nodup

namespace HMap
variable {K : Type u} {V : Type v} {W : Type w}

def empty : HMap K V := ⟨[], List.nodup_nil⟩

instance : EmptyCollection (HMap K V) := ⟨empty⟩
instance : Inhabited (HMap K V) := ⟨empty⟩

def keys (m : HMap K V) : List K := m.entries.map Prod.fst
def values (m : HMap K V) : List V := m.entries.map Prod.snd
def len (m : HMap K V) : ℕ := m.entries.length

@[simp] theorem entries_empty : (∅ : HMap K V).entries = [] := rfl
@[simp] theorem keys_empty : (∅ : HMap K V).keys = [] := rfl

theorem nodup_keys (m : HMap K V) : m.keys.Nodup := m.nodup

@[simp] theorem length_keys (m : HMap K V) : m.keys.length = m.len := List.length_map ..

theorem mem_keys_iff_of_subset {m : HMap K V} {m' : HMap K W} (h : ∀ k ∈ m.keys, k ∈ m'.keys)
    (hlen : m'.len ≤ m.len) (k : K) : k ∈ m.keys ↔ k ∈ m'.keys := by
  rw [← length_keys, ← length_keys] at hlen
  exact ((m.nodup_keys.subperm h).perm_of_length_le hlen).mem_iff

theorem mem_keys_of_mem {m : HMap K V} {k : K} {v : V} (h : (k, v) ∈ m.entries) : k ∈ m.keys :=
  List.mem_map.2 ⟨(k, v), h, rfl⟩

theorem eq_of_mem_of_mem {m : HMap K V} {k : K} {v v' : V} (h : (k, v) ∈ m.entries)
    (h' : (k, v') ∈ m.entries) : v = v' := by
  have := List.inj_on_of_nodup_map m.nodup h h' rfl
  exact (Prod.mk.injEq .. ▸ this).2

section lookup
variable [DecidableEq K]

/-- `m.get(k)`. -/
def get? (m : HMap K V) (k : K) : Option V := m.entries.lookup k

def containsKey (m : HMap K V) (k : K) : Bool := (m.get? k).isSome

def remove (m : HMap K V) (k : K) : HMap K V :=
  ⟨m.entries.filter fun e => decide (e.1 ≠ k), m.nodup.sublist (List.filter_sublist.map _)⟩

/-- `m.insert(k, v)`: an old entry of `k` is replaced. -/
def insert (m : HMap K V) (k : K) (v : V) : HMap K V :=
  ⟨(m.remove k).entries ++ [(k, v)], by
    rw [List.map_append, List.nodup_append]
    refine ⟨(m.remove k).nodup, by simp, ?_⟩
    simp only [remove, List.mem_map, List.mem_filter]
    rintro a ⟨e, ⟨-, he⟩, rfl⟩ b hb rfl
    simp_all⟩

/-- `m.entry(k).or_insert(v)`: an old entry of `k` stays. -/
def orInsert (m : HMap K V) (k : K) (v : V) : HMap K V :=
  if m.containsKey k then m else m.insert k v

theorem get?_eq_some {m : HMap K V} {k : K} {v : V} : m.get? k = some v ↔ (k, v) ∈ m.entries := by
  unfold get?
  constructor
  · intro h
    obtain ⟨l₁, l₂, hl, -⟩ := List.lookup_eq_some_iff.1 h
    rw [hl]; simp
  · intro h
    cases h' : m.entries.lookup k with
    | none => exact absurd (List.lookup_eq_none_iff.1 h' _ h) (by simp)
    | some v' =>
      obtain ⟨l₁, l₂, hl, -⟩ := List.lookup_eq_some_iff.1 h'
      have : (k, v') ∈ m.entries := by rw [hl]; simp
      rw [eq_of_mem_of_mem h this]

theorem lookup_eq_of_perm {l l' : List (K × V)} (h : l.Perm l') (hl : (l.map Prod.fst).Nodup) (k : K) :
    l.lookup k = l'.lookup k := by
  have hl' : (l'.map Prod.fst).Nodup := (h.map _).nodup_iff.1 hl
  ext v
  exact (get?_eq_some (m := ⟨l, hl⟩)).trans (h.mem_iff.trans (get?_eq_some (m := ⟨l', hl'⟩)).symm)

theorem perm_of_get?_eq {m m' : HMap K V} (h : ∀ k, m.get? k = m'.get? k) : m.entries.Perm m'.entries := by
  refine (List.perm_ext_iff_of_nodup m.nodup.of_map m'.nodup.of_map).2 ?_
  rintro ⟨k, v⟩
  rw [← get?_eq_some, ← get?_eq_some, h]

theorem lookup_map_of_injective {K' : Type*} [DecidableEq K'] {f : K → K'} (hf : Function.Injective f) (l : List (K × V))
    (k : K) : (l.map fun e => (f e.1, e.2)).lookup (f k) = l.lookup k := by
  induction l with
  | nil => rfl
  | cons e l ih =>
    rw [List.map_cons, List.lookup_cons, List.lookup_cons, ih]
    by_cases h : k = e.1
    · simp [h]
    · simp [beq_eq_false_iff_ne.2 h, beq_eq_false_iff_ne.2 (hf.ne h)]

theorem get?_isSome {m : HMap K V} {k : K} : (m.get? k).isSome ↔ k ∈ m.keys := by
  rw [Option.isSome_iff_exists, keys, List.mem_map]
  constructor
  · rintro ⟨v, hv⟩; exact ⟨(k, v), get?_eq_some.1 hv, rfl⟩
  · rintro ⟨⟨k', v⟩, hv, rfl⟩; exact ⟨v, get?_eq_some.2 hv⟩

theorem get?_eq_none {m : HMap K V} {k : K} : m.get? k = none ↔ k ∉ m.keys := by
  rw [← get?_isSome, Option.not_isSome_iff_eq_none]

theorem exists_get? {m : HMap K V} {k : K} (h : k ∈ m.keys) : ∃ v, m.get? k = some v :=
  Option.isSome_iff_exists.1 (get?_isSome.2 h)

@[simp] theorem get?_empty (k : K) : (∅ : HMap K V).get? k = none := rfl

theorem get?_remove (m : HMap K V) (k k' : K) :
    (m.remove k).get? k' = if k' = k then none else m.get? k' := by
  ext v
  rw [get?_eq_some, remove]
  by_cases h : k' = k <;> simp [h, get?_eq_some]

theorem get?_of_remove {m : HMap K V} {k k' : K} {v : V} (h : (m.remove k).get? k' = some v) : m.get? k' = some v := by
  rw [get?_remove] at h
  split at h
  · cases h
  · exact h

theorem get?_insert (m : HMap K V) (k k' : K) (v : V) :
    (m.insert k v).get? k' = if k' = k then some v else m.get? k' := by
  ext w
  rw [get?_eq_some]
  by_cases h : k' = k
  · subst h; simp [insert, remove, eq_comm]
  · simp [insert, remove, h, get?_eq_some]

theorem insert_insert (m : HMap K V) (k : K) (v w : V) : (m.insert k v).insert k w = m.insert k w := by
  ext1
  simp [insert, remove, List.filter_filter]

theorem mem_keys_insert {m : HMap K V} {k k' : K} {v : V} : k' ∈ (m.insert k v).keys ↔ k' = k ∨ k' ∈ m.keys := by
  rw [← get?_isSome, ← get?_isSome, get?_insert]
  split
  next h => simp [h]
  next h => simp [h]

@[simp] theorem get?_insert_self (m : HMap K V) (k : K) (v : V) : (m.insert k v).get? k = some v := by
  rw [get?_insert, if_pos rfl]

theorem containsKey_insert {m : HMap K V} {k k' : K} {v : V} :
    (m.insert k v).containsKey k' = true ↔ k' = k ∨ m.containsKey k' = true := by
  rw [containsKey, get?_isSome, mem_keys_insert, containsKey, get?_isSome]

theorem get?_insert_of_ne (m : HMap K V) {k k' : K} (v : V) (h : k' ≠ k) :
    (m.insert k v).get? k' = m.get? k' := by
  rw [get?_insert, if_neg h]

theorem get?_orInsert (m : HMap K V) (k k' : K) (v : V) :
    (m.orInsert k v).get? k' = if k' = k then some ((m.get? k).getD v) else m.get? k' := by
  unfold orInsert containsKey
  cases h : m.get? k with
  | none => simp [get?_insert]
  | some w => by_cases hk : k' = k <;> simp [hk, h]

theorem entries_insert_of_not_mem {m : HMap K V} {k : K} (v : V) (h : k ∉ m.keys) :
    (m.insert k v).entries = m.entries ++ [(k, v)] := by
  show m.entries.filter _ ++ _ = _
  rw [List.filter_eq_self.2]
  rintro ⟨k', v'⟩ he
  simpa using fun hk : k' = k => h (hk ▸ mem_keys_of_mem he)

theorem entries_orInsert_of_not_mem {m : HMap K V} {k : K} (v : V) (h : k ∉ m.keys) :
    (m.orInsert k v).entries = m.entries ++ [(k, v)] := by
  unfold orInsert containsKey
  rw [get?_eq_none.2 h]
  exact entries_insert_of_not_mem v h

/-- When every value is a function of its key, iterating over the values is iterating over the
keys. -/
theorem values_eq_map {m : HMap K V} {f : K → V} (h : ∀ k v, m.get? k = some v → v = f k) :
    m.values = m.keys.map f := by
  rw [values, keys, List.map_map]
  refine List.map_congr_left ?_
  rintro ⟨k, v⟩ hkv
  exact h k v (get?_eq_some.2 hkv)

theorem toFinset_keys {m : HMap K V} {s : Finset K} (h : ∀ k, k ∈ m.keys ↔ k ∈ s) : m.keys.toFinset = s := by
  apply Finset.ext
  intro k
  rw [List.mem_toFinset, h]

theorem card_keys (m : HMap K V) : m.keys.toFinset.card = m.len := by
  rw [List.toFinset_card_of_nodup m.nodup_keys, length_keys]

theorem len_remove {m : HMap K V} {k : K} (h : k ∈ m.keys) : (m.remove k).len = m.len - 1 := by
  have herase : (m.remove k).keys.toFinset = m.keys.toFinset.erase k := by
    apply toFinset_keys
    intro k'
    rw [← get?_isSome, get?_remove, Finset.mem_erase, List.mem_toFinset, ← get?_isSome]
    split
    next hk => simp [hk]
    next hk => simp [hk]
  rw [← card_keys, herase, Finset.card_erase_of_mem (List.mem_toFinset.2 h), card_keys]

theorem sum_map_keys {M : Type*} [AddCommMonoid M] {m : HMap K V} {s : Finset K}
    (h : ∀ k, k ∈ m.keys ↔ k ∈ s) (f : K → M) : (m.keys.map f).sum = ∑ k ∈ s, f k := by
  rw [← toFinset_keys h, List.sum_toFinset _ m.nodup_keys]

theorem len_eq_card {m : HMap K V} {s : Finset K} (h : ∀ k, k ∈ m.keys ↔ k ∈ s) : m.len = s.card := by
  rw [← toFinset_keys h, card_keys]

end lookup

/-- The same keys in the same order, each value replaced by `f` of its entry. -/
def mapVal (f : K → V → W) (m : HMap K V) : HMap K W :=
  ⟨m.entries.map fun e => (e.1, f e.1 e.2), by
    rw [List.map_map]; exact m.nodup⟩

@[simp] theorem keys_mapVal (f : K → V → W) (m : HMap K V) : (m.mapVal f).keys = m.keys := by
  simp [keys, mapVal]

@[simp] theorem length_values (m : HMap K V) : m.values.length = m.len := by
  rw [values, List.length_map, len]

theorem values_mapVal_keys (g : K → W) (m : HMap K V) : (m.mapVal fun k _ => g k).values = m.keys.map g := by
  simp [values, mapVal, keys]

theorem get?_mapVal [DecidableEq K] (f : K → V → W) (m : HMap K V) (k : K) :
    (m.mapVal f).get? k = (m.get? k).map (f k) := by
  ext w
  rw [get?_eq_some, Option.map_eq_some_iff]
  simp only [mapVal, List.mem_map, Prod.mk.injEq, Prod.exists]
  constructor
  · rintro ⟨k', v, hv, rfl, rfl⟩; exact ⟨v, get?_eq_some.2 hv, rfl⟩
  · rintro ⟨v, hv, rfl⟩; exact ⟨k, v, get?_eq_some.1 hv, rfl, rfl⟩

theorem mapVal_mapVal {X : Type*} (g : K → W → X) (f : K → V → W) (m : HMap K V) :
    (m.mapVal f).mapVal g = m.mapVal fun k v => g k (f k v) := by
  simp [mapVal]

theorem eq_of_keys [DecidableEq K] {m m' : HMap K V} (hkeys : m.keys = m'.keys)
    (h : ∀ k v, m.get? k = some v → m'.get? k = some v) : m = m' := by
  obtain ⟨l, hl⟩ := m
  obtain ⟨l', hl'⟩ := m'
  congr 1
  refine List.ext_getElem (by simpa [keys] using congrArg List.length hkeys) fun i hi hi' => ?_
  have hkey : (l[i]).1 = (l'[i]).1 := by
    have hget := congrArg (fun ks => ks[i]?) hkeys
    simpa [keys, hi, hi'] using hget
  have hmem : ((l[i]).1, (l[i]).2) ∈ (⟨l', hl'⟩ : HMap K V).entries :=
    get?_eq_some.1 (h _ _ (get?_eq_some.2 (List.getElem_mem hi)))
  have hmem' : ((l[i]).1, (l'[i]).2) ∈ (⟨l', hl'⟩ : HMap K V).entries := hkey ▸ List.getElem_mem hi'
  exact Prod.ext hkey (eq_of_mem_of_mem hmem hmem')

def ofKeys (l : List K) (hl : l.Nodup) (f : K → V) : HMap K V :=
  ⟨l.map fun k => (k, f k), by rw [List.map_map]; exact (List.map_id l).symm ▸ hl⟩

theorem get?_ofKeys [DecidableEq K] {l : List K} (hl : l.Nodup) (f : K → V) (k : K) :
    (ofKeys l hl f).get? k = if k ∈ l then some (f k) else none := by
  by_cases hk : k ∈ l
  · rw [if_pos hk, get?_eq_some]
    exact List.mem_map.2 ⟨k, hk, rfl⟩
  · rw [if_neg hk, get?_eq_none]
    simpa [ofKeys, keys] using hk

/-! ### Loops that fill a map -/

/-- A loop that adds one entry for each item, the items having distinct new keys, lists them in
loop order. `op` is `insert` or `orInsert`. -/
theorem entries_foldl {α : Type*} (op : HMap K W → K → W → HMap K W)
    (hop : ∀ acc k w, k ∉ acc.keys → (op acc k w).entries = acc.entries ++ [(k, w)])
    (key : α → K) (g : α → W) (l : List α) (hl : (l.map key).Nodup) (acc : HMap K W)
    (hacc : ∀ a ∈ l, key a ∉ acc.keys) :
    (l.foldl (fun acc a => op acc (key a) (g a)) acc).entries =
      acc.entries ++ l.map fun a => (key a, g a) := by
  induction l generalizing acc with
  | nil => simp
  | cons a l ih =>
    rw [List.map_cons, List.nodup_cons] at hl
    have ha := hop acc (key a) (g a) (hacc a (by simp))
    have hacc' : ∀ b ∈ l, key b ∉ (op acc (key a) (g a)).keys := by
      intro b hb hmem
      rw [keys, ha, List.map_append, List.mem_append] at hmem
      rcases hmem with hmem | hmem
      · exact hacc b (by simp [hb]) hmem
      · have hba : key b = key a := by simpa using hmem
        exact hl.1 (hba ▸ List.mem_map_of_mem hb)
    rw [List.foldl_cons, ih hl.2 _ hacc', ha, List.append_assoc, List.map_cons, List.singleton_append]

section fill
variable [DecidableEq K]

theorem foldl_orInsert (f : K → V → W) (m : HMap K V) :
    m.entries.foldl (fun acc e => acc.orInsert e.1 (f e.1 e.2)) ∅ = m.mapVal f := by
  ext1
  rw [entries_foldl orInsert (fun _ _ w h => entries_orInsert_of_not_mem w h) Prod.fst
    (fun e => f e.1 e.2) m.entries m.nodup ∅ (by simp)]
  rfl

theorem foldl_insert_entries (m : HMap K W) :
    m.entries.foldl (fun out e => out.insert e.1 e.2) ∅ = m := by
  ext1
  rw [entries_foldl insert (fun _ _ w h => entries_insert_of_not_mem w h) Prod.fst Prod.snd m.entries
    m.nodup ∅ (by simp)]
  simp

theorem get?_foldl_update (f : Option W → V → W) (m : HMap K V) (acc : HMap K W) (k : K) :
    (m.entries.foldl (fun out e => out.insert e.1 (f (out.get? e.1) e.2)) acc).get? k =
      (m.get? k).elim (acc.get? k) fun v => some (f (acc.get? k) v) := by
  obtain ⟨entries, hnodup⟩ := m
  show _ = (entries.lookup k).elim (acc.get? k) fun v => some (f (acc.get? k) v)
  induction entries generalizing acc with
  | nil => rfl
  | cons e entries ih =>
    obtain ⟨k', v⟩ := e
    obtain ⟨hk', htail⟩ := List.nodup_cons.1 hnodup
    rw [List.foldl_cons, ih _ htail, List.lookup_cons]
    by_cases heq : k = k'
    · subst heq
      have hnone : entries.lookup k = none := (get?_eq_none (m := ⟨entries, htail⟩)).2 hk'
      simp [hnone]
    · have hbeq : (k == k') = false := beq_eq_false_iff_ne.2 heq
      rw [hbeq, get?_insert_of_ne _ _ heq]

/-- `iter.collect()`: of several entries with one key the last stays. -/
def collect {α : Type*} (key : α → K) (val : α → V) (l : List α) : HMap K V :=
  l.foldl (fun m a => m.insert (key a) (val a)) ∅

theorem get?_collect {α : Type*} (key : α → K) (val : α → V) (l : List α) (k : K) :
    (collect key val l).get? k = (l.reverse.find? fun a => key a = k).map val := by
  induction l using List.reverseRecOn with
  | nil => rfl
  | append_singleton l a ih =>
    rw [collect, List.foldl_concat, ← collect, get?_insert, List.reverse_concat, List.find?_cons, ih]
    by_cases h : key a = k
    · simp [h]
    · simp [h, Ne.symm h]

theorem mem_keys_collect {α : Type*} {key : α → K} {val : α → V} {l : List α} {k : K} :
    k ∈ (collect key val l).keys ↔ ∃ a ∈ l, key a = k := by
  rw [← get?_isSome, get?_collect, Option.isSome_map, List.find?_isSome]
  simp

theorem len_collect {α : Type*} {key : α → K} (val : α → V) {l : List α} (hl : (l.map key).Nodup) :
    (collect key val l).len = l.length := by
  rw [len, collect, entries_foldl insert (fun _ _ w h => entries_insert_of_not_mem w h) key val l hl ∅ (by simp)]
  simp

end fill

section mapValM
variable {ε K V W : Type} {f : K → V → Outcome ε W}

/-- The loop relates the entries of the two maps one by one. -/
abbrev EntryOk (f : K → V → Outcome ε W) (e : K × V) (e' : K × W) : Prop := f e.1 e.2 = .ok e'.2 ∧ e.1 = e'.1

theorem map_fst_of_entryOk : ∀ {l : List (K × V)} {l' : List (K × W)}, List.Forall₂ (EntryOk f) l l' →
    l'.map Prod.fst = l.map Prod.fst
  | _, _, .nil => rfl
  | _, _, .cons h ht => by rw [List.map_cons, List.map_cons, map_fst_of_entryOk ht, h.2]

theorem exists_of_entryOk : ∀ {l : List (K × V)} {l' : List (K × W)}, List.Forall₂ (EntryOk f) l l' →
    ∀ e' ∈ l', ∃ e ∈ l, EntryOk f e e'
  | _, _, .nil => by simp
  | _, _, .cons h ht => by
    intro e' he'
    rcases List.mem_cons.1 he' with rfl | he'
    · exact ⟨_, List.mem_cons_self, h⟩
    · obtain ⟨e, he, hee⟩ := exists_of_entryOk ht e' he'
      exact ⟨e, List.mem_cons_of_mem _ he, hee⟩

variable [DecidableEq K] {m : HMap K V} {m' : HMap K W}

/-- `for (k, v) in m.iter() { out.insert(k, f(k, v)?) }` into a new map. -/
def mapValM (f : K → V → Outcome ε W) (m : HMap K V) : Outcome ε (HMap K W) :=
  m.entries.foldlM (fun out e => do
    let w ← f e.1 e.2
    pure (out.insert e.1 w)) ∅

theorem mapValM_eq_mapM : m.mapValM f = m.entries.mapM (fun e => f e.1 e.2 >>= fun w => pure (e.1, w)) >>=
    fun l => pure (l.foldl (fun out e => out.insert e.1 e.2) ∅) := by
  rw [← Outcome.foldlM_bind_pure]
  simp [mapValM]

theorem mapValM_eq_ok : m.mapValM f = .ok m' ↔ List.Forall₂ (EntryOk f) m.entries m'.entries := by
  have hf : (fun (e : K × V) (e' : K × W) => (f e.1 e.2 >>= fun w => pure (e.1, w)) = .ok e') = EntryOk f := by
    funext e e'
    obtain ⟨k, w⟩ := e'
    simp only [Outcome.bind_eq_ok, Outcome.pure_eq_ok, Except.ok.injEq, Prod.mk.injEq, eq_iff_iff]
    constructor
    · rintro ⟨w, hw, hk, rfl⟩; exact ⟨hw, hk⟩
    · rintro ⟨hw, hk⟩; exact ⟨w, hw, hk, rfl⟩
  rw [mapValM_eq_mapM, Outcome.bind_eq_ok]
  simp only [Outcome.mapM_eq_ok, hf]
  simp only [Outcome.pure_eq_ok, Except.ok.injEq]
  constructor
  · rintro ⟨l, hl, rfl⟩
    have hnd : (l.map Prod.fst).Nodup := map_fst_of_entryOk hl ▸ m.nodup
    rw [foldl_insert_entries ⟨l, hnd⟩]
    exact hl
  · intro h
    exact ⟨m'.entries, h, foldl_insert_entries m'⟩

theorem keys_of_mapValM (h : m.mapValM f = .ok m') : m'.keys = m.keys :=
  map_fst_of_entryOk (mapValM_eq_ok.1 h)

theorem get?_of_mapValM (h : m.mapValM f = .ok m') {k : K} {w : W} (hk : m'.get? k = some w) :
    ∃ v, m.get? k = some v ∧ f k v = .ok w := by
  obtain ⟨⟨k', v⟩, he, hf, rfl⟩ := exists_of_entryOk (mapValM_eq_ok.1 h) _ (get?_eq_some.1 hk)
  exact ⟨v, get?_eq_some.2 he, hf⟩

theorem exists_of_mapValM (h : m.mapValM f = .ok m') {k : K} {v : V} (hk : m.get? k = some v) :
    ∃ w, m'.get? k = some w ∧ f k v = .ok w := by
  have hmem : k ∈ m'.keys := by
    rw [keys_of_mapValM h]
    exact mem_keys_of_mem (get?_eq_some.1 hk)
  obtain ⟨w, hw⟩ := exists_get? hmem
  obtain ⟨v', hv', hf⟩ := get?_of_mapValM h hw
  rw [hk] at hv'
  obtain rfl := Option.some.inj hv'
  exact ⟨w, hw, hf⟩

theorem get?_mapValM (h : m.mapValM f = .ok m') (k : K) : m'.get? k = (m.get? k).bind fun v => (f k v).result? := by
  cases hv : m.get? k with
  | none =>
    rw [Option.bind_none, get?_eq_none, keys_of_mapValM h]
    exact get?_eq_none.1 hv
  | some v =>
    obtain ⟨w, hw, hf⟩ := exists_of_mapValM h hv
    rw [hw, Option.bind_some, Outcome.result?_eq_some.2 hf]

theorem mapValM_of_ok {g : K → V → W} (hg : ∀ k v, m.get? k = some v → f k v = .ok (g k v)) :
    m.mapValM f = .ok (m.mapVal g) := by
  rw [mapValM_eq_ok, mapVal, List.forall₂_map_right_iff, List.forall₂_same]
  rintro ⟨k, v⟩ he
  exact ⟨hg k v (get?_eq_some.2 he), rfl⟩

theorem exists_mapValM_eq_ok : (∃ m', m.mapValM f = .ok m') ↔ ∀ e ∈ m.entries, ∃ w, f e.1 e.2 = .ok w := by
  constructor
  · rintro ⟨m', h⟩ ⟨k, v⟩ he
    obtain ⟨w, -, hw⟩ := exists_of_mapValM h (get?_eq_some.2 he)
    exact ⟨w, hw⟩
  · intro h
    have hentry : ∀ e ∈ m.entries, ∃ e' : K × W, (f e.1 e.2 >>= fun w => pure (e.1, w)) = .ok e' := by
      intro e he
      obtain ⟨w, hw⟩ := h e he
      exact ⟨(e.1, w), by rw [hw]; rfl⟩
    obtain ⟨l, hl⟩ := Outcome.exists_mapM_eq_ok.2 hentry
    exact ⟨_, by rw [mapValM_eq_mapM, hl, Outcome.bind_ok, Outcome.pure_eq_ok]⟩

theorem errorsIn_mapValM {p : ε → Prop} (hf : ∀ k v, Outcome.ErrorsIn p (f k v)) :
    Outcome.ErrorsIn p (m.mapValM f) :=
  .foldlM (fun _ e _ => (hf e.1 e.2).bind fun _ _ => .ok _) ∅

theorem noPanic_mapValM (hf : ∀ k v, Outcome.NoPanic (f k v)) : Outcome.NoPanic (m.mapValM f) :=
  .foldlM (fun _ e _ => Outcome.noPanic_bind.2 ⟨hf e.1 e.2, fun _ _ => .ok _⟩) ∅

end mapValM

end HMap
