import HumanNetwork.Resharing

/-!
# What a resharing tells about the secret

An `ObservedResharing` fixes who takes part in a resharing and what an adversary sees of it: one share
of the old sharing fewer than its threshold, everything that the corrupted members of `T*` deal, and
what one new node fewer than the new threshold receives from every dealer. The rest is a `Choice`: the
old sharing polynomial, and the coefficients that the honest dealers draw.

Any change of the secret is hidden by a shift of the choice. The old polynomial moves by one that
vanishes at the shares seen, and the polynomial of each honest dealer follows by one that vanishes at
the new nodes seen (`exists_shift`). So the choices that fit a view are equally many for all secrets,
which is `resharing_secrecy`.
-/

namespace HumanNetwork
open Outcome Finset

variable {R : Rsa} {C : Curve}

/-- A resharing from the members `ids` of `T*`, whatever networks they believe in, to a new quorum with
threshold `threshold`. The adversary knows the old shares of `seenOld`, the keys of the new nodes
`seenNew`, and what the corrupted members of `T*` draw. -/
structure ObservedResharing (R : Rsa) (C : Curve) where
  tOld : ℕ
  threshold : ℕ
  ids : Finset ℕ
  node : ℕ → Node R C
  node_id : ∀ j ∈ ids, (node j).id = j
  tStar : ℕ → Network R
  newQuorum : ℕ → Network R
  newQuorum_threshold : ∀ j ∈ ids, (newQuorum j).threshold = threshold
  coins : ℕ → ℕ → R.Coin
  seenOld : Finset ℕ
  seenOld_valid : ∀ j ∈ seenOld, 0 < j ∧ j < 2 ^ 128
  card_seenOld : seenOld.card + 1 = tOld
  seenNew : Finset ℕ
  seenNew_valid : ∀ k ∈ seenNew, 0 < k ∧ k < 2 ^ 128
  card_seenNew : seenNew.card + 1 = threshold
  newSeckey : ℕ → R.SecretKey
  newQuorum_keys : ∀ j ∈ ids, ∀ k ∈ seenNew, (newQuorum j).publicKeys.get? k = some (R.publicKey (newSeckey k))
  corrupted : Finset ℕ
  corrupted_subset : corrupted ⊆ ids ∩ seenOld
  corruptedRng : ℕ → ℕ → C.FieldEl

namespace ObservedResharing
variable (s : ObservedResharing R C)

abbrev Honest := { j // j ∈ s.ids \ s.corrupted }

/-- The coefficients of the old sharing, and of each honest dealer's polynomial all but the constant one. -/
abbrev Choice := (Fin s.tOld → C.FieldEl) × (s.Honest → Fin (s.threshold - 1) → C.FieldEl)

noncomputable def old (a : s.Choice) : Polynomial C.FieldEl := Polynomial.ofFn s.tOld a.1

noncomputable def groupSecret (a : s.Choice) : C.FieldEl := (s.old a).eval 0

noncomputable def dealer (a : s.Choice) (j : ℕ) : Node R C :=
  { s.node j with privateShare := (s.old a).eval (j : C.FieldEl) }

def rng (a : s.Choice) (j : ℕ) : ℕ → C.FieldEl :=
  if h : j ∈ s.ids \ s.corrupted then Poly.drawsOf (a.2 ⟨j, h⟩) else s.corruptedRng j

noncomputable def fi (a : s.Choice) (j : ℕ) : Outcome ResharingError (Poly C.FieldEl) :=
  (s.dealer a j).resharingFi (s.tStar j) (s.newQuorum j) (s.rng a j)

noncomputable def round1 (a : s.Choice) (j : ℕ) : Outcome ResharingError (HMap ℕ Bytes × List C.Point) :=
  (s.dealer a j).resharingRound1 (s.tStar j) (s.newQuorum j) (s.rng a j) (s.coins j)

def received (out : Outcome ResharingError (HMap ℕ Bytes × List C.Point)) (k : ℕ) : Option Bytes :=
  match out with
  | .ok (yCt, _) => (yCt.get? k).bind (R.decrypt (s.newSeckey k))
  | .error _ => none

structure View where
  oldShares : s.seenOld → C.FieldEl
  dealings : s.corrupted → Outcome ResharingError (Poly C.FieldEl)
  subShares : s.ids → s.seenNew → Option Bytes

noncomputable def view (a : s.Choice) : s.View where
  oldShares j := (s.old a).eval ((j : ℕ) : C.FieldEl)
  dealings j := s.fi a j
  subShares j k := s.received (s.round1 a j) k

noncomputable def count (view : s.View) (x : C.FieldEl) : ℕ :=
  Nat.card { a : s.Choice // s.view a = view ∧ s.groupSecret a = x }

variable {s} {j k : ℕ}

/-! ### What is received of a polynomial -/

theorem received_eq [R.Lossless] (hj : j ∈ s.ids) (hk : k ∈ s.seenNew) {self : Node R C} {rng : ℕ → C.FieldEl}
    {fi : Poly C.FieldEl} {yCt : HMap ℕ Bytes} {v : List C.Point}
    (hfi : self.resharingFi (s.tStar j) (s.newQuorum j) rng = .ok fi)
    (h : self.resharingRound1 (s.tStar j) (s.newQuorum j) rng (s.coins j) = .ok (yCt, v)) :
    s.received (.ok (yCt, v)) k = some (C.id.toRepr (fi.toPolynomial.eval (k : C.FieldEl))) := by
  obtain ⟨hct, -⟩ := Node.resharingRound1_ok hfi h
  have hpk := s.newQuorum_keys j hj k hk
  obtain ⟨ct, hget, -⟩ := HMap.exists_of_mapValM hct hpk
  obtain ⟨pk, yi, hpk', hyi, henc⟩ := encryptShares_ok _ hct hget
  rw [hpk] at hpk'
  obtain rfl := Option.some.inj hpk'
  rw [get?_feldmanShares, hpk, Option.map_some] at hyi
  obtain rfl := Option.some.inj hyi
  simp only [received, hget, Option.bind_some, Rsa.Lossless.decrypt_encrypt henc]

theorem received_congr [R.Lossless] [R.RefusesByLength] (hj : j ∈ s.ids) (hk : k ∈ s.seenNew) {self self' : Node R C}
    {rng rng' : ℕ → C.FieldEl} {fi fi' : Poly C.FieldEl}
    (hfi : self.resharingFi (s.tStar j) (s.newQuorum j) rng = .ok fi)
    (hfi' : self'.resharingFi (s.tStar j) (s.newQuorum j) rng' = .ok fi')
    (heval : fi.toPolynomial.eval (k : C.FieldEl) = fi'.toPolynomial.eval (k : C.FieldEl)) :
    s.received (self.resharingRound1 (s.tStar j) (s.newQuorum j) rng (s.coins j)) k =
      s.received (self'.resharingRound1 (s.tStar j) (s.newQuorum j) rng' (s.coins j)) k := by
  have hround := self.resharingRound1_eq_bind (s.tStar j) (s.newQuorum j) rng (s.coins j)
  have hround' := self'.resharingRound1_eq_bind (s.tStar j) (s.newQuorum j) rng' (s.coins j)
  rw [hfi, bind_ok] at hround
  rw [hfi', bind_ok] at hround'
  have hkeys : ∀ p : Poly C.FieldEl, ∀ i ∈ (s.newQuorum j).publicKeys.keys,
      i ∈ (feldmanShares C p (s.newQuorum j).publicKeys).keys := fun p i hi => by
    rwa [feldmanShares, HMap.keys_mapVal]
  cases hct : encryptShares resharingStep (feldmanShares C fi (s.newQuorum j).publicKeys)
      (s.newQuorum j).publicKeys (s.coins j) with
  | ok yCt =>
    obtain ⟨yCt', hct'⟩ := encryptShares_of_ok _ hct (hkeys fi')
    rw [hct, bind_ok, pure_eq_ok] at hround
    rw [hct', bind_ok, pure_eq_ok] at hround'
    rw [hround, hround', received_eq hj hk hfi hround, received_eq hj hk hfi' hround', heval]
  | error e =>
    cases hct' : encryptShares resharingStep (feldmanShares C fi' (s.newQuorum j).publicKeys)
        (s.newQuorum j).publicKeys (s.coins j) with
    | ok yCt' =>
      obtain ⟨yCt, hct⟩ := encryptShares_of_ok _ hct' (hkeys fi)
      simp_all
    | error e' =>
      rw [hround, hround', hct, hct', bind_error, bind_error]
      rfl

/-! ### Shifting a choice -/

theorem natCast_ne_zero_of_valid {seen : Finset ℕ} (hvalid : ∀ i ∈ seen, 0 < i ∧ i < 2 ^ 128) :
    (0 : C.FieldEl) ∉ seen.image fun i : ℕ => (i : C.FieldEl) := by
  intro h
  obtain ⟨i, hi, h0⟩ := mem_image.1 h
  obtain ⟨hpos, hlt⟩ := hvalid i hi
  have := (C.id.natCast_eq_zero hlt).1 h0
  omega

theorem card_image_of_valid {seen : Finset ℕ} (hvalid : ∀ i ∈ seen, 0 < i ∧ i < 2 ^ 128) :
    (seen.image fun i : ℕ => (i : C.FieldEl)).card = seen.card :=
  card_image_of_injOn (C.id.natCast_injOn fun i hi => (hvalid i hi).2)

theorem toPolynomial_honest (hj : j ∈ s.ids) (g : Fin (s.threshold - 1) → C.FieldEl) (ai0 : C.FieldEl) :
    (resharingPoly (s.newQuorum j) (Poly.drawsOf g) ai0).toPolynomial =
      Polynomial.C ai0 + Polynomial.X * Polynomial.ofFn (s.threshold - 1) g := by
  rw [resharingPoly, s.newQuorum_threshold j hj, Poly.toPolynomial_drawsOf]

theorem eval_old_add (a b : s.Choice) (x : C.FieldEl) :
    (s.old (a + b)).eval x = (s.old a).eval x + (s.old b).eval x := by
  rw [old, old, old, Prod.fst_add, map_add, Polynomial.eval_add]

variable (s) in
def lambda (j : ℕ) : Outcome ResharingError C.FieldEl :=
  lagrangeBasisAt0 ((s.node j).id % 2 ^ 32) ((s.tStar j).publicKeys.keys.map (· % 2 ^ 32))

theorem exists_shift_dealers (c : Fin s.tOld → C.FieldEl) : ∃ g : s.Honest → Fin (s.threshold - 1) → C.FieldEl,
    ∀ (j : s.Honest) (w : C.FieldEl), s.lambda j = .ok w → ∀ k ∈ s.seenNew,
      (Polynomial.C ((Polynomial.ofFn s.tOld c).eval ((j : ℕ) : C.FieldEl) * w) +
        Polynomial.X * Polynomial.ofFn (s.threshold - 1) (g j)).eval (k : C.FieldEl) = 0 := by
  have hcard : (s.seenNew.image fun i : ℕ => (i : C.FieldEl)).card = s.threshold - 1 := by
    have := s.card_seenNew
    rw [card_image_of_valid s.seenNew_valid]
    omega
  have hdealer : ∀ j : s.Honest, ∃ g : Fin (s.threshold - 1) → C.FieldEl,
      ∀ w, s.lambda j = .ok w → ∀ k ∈ s.seenNew,
        (Polynomial.C ((Polynomial.ofFn s.tOld c).eval ((j : ℕ) : C.FieldEl) * w) +
          Polynomial.X * Polynomial.ofFn (s.threshold - 1) g).eval (k : C.FieldEl) = 0 := by
    intro j
    cases hw : s.lambda j with
    | error e => exact ⟨0, fun w h => by cases h⟩
    | ok w =>
      obtain ⟨g, hg⟩ := Shamir.exists_shift_tail (natCast_ne_zero_of_valid s.seenNew_valid) hcard
        ((Polynomial.ofFn s.tOld c).eval ((j : ℕ) : C.FieldEl) * w)
      refine ⟨g, fun w' hw' k hk => ?_⟩
      obtain rfl := Except.ok.inj hw'
      exact hg _ (mem_image_of_mem _ hk)
  choose g hg using hdealer
  exact ⟨g, hg⟩

theorem round1_congr {a a' : s.Choice} (hshare : (s.old a').eval (j : C.FieldEl) = (s.old a).eval (j : C.FieldEl))
    (hj : j ∈ s.corrupted) : s.fi a' j = s.fi a j ∧ s.round1 a' j = s.round1 a j := by
  have hdealer : s.dealer a' j = s.dealer a j := by rw [dealer, dealer, hshare]
  have hrng : s.rng a' j = s.rng a j := by
    have hnot : j ∉ s.ids \ s.corrupted := fun h => (mem_sdiff.1 h).2 hj
    rw [rng, rng, dif_neg hnot, dif_neg hnot]
  rw [fi, fi, round1, round1, hdealer, hrng]
  exact ⟨rfl, rfl⟩

theorem received_shift [R.Lossless] [R.RefusesByLength] {c : Fin s.tOld → C.FieldEl}
    {g : s.Honest → Fin (s.threshold - 1) → C.FieldEl}
    (hg : ∀ (j : s.Honest) (w : C.FieldEl), s.lambda j = .ok w → ∀ k ∈ s.seenNew,
      (Polynomial.C ((Polynomial.ofFn s.tOld c).eval ((j : ℕ) : C.FieldEl) * w) +
        Polynomial.X * Polynomial.ofFn (s.threshold - 1) (g j)).eval (k : C.FieldEl) = 0)
    (a : s.Choice) (hj : j ∈ s.ids \ s.corrupted) (hk : k ∈ s.seenNew) :
    s.received (s.round1 (a + (c, g)) j) k = s.received (s.round1 a j) k := by
  have hids := (mem_sdiff.1 hj).1
  have hrng : ∀ b : s.Choice, s.rng b j = Poly.drawsOf (b.2 ⟨j, hj⟩) := fun b => dif_pos hj
  cases hw : s.lambda j with
  | error e =>
    have hfail : ∀ b : s.Choice, s.round1 b j = .error e := fun b => by
      have hfi : (s.dealer b j).resharingFi (s.tStar j) (s.newQuorum j) (s.rng b j) = .error e := by
        have hlambda : (lagrangeBasisAt0 ((s.dealer b j).id % 2 ^ 32)
          ((s.tStar j).publicKeys.keys.map (· % 2 ^ 32)) : Outcome ResharingError C.FieldEl) = .error e := hw
        rw [Node.resharingFi, hlambda, bind_error]
      rw [round1, Node.resharingRound1_eq_bind, hfi, bind_error]
    rw [hfail, hfail]
  | ok w =>
    have hfi : ∀ b : s.Choice, (s.dealer b j).resharingFi (s.tStar j) (s.newQuorum j) (s.rng b j) =
        .ok (resharingPoly (s.newQuorum j) (s.rng b j) ((s.old b).eval (j : C.FieldEl) * w)) := fun b =>
      Node.resharingFi_eq (s.dealer b j) hw _ _
    refine received_congr hids hk (hfi _) (hfi a) ?_
    have hshift := hg ⟨j, hj⟩ w hw k hk
    have hsum : Polynomial.C ((s.old (a + (c, g))).eval (j : C.FieldEl) * w) +
          Polynomial.X * Polynomial.ofFn (s.threshold - 1) ((a + (c, g)).2 ⟨j, hj⟩) =
        Polynomial.C ((s.old a).eval (j : C.FieldEl) * w) +
            Polynomial.X * Polynomial.ofFn (s.threshold - 1) (a.2 ⟨j, hj⟩) +
          (Polynomial.C ((Polynomial.ofFn s.tOld c).eval (j : C.FieldEl) * w) +
            Polynomial.X * Polynomial.ofFn (s.threshold - 1) (g ⟨j, hj⟩)) := by
      rw [eval_old_add, Prod.snd_add, Pi.add_apply, map_add, add_mul, Polynomial.C_add, mul_add, old, old]
      ring
    rw [hrng, hrng, toPolynomial_honest hids, toPolynomial_honest hids, hsum, Polynomial.eval_add, hshift, add_zero]

/-- Every change of the secret is the effect of a shift that the view does not show. -/
theorem exists_shift [R.Lossless] [R.RefusesByLength] (s : ObservedResharing R C) (d : C.FieldEl) :
    ∃ b : s.Choice, ∀ a, s.view (a + b) = s.view a ∧ s.groupSecret (a + b) = s.groupSecret a + d := by
  obtain ⟨c, hc, hd⟩ := Shamir.exists_shift_ofFn (natCast_ne_zero_of_valid s.seenOld_valid)
    ((congrArg (· + 1) (card_image_of_valid s.seenOld_valid)).trans s.card_seenOld) d
  obtain ⟨g, hg⟩ := exists_shift_dealers c
  refine ⟨(c, g), fun a => ⟨?_, ?_⟩⟩
  · have hold : ∀ j ∈ s.seenOld, (s.old (a + (c, g))).eval (j : C.FieldEl) = (s.old a).eval (j : C.FieldEl) := by
      intro j hj
      have hj0 : (s.old (c, g)).eval (j : C.FieldEl) = 0 := hc _ (mem_image_of_mem _ hj)
      rw [eval_old_add, hj0, add_zero]
    have hcorrupted : ∀ j ∈ s.corrupted, s.fi (a + (c, g)) j = s.fi a j ∧ s.round1 (a + (c, g)) j = s.round1 a j :=
      fun j hj => round1_congr (hold j (mem_inter.1 (s.corrupted_subset hj)).2) hj
    unfold view
    congr 1
    · funext j
      exact hold j j.2
    · funext j
      exact (hcorrupted j j.2).1
    · funext j k
      by_cases hj : (j : ℕ) ∈ s.corrupted
      · rw [(hcorrupted j hj).2]
      · exact received_shift hg a (mem_sdiff.2 ⟨j.2, hj⟩) k.2
  · rw [groupSecret, groupSecret, eval_old_add]
    exact congrArg _ hd

end ObservedResharing

/-- Whatever is seen of a resharing, within the two thresholds, fits all group secrets equally well, and
there is no secret that it excludes. -/
theorem resharing_secrecy [R.Lossless] [R.RefusesByLength] (s : ObservedResharing R C) :
    (∀ view x x', s.count view x = s.count view x') ∧ ∀ a x, 0 < s.count (s.view a) x := by
  have hcount : ∀ view x x', s.count view x = s.count view x' := by
    intro view x x'
    obtain ⟨b, hb⟩ := s.exists_shift (x' - x)
    refine Nat.card_congr (Equiv.subtypeEquiv (Equiv.addRight b) fun a => ?_)
    obtain ⟨hview, hsecret⟩ := hb a
    rw [Equiv.coe_addRight, hview, hsecret]
    refine and_congr_right fun _ => ⟨fun h => by rw [h, add_sub_cancel], fun h => ?_⟩
    rw [← sub_eq_iff_eq_add.2 h.symm, sub_sub_cancel]
  refine ⟨hcount, fun a x => ?_⟩
  rw [hcount _ x (s.groupSecret a)]
  exact Nat.card_pos_iff.2 ⟨⟨⟨a, rfl, rfl⟩⟩, inferInstance⟩

/-- Nodes 1 and 2 reshare to nodes 1, 2 and 3, both with a threshold of 2; node 1 is corrupted before
the resharing, and node 3 after it. -/
def boxObserved (C : Curve) : ObservedResharing boxRsa C where
  tOld := 2
  threshold := 2
  ids := {1, 2}
  node := boxNode C
  node_id _ _ := rfl
  tStar _ := boxNetwork [1, 2] twoIds_nodup 2 twoIds_threshold
  newQuorum _ := boxNetwork [1, 2, 3] threeIds_nodup 2 threeIds_threshold
  newQuorum_threshold _ _ := rfl
  coins _ _ := (0 : UInt8)
  seenOld := {1}
  seenOld_valid := by decide
  card_seenOld := by decide
  seenNew := {3}
  seenNew_valid := by decide
  card_seenNew := by decide
  newSeckey k := k
  newQuorum_keys _ _ k hk := by
    rw [mem_singleton.1 hk]
    rfl
  corrupted := {1}
  corrupted_subset := by decide
  corruptedRng _ _ := 1

theorem resharing_secrecy_boxObserved : (boxObserved (scalarCurve .secp256k1)).groupSecret 0 = 0 ∧
    0 < (boxObserved (scalarCurve .secp256k1)).count ((boxObserved (scalarCurve .secp256k1)).view 0) 7 := by
  refine ⟨?_, (resharing_secrecy (boxObserved (scalarCurve .secp256k1))).2 0 7⟩
  rw [ObservedResharing.groupSecret, ObservedResharing.old, Prod.fst_zero, map_zero, Polynomial.eval_zero]

end HumanNetwork
