import HumanNetwork.DkgAgreement

/-!
# The end of a key generation (`dkg_engine_actor.rs`)

Round 3 interpolates the group key from the public shares of all members and compares it with the one of round 2. A node
that has computed its share and has the public shares gets through it, and reports itself ready with the group keys of the
polynomials on which the nodes of its attempt agree (`dkg_round3_ready`).
-/

namespace HumanNetwork
open Outcome DkgEngineState

variable {env : EngineEnv} [∀ c, (env.curve c).PrimeOrder] {setup : SessionSetup env} {polys : DealtPolys env} {p : PeerId}
  {j : ℕ} {self : DkgEngineState env} {s : SessionNet env}

namespace SessionNet

theorem Agreed.otherPubshares [∀ c, (env.curve c).FaithfulEncodings] (h : s.Agreed setup polys)
    (hself : s.engine p = some self) (hshared : HasShared s.sent (s.attempt p) self.idx) (hcompleted : self.Completed)
    {m : Method} {data : NodeData env.R (env.curve m.curve)} (hnode : self.dkgNodes.get? m.keyName = some ⟨m.curve, data⟩)
    (hj : j ∈ setup.ids (s.attempt p)) : data.otherPubshares.get? j =
      some ((setup.groupPoly polys (s.attempt p) m).eval (j : (env.curve m.curve).FieldEl) •
        (env.curve m.curve).basePointOrGenerator) := by
  have hin := h.separated.engine p self hself
  obtain ⟨hkeys, -, hown⟩ := hcompleted.pubshares hin.fits hnode
  by_cases hji : j = self.idx
  · have hon := h.computed p self hself hshared m data.node (nodeOf_eq_some hnode)
    have hid : NodeDataVariant.id ⟨m.curve, data⟩ = self.idx := (hin.fits.nodes _ _ hnode).id
    rw [hid] at hown
    rw [hji]
    refine hown.trans (congrArg some ?_)
    rw [← hon.privateShare]
    exact Curve.scalarMul_eq_smul _ _ _
  · have hmem : j ∈ data.otherPubshares.keys := by
      rw [← List.mem_toFinset, hkeys, (h.placed p self hself).newProvers]
      exact hj
    obtain ⟨share, hshare⟩ := HMap.exists_get? hmem
    obtain ⟨msg, hmsg, ⟨hattempt, -⟩, pubshares, bytes, hm, hbytes, hdecoded⟩ :=
      (hin.nodes _ _ hnode).pubshares j share hshare hji
    obtain ⟨bytes', hbytes', hencode⟩ := h.shared msg hmsg j pubshares hm m
    cases hbytes.symm.trans hbytes'
    have hback := Curve.FaithfulEncodings.fromEncoded_encode (Curve.PrimeOrder.order_nsmul _) hencode
    rw [hshare, ← hattempt, Except.ok.inj (hdecoded.symm.trans hback)]

end SessionNet

end HumanNetwork
