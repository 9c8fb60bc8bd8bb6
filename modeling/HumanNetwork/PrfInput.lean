import HumanNetwork.Jwt

/-!
# Whose key the PRF derives (`zkinjmask.rs`)

`uniqueString` joins the login domain, the issuer, the subject and the salt of a token with commas and uses a default for a
missing salt. Nothing is escaped, so that the parts of a token can be told from its string only if none of them has a
comma, and a missing salt cannot be told from the default (`uniqueString_identifies_iff`).
-/

namespace HumanNetwork
open Outcome

namespace JWTClaims
variable {claims other : JWTClaims} {unique domain : String}

def SameUser (claims other : JWTClaims) : Prop :=
  claims.azp.or claims.aud = other.azp.or other.aud ∧ claims.iss = other.iss ∧ claims.sub = other.sub ∧
    claims.salt = other.salt

instance : Decidable (SameUser claims other) := inferInstanceAs (Decidable (_ ∧ _ ∧ _ ∧ _))

/-- No part has a comma, and there is a salt that is not the default. -/
structure Unambiguous (claims : JWTClaims) : Prop where
  domain : ∀ domain ∈ claims.azp.or claims.aud, ',' ∉ domain.toList
  iss : ',' ∉ claims.iss.toList
  sub : ',' ∉ claims.sub.toList
  salt : ∃ salt, claims.salt = some salt ∧ ',' ∉ salt.toList ∧ salt ≠ "human-default-salt"

theorem uniqueString_eq_ok : claims.uniqueString = .ok unique ↔ ∃ domain, claims.azp.or claims.aud = some domain ∧
    domain ++ "," ++ claims.iss ++ "," ++ claims.sub ++ "," ++ claims.salt.getD "human-default-salt" = unique := by
  simp only [uniqueString, bind_eq_ok, okOr_eq_ok, pure_eq_ok, Except.ok.injEq]

theorem uniqueString_eq_of_joined {domain' : String} (hdomain : claims.azp.or claims.aud = some domain)
    (hdomain' : other.azp.or other.aud = some domain')
    (h : domain' ++ "," ++ other.iss ++ "," ++ other.sub ++ "," ++ other.salt.getD "human-default-salt" =
      domain ++ "," ++ claims.iss ++ "," ++ claims.sub ++ "," ++ claims.salt.getD "human-default-salt") :
    other.uniqueString = claims.uniqueString := by
  rw [uniqueString_eq_ok.2 ⟨_, hdomain', h⟩]
  exact (uniqueString_eq_ok.2 ⟨_, hdomain, rfl⟩).symm

theorem toList_joined (a b c d : String) :
    (a ++ "," ++ b ++ "," ++ c ++ "," ++ d).toList =
      a.toList ++ ',' :: (b.toList ++ ',' :: (c.toList ++ ',' :: d.toList)) := by
  have hcomma : ",".toList = [','] := by decide
  simp [String.toList_append, hcomma]

theorem joined_inj {a b c d a' b' c' d' : String} (ha : ',' ∉ a.toList) (hb : ',' ∉ b.toList) (hc : ',' ∉ c.toList)
    (hd : ',' ∉ d.toList)
    (h : a ++ "," ++ b ++ "," ++ c ++ "," ++ d = a' ++ "," ++ b' ++ "," ++ c' ++ "," ++ d') :
    a = a' ∧ b = b' ∧ c = c' ∧ d = d' := by
  have hlist := congrArg String.toList h
  rw [toList_joined, toList_joined] at hlist
  -- the other side has the three commas between its parts, and no more than this one
  have hcount := congrArg (List.count ',') hlist
  simp only [List.count_append, List.count_cons_self, List.count_eq_zero_of_not_mem ha, List.count_eq_zero_of_not_mem hb,
    List.count_eq_zero_of_not_mem hc, List.count_eq_zero_of_not_mem hd] at hcount
  have ha' : ',' ∉ a'.toList := List.count_eq_zero.1 (by omega)
  have hb' : ',' ∉ b'.toList := List.count_eq_zero.1 (by omega)
  have hc' : ',' ∉ c'.toList := List.count_eq_zero.1 (by omega)
  have hd' : ',' ∉ d'.toList := List.count_eq_zero.1 (by omega)
  have hsplit := congrArg (List.splitOn ',') hlist
  simpa only [List.splitOn_append_cons_self, List.splitOn_eq_singleton ha, List.splitOn_eq_singleton hb,
    List.splitOn_eq_singleton hc, List.splitOn_eq_singleton hd, List.splitOn_eq_singleton ha',
    List.splitOn_eq_singleton hb', List.splitOn_eq_singleton hc', List.splitOn_eq_singleton hd', List.singleton_append,
    List.cons.injEq, String.toList_inj, and_true] using hsplit

theorem exists_comma_split {s : String} (h : ',' ∈ s.toList) : ∃ a b, s = a ++ "," ++ b := by
  obtain ⟨as, bs, hs, -⟩ := List.eq_append_cons_of_mem h
  refine ⟨String.ofList as, String.ofList bs, String.toList_inj.1 ?_⟩
  have hcomma : ",".toList = [','] := by decide
  simp [hs, String.toList_append, hcomma]

theorem left_ne_joined (a b : String) : a ≠ a ++ "," ++ b := by
  intro h
  have hlen := congrArg String.length h
  simp only [String.length_append, show ",".length = 1 by decide] at hlen
  omega

theorem right_ne_joined (a b : String) : b ≠ a ++ "," ++ b := by
  intro h
  have hlen := congrArg String.length h
  simp only [String.length_append, show ",".length = 1 by decide] at hlen
  omega

/-- A comma in one part can be moved to the part next to it. -/
theorem comma_notMem_of_identified (hdomain : claims.azp.or claims.aud = some domain)
    (h : ∀ other, other.uniqueString = claims.uniqueString → claims.SameUser other) :
    ',' ∉ domain.toList ∧ ',' ∉ claims.iss.toList ∧ ',' ∉ claims.sub.toList ∧
      ∀ salt, claims.salt = some salt → ',' ∉ salt.toList := by
  refine ⟨fun hmem => ?_, fun hmem => ?_, fun hmem => ?_, fun salt hsalt hmem => ?_⟩ <;>
    obtain ⟨a, b, heq⟩ := exists_comma_split hmem
  · have hsame := h { claims with azp := some a, iss := b ++ "," ++ claims.iss }
      (uniqueString_eq_of_joined hdomain rfl (by simp only [heq, String.append_assoc]))
    have hdomain' := hsame.1
    rw [hdomain, heq] at hdomain'
    exact left_ne_joined a b (Option.some.inj hdomain').symm
  · have hsame := h { claims with azp := some (domain ++ "," ++ a), iss := b }
      (uniqueString_eq_of_joined hdomain rfl (by simp only [heq, String.append_assoc]))
    exact right_ne_joined a b (heq ▸ hsame.2.1.symm)
  · have hsame := h { claims with iss := claims.iss ++ "," ++ a, sub := b }
      (uniqueString_eq_of_joined hdomain hdomain (by simp only [heq, String.append_assoc]))
    exact right_ne_joined a b (heq ▸ hsame.2.2.1.symm)
  · have hsame := h { claims with sub := claims.sub ++ "," ++ a, salt := some b }
      (uniqueString_eq_of_joined hdomain hdomain (by simp only [hsalt, heq, Option.getD_some, String.append_assoc]))
    have hsalt' := hsame.2.2.2
    rw [hsalt, heq] at hsalt'
    exact right_ne_joined a b (Option.some.inj hsalt').symm

/-- A missing salt is taken for the default. -/
theorem salt_of_identified (hdomain : claims.azp.or claims.aud = some domain)
    (h : ∀ other, other.uniqueString = claims.uniqueString → claims.SameUser other) :
    ∃ salt, claims.salt = some salt ∧ salt ≠ "human-default-salt" := by
  have hsame : ∀ salt', salt'.getD "human-default-salt" = claims.salt.getD "human-default-salt" →
      claims.salt = salt' := by
    intro salt' heq
    refine (h { claims with salt := salt' } (uniqueString_eq_of_joined hdomain hdomain ?_)).2.2.2
    simp only [heq]
  cases hsalt : claims.salt with
  | none => simpa [hsalt] using hsame (some "human-default-salt") (by simp [hsalt])
  | some salt =>
    refine ⟨salt, rfl, ?_⟩
    rintro rfl
    simpa [hsalt] using hsame none (by simp [hsalt])

theorem SameUser.uniqueString_eq (h : claims.SameUser other) : claims.uniqueString = other.uniqueString := by
  obtain ⟨hdomain, hiss, hsub, hsalt⟩ := h
  simp only [uniqueString, hdomain, hiss, hsub, hsalt]

theorem Unambiguous.sameUser (h : claims.Unambiguous) (hunique : claims.uniqueString = .ok unique)
    (hother : other.uniqueString = .ok unique) : claims.SameUser other := by
  obtain ⟨domain, hdomain, rfl⟩ := uniqueString_eq_ok.1 hunique
  obtain ⟨domain', hdomain', heq⟩ := uniqueString_eq_ok.1 hother
  obtain ⟨salt, hsalt, hcomma, hdefault⟩ := h.salt
  rw [hsalt, Option.getD_some] at heq
  obtain ⟨rfl, hiss, hsub, hsalt'⟩ := joined_inj (h.domain domain hdomain) h.iss h.sub hcomma heq.symm
  refine ⟨hdomain.trans hdomain'.symm, hiss, hsub, ?_⟩
  cases hs : other.salt with
  | none => exact absurd (by rwa [hs] at hsalt') hdefault
  | some salt' => rw [hsalt, hsalt', hs, Option.getD_some]

/-- The string of a token stands for its domain, issuer, subject and salt against every other token exactly if no part
of it has a comma and it has a salt other than the default. -/
theorem uniqueString_identifies_iff (claims : JWTClaims) (unique : String) (hunique : claims.uniqueString = .ok unique) :
    (∀ (other : JWTClaims) (otherUnique : String), other.uniqueString = .ok otherUnique →
      (unique = otherUnique ↔ claims.SameUser other)) ↔ claims.Unambiguous := by
  constructor
  · intro h
    obtain ⟨domain, hdomain, -⟩ := uniqueString_eq_ok.1 hunique
    have hsame : ∀ other, other.uniqueString = claims.uniqueString → claims.SameUser other :=
      fun other heq => (h other unique (heq.trans hunique)).1 rfl
    obtain ⟨hd, hiss, hsub, hcomma⟩ := comma_notMem_of_identified hdomain hsame
    obtain ⟨salt, hsalt, hdefault⟩ := salt_of_identified hdomain hsame
    refine ⟨fun domain' hmem => ?_, hiss, hsub, salt, hsalt, hcomma salt hsalt, hdefault⟩
    rwa [← Option.some.inj (hdomain.symm.trans hmem)]
  · intro h other otherUnique hother
    constructor
    · rintro rfl
      exact h.sameUser hunique hother
    · intro hsame
      exact Except.ok.inj (hunique.symm.trans (hsame.uniqueString_eq.trans hother))

def loginClaims (domain iss sub : String) (salt : Option String) : JWTClaims where
  iss := iss
  aud := none
  azp := some domain
  sub := sub
  pubmask := ""
  salt := salt
  fromEnclave := none

theorem uniqueString_identifies_salted :
    (loginClaims "site" "issuer" "user" (some "7")).uniqueString = .ok "site,issuer,user,7" ∧
    ∀ (other : JWTClaims) (otherUnique : String), other.uniqueString = .ok otherUnique →
      ("site,issuer,user,7" = otherUnique ↔ (loginClaims "site" "issuer" "user" (some "7")).SameUser other) :=
  ⟨by decide, (uniqueString_identifies_iff (loginClaims "site" "issuer" "user" (some "7")) _ (by decide)).2
    ⟨by decide, by decide, by decide, "7", by decide, by decide, by decide⟩⟩

/-- One string for two sites, issuers and users, and one for no salt and the default as the salt. -/
theorem uniqueString_ambiguous :
    ((loginClaims "site" "issuer,mallory" "user" none).uniqueString =
        (loginClaims "site,issuer" "mallory" "user" none).uniqueString ∧
      ¬ (loginClaims "site" "issuer,mallory" "user" none).SameUser (loginClaims "site,issuer" "mallory" "user" none)) ∧
    ((loginClaims "site" "issuer" "user" none).uniqueString =
        (loginClaims "site" "issuer" "user" (some "human-default-salt")).uniqueString ∧
      ¬ (loginClaims "site" "issuer" "user" none).SameUser
        (loginClaims "site" "issuer" "user" (some "human-default-salt"))) := by
  decide

end JWTClaims

end HumanNetwork
