import HumanNetwork.Relay

/-!
# Tokens of web logins (`jwt.rs`, `zkinjmask.rs`)

A user proves a web login with a JSON web token `header.payload.signature`. From its claims come the string
that is fed into the PRF, `JWTClaims.uniqueString`, and the public mask of the user's proof. There are two
ways to be accepted by `verifyJwt`. The token of an issuer carries an RS256 signature of `header.payload`
under a key that the issuer publishes. The token of the enclave, recognised by its own claim, carries an
Ethereum signature of the unique string.

Base64, JSON, the signature schemes and the checks of `jsonwebtoken` on expiry and audience are parameters
(`JwtLib`), and so is what comes from the network (`Web`) and from Redis.
-/

namespace HumanNetwork
open Outcome

abbrev Address := Bytes

def asBytes (s : String) : Bytes := s.toByteArray.data.toList

theorem asBytes_injective : Function.Injective asBytes := by
  intro s s' h
  have h' : s.toByteArray.data = s'.toByteArray.data := Array.toList_inj.1 h
  exact String.toByteArray_inj.1 (ByteArray.ext h')

/-! ### JSON -/

/-- `serde_json::Value`, a number as its text. -/
inductive Value where
  | null
  | bool (b : Bool)
  | number (text : String)
  | string (s : String)
  | array (items : List Value)
  | object (fields : List (String × Value))

namespace Value

def get : Value → String → Option Value
  | object fields, key => fields.lookup key
  | _, _ => none

def asStr : Value → Option String
  | string s => some s
  | _ => none

def asBool : Value → Option Bool
  | bool b => some b
  | _ => none

def asArray : Value → Option (List Value)
  | array items => some items
  | _ => none

end Value

/-! ### Claims -/

structure JWTClaims where
  iss : String
  aud : Option String
  azp : Option String
  sub : String
  pubmask : String
  salt : Option String
  fromEnclave : Option Bool
deriving DecidableEq, Repr

/-- The libraries that token verification calls. -/
structure JwtLib where
  base64UrlSafeNoPad : String → Outcome String Bytes
  base64StandardNoPad : String → Outcome String Bytes
  /-- `serde_json::from_slice`, and `from_str` on the bytes of the string. -/
  fromSlice : Bytes → Outcome String Value
  /-- The derived `Deserialize` of the claims. -/
  deserializeClaims : Bytes → Outcome String JWTClaims
  DecodingKey : Type
  fromRsaComponents : String → String → Outcome String DecodingKey
  /-- The header names the algorithm that is asked for. -/
  checkAlgorithm : Bytes → Outcome String Unit
  /-- RS256 under a key: the message, then the signature. -/
  verifyRs256 : DecodingKey → Bytes → Bytes → Bool
  /-- Expiry and audience, at a time. -/
  validate : ℕ → Bytes → Outcome String Unit
  /-- `Signature::try_from` and `recover`: the signature, then the message. -/
  recover : Bytes → Bytes → Outcome String Address
  /-- The address in the environment variable or the constant, parsed. -/
  enclaveSignerAddress : Outcome String Address

def splitDots (token : String) : List String := (token.toList.splitOn '.').map String.ofList

namespace JWTClaims

def requiredStr (claims : Value) (key : String) : Outcome String String := do
  let v ← okOr (claims.get key) "JWT claim missing"
  okOr v.asStr "JWT claim missing"

def optionalStr (claims : Value) (key : String) : Option String := (claims.get key).bind Value.asStr

def fromValue (claims : Value) : Outcome String JWTClaims := do
  let iss ← requiredStr claims "iss"
  let aud := optionalStr claims "aud"
  let azp := optionalStr claims "azp"
  let sub ← requiredStr claims "sub"
  let pubmask ← requiredStr claims "pubmask"
  let salt := optionalStr claims "salt"
  let fromEnclave := (claims.get "from_enclave").map fun v => v.asBool.getD false
  return { iss, aud, azp, sub, pubmask, salt, fromEnclave }

def ofPayload (lib : JwtLib) (payload : String) : Outcome String JWTClaims := do
  let claims ← lib.base64UrlSafeNoPad payload
  let claims ← lib.fromSlice claims
  fromValue claims

def fromRawTokenUnchecked (lib : JwtLib) (token : String) : Outcome String JWTClaims :=
  match splitDots token with
  | [_, payload, _] => ofPayload lib payload
  | _ => fail "Invalid JWT format"

def uniqueString (self : JWTClaims) : Outcome String String := do
  let loginAtDomain ← okOr (self.azp.or self.aud) "JWT must include azp or aud"
  return loginAtDomain ++ "," ++ self.iss ++ "," ++ self.sub ++ "," ++ self.salt.getD "human-default-salt"

def isFromEnclave (self : JWTClaims) : Bool := self.fromEnclave.getD false

end JWTClaims

/-! ### Verification -/

structure Web where
  fetchJwk : String → Outcome String Value
  now : ℕ

abbrev RedisGet := String → Outcome String String

def getJwk (lib : JwtLib) (web : Web) (issuer : String) (connection : Option RedisGet) : Outcome String Value :=
  match connection with
  | some c => do
    let cached ← c ("jwk:issuer:" ++ issuer)
    lib.fromSlice (asBytes cached)
  | none => web.fetchJwk (issuer ++ "/.well-known/jwks.json")

def signingInput (header payload : String) : Bytes := asBytes (header ++ "." ++ payload)

/-- `jsonwebtoken::decode`, here called on tokens of three parts only. -/
def decodeJwt (lib : JwtLib) (now : ℕ) (jwt : String) (key : lib.DecodingKey) : Outcome String JWTClaims :=
  match splitDots jwt with
  | [header, payload, signature] => do
    lib.checkAlgorithm (← lib.base64UrlSafeNoPad header)
    let signature ← lib.base64UrlSafeNoPad signature
    ensure (lib.verifyRs256 key (signingInput header payload) signature) "InvalidSignature"
    let claims ← lib.base64UrlSafeNoPad payload
    let decoded ← lib.deserializeClaims claims
    lib.validate now claims
    return decoded
  | _ => fail "InvalidToken"

/-- The `Display` of an address, which leaves out its middle. -/
def Address.display (a : Address) : String := "0x" ++ hexEncode (a.take 2) ++ "…" ++ hexEncode (a.drop 18)

def verifyEnclaveJwt (lib : JwtLib) (jwt : String) : Outcome String Unit := do
  let enclaveSignerAddress ← lib.enclaveSignerAddress
  let unvalidated ← JWTClaims.fromRawTokenUnchecked lib jwt
  ensure unvalidated.isFromEnclave "Must be from enclave"
  let sig ← okOr (splitDots jwt)[2]? "JWT lacks signature"
  let sig ← lib.base64StandardNoPad sig
  let recovered ← lib.recover sig (asBytes (← unvalidated.uniqueString))
  ensure (recovered = enclaveSignerAddress)
    ("JWT signature from " ++ recovered.display ++ " does not match enclave signer address: " ++
      enclaveSignerAddress.display)

def jwkComponents (jwk : Value) (keyIdx : ℕ) : Outcome String (String × String) := do
  let keys ← okOr (jwk.get "keys") "JWK lacks 'keys' field"
  let keys ← okOr keys.asArray "JWK 'keys' is not an array"
  let key ← okOr keys[keyIdx]? "JWK key index is out of boudns"
  let modulus ← okOr (key.get "n") "JWK key (assuming RSA) is missing modulus"
  let modulus ← okOr modulus.asStr "key has invalid format"
  let exponent ← okOr (key.get "e") "JWK key (assuming RSA) is missing exponent"
  let exponent ← okOr exponent.asStr "key has invalid format"
  return (modulus, exponent)

def verifyIssuerJwt (lib : JwtLib) (web : Web) (jwt : String) (keyIdx : ℕ) (jwkCache : Option RedisGet)
    (unvalidated : JWTClaims) : Outcome String (String × String) := do
  let jwk ← getJwk lib web unvalidated.iss jwkCache
  let (modulus, exponent) ← jwkComponents jwk keyIdx
  let key ← lib.fromRsaComponents modulus exponent
  let claims ← decodeJwt lib web.now jwt key
  ensure (claims.iss = unvalidated.iss) "Issuer in the JWT does not match the issuer whose key was fetched"
  return (← claims.uniqueString, claims.pubmask)

def verifyJwt (lib : JwtLib) (web : Web) (jwt : String) (keyIdx : ℕ) (jwkCache : Option RedisGet) :
    Outcome String (String × String) := do
  let unvalidated ← JWTClaims.fromRawTokenUnchecked lib jwt
  if unvalidated.isFromEnclave then
    verifyEnclaveJwt lib jwt
    return (← unvalidated.uniqueString, unvalidated.pubmask)
  else verifyIssuerJwt lib web jwt keyIdx jwkCache unvalidated

/-! ### What the verified signature covers -/

structure SignedBytes where
  signature : Bytes
  message : Bytes
deriving DecidableEq

/-- The signature of a token that `verifyJwt` checks, and the bytes it checks it against. -/
def checkedSignature (lib : JwtLib) (jwt : String) : Outcome String SignedBytes :=
  match splitDots jwt with
  | [header, payload, signature] => do
    let unvalidated ← JWTClaims.ofPayload lib payload
    if unvalidated.isFromEnclave then
      return ⟨← lib.base64StandardNoPad signature, asBytes (← unvalidated.uniqueString)⟩
    else return ⟨← lib.base64UrlSafeNoPad signature, signingInput header payload⟩
  | _ => fail "Invalid JWT format"

def claimsEnclave (lib : JwtLib) (jwt : String) : Bool :=
  match JWTClaims.fromRawTokenUnchecked lib jwt with
  | .ok claims => claims.isFromEnclave
  | .error _ => false

variable {lib : JwtLib} {web : Web} {jwt header payload signature : String} {keyIdx : ℕ} {cache : Option RedisGet}
  {unique mask : String} {unvalidated : JWTClaims} {result : String × String}

theorem notMem_of_mem_splitOn {α : Type*} [DecidableEq α] {a : α} {xs l : List α} (h : l ∈ xs.splitOn a) : a ∉ l := by
  induction hn : xs.length using Nat.strong_induction_on generalizing xs with
  | _ n ih =>
    by_cases ha : a ∈ xs
    · obtain ⟨as, bs, rfl, has⟩ := List.eq_append_cons_of_mem ha
      rw [List.splitOn_append_cons_self, List.splitOn_eq_singleton has] at h
      rcases List.mem_append.1 h with h | h
      · rwa [List.mem_singleton.1 h]
      · exact ih bs.length (by simp at hn; omega) h rfl
    · rw [List.splitOn_eq_singleton ha, List.mem_singleton] at h
      rwa [h]

theorem notMem_of_mem_splitDots (h : header ∈ splitDots jwt) : '.' ∉ header.toList := by
  obtain ⟨l, hl, rfl⟩ := List.mem_map.1 h
  rw [String.toList_ofList]
  exact notMem_of_mem_splitOn hl

theorem signingInput_inj {header' payload' : String} (hh : '.' ∉ header.toList) (hp : '.' ∉ payload.toList)
    (hh' : '.' ∉ header'.toList) (hp' : '.' ∉ payload'.toList)
    (h : signingInput header payload = signingInput header' payload') : header = header' ∧ payload = payload' := by
  have hdot : ".".toList = ['.'] := by decide
  have hlist := congrArg (fun s => s.toList.splitOn '.') (asBytes_injective h)
  simp only [String.toList_append, hdot, List.append_assoc, List.singleton_append, List.splitOn_append_cons_self,
    List.splitOn_eq_singleton hh, List.splitOn_eq_singleton hp, List.splitOn_eq_singleton hh',
    List.splitOn_eq_singleton hp', List.cons.injEq, String.toList_inj, and_true] at hlist
  exact hlist

theorem splitDots_parts (hh : '.' ∉ header.toList) (hp : '.' ∉ payload.toList) (hs : '.' ∉ signature.toList) :
    splitDots (header ++ "." ++ payload ++ "." ++ signature) = [header, payload, signature] := by
  have hdot : ".".toList = ['.'] := by decide
  have hlist : (header ++ "." ++ payload ++ "." ++ signature).toList =
      header.toList ++ '.' :: (payload.toList ++ '.' :: signature.toList) := by
    simp [String.toList_append, hdot]
  rw [splitDots, hlist, List.splitOn_append_cons_self, List.splitOn_append_cons_self,
    List.splitOn_eq_singleton hh, List.splitOn_eq_singleton hp, List.splitOn_eq_singleton hs]
  simp

theorem fromRawTokenUnchecked_eq_ok (h : JWTClaims.fromRawTokenUnchecked lib jwt = .ok unvalidated) :
    ∃ header payload signature, splitDots jwt = [header, payload, signature] ∧
      JWTClaims.ofPayload lib payload = .ok unvalidated := by
  unfold JWTClaims.fromRawTokenUnchecked at h
  split at h
  next header payload signature hparts => exact ⟨header, payload, signature, hparts, h⟩
  next => cases h

theorem fromRawTokenUnchecked_of_parts (hparts : splitDots jwt = [header, payload, signature]) :
    JWTClaims.fromRawTokenUnchecked lib jwt = JWTClaims.ofPayload lib payload := by
  simp only [JWTClaims.fromRawTokenUnchecked, hparts]

theorem comma_mem_uniqueString (h : unvalidated.uniqueString = .ok unique) : ',' ∈ unique.toList := by
  simp only [JWTClaims.uniqueString, bind_eq_ok, pure_eq_ok, Except.ok.injEq] at h
  obtain ⟨domain, -, rfl⟩ := h
  have hcomma : ",".toList = [','] := by decide
  simp [String.toList_append, hcomma]

theorem verifyEnclaveJwt_iff (hparts : splitDots jwt = [header, payload, signature])
    (hclaims : JWTClaims.ofPayload lib payload = .ok unvalidated) (henclave : unvalidated.isFromEnclave) {u : Unit} :
    verifyEnclaveJwt lib jwt = .ok u ↔ ∃ sig unique signer, lib.base64StandardNoPad signature = .ok sig ∧
      unvalidated.uniqueString = .ok unique ∧ lib.enclaveSignerAddress = .ok signer ∧
      lib.recover sig (asBytes unique) = .ok signer := by
  simp only [verifyEnclaveJwt, bind_eq_ok, fromRawTokenUnchecked_of_parts hparts, hclaims, hparts, bind_ok,
    ensure_eq_ok, okOr_eq_ok]
  constructor
  · rintro ⟨signer, hsigner, -, -, _, hthird, sig, hsig, unique, hunique, _, hrecover, rfl⟩
    obtain rfl := Option.some.inj hthird
    exact ⟨sig, unique, _, hsig, hunique, hsigner, hrecover⟩
  · rintro ⟨sig, unique, signer, hsig, hunique, hsigner, hrecover⟩
    exact ⟨signer, hsigner, (), henclave, signature, rfl, sig, hsig, unique, hunique, signer, hrecover, rfl⟩

theorem decodeJwt_eq_ok {now : ℕ} {key : lib.DecodingKey} {claims : JWTClaims}
    (hparts : splitDots jwt = [header, payload, signature]) (h : decodeJwt lib now jwt key = .ok claims) :
    ∃ headerBytes sig payloadBytes, lib.base64UrlSafeNoPad header = .ok headerBytes ∧
      lib.base64UrlSafeNoPad signature = .ok sig ∧ lib.base64UrlSafeNoPad payload = .ok payloadBytes ∧
      lib.deserializeClaims payloadBytes = .ok claims := by
  simp only [decodeJwt, hparts, bind_eq_ok, pure_eq_ok, Except.ok.injEq] at h
  obtain ⟨headerBytes, hheader, -, -, sig, hsig, -, -, payloadBytes, hpayload, _, hclaims, -, -, rfl⟩ := h
  exact ⟨headerBytes, sig, payloadBytes, hheader, hsig, hpayload, hclaims⟩

theorem verifyJwt_eq_ok (h : verifyJwt lib web jwt keyIdx cache = .ok (unique, mask)) :
    ∃ header payload signature unvalidated sig, splitDots jwt = [header, payload, signature] ∧
      JWTClaims.ofPayload lib payload = .ok unvalidated ∧
      ((unvalidated.isFromEnclave ∧ lib.base64StandardNoPad signature = .ok sig ∧
          checkedSignature lib jwt = .ok ⟨sig, asBytes unique⟩ ∧ unvalidated.uniqueString = .ok unique ∧
          mask = unvalidated.pubmask) ∨
        (¬ unvalidated.isFromEnclave ∧ checkedSignature lib jwt = .ok ⟨sig, signingInput header payload⟩ ∧
          ∃ headerBytes payloadBytes claims, lib.base64UrlSafeNoPad header = .ok headerBytes ∧
            lib.base64UrlSafeNoPad payload = .ok payloadBytes ∧ lib.deserializeClaims payloadBytes = .ok claims ∧
            claims.uniqueString = .ok unique ∧ mask = claims.pubmask)) := by
  obtain ⟨unvalidated, hraw, h⟩ := bind_eq_ok.1 h
  obtain ⟨header, payload, signature, hparts, hclaims⟩ := fromRawTokenUnchecked_eq_ok hraw
  by_cases henclave : unvalidated.isFromEnclave
  · rw [if_pos henclave] at h
    simp only [bind_eq_ok, pure_eq_ok, Except.ok.injEq, Prod.mk.injEq,
      verifyEnclaveJwt_iff hparts hclaims henclave] at h
    obtain ⟨-, ⟨sig, unique', signer, hsig, hunique', -, -⟩, _, hunique, rfl, rfl⟩ := h
    refine ⟨header, payload, signature, unvalidated, sig, hparts, hclaims,
      .inl ⟨henclave, hsig, ?_, hunique, rfl⟩⟩
    simp only [checkedSignature, hparts, hclaims, bind_ok, if_pos henclave, hsig, hunique, pure_eq_ok]
  · rw [if_neg henclave] at h
    simp only [verifyIssuerJwt, bind_eq_ok, pure_eq_ok, Except.ok.injEq, Prod.mk.injEq, ensure_eq_ok] at h
    obtain ⟨_, -, _, -, _, -, claims, hdecode, -, -, _, hunique, rfl, rfl⟩ := h
    obtain ⟨headerBytes, sig, payloadBytes, hheader, hsig, hpayload, hdeser⟩ := decodeJwt_eq_ok hparts hdecode
    refine ⟨header, payload, signature, unvalidated, sig, hparts, hclaims,
      .inr ⟨henclave, ?_, headerBytes, payloadBytes, claims, hheader, hpayload, hdeser, hunique, rfl⟩⟩
    simp only [checkedSignature, hparts, hclaims, bind_ok, if_neg henclave, hsig, pure_eq_ok]

/-- The claims of the token can be written into a payload with another public mask: what Base64 and JSON
promise for every set of claims. -/
def Remaskable (lib : JwtLib) (jwt : String) : Prop :=
  ∀ claims, JWTClaims.fromRawTokenUnchecked lib jwt = .ok claims → ∃ payload mask, '.' ∉ payload.toList ∧
    mask ≠ claims.pubmask ∧ JWTClaims.ofPayload lib payload = .ok { claims with pubmask := mask }

theorem claimsEnclave_eq (hparts : splitDots jwt = [header, payload, signature])
    (hclaims : JWTClaims.ofPayload lib payload = .ok unvalidated) : claimsEnclave lib jwt = unvalidated.isFromEnclave := by
  rw [claimsEnclave, fromRawTokenUnchecked_of_parts hparts, hclaims]

theorem exists_remasked (h : verifyJwt lib web jwt keyIdx cache = .ok (unique, mask)) (henclave : claimsEnclave lib jwt)
    (hre : Remaskable lib jwt) : ∃ jwt' mask', mask' ≠ mask ∧ checkedSignature lib jwt' = checkedSignature lib jwt ∧
      verifyJwt lib web jwt' keyIdx cache = .ok (unique, mask') := by
  obtain ⟨header, payload, signature, unvalidated, sig, hparts, hclaims, hcase⟩ := verifyJwt_eq_ok h
  rw [claimsEnclave_eq hparts hclaims] at henclave
  rcases hcase with ⟨-, hsig, hchecked, hunique, rfl⟩ | ⟨hnot, -⟩
  · obtain ⟨payload', mask', hdot, hne, hclaims'⟩ :=
      hre unvalidated (by rw [fromRawTokenUnchecked_of_parts hparts, hclaims])
    have hfree : ∀ part ∈ [header, payload, signature], '.' ∉ part.toList := fun part hpart =>
      notMem_of_mem_splitDots (hparts ▸ hpart)
    have hparts' := splitDots_parts (hfree header (by simp)) hdot (hfree signature (by simp))
    have henclave' : ({ unvalidated with pubmask := mask' } : JWTClaims).isFromEnclave := henclave
    have hunique' : ({ unvalidated with pubmask := mask' } : JWTClaims).uniqueString = .ok unique := hunique
    -- the enclave's signature is checked against the unique string, which the mask is no part of
    have hverify : verifyEnclaveJwt lib jwt = .ok () := by
      simp only [verifyJwt, fromRawTokenUnchecked_of_parts hparts, hclaims, bind_ok, if_pos henclave, bind_eq_ok] at h
      exact h.choose_spec.1
    rw [verifyEnclaveJwt_iff hparts hclaims henclave] at hverify
    have hverify' : verifyEnclaveJwt lib (header ++ "." ++ payload' ++ "." ++ signature) = .ok () :=
      (verifyEnclaveJwt_iff hparts' hclaims' henclave').2 hverify
    refine ⟨header ++ "." ++ payload' ++ "." ++ signature, mask', hne, ?_, ?_⟩
    · rw [hchecked]
      simp only [checkedSignature, hparts', hclaims', bind_ok, if_pos henclave', hsig, hunique', pure_eq_ok]
    · simp only [verifyJwt, fromRawTokenUnchecked_of_parts hparts', hclaims', bind_ok, if_pos henclave', hverify',
        hunique', pure_eq_ok]
  · exact absurd henclave hnot

/-- The string and the mask of an issuer's token are read from what its signature covers. -/
theorem verifyJwt_issuer_covered (hbase64 : ∀ s bytes, lib.base64UrlSafeNoPad s = .ok bytes → ',' ∉ s.toList)
    {web' : Web} {jwt' : String} {keyIdx' : ℕ} {cache' : Option RedisGet} {unique' mask' : String}
    (hok : verifyJwt lib web jwt keyIdx cache = .ok (unique, mask)) (henclave : claimsEnclave lib jwt = false)
    (hok' : verifyJwt lib web' jwt' keyIdx' cache' = .ok (unique', mask'))
    (hsame : checkedSignature lib jwt' = checkedSignature lib jwt) : unique' = unique ∧ mask' = mask := by
  obtain ⟨header, payload, signature, unvalidated, sig, hparts, hclaims, hcase⟩ := verifyJwt_eq_ok hok
  obtain ⟨header', payload', signature', unvalidated', sig', hparts', hclaims', hcase'⟩ := verifyJwt_eq_ok hok'
  rw [claimsEnclave_eq hparts hclaims] at henclave
  rcases hcase with ⟨h, -⟩ | ⟨-, hchecked, headerBytes, payloadBytes, claims, hheader, hpayload, hdeser, hunique, rfl⟩
  · rw [henclave] at h; cases h
  rcases hcase' with ⟨-, -, hchecked', hunique', -⟩ |
    ⟨-, hchecked', headerBytes', payloadBytes', claims', hheader', hpayload', hdeser', hunique', rfl⟩
  · -- an issuer signs no comma, and a unique string has one
    rw [hchecked, hchecked'] at hsame
    have hbytes := asBytes_injective (congrArg SignedBytes.message (Except.ok.inj hsame))
    have hcomma := comma_mem_uniqueString hunique'
    have hdot : ".".toList = ['.'] := by decide
    rw [hbytes] at hcomma
    simp [String.toList_append, hdot, hbase64 _ _ hheader, hbase64 _ _ hpayload] at hcomma
  · -- both are read from the payload that was signed
    have hfree : ∀ part ∈ splitDots jwt, '.' ∉ part.toList := fun part => notMem_of_mem_splitDots
    have hfree' : ∀ part ∈ splitDots jwt', '.' ∉ part.toList := fun part => notMem_of_mem_splitDots
    rw [hparts] at hfree
    rw [hparts'] at hfree'
    rw [hchecked, hchecked'] at hsame
    obtain ⟨-, rfl⟩ := signingInput_inj (hfree' header' (by simp)) (hfree' payload' (by simp))
      (hfree header (by simp)) (hfree payload (by simp)) (congrArg SignedBytes.message (Except.ok.inj hsame))
    rw [hpayload] at hpayload'
    obtain rfl := Except.ok.inj hpayload'
    rw [hdeser] at hdeser'
    obtain rfl := Except.ok.inj hdeser'
    rw [hunique] at hunique'
    exact ⟨(Except.ok.inj hunique').symm, rfl⟩

/-- The string and the mask of an accepted token are fixed by the bytes that the verified signature covers
exactly if the token does not claim to come from the enclave. -/
theorem verifyJwt_covered_iff (lib : JwtLib)
    (hbase64 : ∀ s bytes, lib.base64UrlSafeNoPad s = .ok bytes → ',' ∉ s.toList)
    (web : Web) (jwt : String) (keyIdx : ℕ) (cache : Option RedisGet) (result : String × String)
    (hok : verifyJwt lib web jwt keyIdx cache = .ok result) (hre : Remaskable lib jwt) :
    (∀ web' jwt' keyIdx' cache' result', verifyJwt lib web' jwt' keyIdx' cache' = .ok result' →
        checkedSignature lib jwt' = checkedSignature lib jwt → result' = result) ↔
      claimsEnclave lib jwt = false := by
  obtain ⟨unique, mask⟩ := result
  constructor
  · intro h
    by_contra henclave
    obtain ⟨jwt', mask', hne, hsame, hok'⟩ := exists_remasked hok (by simpa using henclave) hre
    exact hne (congrArg Prod.snd (h web jwt' keyIdx cache _ hok' hsame))
  · rintro henclave web' jwt' keyIdx' cache' ⟨unique', mask'⟩ hok' hsame
    obtain ⟨hu, hm⟩ := verifyJwt_issuer_covered hbase64 hok henclave hok' hsame
    rw [hu, hm]

/-! ### A token of the enclave -/

/-- The JSON of an enclave token for user `u` of `i` at the site `a`. -/
def enclaveJson (mask : String) : String :=
  "\x7b\"iss\":\"i\",\"azp\":\"a\",\"sub\":\"u\",\"pubmask\":\"" ++ mask ++ "\",\"from_enclave\":true\x7d"

def enclaveMask (tag : String) : String := tag ++ "0000000000000000000000000000000000000000000000000000000000000001"

/-- The payload with the mask of the tag `02` if `I` is put in, and `03` with `M`. -/
def enclavePayload (letter : String) : String :=
  "eyJpc3MiOiJpIiwiYXpwIjoiYSIsInN1YiI6InUiLCJwdWJtYXNrIjoiMD" ++ letter ++
    "wMDAwMDAwMDAwMDAwMDAwMDAwMDAwMDAwMDAwMDAwMDAwMDAwMDAwMDAwMDAwMDAwMDAwMDAwMDAwMDAwMDAxIiwiZnJvbV9lbmNsYXZlIjp0cnVlfQ"

def enclaveSignature : Bytes :=
  [198, 4, 127, 148, 65, 237, 125, 109, 48, 69, 64, 110, 149, 192, 124, 216, 92, 119, 142, 75, 140, 239, 60, 167,
   171, 172, 9, 185, 92, 112, 158, 229, 67, 243, 54, 40, 218, 198, 209, 92, 220, 50, 82, 117, 234, 241, 65, 158,
   162, 23, 234, 199, 185, 159, 78, 147, 192, 126, 28, 210, 187, 241, 29, 96, 28]

def enclaveSignatureText : String :=
  "xgR/lEHtfW0wRUBulcB82Fx3jkuM7zynq6wJuVxwnuVD8zYo2sbRXNwyUnXq8UGeohfqx7mfTpPAfhzSu/EdYBw"

def enclaveAddress : Address :=
  [0x7e, 0x5f, 0x45, 0x52, 0x09, 0x1a, 0x69, 0x12, 0x5d, 0x5d, 0xfc, 0xb7, 0xb8, 0xc2, 0x65, 0x90, 0x29, 0x39, 0x5b, 0xdf]

def enclaveValue (mask : String) : Value :=
  .object [("iss", .string "i"), ("azp", .string "a"), ("sub", .string "u"), ("pubmask", .string mask),
    ("from_enclave", .bool true)]

def enclaveLib : JwtLib where
  base64UrlSafeNoPad s :=
    if s = enclavePayload "I" then .ok (asBytes (enclaveJson (enclaveMask "02")))
    else if s = enclavePayload "M" then .ok (asBytes (enclaveJson (enclaveMask "03")))
    else fail "Invalid symbol"
  base64StandardNoPad s := if s = enclaveSignatureText then .ok enclaveSignature else fail "Invalid symbol"
  fromSlice bytes :=
    if bytes = asBytes (enclaveJson (enclaveMask "02")) then .ok (enclaveValue (enclaveMask "02"))
    else if bytes = asBytes (enclaveJson (enclaveMask "03")) then .ok (enclaveValue (enclaveMask "03"))
    else fail "expected value"
  deserializeClaims _ := fail "missing field"
  DecodingKey := Unit
  fromRsaComponents _ _ := .ok ()
  checkAlgorithm _ := fail "InvalidAlgorithm"
  verifyRs256 _ _ _ := false
  validate _ _ := fail "ExpiredSignature"
  recover sig message :=
    if sig = enclaveSignature ∧ message = asBytes "a,i,u,human-default-salt" then .ok enclaveAddress
    else fail "signature error"
  enclaveSignerAddress := .ok enclaveAddress

def enclaveToken (letter : String) : String :=
  "eyJhbGciOiJFUzI1NksifQ" ++ "." ++ enclavePayload letter ++ "." ++ enclaveSignatureText

def offline : Web := ⟨fun _ => fail "error sending request", 0⟩

def enclaveClaims (mask : String) : JWTClaims := ⟨"i", none, some "a", "u", mask, none, some true⟩

theorem enclaveJson_injective : Function.Injective enclaveJson := fun _ _ h =>
  (String.append_right_inj _).1 ((String.append_left_inj _).1 h)

theorem enclaveMask_injective : Function.Injective enclaveMask := fun _ _ h => (String.append_left_inj _).1 h

theorem enclavePayload_injective : Function.Injective enclavePayload := fun _ _ h =>
  (String.append_right_inj _).1 ((String.append_left_inj _).1 h)

theorem ofPayload_enclavePayload_I :
    JWTClaims.ofPayload enclaveLib (enclavePayload "I") = .ok (enclaveClaims (enclaveMask "02")) := by
  simp only [JWTClaims.ofPayload, enclaveLib, if_true, bind_ok]
  rfl

theorem ofPayload_enclavePayload_M :
    JWTClaims.ofPayload enclaveLib (enclavePayload "M") = .ok (enclaveClaims (enclaveMask "03")) := by
  have hpayload : enclavePayload "M" ≠ enclavePayload "I" := enclavePayload_injective.ne (by decide)
  have hjson : asBytes (enclaveJson (enclaveMask "03")) ≠ asBytes (enclaveJson (enclaveMask "02")) :=
    asBytes_injective.ne (enclaveJson_injective.ne (enclaveMask_injective.ne (by decide)))
  simp only [JWTClaims.ofPayload, enclaveLib, if_neg hpayload, if_neg hjson, if_true, bind_ok]
  rfl

theorem notMem_append_toList {a b c : String} {ch : Char} (ha : ch ∉ a.toList) (hb : ch ∉ b.toList)
    (hc : ch ∉ c.toList) : ch ∉ (a ++ b ++ c).toList := by
  simp [String.toList_append, ha, hb, hc]

theorem notMem_enclavePayload {letter : String} {ch : Char} (hletter : ch ∉ letter.toList) (hch : ch = '.' ∨ ch = ',') :
    ch ∉ (enclavePayload letter).toList := by
  refine notMem_append_toList ?_ hletter ?_
  · rw [String.toList_ofList]
    rcases hch with rfl | rfl <;> decide
  · rw [String.toList_ofList]
    rcases hch with rfl | rfl <;> decide

theorem splitDots_enclaveToken {letter : String} (h : '.' ∉ letter.toList) :
    splitDots (enclaveToken letter) = ["eyJhbGciOiJFUzI1NksifQ", enclavePayload letter, enclaveSignatureText] :=
  splitDots_parts (by rw [String.toList_ofList]; decide) (notMem_enclavePayload h (.inl rfl))
    (by rw [enclaveSignatureText, String.toList_ofList]; decide)

theorem enclaveToken_accepted {lib : JwtLib} {letter mask : String} (hdot : '.' ∉ letter.toList)
    (hclaims : JWTClaims.ofPayload lib (enclavePayload letter) = .ok (enclaveClaims mask))
    (hsig : lib.base64StandardNoPad enclaveSignatureText = .ok enclaveSignature)
    (hrecover : lib.recover enclaveSignature (asBytes "a,i,u,human-default-salt") = .ok enclaveAddress)
    (hsigner : lib.enclaveSignerAddress = .ok enclaveAddress) :
    checkedSignature lib (enclaveToken letter) = .ok ⟨enclaveSignature, asBytes "a,i,u,human-default-salt"⟩ ∧
      ∀ web keyIdx cache, verifyJwt lib web (enclaveToken letter) keyIdx cache =
        .ok ("a,i,u,human-default-salt", mask) := by
  have hparts := splitDots_enclaveToken hdot
  have henclave : (enclaveClaims mask).isFromEnclave := rfl
  have hunique : (enclaveClaims mask).uniqueString = .ok "a,i,u,human-default-salt" := rfl
  have hverify : verifyEnclaveJwt lib (enclaveToken letter) = .ok () :=
    (verifyEnclaveJwt_iff hparts hclaims henclave).2 ⟨_, _, _, hsig, hunique, hsigner, hrecover⟩
  constructor
  · simp only [checkedSignature, hparts, hclaims, bind_ok, if_pos henclave, hsig, hunique, pure_eq_ok]
  · intro web keyIdx cache
    simp only [verifyJwt, fromRawTokenUnchecked_of_parts hparts, hclaims, bind_ok, if_pos henclave, hverify, hunique,
      pure_eq_ok]
    rfl

theorem enclaveLib_signature : enclaveLib.base64StandardNoPad enclaveSignatureText = .ok enclaveSignature := by
  simp only [enclaveLib, if_true]

theorem enclaveLib_recover :
    enclaveLib.recover enclaveSignature (asBytes "a,i,u,human-default-salt") = .ok enclaveAddress := by
  simp only [enclaveLib, and_self, if_true]

theorem enclaveToken_remaskable : Remaskable enclaveLib (enclaveToken "I") := by
  intro claims h
  rw [fromRawTokenUnchecked_of_parts (splitDots_enclaveToken (by decide)), ofPayload_enclavePayload_I] at h
  obtain rfl := Except.ok.inj h
  exact ⟨enclavePayload "M", enclaveMask "03", notMem_enclavePayload (by decide) (.inl rfl), by decide,
    ofPayload_enclavePayload_M⟩

/-- Both masks are accepted with one signature of the enclave. -/
theorem verifyJwt_two_masks : ¬ ∀ web jwt keyIdx cache result web' jwt' keyIdx' cache' result',
    verifyJwt enclaveLib web jwt keyIdx cache = .ok result → verifyJwt enclaveLib web' jwt' keyIdx' cache' = .ok result' →
      checkedSignature enclaveLib jwt' = checkedSignature enclaveLib jwt → result' = result := by
  intro h
  obtain ⟨hsig, hok⟩ := enclaveToken_accepted (by decide) ofPayload_enclavePayload_I enclaveLib_signature enclaveLib_recover rfl
  obtain ⟨hsig', hok'⟩ := enclaveToken_accepted (by decide) ofPayload_enclavePayload_M enclaveLib_signature enclaveLib_recover rfl
  have heq := h offline _ 0 none _ offline _ 0 none _ (hok _ _ _) (hok' _ _ _) (hsig'.trans hsig.symm)
  exact enclaveMask_injective.ne (by decide) (congrArg Prod.snd heq)

theorem verifyJwt_covered_enclaveToken :
    (∀ web' jwt' keyIdx' cache' result', verifyJwt enclaveLib web' jwt' keyIdx' cache' = .ok result' →
        checkedSignature enclaveLib jwt' = checkedSignature enclaveLib (enclaveToken "I") →
        result' = ("a,i,u,human-default-salt", enclaveMask "02")) ↔
      claimsEnclave enclaveLib (enclaveToken "I") = false := by
  refine verifyJwt_covered_iff enclaveLib ?_ offline _ 0 none _
    ((enclaveToken_accepted (by decide) ofPayload_enclavePayload_I enclaveLib_signature enclaveLib_recover rfl).2 _ _ _)
    enclaveToken_remaskable
  intro s bytes h
  simp only [enclaveLib] at h
  split_ifs at h with h1 h2
  · exact h1 ▸ notMem_enclavePayload (by decide) (.inr rfl)
  · exact h2 ▸ notMem_enclavePayload (by decide) (.inr rfl)
  · cases h

end HumanNetwork
