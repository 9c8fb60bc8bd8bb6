import HumanNetwork.Lib.Bytes
import HumanNetwork.Lib.Pratt
import Mathlib.Data.ZMod.Basic

/-!
# The two curves and the orders of their groups

`CurveId` names the curves of `curve.rs` with the constants of each: its name, the order of its
prime-order (sub)group, which is the modulus of `F256k1` and `BABYJUBJUB`, and the byte length of
an element's representation. `CurveId.order_prime` certifies both orders, and `CurveId.pow_lt_order`
is why a 128-bit node id keeps its value in either scalar field.
-/

namespace HumanNetwork

inductive CurveId where
  | secp256k1
  | babyJubJub
deriving DecidableEq, Repr

namespace CurveId

def name : CurveId → String
  | secp256k1 => "Secp256k1"
  | babyJubJub => "BabyJubJub"

/-- The modulus of `Curve::FieldEl`, the order of the prime-order (sub)group. -/
def order : CurveId → ℕ
  | secp256k1 => 115792089237316195423570985008687907852837564279074904382605163141518161494337
  | babyJubJub => 2736030358979909402780800718157159386076813972158567259200215660948447373041

/-- `Curve::FIELD_MODULUS_BE`. Both implementations hold the same 32 bytes. -/
def fieldModulusBe : CurveId → Bytes
  | secp256k1 =>
    [0xFF, 0xFF, 0xFF, 0xFF, 0xFF, 0xFF, 0xFF, 0xFF, 0xFF, 0xFF, 0xFF, 0xFF, 0xFF, 0xFF, 0xFF, 0xFE,
     0xBA, 0xAE, 0xDC, 0xE6, 0xAF, 0x48, 0xA0, 0x3B, 0xBF, 0xD2, 0x5E, 0x8C, 0xD0, 0x36, 0x41, 0x41]
  | babyJubJub =>
    [0xFF, 0xFF, 0xFF, 0xFF, 0xFF, 0xFF, 0xFF, 0xFF, 0xFF, 0xFF, 0xFF, 0xFF, 0xFF, 0xFF, 0xFF, 0xFE,
     0xBA, 0xAE, 0xDC, 0xE6, 0xAF, 0x48, 0xA0, 0x3B, 0xBF, 0xD2, 0x5E, 0x8C, 0xD0, 0x36, 0x41, 0x41]

/-- The byte length of `FieldEl::to_repr()`: five limbs for `F256k1`, four for `BABYJUBJUB`. -/
def reprLen : CurveId → ℕ
  | secp256k1 => 40
  | babyJubJub => 32

/-! ### Primality of the orders -/

/-- The primes below both orders, each with the factors of its predecessor. -/
def orderCertificate : List Pratt.Step :=
  [⟨2, 1, []⟩, ⟨3, 2, [2]⟩, ⟨5, 2, [2, 2]⟩, ⟨7, 3, [2, 3]⟩, ⟨11, 2, [2, 5]⟩, ⟨13, 2, [2, 2, 3]⟩,
   ⟨17, 3, [2, 2, 2, 2]⟩, ⟨19, 2, [2, 3, 3]⟩, ⟨23, 5, [2, 11]⟩, ⟨29, 2, [2, 2, 7]⟩, ⟨37, 2, [2, 2, 3, 3]⟩,
   ⟨41, 6, [2, 2, 2, 5]⟩, ⟨47, 5, [2, 23]⟩, ⟨53, 2, [2, 2, 13]⟩, ⟨59, 2, [2, 29]⟩, ⟨61, 2, [2, 2, 3, 5]⟩,
   ⟨67, 2, [2, 3, 11]⟩, ⟨73, 5, [2, 2, 2, 3, 3]⟩, ⟨97, 5, [2, 2, 2, 2, 2, 3]⟩, ⟨109, 6, [2, 2, 3, 3, 3]⟩,
   ⟨113, 3, [2, 2, 2, 2, 7]⟩, ⟨139, 2, [2, 3, 23]⟩, ⟨149, 2, [2, 2, 37]⟩, ⟨199, 3, [2, 3, 3, 11]⟩,
   ⟨257, 3, [2, 2, 2, 2, 2, 2, 2, 2]⟩, ⟨293, 2, [2, 2, 73]⟩, ⟨349, 2, [2, 2, 3, 29]⟩,
   ⟨461, 2, [2, 2, 5, 23]⟩, ⟨521, 3, [2, 2, 2, 5, 13]⟩, ⟨631, 3, [2, 3, 3, 5, 7]⟩, ⟨709, 2, [2, 2, 3, 59]⟩,
   ⟨797, 2, [2, 2, 199]⟩, ⟨967, 5, [2, 3, 7, 23]⟩, ⟨1061, 2, [2, 2, 5, 53]⟩,
   ⟨1409, 3, [2, 2, 2, 2, 2, 2, 2, 11]⟩, ⟨1871, 14, [2, 5, 11, 17]⟩, ⟨2011, 3, [2, 3, 5, 67]⟩,
   ⟨2069, 2, [2, 2, 11, 47]⟩, ⟨2731, 3, [2, 3, 5, 7, 13]⟩, ⟨2837, 2, [2, 2, 709]⟩,
   ⟨2861, 2, [2, 2, 5, 11, 13]⟩, ⟨4051, 10, [2, 3, 3, 3, 3, 5, 5]⟩, ⟨4139, 2, [2, 2069]⟩,
   ⟨6323, 2, [2, 29, 109]⟩, ⟨9349, 2, [2, 2, 3, 19, 41]⟩, ⟨16699, 3, [2, 3, 11, 11, 23]⟩,
   ⟨27743, 5, [2, 11, 13, 97]⟩, ⟨28181, 2, [2, 2, 5, 1409]⟩, ⟨33409, 7, [2, 2, 2, 2, 2, 2, 2, 3, 3, 29]⟩,
   ⟨43189, 2, [2, 2, 3, 59, 61]⟩, ⟨85831, 3, [2, 3, 5, 2861]⟩, ⟨120233, 3, [2, 2, 2, 7, 19, 113]⟩,
   ⟨128437, 5, [2, 2, 3, 7, 11, 139]⟩, ⟨295049, 3, [2, 2, 2, 13, 2837]⟩,
   ⟨305873, 3, [2, 2, 2, 2, 7, 2731]⟩, ⟨336157, 2, [2, 2, 3, 109, 257]⟩, ⟨513749, 2, [2, 2, 128437]⟩,
   ⟨1627771, 3, [2, 3, 5, 29, 1871]⟩, ⟨4681609, 23, [2, 2, 2, 3, 97, 2011]⟩,
   ⟨10206821, 2, [2, 2, 5, 13, 37, 1061]⟩, ⟨44706919, 6, [2, 3, 797, 9349]⟩,
   ⟨81654569, 3, [2, 2, 2, 10206821]⟩, ⟨545358713, 5, [2, 2, 2, 41, 59, 28181]⟩,
   ⟨25485742523, 2, [2, 43189, 295049]⟩, ⟨297159362677, 2, [2, 2, 3, 3, 11, 461, 1627771]⟩,
   ⟨107361793816595537, 3, [2, 2, 2, 2, 16699, 85831, 4681609]⟩,
   ⟨202795150404015601, 7, [2, 2, 2, 2, 3, 5, 5, 19, 349, 25485742523]⟩,
   ⟨174723607534414371449, 3, [2, 2, 2, 17, 59, 4051, 120233, 44706919]⟩,
   ⟨431548080059745198929, 3, [2, 2, 2, 2, 7, 19, 202795150404015601]⟩,
   ⟨27892051421815855583579, 2, [2, 23, 521, 27743, 81654569, 513749]⟩,
   ⟨32151195060611136810608359, 3, [2, 3, 3, 4139, 431548080059745198929]⟩,
   ⟨1863691091902891838383581623, 5, [2, 33409, 27892051421815855583579]⟩,
   ⟨29047611873442575647497758179, 2, [2, 293, 297159362677, 545358713, 305873]⟩,
   ⟨341948486974166000522343609283189, 2, [2, 2, 3, 3, 3, 109, 29047611873442575647497758179]⟩,
   ⟨178259130663561045147472537592047227885001, 14, [2, 2, 2, 3, 3, 5, 5, 5, 5, 6323, 1863691091902891838383581623, 336157]⟩,
   ⟨2736030358979909402780800718157159386076813972158567259200215660948447373041, 31, [2, 2, 2, 2, 3, 5, 11, 11, 17, 967, 178259130663561045147472537592047227885001, 32151195060611136810608359]⟩,
   ⟨115792089237316195423570985008687907852837564279074904382605163141518161494337, 7, [2, 2, 2, 2, 2, 2, 3, 149, 631, 341948486974166000522343609283189, 107361793816595537, 174723607534414371449]⟩]

theorem orderCertificate_certified : Pratt.certified [] orderCertificate = true := by
  decide +kernel

theorem order_mem_orderCertificate (c : CurveId) : ∃ s ∈ orderCertificate, s.p = c.order := by
  cases c <;> decide +kernel

theorem order_prime (c : CurveId) : c.order.Prime := by
  obtain ⟨s, hs, hp⟩ := order_mem_orderCertificate c
  exact hp ▸ Pratt.prime_of_certified (by simp) orderCertificate_certified s hs

instance (c : CurveId) : Fact c.order.Prime := ⟨c.order_prime⟩

instance (c : CurveId) : NeZero c.order := ⟨c.order_prime.ne_zero⟩

/-! ### The size of the orders -/

theorem pow_lt_order (c : CurveId) : 2 ^ 128 < c.order := by
  cases c <;> decide

theorem order_lt_pow (c : CurveId) : c.order < 256 ^ 32 := by
  cases c <;> decide

theorem order_lt_reprLen (c : CurveId) : c.order < 256 ^ c.reprLen :=
  c.order_lt_pow.trans_le (Nat.pow_le_pow_right (by decide) (by cases c <;> decide))

theorem natCast_inj (c : CurveId) {i j : ℕ} (hi : i < 2 ^ 128) (hj : j < 2 ^ 128) :
    (i : ZMod c.order) = j ↔ i = j := by
  rw [ZMod.natCast_eq_natCast_iff', Nat.mod_eq_of_lt (hi.trans c.pow_lt_order),
    Nat.mod_eq_of_lt (hj.trans c.pow_lt_order)]

theorem natCast_injOn (c : CurveId) {ids : Finset ℕ} (h : ∀ j ∈ ids, j < 2 ^ 128) :
    Set.InjOn (fun j : ℕ => (j : ZMod c.order)) (ids : Set ℕ) := by
  intro i hi j hj hij
  exact (c.natCast_inj (h i hi) (h j hj)).1 hij

theorem natCast_eq_zero (c : CurveId) {i : ℕ} (hi : i < 2 ^ 128) : (i : ZMod c.order) = 0 ↔ i = 0 := by
  rw [← Nat.cast_zero, c.natCast_inj hi (by decide)]

end CurveId

end HumanNetwork
