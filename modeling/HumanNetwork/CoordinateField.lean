import HumanNetwork.CurveOrder
import Mathlib.Algebra.Field.ZMod

/-!
# The fields of the coordinates

The points of the two curves have coordinates in a prime field of their own, which is not the field of the scalars.
`CurveId.coordinatePrime_prime` certifies both primes as `CurveId.order_prime` does for the orders.
-/

namespace HumanNetwork

namespace CurveId

def coordinatePrime : CurveId → ℕ
  | secp256k1 => 115792089237316195423570985008687907853269984665640564039457584007908834671663
  | babyJubJub => 21888242871839275222246405745257275088548364400416034343698204186575808495617

/-- The primes below both primes, each with the factors of its predecessor. -/
def coordinateCertificate : List Pratt.Step :=
  [⟨2, 1, []⟩, ⟨3, 2, [2]⟩, ⟨5, 2, [2, 2]⟩, ⟨7, 3, [2, 3]⟩, ⟨11, 2, [2, 5]⟩, ⟨13, 2, [2, 2, 3]⟩,
   ⟨17, 3, [2, 2, 2, 2]⟩, ⟨19, 2, [2, 3, 3]⟩, ⟨23, 5, [2, 11]⟩, ⟨29, 2, [2, 2, 7]⟩, ⟨31, 3, [2, 3, 5]⟩,
   ⟨37, 2, [2, 2, 3, 3]⟩, ⟨41, 6, [2, 2, 2, 5]⟩, ⟨47, 5, [2, 23]⟩, ⟨53, 2, [2, 2, 13]⟩, ⟨67, 2, [2, 3, 11]⟩,
   ⟨71, 7, [2, 5, 7]⟩, ⟨83, 2, [2, 41]⟩, ⟨97, 5, [2, 2, 2, 2, 2, 3]⟩, ⟨101, 2, [2, 2, 5, 5]⟩, ⟨103, 5, [2, 3, 17]⟩,
   ⟨107, 2, [2, 53]⟩, ⟨131, 2, [2, 5, 13]⟩, ⟨137, 3, [2, 2, 2, 17]⟩, ⟨223, 3, [2, 3, 37]⟩, ⟨229, 6, [2, 2, 3, 19]⟩,
   ⟨239, 7, [2, 7, 17]⟩, ⟨271, 6, [2, 3, 3, 3, 5]⟩, ⟨379, 2, [2, 3, 3, 3, 7]⟩, ⟨409, 21, [2, 2, 2, 3, 17]⟩,
   ⟨419, 2, [2, 11, 19]⟩, ⟨443, 2, [2, 13, 17]⟩, ⟨449, 3, [2, 2, 2, 2, 2, 2, 7]⟩, ⟨491, 2, [2, 5, 7, 7]⟩,
   ⟨661, 2, [2, 2, 3, 5, 11]⟩, ⟨823, 3, [2, 3, 137]⟩, ⟨853, 2, [2, 2, 3, 71]⟩, ⟨887, 5, [2, 443]⟩,
   ⟨971, 6, [2, 5, 97]⟩, ⟨983, 5, [2, 491]⟩, ⟨1373, 2, [2, 2, 7, 7, 7]⟩, ⟨1627, 3, [2, 3, 271]⟩,
   ⟨1637, 2, [2, 2, 409]⟩, ⟨2621, 2, [2, 2, 5, 131]⟩, ⟨2657, 3, [2, 2, 2, 2, 2, 83]⟩, ⟨3691, 2, [2, 3, 3, 5, 41]⟩,
   ⟨4423, 3, [2, 3, 11, 67]⟩, ⟨4999, 3, [2, 3, 7, 7, 17]⟩, ⟨5323, 5, [2, 3, 887]⟩, ⟨5501, 2, [2, 2, 5, 5, 5, 11]⟩,
   ⟨7723, 3, [2, 3, 3, 3, 11, 13]⟩, ⟨11003, 2, [2, 5501]⟩, ⟨13441, 11, [2, 2, 2, 2, 2, 2, 2, 3, 5, 7]⟩,
   ⟨20113, 10, [2, 2, 2, 2, 3, 419]⟩, ⟨20963, 2, [2, 47, 223]⟩, ⟨24809, 6, [2, 2, 2, 7, 443]⟩,
   ⟨41201, 3, [2, 2, 2, 2, 5, 5, 103]⟩, ⟨41927, 5, [2, 20963]⟩, ⟨93001, 14, [2, 2, 2, 3, 5, 5, 5, 31]⟩,
   ⟨96557, 2, [2, 2, 101, 239]⟩, ⟨237073, 15, [2, 2, 2, 2, 3, 11, 449]⟩, ⟨1206781, 10, [2, 2, 3, 5, 20113]⟩,
   ⟨1593227, 2, [2, 19, 41927]⟩, ⟨7240687, 3, [2, 3, 1206781]⟩, ⟨13331831, 13, [2, 5, 971, 1373]⟩,
   ⟨107590001, 3, [2, 2, 2, 2, 5, 5, 5, 5, 7, 29, 53]⟩, ⟨405928799, 22, [2, 11, 3691, 4999]⟩,
   ⟨639533339, 2, [2, 229, 853, 1637]⟩, ⟨12048837557, 2, [2, 2, 7, 7, 661, 93001]⟩,
   ⟨5156902474397, 2, [2, 2, 107, 12048837557]⟩, ⟨1670836401704629, 2, [2, 2, 3, 3, 3, 3, 5156902474397]⟩,
   ⟨65865678001877903, 5, [2, 83, 379, 1637, 639533339]⟩,
   ⟨173378833005251801, 6, [2, 2, 2, 5, 5, 2621, 24809, 13331831]⟩,
   ⟨22149492674086928081353, 5, [2, 2, 2, 3, 5323, 173378833005251801]⟩,
   ⟨132896956044521568488119, 6, [2, 3, 22149492674086928081353]⟩,
   ⟨13818364434197438864469338081, 3, [2, 2, 2, 2, 2, 5, 823, 1593227, 65865678001877903]⟩,
   ⟨255515944373312847190720520512484175977, 3, [2, 2, 2, 7, 7, 11, 1627, 2657, 4423, 41201, 96557, 7240687,
      107590001]⟩,
   ⟨205115282021455665897114700593932402728804164701536103180137503955397371, 10, [2, 3, 5, 29, 29, 31, 7723,
      132896956044521568488119, 255515944373312847190720520512484175977]⟩,
   ⟨21888242871839275222246405745257275088548364400416034343698204186575808495617, 5, [2, 2, 2, 2, 2, 2, 2, 2, 2,
      2, 2, 2, 2, 2, 2, 2, 2, 2, 2, 2, 2, 2, 2, 2, 2, 2, 2, 2, 3, 3, 13, 29, 983, 11003, 237073, 405928799,
      1670836401704629, 13818364434197438864469338081]⟩,
   ⟨115792089237316195423570985008687907853269984665640564039457584007908834671663, 3, [2, 3, 7, 13441,
      205115282021455665897114700593932402728804164701536103180137503955397371]⟩]

theorem coordinateCertificate_certified : Pratt.certified [] coordinateCertificate = true := by
  decide +kernel

theorem coordinatePrime_mem (c : CurveId) : ∃ s ∈ coordinateCertificate, s.p = c.coordinatePrime := by
  cases c <;> decide +kernel

theorem coordinatePrime_prime (c : CurveId) : c.coordinatePrime.Prime := by
  obtain ⟨s, hs, hp⟩ := coordinatePrime_mem c
  exact hp ▸ Pratt.prime_of_certified (by simp) coordinateCertificate_certified s hs

instance (c : CurveId) : Fact c.coordinatePrime.Prime := ⟨c.coordinatePrime_prime⟩

instance (c : CurveId) : NeZero c.coordinatePrime := ⟨c.coordinatePrime_prime.ne_zero⟩

theorem coordinatePrime_lt_pow (c : CurveId) : c.coordinatePrime < 256 ^ 32 := by
  cases c <;> decide

abbrev Coordinate (c : CurveId) := ZMod c.coordinatePrime

instance (c : CurveId) : Field c.Coordinate := ZMod.instField c.coordinatePrime

theorem coordinate_val_lt (c : CurveId) (v : c.Coordinate) : v.val < 256 ^ 32 :=
  (ZMod.val_lt v).trans c.coordinatePrime_lt_pow

end CurveId

end HumanNetwork
