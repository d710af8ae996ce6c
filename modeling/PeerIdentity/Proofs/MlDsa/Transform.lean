import Mathlib.Tactic.LinearCombination
import Mathlib.Tactic.Ring
import PeerIdentity.Proofs.MlDsa.Residues
import PeerIdentity.Proofs.Primality

/-!
# The transform is evaluation

The transform of a polynomial consists of its values at the 256 roots of `X ^ 256 + 1`, and the
inverse transform undoes it in both directions. The roots are the powers of 1753, whose power 256 is
`-1`, with odd exponents; a node of the tree stands for the polynomial `X ^ n - c`, where the
constant `c` of a node is the square of those of its two halves.

* `nodeConstant`: the constant of a node, and `nodeConstant_pow`: the roots below a node;
* `coeff_transform`: the transform is evaluation at the roots;
* `untransform_transform`, `transform_untransform`: the inverse.
-/

namespace PeerIdentity.MlDsa

/-! ## Multipliers -/

/-- The multiplier of a node as a residue. -/
def multiplier (node : Nat) : Residue :=
  (Poly.multipliers.getD node 0 : Nat)

/-- The inverse multiplier of a node as a residue. -/
def inverseMultiplier (node : Nat) : Residue :=
  (Poly.inverseMultipliers.getD node 0 : Nat)

/-- The multiplier of a node is a power of 1753, the exponent of which has the bits reversed. -/
theorem multiplier_eq {node : Nat} (h : node < 256) :
    multiplier node = (1753 : Residue) ^ Poly.reverseBits node := by
  have hget : Poly.multipliers.getD node 0 = powMod 1753 (Poly.reverseBits node) q := by
    simp [Poly.multipliers, Array.getD, h]
  rw [multiplier, hget, cast_powMod, Nat.cast_ofNat]

/-- The 256th power of 1753 is -1. -/
theorem pow_256 : (1753 : Residue) ^ 256 = -1 := by
  -- The power is computed with numbers, which the kernel is fast at.
  have hpow : powMod 1753 256 q = q - 1 := by decide +kernel
  have hcast := cast_powMod 1753 256 q
  rw [hpow, Nat.cast_sub (by decide), ZMod.natCast_self, Nat.cast_one, zero_sub] at hcast
  exact_mod_cast hcast.symm

/-- The power of 1753 to `q - 1` is 1, since `q` is prime. -/
theorem pow_q_sub_one : (1753 : Residue) ^ (q - 1) = 1 := by
  have hexponent : q - 1 = 256 * (2 * 16368) := by decide
  rw [hexponent, pow_mul, pow_256, pow_mul, neg_one_sq, one_pow]

/-- The two multipliers of a node are inverse to each other. -/
theorem multiplier_mul_inverse {node : Nat} (h : node < 256) :
    multiplier node * inverseMultiplier node = 1 := by
  have hget : Poly.inverseMultipliers.getD node 0 =
      powMod (Poly.multipliers.getD node 0) (q - 2) q := by
    simp [Poly.inverseMultipliers, Array.getD, Poly.multipliers, h]
  have hinverse : inverseMultiplier node = multiplier node ^ (q - 2) := by
    rw [inverseMultiplier, hget, cast_powMod, multiplier]
  -- One more factor gives the power `q - 1` of a power of 1753.
  have hexponent : q - 2 + 1 = q - 1 := by decide
  rw [hinverse, mul_comm, ← pow_succ, hexponent, multiplier_eq h, ← pow_mul, mul_comm, pow_mul,
    pow_q_sub_one, one_pow]

/-! ## Nodes -/

/-- The constant of a node: a node stands for the polynomials modulo `X ^ n - c`. -/
def nodeConstant (node : Nat) : Residue :=
  if node = 1 then -1
  else if node % 2 = 0 then multiplier (node / 2) else -multiplier (node / 2)

/-- The constant of a left child is the multiplier of its parent. -/
theorem nodeConstant_left {node : Nat} : nodeConstant (2 * node) = multiplier node := by
  have hne : 2 * node ≠ 1 := by omega
  rw [nodeConstant, if_neg hne, if_pos (Nat.mul_mod_right 2 node),
    Nat.mul_div_cancel_left _ two_pos]

/-- The constant of a right child is the opposite of the multiplier of its parent. -/
theorem nodeConstant_right {node : Nat} (h : 0 < node) :
    nodeConstant (2 * node + 1) = -multiplier node := by
  rw [nodeConstant, if_neg (by omega), if_neg (by omega)]
  congr 2
  omega

/-- The multiplier of a node is a square root of its constant. -/
theorem multiplier_sq {node : Nat} (hpos : 0 < node) (h : node < 256) :
    multiplier node ^ 2 = nodeConstant node := by
  -- In the reversed digits of a node, halving the node doubles the exponent.
  have hleft : ∀ m < 128, Poly.reverseBits (2 * m) * 2 = Poly.reverseBits m := by decide
  have hright : ∀ m < 128, Poly.reverseBits (2 * m + 1) * 2 = 256 + Poly.reverseBits m := by decide
  rcases Nat.even_or_odd' node with ⟨m, rfl | rfl⟩
  · rw [nodeConstant_left, multiplier_eq h, multiplier_eq (by omega), ← pow_mul,
      hleft m (by omega)]
  · rcases Nat.eq_zero_or_pos m with rfl | hm
    · rw [multiplier_eq h, ← pow_mul, hright 0 (by omega)]
      exact pow_256
    · rw [nodeConstant_right hm, multiplier_eq h, multiplier_eq (by omega), ← pow_mul,
        hright m (by omega), pow_add, pow_256, neg_one_mul]

/-- The constant of the parent is the square of the constant of a node. -/
theorem nodeConstant_sq {node : Nat} (hpos : 1 < node) (h : node < 512) :
    nodeConstant node ^ 2 = nodeConstant (node / 2) := by
  have hparent : multiplier (node / 2) ^ 2 = nodeConstant (node / 2) :=
    multiplier_sq (by omega) (by omega)
  rw [← hparent, nodeConstant, if_neg (by omega)]
  split
  · rfl
  · rw [neg_sq]

/-- The power of a constant is the constant of an ancestor. -/
theorem nodeConstant_pow {levels node : Nat} (hpos : 2 ^ levels ≤ node) (h : node < 512) :
    nodeConstant node ^ 2 ^ levels = nodeConstant (node / 2 ^ levels) := by
  induction levels with
  | zero => simp
  | succ levels ih =>
    rw [pow_succ] at hpos
    have hdiv : 2 ≤ node / 2 ^ levels := by
      rw [Nat.le_div_iff_mul_le (Nat.two_pow_pos levels)]
      omega
    have hle : node / 2 ^ levels ≤ node := Nat.div_le_self _ _
    rw [pow_succ, pow_mul, ih (by omega), nodeConstant_sq hdiv (by omega), Nat.div_div_eq_div_mul]

/-- A node with so many levels below it. -/
structure IsNode (levels node : Nat) : Prop where
  pos : 0 < node
  le : (node + 1) * 2 ^ levels ≤ 512

/-- The root stands at the top. -/
theorem isNode_root : IsNode 8 1 :=
  ⟨by decide, by decide⟩

theorem IsNode.left {levels node : Nat} (h : IsNode (levels + 1) node) :
    IsNode levels (2 * node) := by
  obtain ⟨hpos, hle⟩ := h
  rw [pow_succ] at hle
  refine ⟨by omega, ?_⟩
  nlinarith

theorem IsNode.right {levels node : Nat} (h : IsNode (levels + 1) node) :
    IsNode levels (2 * node + 1) := by
  obtain ⟨hpos, hle⟩ := h
  rw [pow_succ] at hle
  refine ⟨by omega, ?_⟩
  nlinarith

/-- A node with children has a multiplier in the table. -/
theorem IsNode.lt {levels node : Nat} (h : IsNode (levels + 1) node) : node < 256 := by
  have hpow : 2 ≤ 2 ^ (levels + 1) := Nat.le_self_pow (by omega) 2
  have hle := (Nat.mul_le_mul_left (node + 1) hpow).trans h.le
  omega

/-- The constants of the leaves below a node are roots of the polynomial of the node. -/
theorem nodeConstant_leaf_pow {levels node i : Nat} (h : IsNode levels node)
    (hi : i < 2 ^ levels) :
    nodeConstant (node * 2 ^ levels + i) ^ 2 ^ levels = nodeConstant node := by
  have hge : 2 ^ levels ≤ node * 2 ^ levels := Nat.le_mul_of_pos_left _ h.pos
  have hlt := h.le
  rw [Nat.add_one_mul] at hlt
  rw [nodeConstant_pow (by omega) (by omega), Nat.mul_comm,
    Nat.mul_add_div (Nat.two_pow_pos levels), Nat.div_eq_of_lt hi, Nat.add_zero]

namespace Poly

open Finset

variable {levels node : Nat} {f g : Poly}

/-! ## Evaluation -/

/-- The value at a point of the polynomial with the first `n` coefficients of a sequence. -/
def eval (n : Nat) (a : Nat → Residue) (x : Residue) : Residue :=
  ∑ i ∈ range n, a i * x ^ i

theorem eval_add (n : Nat) (a b : Nat → Residue) (x : Residue) :
    eval n (a + b) x = eval n a x + eval n b x := by
  simp only [eval, Pi.add_apply, add_mul, sum_add_distrib]

theorem eval_sub (n : Nat) (a b : Nat → Residue) (x : Residue) :
    eval n (a - b) x = eval n a x - eval n b x := by
  simp only [eval, Pi.sub_apply, sub_mul, sum_sub_distrib]

theorem eval_scale (n : Nat) (c : Residue) (a : Nat → Residue) (x : Residue) :
    eval n (fun i => c * a i) x = c * eval n a x := by
  simp only [eval, mul_assoc, mul_sum]

/-- The first `n` coefficients decide a value. -/
theorem eval_congr {n : Nat} {a b : Nat → Residue} (h : ∀ i < n, a i = b i) (x : Residue) :
    eval n a x = eval n b x :=
  sum_congr rfl fun i hi => by rw [h i (mem_range.mp hi)]

/-- The upper half of the coefficients counts `x ^ n` times. -/
theorem eval_halves (n : Nat) (a : Nat → Residue) (x : Residue) :
    eval (n + n) a x = eval n a x + x ^ n * eval n (fun i => a (n + i)) x := by
  rw [eval, sum_range_add, eval, eval, mul_sum]
  congr 1
  refine sum_congr rfl fun i _ => ?_
  rw [pow_add]
  ring

/-! ## Halves -/

section Halves

variable {n c d : Nat} {p m : Poly} {x : Residue}

/-- The remainder of a polynomial modulo `X ^ n - c`. -/
def plusHalf (n c : Nat) (f : Poly) : Poly :=
  add (f.take n) (scale c (f.drop n))

/-- The remainder of a polynomial modulo `X ^ n + c`. -/
def minusHalf (n c : Nat) (f : Poly) : Poly :=
  sub (f.take n) (scale c (f.drop n))

/-- A layer of the transform, in halves that go on at the two children. -/
theorem transformAt_succ (levels node : Nat) (f : Poly) :
    transformAt (levels + 1) node f =
      transformAt levels (2 * node) (plusHalf (2 ^ levels) (multipliers.getD node 0) f) ++
        transformAt levels (2 * node + 1) (minusHalf (2 ^ levels) (multipliers.getD node 0) f) := by
  rw [transformAt]
  simp only [Nat.one_shiftLeft]
  rfl

theorem IsReduced.plusHalf (h : IsReduced (n + n) f) : IsReduced n (plusHalf n c f) :=
  h.take.add (h.drop.scale c)

theorem IsReduced.minusHalf (h : IsReduced (n + n) f) : IsReduced n (minusHalf n c f) :=
  h.take.sub (h.drop.scale c)

theorem coeff_plusHalf (h : IsReduced (n + n) f) {i : Nat} (hi : i < n) :
    coeff (plusHalf n c f) i = coeff f i + c * coeff f (n + i) := by
  rw [plusHalf, coeff_add h.take (h.drop.scale c), Pi.add_apply, coeff_take hi, coeff_scale,
    coeff_drop]

theorem coeff_minusHalf (h : IsReduced (n + n) f) {i : Nat} (hi : i < n) :
    coeff (minusHalf n c f) i = coeff f i - c * coeff f (n + i) := by
  rw [minusHalf, coeff_sub h.take (h.drop.scale c), Pi.sub_apply, coeff_take hi, coeff_scale,
    coeff_drop]

/-- A remainder modulo `X ^ n - c` has the values of the polynomial at the roots of `X ^ n - c`. -/
theorem eval_plusHalf (h : IsReduced (n + n) f) (hx : x ^ n = c) :
    eval n (coeff (plusHalf n c f)) x = eval (n + n) (coeff f) x := by
  rw [eval_congr (fun i hi => coeff_plusHalf h hi), eval_halves, hx, ← eval_scale, ← eval_add]
  rfl

/-- A remainder modulo `X ^ n + c` has the values of the polynomial at the roots of `X ^ n + c`. -/
theorem eval_minusHalf (h : IsReduced (n + n) f) (hx : x ^ n = -c) :
    eval n (coeff (minusHalf n c f)) x = eval (n + n) (coeff f) x := by
  rw [eval_congr (fun i hi => coeff_minusHalf h hi), eval_halves, hx, neg_mul, ← sub_eq_add_neg,
    ← eval_scale, ← eval_sub]
  rfl

/-- Twice a polynomial, from its remainders modulo `X ^ n - c` and `X ^ n + c`, where `d` is the
inverse of `c`. -/
def joinHalves (d : Nat) (p m : Poly) : Poly :=
  add p m ++ scale d (sub p m)

theorem IsReduced.joinHalves (hp : IsReduced n p) (hm : IsReduced n m) :
    IsReduced (n + n) (joinHalves d p m) :=
  (hp.add hm).append ((hp.sub hm).scale d)

theorem coeff_joinHalves_left (hp : IsReduced n p) (hm : IsReduced n m) {i : Nat} (hi : i < n) :
    coeff (joinHalves d p m) i = coeff p i + coeff m i := by
  rw [Poly.joinHalves, coeff_append_left (hp.add hm).length_eq hi, coeff_add hp hm, Pi.add_apply]

theorem coeff_joinHalves_right (hp : IsReduced n p) (hm : IsReduced n m) (i : Nat) :
    coeff (joinHalves d p m) (n + i) = d * (coeff p i - coeff m i) := by
  rw [Poly.joinHalves, coeff_append_right (hp.add hm).length_eq, coeff_scale, coeff_sub hp hm,
    Pi.sub_apply]

/-- Joining the halves of a layer gives the polynomial twice over. -/
theorem joinHalves_halves (h : IsReduced (n + n) f) (hcd : (c * d : Residue) = 1) (k : Nat) :
    joinHalves d (scale k (plusHalf n c f)) (scale k (minusHalf n c f)) = scale (k * 2) f := by
  have hp := (h.plusHalf (c := c)).scale k
  have hm := (h.minusHalf (c := c)).scale k
  refine (hp.joinHalves hm).ext (h.scale _) fun i hi => ?_
  rcases Nat.lt_or_ge i n with hin | hin
  · rw [coeff_joinHalves_left hp hm hin, coeff_scale, coeff_scale, coeff_scale,
      coeff_plusHalf h hin, coeff_minusHalf h hin, Nat.cast_mul]
    ring
  -- In the upper half the two constants cancel.
  · obtain ⟨j, rfl⟩ := Nat.exists_eq_add_of_le hin
    have hj : j < n := by omega
    rw [coeff_joinHalves_right hp hm, coeff_scale, coeff_scale, coeff_scale, coeff_plusHalf h hj,
      coeff_minusHalf h hj, Nat.cast_mul]
    linear_combination (2 * k * coeff f (n + j)) * hcd

/-- The lower half of joined halves is the first of them twice over. -/
theorem plusHalf_joinHalves (hp : IsReduced n p) (hm : IsReduced n m)
    (hcd : (c * d : Residue) = 1) : plusHalf n c (joinHalves d p m) = scale 2 p := by
  refine (hp.joinHalves hm).plusHalf.ext (hp.scale 2) fun i hi => ?_
  rw [coeff_plusHalf (hp.joinHalves hm) hi, coeff_joinHalves_left hp hm hi,
    coeff_joinHalves_right hp hm, coeff_scale, Nat.cast_two]
  linear_combination (coeff p i - coeff m i) * hcd

/-- The upper half of joined halves is the second of them twice over. -/
theorem minusHalf_joinHalves (hp : IsReduced n p) (hm : IsReduced n m)
    (hcd : (c * d : Residue) = 1) : minusHalf n c (joinHalves d p m) = scale 2 m := by
  refine (hp.joinHalves hm).minusHalf.ext (hm.scale 2) fun i hi => ?_
  rw [coeff_minusHalf (hp.joinHalves hm) hi, coeff_joinHalves_left hp hm hi,
    coeff_joinHalves_right hp hm, coeff_scale, Nat.cast_two]
  linear_combination (coeff m i - coeff p i) * hcd

end Halves

/-! ## The transform -/

theorem IsReduced.transformAt (h : IsReduced (2 ^ levels) f) :
    IsReduced (2 ^ levels) (transformAt levels node f) := by
  induction levels generalizing node f with
  | zero => exact h
  | succ levels ih =>
    rw [pow_succ, Nat.mul_two] at h ⊢
    rw [transformAt_succ]
    exact (ih h.plusHalf).append (ih h.minusHalf)

/-- The transform at a node holds the values at the constants of the leaves below the node. -/
theorem coeff_transformAt (h : IsReduced (2 ^ levels) f) (hnode : IsNode levels node) {i : Nat}
    (hi : i < 2 ^ levels) :
    coeff (transformAt levels node f) i =
      eval (2 ^ levels) (coeff f) (nodeConstant (node * 2 ^ levels + i)) := by
  induction levels generalizing node f i with
  | zero =>
    obtain rfl : i = 0 := by omega
    simp [transformAt, eval]
  | succ levels ih =>
    rw [pow_succ, Nat.mul_two] at h hi ⊢
    rw [transformAt_succ]
    -- The leaf is below one of the halves of the node, and so one of the roots of its polynomial.
    rcases Nat.lt_or_ge i (2 ^ levels) with hin | hin
    · have hleaf : node * (2 ^ levels + 2 ^ levels) + i = 2 * node * 2 ^ levels + i := by ring
      have hroot := nodeConstant_leaf_pow hnode.left hin
      rw [coeff_append_left h.plusHalf.transformAt.length_eq hin, ih h.plusHalf hnode.left hin,
        hleaf, eval_plusHalf h (hroot.trans nodeConstant_left)]
    · obtain ⟨j, rfl⟩ := Nat.exists_eq_add_of_le hin
      have hj : j < 2 ^ levels := by omega
      have hleaf : node * (2 ^ levels + 2 ^ levels) + (2 ^ levels + j) =
          (2 * node + 1) * 2 ^ levels + j := by ring
      have hroot := nodeConstant_leaf_pow hnode.right hj
      rw [coeff_append_right h.plusHalf.transformAt.length_eq, ih h.minusHalf hnode.right hj, hleaf,
        eval_minusHalf h (hroot.trans (nodeConstant_right hnode.pos))]

/-! ## The inverse -/

/-- A layer of the inverse transform, from the polynomials of the two children. -/
theorem untransformAt_append (hf : f.length = 2 ^ levels) :
    untransformAt (levels + 1) node (f ++ g) =
      joinHalves (inverseMultipliers.getD node 0) (untransformAt levels (2 * node) f)
        (untransformAt levels (2 * node + 1) g) := by
  rw [untransformAt]
  simp only [Nat.one_shiftLeft, List.take_left' hf, List.drop_left' hf]
  rfl

/-- The lower and the upper half of a polynomial. -/
theorem IsReduced.exists_halves {n : Nat} (h : IsReduced (n + n) f) :
    ∃ p m, IsReduced n p ∧ IsReduced n m ∧ f = p ++ m :=
  ⟨f.take n, f.drop n, h.take, h.drop, (List.take_append_drop n f).symm⟩

theorem IsReduced.untransformAt (h : IsReduced (2 ^ levels) f) :
    IsReduced (2 ^ levels) (untransformAt levels node f) := by
  induction levels generalizing node f with
  | zero => exact h
  | succ levels ih =>
    rw [pow_succ, Nat.mul_two] at h ⊢
    obtain ⟨p, m, hp, hm, rfl⟩ := h.exists_halves
    rw [untransformAt_append hp.length_eq]
    exact (ih hp).joinHalves (ih hm)

theorem scale_scale {n : Nat} (c d : Nat) (h : IsReduced n f) :
    scale c (scale d f) = scale (d * c) f := by
  refine ((h.scale d).scale c).ext (h.scale (d * c)) fun i _ => ?_
  rw [coeff_scale, coeff_scale, coeff_scale, Nat.cast_mul]
  ring

theorem scale_append (c : Nat) (f g : Poly) : scale c (f ++ g) = scale c f ++ scale c g :=
  List.map_append

theorem scale_one {n : Nat} (h : IsReduced n f) {c : Nat} (hc : (c : Residue) = 1) :
    scale c f = f := by
  refine (h.scale c).ext h fun i _ => ?_
  rw [coeff_scale, hc, one_mul]

/-- The transform of a multiple is the multiple of the transform. -/
theorem transformAt_scale (h : IsReduced (2 ^ levels) f) (c : Nat) (hnode : IsNode levels node) :
    transformAt levels node (scale c f) = scale c (transformAt levels node f) := by
  refine (h.scale c).transformAt.ext (h.transformAt.scale c) fun i hi => ?_
  rw [coeff_transformAt (h.scale c) hnode hi, coeff_scale, coeff_transformAt h hnode hi,
    ← eval_scale]
  exact eval_congr (fun j _ => coeff_scale c f j) _

/-- Each level of the inverse doubles the polynomial. -/
theorem untransformAt_transformAt (h : IsReduced (2 ^ levels) f) (hnode : IsNode levels node) :
    untransformAt levels node (transformAt levels node f) = scale (2 ^ levels) f := by
  induction levels generalizing node f with
  | zero => exact (scale_one h Nat.cast_one).symm
  | succ levels ih =>
    rw [pow_succ, Nat.mul_two] at h
    rw [transformAt_succ, untransformAt_append h.plusHalf.transformAt.length_eq,
      ih h.plusHalf hnode.left, ih h.minusHalf hnode.right,
      joinHalves_halves h (multiplier_mul_inverse hnode.lt), pow_succ]

/-- Each level of the inverse doubles the values. -/
theorem transformAt_untransformAt (h : IsReduced (2 ^ levels) f) (hnode : IsNode levels node) :
    transformAt levels node (untransformAt levels node f) = scale (2 ^ levels) f := by
  induction levels generalizing node f with
  | zero => exact (scale_one h Nat.cast_one).symm
  | succ levels ih =>
    have hinverse := multiplier_mul_inverse hnode.lt
    rw [pow_succ, Nat.mul_two] at h
    -- The halves are joined to twice the polynomial, and the transform keeps this factor.
    obtain ⟨p, m, hp, hm, rfl⟩ := h.exists_halves
    rw [untransformAt_append hp.length_eq, transformAt_succ,
      plusHalf_joinHalves hp.untransformAt hm.untransformAt hinverse,
      minusHalf_joinHalves hp.untransformAt hm.untransformAt hinverse,
      transformAt_scale hp.untransformAt 2 hnode.left,
      transformAt_scale hm.untransformAt 2 hnode.right, ih hp hnode.left, ih hm hnode.right,
      scale_scale 2 _ hp, scale_scale 2 _ hm, ← scale_append, pow_succ]

/-! ## The whole tree -/

/-- The roots of `X ^ 256 + 1`. -/
def root (i : Nat) : Residue :=
  nodeConstant (256 + i)

/-- The points of the transform are roots of `X ^ 256 + 1`. -/
theorem root_pow {i : Nat} (hi : i < 256) : root i ^ 256 = -1 := by
  have hleaf := nodeConstant_leaf_pow isNode_root (i := i) hi
  have hpow : (2 : Nat) ^ 8 = 256 := by norm_num
  have hone : nodeConstant 1 = -1 := if_pos rfl
  rw [hpow, Nat.one_mul, hone] at hleaf
  exact hleaf

theorem IsReduced.transform (h : IsReduced 256 f) : IsReduced 256 (transform f) := by
  have h8 : IsReduced (2 ^ 8) f := h
  exact h8.transformAt

theorem IsReduced.untransform (h : IsReduced 256 f) : IsReduced 256 (untransform f) := by
  have h8 : IsReduced (2 ^ 8) f := h
  exact h8.untransformAt.scale _

/-- The transform is evaluation at the roots. -/
theorem coeff_transform (h : IsReduced 256 f) {i : Nat} (hi : i < 256) :
    coeff (transform f) i = eval 256 (coeff f) (root i) := by
  have h8 : IsReduced (2 ^ 8) f := h
  have hvalue := coeff_transformAt h8 isNode_root hi
  rwa [Nat.one_mul] at hvalue

/-- The last factor of the inverse is the inverse of 256. -/
theorem cast_factor : ((2 ^ 8 * 8347681 : Nat) : Residue) = 1 := by
  rw [← Nat.cast_one, ZMod.natCast_eq_natCast_iff]
  decide

/-- A polynomial is recovered from its values. -/
theorem untransform_transform (h : IsReduced 256 f) : untransform (transform f) = f := by
  have h8 : IsReduced (2 ^ 8) f := h
  rw [untransform, transform, untransformAt_transformAt h8 isNode_root, scale_scale _ _ h,
    scale_one h cast_factor]

/-- Values are recovered from their polynomial. -/
theorem transform_untransform (h : IsReduced 256 f) : transform (untransform f) = f := by
  have h8 : IsReduced (2 ^ 8) f := h
  rw [untransform, transform, transformAt_scale h8.untransformAt _ isNode_root,
    transformAt_untransformAt h8 isNode_root, scale_scale _ _ h, scale_one h cast_factor]

end Poly

end PeerIdentity.MlDsa
