import Mathlib.Data.List.GetD
import Mathlib.Data.ZMod.Basic
import Mathlib.Data.ZMod.ValMinAbs
import PeerIdentity.MlDsa.Ring

/-!
# Polynomials as sequences of residues

A polynomial is a list of numbers below `q`. Its coefficients as residues form a sequence that is
zero beyond the list, and on these sequences the operations of the ring are the pointwise ones of a
commutative ring, so that identities between polynomials are left to `ring`.

* `Poly.IsReduced`: a list of a given length with members below `q`;
* `Poly.coeff`: the sequence of coefficients, and `IsReduced.ext`: it determines the polynomial;
* `coeff_add`, `coeff_sub`, `coeff_pointwise`, `coeff_scale`: the operations;
* `size`, `norm_eq_size`: the distance from zero;
* `PolyVec.IsReduced`: vectors of reduced polynomials.
-/

namespace PeerIdentity.MlDsa

/-- The ring of coefficients. -/
abbrev Residue := ZMod q

instance : NeZero q :=
  ⟨by decide⟩

theorem q_pos : 0 < q := by
  decide

namespace Poly

/-! ## Reduced polynomials -/

/-- A list of `n` numbers below `q`. -/
structure IsReduced (n : Nat) (f : Poly) : Prop where
  length_eq : f.length = n
  lt : ∀ x ∈ f, x < q

variable {n : Nat} {f g : Poly}

@[simp]
theorem length_scale (c : Nat) (f : Poly) : (scale c f).length = f.length :=
  List.length_map _

/-- What is computed coefficient by coefficient modulo `q` is reduced. -/
theorem isReduced_zipWith_mod (hf : f.length = n) (hg : g.length = n) (r : Nat → Nat → Nat) :
    IsReduced n (List.zipWith (fun x y => r x y % q) f g) := by
  refine ⟨by simp [hf, hg], fun x hx => ?_⟩
  obtain ⟨i, hi, rfl⟩ := List.getElem_of_mem hx
  rw [List.getElem_zipWith]
  exact Nat.mod_lt _ q_pos

theorem IsReduced.add (hf : IsReduced n f) (hg : IsReduced n g) : IsReduced n (add f g) :=
  isReduced_zipWith_mod hf.length_eq hg.length_eq _

theorem IsReduced.sub (hf : IsReduced n f) (hg : IsReduced n g) : IsReduced n (sub f g) :=
  isReduced_zipWith_mod hf.length_eq hg.length_eq _

theorem IsReduced.pointwise (hf : IsReduced n f) (hg : IsReduced n g) :
    IsReduced n (pointwise f g) :=
  isReduced_zipWith_mod hf.length_eq hg.length_eq _

/-- A polynomial is reduced if all its coefficients are residues. -/
theorem isReduced_map {r : Nat → Nat} (hf : f.length = n) (h : ∀ x ∈ f, r x < q) :
    IsReduced n (f.map r) := by
  refine ⟨by rw [List.length_map, hf], fun x hx => ?_⟩
  obtain ⟨y, hy, rfl⟩ := List.mem_map.mp hx
  exact h y hy

theorem IsReduced.scale (hf : IsReduced n f) (c : Nat) : IsReduced n (scale c f) :=
  isReduced_map hf.length_eq fun _ _ => Nat.mod_lt _ q_pos

theorem isReduced_zero : IsReduced 256 zero := by
  refine ⟨List.length_replicate, fun x hx => ?_⟩
  rw [List.eq_of_mem_replicate hx]
  exact q_pos

/-- Two reduced lists make a longer one. -/
theorem IsReduced.append {m : Nat} (hf : IsReduced n f) (hg : IsReduced m g) :
    IsReduced (n + m) (f ++ g) := by
  refine ⟨?_, List.forall_mem_append.mpr ⟨hf.lt, hg.lt⟩⟩
  rw [List.length_append, hf.length_eq, hg.length_eq]

theorem IsReduced.take {m : Nat} (hf : IsReduced (n + m) f) : IsReduced n (f.take n) := by
  refine ⟨?_, fun x hx => hf.lt x (List.mem_of_mem_take hx)⟩
  rw [List.length_take, hf.length_eq, Nat.min_eq_left (Nat.le_add_right n m)]

theorem IsReduced.drop {m : Nat} (hf : IsReduced (n + m) f) : IsReduced m (f.drop n) := by
  refine ⟨?_, fun x hx => hf.lt x (List.mem_of_mem_drop hx)⟩
  rw [List.length_drop, hf.length_eq, Nat.add_sub_cancel_left]

/-! ## Coefficients -/

/-- The coefficients as residues; those beyond the list are zero. -/
def coeff (f : Poly) : Nat → Residue :=
  fun i => (f.getD i 0 : Nat)

/-- Within its length, a polynomial has the coefficients of its list. -/
theorem coeff_of_lt {i : Nat} (h : i < f.length) : coeff f i = (f[i] : Nat) := by
  rw [coeff, List.getD_eq_getElem f 0 h]

/-- Beyond its length, a polynomial has the coefficients zero. -/
theorem coeff_of_le {i : Nat} (h : f.length ≤ i) : coeff f i = 0 := by
  rw [coeff, List.getD_eq_default f 0 h, Nat.cast_zero]

/-- A reduced polynomial is determined by its coefficients. -/
theorem IsReduced.ext (hf : IsReduced n f) (hg : IsReduced n g)
    (h : ∀ i < n, coeff f i = coeff g i) : f = g := by
  refine List.ext_getElem (hf.length_eq.trans hg.length_eq.symm) fun i hi hj => ?_
  -- Two numbers below `q` with the same residue are equal.
  have hcast := h i (hf.length_eq ▸ hi)
  rw [coeff_of_lt hi, coeff_of_lt hj, ZMod.natCast_eq_natCast_iff'] at hcast
  rwa [Nat.mod_eq_of_lt (hf.lt _ (List.getElem_mem hi)),
    Nat.mod_eq_of_lt (hg.lt _ (List.getElem_mem hj))] at hcast

/-- What is computed element by element is computed coefficient by coefficient. -/
theorem coeff_zipWith (h : f.length = g.length) {r : Nat → Nat → Nat}
    {s : Residue → Residue → Residue} (hzero : s 0 0 = 0)
    (hs : ∀ x ∈ f, ∀ y ∈ g, ((r x y : Nat) : Residue) = s x y) :
    coeff (List.zipWith r f g) = fun i => s (coeff f i) (coeff g i) := by
  ext i
  rcases Nat.lt_or_ge i f.length with hi | hi
  · have hj : i < g.length := h ▸ hi
    have hlt : i < (List.zipWith r f g).length := by
      rw [List.length_zipWith]
      omega
    rw [coeff_of_lt hlt, coeff_of_lt hi, coeff_of_lt hj, List.getElem_zipWith,
      hs _ (List.getElem_mem hi) _ (List.getElem_mem hj)]
  -- Beyond the lists all three sequences are zero.
  · have hlen : (List.zipWith r f g).length ≤ i := by
      rw [List.length_zipWith]
      omega
    rw [coeff_of_le hlen, coeff_of_le hi, coeff_of_le (h ▸ hi), hzero]

theorem coeff_add (hf : IsReduced n f) (hg : IsReduced n g) :
    coeff (add f g) = coeff f + coeff g := by
  apply coeff_zipWith (hf.length_eq.trans hg.length_eq.symm) (s := (· + ·)) (add_zero 0)
  intro x _ y _
  rw [ZMod.natCast_mod, Nat.cast_add]

theorem coeff_sub (hf : IsReduced n f) (hg : IsReduced n g) :
    coeff (sub f g) = coeff f - coeff g := by
  apply coeff_zipWith (hf.length_eq.trans hg.length_eq.symm) (s := (· - ·)) (sub_zero 0)
  intro x _ y hy
  -- The coefficient `y` is subtracted by adding `q - y`, and the residue of `q` is zero.
  rw [ZMod.natCast_mod, Nat.cast_add, Nat.cast_sub (hg.lt y hy).le, ZMod.natCast_self, zero_sub,
    sub_eq_add_neg]

theorem coeff_pointwise (hf : IsReduced n f) (hg : IsReduced n g) :
    coeff (pointwise f g) = coeff f * coeff g := by
  apply coeff_zipWith (hf.length_eq.trans hg.length_eq.symm) (s := (· * ·)) (mul_zero 0)
  intro x _ y _
  rw [ZMod.natCast_mod, Nat.cast_mul]

theorem coeff_scale (c : Nat) (f : Poly) (i : Nat) : coeff (scale c f) i = c * coeff f i := by
  rcases Nat.lt_or_ge i f.length with hi | hi
  · rw [coeff_of_lt (by rwa [length_scale]), coeff_of_lt hi]
    simp [scale]
  · rw [coeff_of_le (by rwa [length_scale]), coeff_of_le hi, mul_zero]

@[simp]
theorem coeff_zero : coeff zero = 0 := by
  ext i
  rcases Nat.lt_or_ge i zero.length with hi | hi
  · rw [coeff_of_lt hi]
    simp only [zero, List.getElem_replicate, Nat.cast_zero, Pi.zero_apply]
  · rw [coeff_of_le hi, Pi.zero_apply]

/-- The first coefficients of two lists together are those of the first. -/
theorem coeff_append_left (hf : f.length = n) {i : Nat} (h : i < n) :
    coeff (f ++ g) i = coeff f i := by
  rw [coeff, coeff, List.getD_append f g 0 i (hf ▸ h)]

/-- The later coefficients of two lists together are those of the second. -/
theorem coeff_append_right (hf : f.length = n) (i : Nat) : coeff (f ++ g) (n + i) = coeff g i := by
  subst hf
  rw [coeff, coeff, List.getD_append_right f g 0 _ (Nat.le_add_right _ _), Nat.add_sub_cancel_left]

theorem coeff_take {i : Nat} (h : i < n) : coeff (f.take n) i = coeff f i := by
  simp [coeff, List.getD_eq_getElem?_getD, List.getElem?_take_of_lt h]

theorem coeff_drop (i : Nat) : coeff (f.drop n) i = coeff f (n + i) := by
  simp [coeff, List.getD_eq_getElem?_getD, List.getElem?_drop]

/-- The polynomial of `n` residues. -/
def ofCoeffs (n : Nat) (a : Nat → Residue) : Poly :=
  (List.range n).map fun i => (a i).val

theorem isReduced_ofCoeffs (n : Nat) (a : Nat → Residue) : IsReduced n (ofCoeffs n a) := by
  refine ⟨by simp [ofCoeffs], fun x hx => ?_⟩
  obtain ⟨i, -, rfl⟩ := List.mem_map.mp hx
  exact ZMod.val_lt _

/-- The polynomial of given coefficients has these coefficients. -/
theorem coeff_ofCoeffs {a : Nat → Residue} {i : Nat} (h : i < n) :
    coeff (ofCoeffs n a) i = a i := by
  rw [coeff_of_lt (by simpa [ofCoeffs] using h)]
  simp [ofCoeffs]

end Poly

/-! ## Distance from zero -/

/-- The distance of a residue from zero. -/
def size (x : Residue) : Nat :=
  x.valMinAbs.natAbs

/-- The norm of a residue is the distance of its class from zero. -/
theorem norm_eq_size {x : Nat} (h : x < q) : norm x = size x := by
  rw [norm, size, ZMod.valMinAbs_natAbs_eq_min, ZMod.val_natCast, Nat.mod_eq_of_lt h]

@[simp]
theorem size_zero : size 0 = 0 := by
  rw [size, ZMod.valMinAbs_zero, Int.natAbs_zero]

/-- Opposite residues are at one distance from zero. -/
@[simp]
theorem size_neg (x : Residue) : size (-x) = size x :=
  ZMod.natAbs_valMinAbs_neg x

/-- The distance from zero satisfies the triangle inequality. -/
theorem size_add_le (x y : Residue) : size (x + y) ≤ size x + size y :=
  (ZMod.natAbs_valMinAbs_add_le x y).trans (Int.natAbs_add_le _ _)

/-- The distance of a coefficient from zero. -/
theorem Poly.IsReduced.norm_getElem {n : Nat} {f : Poly} (hf : f.IsReduced n) {i : Nat}
    (hi : i < f.length) : norm f[i] = size (f.coeff i) := by
  rw [Poly.coeff_of_lt hi, norm_eq_size (hf.lt _ (List.getElem_mem hi))]

/-- A vector of `count` reduced polynomials. -/
structure PolyVec.IsReduced (count : Nat) (v : PolyVec) : Prop where
  length_eq : v.length = count
  isReduced : ∀ f ∈ v, Poly.IsReduced 256 f

/-- No coefficient of a vector reaches a bound exactly if all are smaller. -/
theorem PolyVec.reaches_eq_false_iff {bound : Nat} {v : PolyVec} :
    v.reaches bound = false ↔ ∀ f ∈ v, ∀ x ∈ f, norm x < bound := by
  simp [PolyVec.reaches, Poly.reaches]

end PeerIdentity.MlDsa
