import PeerIdentity.MlDsa.Scheme
import PeerIdentity.Proofs.MlDsa.Product

/-!
# The equation of a verifier

For a key with `A s₁ + s₂ = 2 ^ 13 t₁ + t₀` and a response `z = y + c s₁`, the commitment `A y` of
the signer and `A z - c 2 ^ 13 t₁`, which a verifier computes, differ by the small vectors `c s₂`
and `c t₀`. All products are taken on values, where the equation is an identity of a commutative
ring in each row.

* `coeff_inner_response`: an inner product with a response;
* `verifier_row`: what the verifier computes, in one row.
-/

namespace PeerIdentity.MlDsa

/-! ## Vectors -/

namespace PolyVec

variable {count : Nat} {v w : PolyVec}

/-- An operation on polynomials keeps vectors reduced if it keeps polynomials reduced. -/
theorem isReduced_zipWith {op : Poly → Poly → Poly} (hv : IsReduced count v)
    (hw : IsReduced count w)
    (h : ∀ f g, f.IsReduced 256 → g.IsReduced 256 → (op f g).IsReduced 256) :
    IsReduced count (List.zipWith op v w) := by
  refine ⟨by simp [hv.length_eq, hw.length_eq], fun f hf => ?_⟩
  obtain ⟨i, hi, rfl⟩ := List.getElem_of_mem hf
  rw [List.getElem_zipWith]
  exact h _ _ (hv.isReduced _ (List.getElem_mem _)) (hw.isReduced _ (List.getElem_mem _))

/-- A function on polynomials keeps vectors reduced if it keeps polynomials reduced. -/
theorem isReduced_map {op : Poly → Poly} (hv : IsReduced count v)
    (h : ∀ f, f.IsReduced 256 → (op f).IsReduced 256) : IsReduced count (v.map op) := by
  refine ⟨by simp [hv.length_eq], fun f hf => ?_⟩
  obtain ⟨g, hg, rfl⟩ := List.mem_map.mp hf
  exact h g (hv.isReduced g hg)

theorem IsReduced.add (hv : IsReduced count v) (hw : IsReduced count w) :
    IsReduced count (v.add w) :=
  isReduced_zipWith hv hw fun _ _ hf hg => hf.add hg

theorem IsReduced.sub (hv : IsReduced count v) (hw : IsReduced count w) :
    IsReduced count (v.sub w) :=
  isReduced_zipWith hv hw fun _ _ hf hg => hf.sub hg

theorem IsReduced.transform (hv : IsReduced count v) : IsReduced count v.transform :=
  isReduced_map hv fun _ hf => hf.transform

theorem getElem_transform {i : Nat} (hi : i < v.length) (hi' : i < v.transform.length) :
    v.transform[i] = v[i].transform :=
  List.getElem_map _

theorem IsReduced.untransform (hv : IsReduced count v) : IsReduced count v.untransform :=
  isReduced_map hv fun _ hf => hf.untransform

theorem IsReduced.times {c : Poly} (hc : c.IsReduced 256) (hv : IsReduced count v) :
    IsReduced count (v.times c) :=
  isReduced_map hv fun _ hf => (hc.pointwise hf).untransform

/-! ## Inner products -/

/-- A sum of reduced polynomials is reduced. -/
theorem isReduced_foldl_add {a : Poly} (ha : a.IsReduced 256)
    (hv : ∀ f ∈ v, Poly.IsReduced 256 f) : Poly.IsReduced 256 (v.foldl Poly.add a) := by
  induction v generalizing a with
  | nil => exact ha
  | cons f v ih =>
    exact ih (ha.add (hv f List.mem_cons_self)) fun g hg => hv g (List.mem_cons_of_mem f hg)

/-- A sum of many polynomials is taken coefficient by coefficient. -/
theorem coeff_foldl_add {a : Poly} (ha : a.IsReduced 256)
    (hv : ∀ f ∈ v, Poly.IsReduced 256 f) :
    Poly.coeff (v.foldl Poly.add a) = a.coeff + (v.map Poly.coeff).sum := by
  induction v generalizing a with
  | nil => simp
  | cons f v ih =>
    have hf := hv f List.mem_cons_self
    rw [List.foldl_cons, ih (ha.add hf) fun g hg => hv g (List.mem_cons_of_mem f hg),
      Poly.coeff_add ha hf, List.map_cons, List.sum_cons, add_assoc]

variable {row : PolyVec}

/-- The products of an inner product are reduced. -/
theorem isReduced_pointwise_of_mem (hrow : ∀ f ∈ row, Poly.IsReduced 256 f)
    (hv : ∀ f ∈ v, Poly.IsReduced 256 f) :
    ∀ f ∈ List.zipWith Poly.pointwise row v, Poly.IsReduced 256 f := by
  intro f hf
  obtain ⟨i, hi, rfl⟩ := List.getElem_of_mem hf
  rw [List.getElem_zipWith]
  exact (hrow _ (List.getElem_mem _)).pointwise (hv _ (List.getElem_mem _))

/-- Inner products are reduced. -/
theorem isReduced_inner (hrow : ∀ f ∈ row, Poly.IsReduced 256 f)
    (hv : ∀ f ∈ v, Poly.IsReduced 256 f) : Poly.IsReduced 256 (inner row v) :=
  isReduced_foldl_add Poly.isReduced_zero (isReduced_pointwise_of_mem hrow hv)

/-- An inner product is a sum of products. -/
theorem coeff_inner (hrow : ∀ f ∈ row, Poly.IsReduced 256 f)
    (hv : ∀ f ∈ v, Poly.IsReduced 256 f) :
    Poly.coeff (inner row v) = (List.zipWith (fun f g => f.coeff * g.coeff) row v).sum := by
  rw [inner, coeff_foldl_add Poly.isReduced_zero (isReduced_pointwise_of_mem hrow hv),
    Poly.coeff_zero, zero_add]
  congr 1
  rw [List.map_zipWith]
  refine List.ext_getElem (by simp) fun i hi _ => ?_
  rw [List.getElem_zipWith, List.getElem_zipWith]
  exact Poly.coeff_pointwise (hrow _ (List.getElem_mem _)) (hv _ (List.getElem_mem _))

/-- The values of one polynomial of a response `y + c s`. -/
theorem coeff_transform_response {c y s : Poly} (hc : c.IsReduced 256) (hy : y.IsReduced 256)
    (hs : s.IsReduced 256) :
    Poly.coeff (Poly.transform (y.add (c.pointwise s.transform).untransform)) =
      y.transform.coeff + c.coeff * s.transform.coeff := by
  have hproduct := hc.pointwise hs.transform
  rw [Poly.transform_add hy hproduct.untransform, Poly.transform_untransform hproduct,
    Poly.coeff_add hy.transform hproduct, Poly.coeff_pointwise hc hs.transform]

/-- The sum over a row is taken polynomial by polynomial. -/
theorem sum_response {c : Poly} (hc : c.IsReduced 256) (hlength : v.length = w.length)
    (hv : ∀ f ∈ v, Poly.IsReduced 256 f) (hw : ∀ f ∈ w, Poly.IsReduced 256 f) :
    (List.zipWith (fun f g => f.coeff * g.coeff) row
        (transform (v.add (w.transform.times c)))).sum =
      (List.zipWith (fun f g => f.coeff * g.coeff) row v.transform).sum +
        c.coeff * (List.zipWith (fun f g => f.coeff * g.coeff) row w.transform).sum := by
  -- The row may be shorter than the vectors, and the sum ends with the shorter one.
  induction row generalizing v w with
  | nil => simp
  | cons a row ih =>
    cases v with
    | nil =>
      obtain rfl : w = [] := List.length_eq_zero_iff.mp hlength.symm
      simp [transform, add, times]
    | cons y v =>
      cases w with
      | nil => cases hlength
      | cons s w =>
        have hhead := coeff_transform_response hc (hv y List.mem_cons_self)
          (hw s List.mem_cons_self)
        have htail := ih (Nat.succ.inj hlength) (fun f hf => hv f (List.mem_cons_of_mem y hf))
          fun f hf => hw f (List.mem_cons_of_mem s hf)
        have hsplit : transform (add (y :: v) (times c (transform (s :: w)))) =
            Poly.transform (y.add (c.pointwise s.transform).untransform) ::
              transform (add v (times c (transform w))) := rfl
        have hy : transform (y :: v) = y.transform :: transform v := rfl
        have hs : transform (s :: w) = s.transform :: transform w := rfl
        rw [hsplit, hy, hs]
        simp only [List.zipWith_cons_cons, List.sum_cons, htail, hhead]
        ring

/-- The inner product of a row and a response `y + c s`. -/
theorem coeff_inner_response {c : Poly} (hc : c.IsReduced 256)
    (hrow : ∀ f ∈ row, Poly.IsReduced 256 f) (hv : IsReduced count v) (hw : IsReduced count w) :
    Poly.coeff (inner row (transform (v.add (w.transform.times c)))) =
      Poly.coeff (inner row v.transform) + c.coeff * Poly.coeff (inner row w.transform) := by
  have hz := (hv.add (IsReduced.times hc hw.transform)).transform
  rw [coeff_inner hrow hz.isReduced, coeff_inner hrow hv.transform.isReduced,
    coeff_inner hrow hw.transform.isReduced]
  exact sum_response hc (hv.length_eq.trans hw.length_eq.symm) hv.isReduced hw.isReduced

end PolyVec

/-! ## The equation -/

/-- The equation of a verifier in one row, where `z`, `w` and `s` are the values of the products of
the row with the response, the mask and the secret vector. -/
theorem verifier_row {c z w s s2 t0 t1 : Poly} (hc : c.IsReduced 256) (hz : z.IsReduced 256)
    (hw : w.IsReduced 256) (hs : s.IsReduced 256) (hs2 : s2.IsReduced 256) (ht0 : t0.IsReduced 256)
    (ht1 : t1.IsReduced 256) (hkey : s.untransform.add s2 = t1.add t0)
    (hresponse : z.coeff = w.coeff + c.coeff * s.coeff) :
    (z.sub (c.pointwise t1.transform)).untransform =
      (w.untransform.sub (c.pointwise s2.transform).untransform).add
        (c.pointwise t0.transform).untransform := by
  have hct1 := hc.pointwise ht1.transform
  have hcs2 := hc.pointwise hs2.transform
  have hct0 := hc.pointwise ht0.transform
  have hr := hw.untransform.sub hcs2.untransform
  refine Poly.transform_injective (hz.sub hct1).untransform (hr.add hct0.untransform) ?_
  -- On values the equation is one between coefficients.
  rw [Poly.transform_untransform (hz.sub hct1), Poly.transform_add hr hct0.untransform,
    Poly.transform_sub hw.untransform hcs2.untransform, Poly.transform_untransform hw,
    Poly.transform_untransform hcs2, Poly.transform_untransform hct0]
  refine (hz.sub hct1).ext ((hw.sub hcs2).add hct0) fun i hi => ?_
  have hvalues := congrArg (fun f => Poly.coeff (Poly.transform f) i) hkey
  simp only [Poly.transform_add hs.untransform hs2, Poly.transform_add ht1 ht0,
    Poly.transform_untransform hs] at hvalues
  rw [Poly.coeff_add hs hs2.transform, Poly.coeff_add ht1.transform ht0.transform, Pi.add_apply,
    Pi.add_apply] at hvalues
  rw [Poly.coeff_sub hz hct1, Poly.coeff_add (hw.sub hcs2) hct0, Poly.coeff_sub hw hcs2, hresponse,
    Poly.coeff_pointwise hc ht1.transform, Poly.coeff_pointwise hc hs2.transform,
    Poly.coeff_pointwise hc ht0.transform]
  simp only [Pi.add_apply, Pi.sub_apply, Pi.mul_apply]
  -- What is left is the equation of the key, multiplied by the challenge.
  linear_combination c.coeff i * hvalues

end PeerIdentity.MlDsa
