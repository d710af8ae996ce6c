import PeerIdentity.Proofs.Keccak
import PeerIdentity.Proofs.MlDsa.Packing
import PeerIdentity.Proofs.MlDsa.Transform

/-!
# Polynomials packed in numbers

A polynomial is packed in one number, with 256 bits for each coefficient, so that one operation on
numbers acts on all coefficients. The coefficients are not reduced until the end: there is room for
the eight levels of the transform. In this form the kernel evaluates transforms.

* `slots`, `slots₂`: functions applied slot by slot;
* `Packs`: a number packs a polynomial;
* `transformNat`, `untransformNat`: the transform and its inverse on packed polynomials.
-/

namespace PeerIdentity.MlDsa

/-! ## Digits -/

/-- The digits of an appended list stand above the others. -/
theorem ofDigits_append (width : Nat) (a b : List Nat) :
    ofDigits width (a ++ b) = ofDigits width a + ofDigits width b <<< (width * a.length) := by
  induction a with
  | nil => simp [ofDigits]
  | cons x a ih =>
    simp only [List.cons_append, ofDigits, ih, List.length_cons, Nat.shiftLeft_eq]
    ring

/-- The lowest digits. -/
theorem ofDigits_append_mod {width : Nat} {a : List Nat} (b : List Nat)
    (ha : ∀ x ∈ a, x < 2 ^ width) :
    ofDigits width (a ++ b) % 2 ^ (width * a.length) = ofDigits width a := by
  rw [ofDigits_append, Nat.shiftLeft_eq, Nat.add_mul_mod_self_right,
    Nat.mod_eq_of_lt (ofDigits_lt ha)]

/-- The digits above them. -/
theorem ofDigits_append_shiftRight {width : Nat} {a : List Nat} (b : List Nat)
    (ha : ∀ x ∈ a, x < 2 ^ width) :
    ofDigits width (a ++ b) >>> (width * a.length) = ofDigits width b := by
  rw [ofDigits_append, Nat.shiftLeft_eq, Nat.shiftRight_eq_div_pow,
    Nat.add_mul_div_right _ _ (Nat.two_pow_pos _), Nat.div_eq_of_lt (ofDigits_lt ha), Nat.zero_add]

theorem ofDigits_replicate_zero (width count : Nat) :
    ofDigits width (List.replicate count 0) = 0 := by
  induction count with
  | zero => rfl
  | succ count ih => rw [List.replicate_succ, ofDigits, ih, Nat.zero_shiftLeft]

/-- A number with at most `count` digits is recovered from them. -/
theorem ofDigits_digits {width count n : Nat} (h : n < 2 ^ (width * count)) :
    ofDigits width (digits width count n) = n := by
  induction count generalizing n with
  | zero =>
    obtain rfl : n = 0 := by simpa using h
    rfl
  | succ count ih =>
    have hquotient : n >>> width < 2 ^ (width * count) := by
      rw [Nat.shiftRight_eq_div_pow]
      refine Nat.div_lt_of_lt_mul ?_
      rwa [← Nat.pow_add, Nat.add_comm, ← Nat.mul_succ]
    rw [digits, ofDigits, ih hquotient, Nat.one_shiftLeft, Nat.shiftLeft_eq,
      Nat.shiftRight_eq_div_pow, Nat.mul_comm, Nat.mod_add_div]

/-- One digit. -/
theorem ofDigits_digit {width : Nat} {ds : List Nat} (h : ∀ d ∈ ds, d < 2 ^ width) (i : Nat) :
    ofDigits width ds >>> (width * i) % 2 ^ width = ds.getD i 0 := by
  induction ds generalizing i with
  | nil => simp [ofDigits]
  | cons d ds ih =>
    have hd := h d List.mem_cons_self
    have ih := ih fun x hx => h x (List.mem_cons_of_mem d hx)
    cases i with
    | zero =>
      rw [Nat.mul_zero, Nat.shiftRight_zero, ofDigits, Nat.shiftLeft_eq, Nat.add_mul_mod_self_right,
        Nat.mod_eq_of_lt hd, List.getD_cons_zero]
    | succ i =>
      have hone : ∀ x ∈ [d], x < 2 ^ width := by simpa using hd
      have hrest := ofDigits_append_shiftRight ds hone
      rw [List.length_singleton, Nat.mul_one, List.singleton_append] at hrest
      rw [List.getD_cons_succ, ← ih, Nat.mul_succ, Nat.add_comm, Nat.shiftRight_add, hrest]

/-- Linear combinations are taken digit by digit. -/
theorem ofDigits_combine (width u v : Nat) {a b : List Nat} (h : a.length = b.length) :
    u * ofDigits width a + v * ofDigits width b =
      ofDigits width (List.zipWith (fun x y => u * x + v * y) a b) := by
  induction a generalizing b with
  | nil =>
    obtain rfl : b = [] := List.length_eq_zero_iff.mp h.symm
    simp [ofDigits]
  | cons x a ih =>
    cases b with
    | nil => cases h
    | cons y b =>
      rw [List.zipWith_cons_cons, ofDigits, ofDigits, ofDigits, ← ih (Nat.succ.inj h)]
      simp only [Nat.shiftLeft_eq]
      ring

/-! ## Functions slot by slot -/

/-- Cuts a number of `2 ^ (levels + 1)` digits in halves. -/
def halves {α : Type} (width levels n : Nat) (next : (low high : Nat) → α) : α :=
  next (Nat.mod n (Nat.pow 2 (Nat.mul width (Nat.pow 2 levels))))
    (Nat.shiftRight n (Nat.mul width (Nat.pow 2 levels)))

/-- Joins two numbers of `2 ^ levels` digits. -/
def join (width levels low high : Nat) : Nat :=
  Nat.add low (Nat.shiftLeft high (Nat.mul width (Nat.pow 2 levels)))

/-- The halves of a packed list are the packed halves of the list. -/
theorem halves_eq {α : Type} {width levels : Nat} {a : List Nat} (b : List Nat)
    (hlength : a.length = 2 ^ levels) (ha : ∀ x ∈ a, x < 2 ^ width) (next : Nat → Nat → α) :
    halves width levels (ofDigits width (a ++ b)) next =
      next (ofDigits width a) (ofDigits width b) := by
  have hbits : Nat.mul width (Nat.pow 2 levels) = width * a.length := by
    rw [hlength]
    rfl
  rw [halves, hbits]
  exact congrArg₂ next (ofDigits_append_mod b ha) (ofDigits_append_shiftRight b ha)

/-- Joining packed lists packs the list of both. -/
theorem join_eq {width levels : Nat} {a : List Nat} (b : List Nat)
    (hlength : a.length = 2 ^ levels) :
    join width levels (ofDigits width a) (ofDigits width b) = ofDigits width (a ++ b) := by
  rw [ofDigits_append, hlength]
  rfl

/-- The digits of `target` bits that a function makes of the digits of `width` bits. -/
def slots (f : Nat → Nat) (width target : Nat) : (levels n : Nat) → Nat
  | 0, n => f n
  | levels + 1, n => halves width levels n fun low high =>
      join target levels (slots f width target levels low) (slots f width target levels high)

/-- The digits that a function makes of the digits of two numbers. -/
def slots₂ (f : Nat → Nat → Nat) (width : Nat) : (levels m n : Nat) → Nat
  | 0, m, n => f m n
  | levels + 1, m, n =>
    halves width levels m fun low high => halves width levels n fun low' high' =>
      join width levels (slots₂ f width levels low low') (slots₂ f width levels high high')

/-- A list of `2 ^ (levels + 1)` members has two halves. -/
theorem exists_halves {levels : Nat} {ds : List Nat} (h : ds.length = 2 ^ (levels + 1)) :
    ∃ a b, a.length = 2 ^ levels ∧ b.length = 2 ^ levels ∧ ds = a ++ b := by
  rw [pow_succ] at h
  refine ⟨ds.take (2 ^ levels), ds.drop (2 ^ levels), ?_, ?_, (List.take_append_drop _ ds).symm⟩
  · rw [List.length_take]
    omega
  · rw [List.length_drop]
    omega

/-- A function on the digits of a packed list is one on its elements. -/
theorem slots_ofDigits (f : Nat → Nat) (width target : Nat) {levels : Nat} {ds : List Nat}
    (hlength : ds.length = 2 ^ levels) (h : ∀ d ∈ ds, d < 2 ^ width) :
    slots f width target levels (ofDigits width ds) = ofDigits target (ds.map f) := by
  induction levels generalizing ds with
  | zero =>
    obtain ⟨d, rfl⟩ := List.length_eq_one_iff.mp hlength
    simp [slots, ofDigits]
  | succ levels ih =>
    obtain ⟨a, b, ha, hb, rfl⟩ := exists_halves hlength
    have hlow := fun x hx => h x (List.mem_append_left b hx)
    have hhigh := fun x hx => h x (List.mem_append_right a hx)
    rw [slots, halves_eq b ha hlow, ih ha hlow, ih hb hhigh, List.map_append]
    exact join_eq _ (by rw [List.length_map, ha])

/-- A function on the digits of two packed lists is one on their elements. -/
theorem slots₂_ofDigits (f : Nat → Nat → Nat) (width : Nat) {levels : Nat} {ds es : List Nat}
    (hds : ds.length = 2 ^ levels) (hes : es.length = 2 ^ levels) (hd : ∀ d ∈ ds, d < 2 ^ width)
    (he : ∀ e ∈ es, e < 2 ^ width) :
    slots₂ f width levels (ofDigits width ds) (ofDigits width es) =
      ofDigits width (List.zipWith f ds es) := by
  induction levels generalizing ds es with
  | zero =>
    obtain ⟨d, rfl⟩ := List.length_eq_one_iff.mp hds
    obtain ⟨e, rfl⟩ := List.length_eq_one_iff.mp hes
    simp [slots₂, ofDigits]
  | succ levels ih =>
    obtain ⟨a, b, ha, hb, rfl⟩ := exists_halves hds
    obtain ⟨c, d, hc, hd', rfl⟩ := exists_halves hes
    have hlow := fun x hx => hd x (List.mem_append_left b hx)
    have hhigh := fun x hx => hd x (List.mem_append_right a hx)
    have hlow' := fun x hx => he x (List.mem_append_left d hx)
    have hhigh' := fun x hx => he x (List.mem_append_right c hx)
    rw [slots₂, halves_eq b ha hlow, halves_eq d hc hlow', ih ha hc hlow hlow',
      ih hb hd' hhigh hhigh', List.zipWith_append (ha.trans hc.symm)]
    exact join_eq _ (by rw [List.length_zipWith, ha, hc, Nat.min_self])

/-! ## Packed polynomials -/

/-- A number packs a polynomial if its digits of 256 bits are the coefficients modulo `q`. The
digits are at most `bound`. -/
structure Packs (levels bound n : Nat) (f : Poly) : Prop where
  isReduced : f.IsReduced (2 ^ levels)
  exists_digits : ∃ ds : Poly, ds.length = 2 ^ levels ∧ (∀ d ∈ ds, d ≤ bound) ∧
    n = ofDigits 256 ds ∧ ∀ i < 2 ^ levels, ds.coeff i = f.coeff i

namespace Packs

variable {levels bound m n : Nat} {f g h : Poly}

/-- A reduced polynomial is packed by its digits. -/
theorem of_isReduced (hf : f.IsReduced (2 ^ levels)) : Packs levels q (ofDigits 256 f) f :=
  ⟨hf, f, hf.length_eq, fun x hx => (hf.lt x hx).le, rfl, fun _ _ => rfl⟩

/-- A number packs a polynomial with every larger bound, too. -/
theorem mono {bound' : Nat} (hf : Packs levels bound n f) (hle : bound ≤ bound') :
    Packs levels bound' n f := by
  obtain ⟨hreduced, ds, hlength, hd, hdigits⟩ := hf
  exact ⟨hreduced, ds, hlength, fun d hmem => (hd d hmem).trans hle, hdigits⟩

/-- A linear combination. -/
theorem combine {u v bound' : Nat} (hf : Packs levels bound m f) (hg : Packs levels bound' n g)
    (hh : h.IsReduced (2 ^ levels))
    (hcoeff : ∀ i < 2 ^ levels, h.coeff i = u * f.coeff i + v * g.coeff i) :
    Packs levels (u * bound + v * bound') (Nat.add (Nat.mul u m) (Nat.mul v n)) h := by
  obtain ⟨-, ds, hds, hd, rfl, hfd⟩ := hf
  obtain ⟨-, es, hes, he, rfl, hge⟩ := hg
  have hlength := hds.trans hes.symm
  have hsum : (List.zipWith (fun x y => u * x + v * y) ds es).length = 2 ^ levels := by
    rw [List.length_zipWith, hds, hes, Nat.min_self]
  -- The digits of the combination are the combinations of the digits.
  refine ⟨hh, _, hsum, fun x hx => ?_, ofDigits_combine 256 u v hlength, ?_⟩
  · obtain ⟨i, hi, rfl⟩ := List.getElem_of_mem hx
    rw [List.getElem_zipWith]
    exact Nat.add_le_add (Nat.mul_le_mul_left u (hd _ (List.getElem_mem _)))
      (Nat.mul_le_mul_left v (he _ (List.getElem_mem _)))
  · have hzip := Poly.coeff_zipWith hlength (r := fun x y => u * x + v * y)
      (s := fun x y => u * x + v * y) (by simp) fun x _ y _ => by push_cast; rfl
    intro i hi
    rw [hzip, hcoeff i hi, ← hfd i hi, ← hge i hi]

/-- A sum with a multiple. -/
theorem add_mul {v bound' : Nat} (hf : Packs levels bound m f) (hg : Packs levels bound' n g)
    (hh : h.IsReduced (2 ^ levels))
    (hcoeff : ∀ i < 2 ^ levels, h.coeff i = f.coeff i + v * g.coeff i) :
    Packs levels (bound + v * bound') (Nat.add m (Nat.mul v n)) h := by
  have hsum := hf.combine hg (u := 1) (v := v) hh fun i hi => by
    rw [hcoeff i hi, Nat.cast_one, one_mul]
  have hone : Nat.mul 1 m = m := Nat.one_mul m
  rwa [Nat.one_mul, hone] at hsum

/-- A sum. -/
theorem add {bound' : Nat} (hf : Packs levels bound m f) (hg : Packs levels bound' n g) :
    Packs levels (bound + bound') (Nat.add m n) (f.add g) := by
  have hsum := hf.add_mul hg (v := 1) (hf.isReduced.add hg.isReduced) fun i _ => by
    rw [Poly.coeff_add hf.isReduced hg.isReduced, Pi.add_apply, Nat.cast_one, one_mul]
  have hone : Nat.mul 1 n = n := Nat.one_mul n
  rwa [Nat.one_mul, hone] at hsum

/-- A difference, with `q - 1` for the factor -1. -/
theorem sub {bound' : Nat} (hf : Packs levels bound m f) (hg : Packs levels bound' n g) :
    Packs levels (bound + (q - 1) * bound') (Nat.add m (Nat.mul (q - 1) n)) (f.sub g) := by
  refine hf.add_mul hg (hf.isReduced.sub hg.isReduced) fun i _ => ?_
  rw [Poly.coeff_sub hf.isReduced hg.isReduced, Pi.sub_apply, Nat.cast_sub q_pos,
    ZMod.natCast_self]
  ring

/-- The two halves. -/
theorem append (hf : Packs levels bound m f) (hg : Packs levels bound n g) :
    Packs (levels + 1) bound (join 256 levels m n) (f ++ g) := by
  obtain ⟨hf, ds, hds, hd, rfl, hfd⟩ := hf
  obtain ⟨hg, es, hes, he, rfl, hge⟩ := hg
  refine ⟨?_, ds ++ es, ?_, List.forall_mem_append.mpr ⟨hd, he⟩, join_eq es hds, ?_⟩
  · rw [pow_succ, Nat.mul_two]
    exact hf.append hg
  · rw [List.length_append, hds, hes, pow_succ, Nat.mul_two]
  · intro i hi
    rcases Nat.lt_or_ge i (2 ^ levels) with hlt | hge'
    · rw [Poly.coeff_append_left hds hlt, Poly.coeff_append_left hf.length_eq hlt, hfd i hlt]
    · obtain ⟨j, rfl⟩ := Nat.exists_eq_add_of_le hge'
      rw [Poly.coeff_append_right hds, Poly.coeff_append_right hf.length_eq, hge j (by omega)]

/-- The halves of a packed polynomial pack its halves. -/
theorem halves (hf : Packs (levels + 1) bound n f) (hbound : bound < 2 ^ 256) :
    ∃ low high, Packs levels bound low (f.take (2 ^ levels)) ∧
      Packs levels bound high (f.drop (2 ^ levels)) ∧
      ∀ next : Nat → Nat → Nat, MlDsa.halves 256 levels n next = next low high := by
  obtain ⟨hf, ds, hds, hd, rfl, hfd⟩ := hf
  obtain ⟨a, b, ha, hb, rfl⟩ := exists_halves hds
  rw [pow_succ, Nat.mul_two] at hf
  have hlow : ∀ x ∈ a, x ≤ bound := fun x hx => hd x (List.mem_append_left b hx)
  have hhigh : ∀ x ∈ b, x ≤ bound := fun x hx => hd x (List.mem_append_right a hx)
  refine ⟨ofDigits 256 a, ofDigits 256 b, ⟨hf.take, a, ha, hlow, rfl, ?_⟩,
    ⟨hf.drop, b, hb, hhigh, rfl, ?_⟩, fun next => halves_eq b ha (fun x hx => ?_) next⟩
  · intro i hi
    rw [Poly.coeff_take hi, ← hfd i (by omega), Poly.coeff_append_left ha hi]
  · intro i hi
    rw [Poly.coeff_drop, ← hfd _ (by omega), Poly.coeff_append_right ha]
  · exact lt_of_le_of_lt (hlow x hx) hbound

/-- The reduced digits are the coefficients. -/
theorem exists_reduced (hf : Packs levels bound n f) (hbound : bound < 2 ^ 256) :
    ∃ ds : Poly, ds.length = 2 ^ levels ∧ (∀ d ∈ ds, d < 2 ^ 256) ∧ n = ofDigits 256 ds ∧
      ds.map (· % q) = f := by
  obtain ⟨hf, ds, hds, hd, rfl, hfd⟩ := hf
  refine ⟨ds, hds, fun d hmem => lt_of_le_of_lt (hd d hmem) hbound, rfl, ?_⟩
  have hreduced : Poly.IsReduced (2 ^ levels) (ds.map (· % q)) :=
    Poly.isReduced_map hds fun _ _ => Nat.mod_lt _ q_pos
  refine hreduced.ext hf fun i hi => ?_
  have hids : i < ds.length := hds ▸ hi
  rw [← hfd i hi, Poly.coeff_of_lt (by rwa [List.length_map]), Poly.coeff_of_lt hids,
    List.getElem_map, ZMod.natCast_mod]

/-- What a function makes of the reduced digits is what it makes of the coefficients. -/
theorem slots_eq (hf : Packs levels bound n f) (hbound : bound < 2 ^ 256) (r : Nat → Nat)
    (target : Nat) :
    slots (fun x => r (Nat.mod x q)) 256 target levels n = ofDigits target (f.map r) := by
  obtain ⟨ds, hlength, hlt, rfl, hmap⟩ := hf.exists_reduced hbound
  rw [slots_ofDigits _ _ _ hlength hlt, ← hmap, List.map_map]
  rfl

end Packs

/-! ## Transforms -/

/-- The multipliers of the nodes. -/
def multiplierList : List Nat :=
  (List.range 256).map fun node => powMod 1753 (Poly.reverseBits node) q

/-- The inverse multipliers of the nodes. -/
def inverseMultiplierList : List Nat :=
  multiplierList.map fun z => powMod z (q - 2) q

/-- The multipliers, packed with 32 bits each. -/
def multiplierDigits : Nat :=
  ofDigits 32 multiplierList

/-- The inverse multipliers, packed with 32 bits each. -/
def inverseMultiplierDigits : Nat :=
  ofDigits 32 inverseMultiplierList

/-- The multiplier of a node in a packed table. -/
def entry (table node : Nat) : Nat :=
  Nat.mod (Nat.shiftRight table (Nat.mul 32 node)) 0x100000000

/-- The transform at a node. The values are reduced. -/
def transformNat : (levels node n : Nat) → Nat
  | 0, _, n => Nat.mod n q
  | levels + 1, node, n =>
    halves 256 levels n fun low high => strict (entry multiplierDigits node) fun z =>
      join 256 levels (transformNat levels (Nat.mul 2 node) (Nat.add low (Nat.mul z high)))
        (transformNat levels (Nat.succ (Nat.mul 2 node)) (Nat.add low (Nat.mul (Nat.sub q z) high)))

/-- The polynomial of a transform at a node, `2 ^ levels` times over and not reduced. -/
def untransformNat : (levels node n : Nat) → Nat
  | 0, _, n => n
  | levels + 1, node, n =>
    halves 256 levels n fun low high =>
      strict (untransformNat levels (Nat.mul 2 node) low) fun p =>
        strict (untransformNat levels (Nat.succ (Nat.mul 2 node)) high) fun m =>
          strict (entry inverseMultiplierDigits node) fun z =>
            join 256 levels (Nat.add p m) (Nat.add (Nat.mul z p) (Nat.mul (Nat.sub q z) m))

/-- The multiplier of a node is found in the packed table. -/
theorem entry_eq {table : List Nat} (h : ∀ z ∈ table, z < q) (node : Nat) :
    entry (ofDigits 32 table) node = table.getD node 0 ∧ table.getD node 0 ≤ q := by
  have hwidth : ∀ z ∈ table, z < 2 ^ 32 := fun z hz => (h z hz).trans (by decide)
  refine ⟨?_, ?_⟩
  · rw [← ofDigits_digit hwidth node]
    rfl
  · rcases Nat.lt_or_ge node table.length with hlt | hge
    · rw [List.getD_eq_getElem _ _ hlt]
      exact (h _ (List.getElem_mem hlt)).le
    · rw [List.getD_eq_default _ _ hge]
      exact Nat.zero_le q

theorem getD_toArray (table : List Nat) (node : Nat) :
    table.toArray.getD node 0 = table.getD node 0 := by
  rw [Array.getD_eq_getD_getElem?, List.getD_eq_getElem?_getD, List.getElem?_toArray]

/-- The packed table has the multipliers of the transform. -/
theorem entry_multiplierDigits (node : Nat) :
    entry multiplierDigits node = Poly.multipliers.getD node 0 ∧
      Poly.multipliers.getD node 0 ≤ q := by
  have hlt : ∀ z ∈ multiplierList, z < q := by
    intro z hz
    obtain ⟨node, -, rfl⟩ := List.mem_map.mp hz
    exact powMod_lt q_pos _ _
  have htable : Poly.multipliers = multiplierList.toArray := rfl
  rw [htable, getD_toArray]
  exact entry_eq hlt node

/-- The packed table has the multipliers of the inverse transform. -/
theorem entry_inverseMultiplierDigits (node : Nat) :
    entry inverseMultiplierDigits node = Poly.inverseMultipliers.getD node 0 ∧
      Poly.inverseMultipliers.getD node 0 ≤ q := by
  have hlt : ∀ z ∈ inverseMultiplierList, z < q := by
    intro z hz
    obtain ⟨node, -, rfl⟩ := List.mem_map.mp hz
    exact powMod_lt q_pos _ _
  have htable : Poly.inverseMultipliers = inverseMultiplierList.toArray := List.map_toArray
  rw [htable, getD_toArray]
  exact entry_eq hlt node

namespace Packs

open MlDsa.Poly

variable {levels bound node m n c : Nat} {f g : Poly}

/-- A sum of two products with residues grows by the factor `2 q` at most. -/
theorem combine_le (bound : Nat) {u v : Nat} (hu : u ≤ q) (hv : v ≤ q) :
    u * bound + v * bound ≤ 2 * q * bound := by
  rw [← Nat.add_mul, Nat.two_mul]
  exact Nat.mul_le_mul_right bound (Nat.add_le_add hu hv)

/-- A number and a product of one like it with a residue grow by the factor `2 q` at most. -/
theorem add_mul_le (bound : Nat) {v : Nat} (hv : v ≤ q) : bound + v * bound ≤ 2 * q * bound := by
  have hle := combine_le bound (u := 1) (by decide) hv
  rwa [Nat.one_mul] at hle

/-- The lower half of a layer of the transform is computed on packed halves. -/
theorem plusHalf (hlow : Packs levels bound m (f.take (2 ^ levels)))
    (hhigh : Packs levels bound n (f.drop (2 ^ levels)))
    (hf : f.IsReduced (2 ^ levels + 2 ^ levels)) (hc : c ≤ q) :
    Packs levels (2 * q * bound) (Nat.add m (Nat.mul c n)) (Poly.plusHalf (2 ^ levels) c f) := by
  refine (hlow.add_mul hhigh hf.plusHalf fun i hi => ?_).mono (add_mul_le bound hc)
  rw [coeff_plusHalf hf hi, coeff_take hi, coeff_drop]

/-- The upper half of a layer of the transform is computed on packed halves. -/
theorem minusHalf (hlow : Packs levels bound m (f.take (2 ^ levels)))
    (hhigh : Packs levels bound n (f.drop (2 ^ levels)))
    (hf : f.IsReduced (2 ^ levels + 2 ^ levels)) (hc : c ≤ q) :
    Packs levels (2 * q * bound) (Nat.add m (Nat.mul (Nat.sub q c) n))
      (Poly.minusHalf (2 ^ levels) c f) := by
  have hle := add_mul_le bound (Nat.sub_le q c)
  refine (hlow.add_mul hhigh (v := q - c) hf.minusHalf fun i hi => ?_).mono hle
  rw [coeff_minusHalf hf hi, coeff_take hi, coeff_drop, Nat.cast_sub hc, ZMod.natCast_self,
    zero_sub, neg_mul, sub_eq_add_neg]

/-- A layer of the inverse transform is computed on packed halves. -/
theorem joinHalves (hf : Packs levels bound m f) (hg : Packs levels bound n g) (hc : c ≤ q) :
    Packs (levels + 1) (2 * q * bound)
      (join 256 levels (Nat.add m n) (Nat.add (Nat.mul c m) (Nat.mul (Nat.sub q c) n)))
      (Poly.joinHalves c f g) := by
  have hle := add_mul_le bound (v := 1) (by decide)
  rw [Nat.one_mul] at hle
  have hhigh := hf.combine hg (u := c) (v := q - c) ((hf.isReduced.sub hg.isReduced).scale c)
    fun i _ => by
      rw [coeff_scale, coeff_sub hf.isReduced hg.isReduced, Pi.sub_apply, Nat.cast_sub hc,
        ZMod.natCast_self]
      ring
  exact ((hf.add hg).mono hle).append (hhigh.mono (combine_le bound hc (Nat.sub_le q c)))

end Packs

/-- The transform of a packed polynomial. -/
theorem transformNat_eq {levels bound node n : Nat} {f : Poly} (hf : Packs levels bound n f)
    (hbound : (2 * q) ^ levels * bound < 2 ^ 256) :
    transformNat levels node n = ofDigits 256 (Poly.transformAt levels node f) := by
  induction levels generalizing node n f bound with
  | zero =>
    have hslot := hf.slots_eq (by simpa using hbound) id 256
    rw [List.map_id] at hslot
    exact hslot
  | succ levels ih =>
    obtain ⟨hz, hle⟩ := entry_multiplierDigits node
    have hreduced := hf.isReduced
    rw [pow_succ, Nat.mul_two] at hreduced
    -- A level multiplies the bound on the digits by `2 q`, and there is room for the other levels.
    have hstep : (2 * q) ^ (levels + 1) * bound = (2 * q) ^ levels * (2 * q * bound) := by ring
    have hpos : 0 < (2 * q) ^ (levels + 1) := Nat.pow_pos (by decide)
    have hsmall : bound < 2 ^ 256 := lt_of_le_of_lt (Nat.le_mul_of_pos_left _ hpos) hbound
    have hgrow : (2 * q) ^ levels * (2 * q * bound) < 2 ^ 256 := hstep ▸ hbound
    obtain ⟨low, high, hlow, hhigh, hnext⟩ := hf.halves hsmall
    rw [transformNat, hnext, strict_eq, hz, Poly.transformAt_succ,
      ih (hlow.plusHalf hhigh hreduced hle) hgrow, ih (hlow.minusHalf hhigh hreduced hle) hgrow]
    exact join_eq _ hreduced.plusHalf.transformAt.length_eq

/-- The inverse transform of a packed polynomial. -/
theorem packs_untransformNat {levels bound node n : Nat} {f : Poly} (hf : Packs levels bound n f)
    (hbound : bound < 2 ^ 256) :
    Packs levels ((2 * q) ^ levels * bound) (untransformNat levels node n)
      (Poly.untransformAt levels node f) := by
  induction levels generalizing node n f with
  | zero => simpa [untransformNat, Poly.untransformAt] using hf
  | succ levels ih =>
    obtain ⟨hz, hle⟩ := entry_inverseMultiplierDigits node
    have hreduced := hf.isReduced
    rw [pow_succ, Nat.mul_two] at hreduced
    obtain ⟨low, high, hlow, hhigh, hnext⟩ := hf.halves hbound
    have hplus : Packs levels _ (untransformNat levels (Nat.mul 2 node) low) _ := ih hlow
    have hminus : Packs levels _ (untransformNat levels (Nat.succ (Nat.mul 2 node)) high) _ :=
      ih hhigh
    have hsplit : Poly.untransformAt (levels + 1) node
        (f.take (2 ^ levels) ++ f.drop (2 ^ levels)) = _ :=
      Poly.untransformAt_append hreduced.take.length_eq
    rw [List.take_append_drop] at hsplit
    -- Each level multiplies the bound of the digits by `2 * q`.
    rw [untransformNat, hnext, strict_eq, strict_eq, strict_eq, hz, hsplit,
      pow_succ', Nat.mul_assoc]
    exact hplus.joinHalves hminus hle

end PeerIdentity.MlDsa
