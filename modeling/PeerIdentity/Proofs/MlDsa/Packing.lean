import PeerIdentity.MlDsa.Packing
import PeerIdentity.Proofs.Bytes
import PeerIdentity.Proofs.MlDsa.Residues

/-!
# Packing loses nothing

Coefficients of few bits are read back from the bytes that they are written in, and so are hints.

* `unpack_pack`, `unpackVec_flatMap`: polynomials and vectors of coefficients of few bits;
* `reflectFrom_reflectFrom`, `unpackVec_reflectFrom`: coefficients of both signs;
* `unpackHint?_packHint`: hints of at most 75 bits in rows of increasing positions.
-/

namespace PeerIdentity.MlDsa

/-! ## Digits -/

@[simp]
theorem length_digits (width count n : Nat) : (digits width count n).length = count := by
  induction count generalizing n with
  | zero => rfl
  | succ count ih => rw [digits, List.length_cons, ih]

/-- Every digit has at most `width` bits. -/
theorem digits_lt {width count n : Nat} : ∀ d ∈ digits width count n, d < 2 ^ width := by
  induction count generalizing n with
  | zero => simp [digits]
  | succ count ih =>
    intro d hd
    rw [digits, Nat.one_shiftLeft] at hd
    rcases List.mem_cons.mp hd with rfl | hd
    · exact Nat.mod_lt _ (Nat.two_pow_pos width)
    · exact ih d hd

/-- A list of digits makes a number with as many bits as they have together. -/
theorem ofDigits_lt {width : Nat} {ds : List Nat} (h : ∀ d ∈ ds, d < 2 ^ width) :
    ofDigits width ds < 2 ^ (width * ds.length) := by
  induction ds with
  | nil => simp [ofDigits]
  | cons d ds ih =>
    have hd := h d List.mem_cons_self
    have ih := ih fun x hx => h x (List.mem_cons_of_mem d hx)
    rw [ofDigits, Nat.shiftLeft_eq, List.length_cons, Nat.mul_add_one, Nat.pow_add]
    calc d + ofDigits width ds * 2 ^ width < 2 ^ width + ofDigits width ds * 2 ^ width := by omega
      _ = (ofDigits width ds + 1) * 2 ^ width := by rw [Nat.add_one_mul, Nat.add_comm]
      _ ≤ 2 ^ (width * ds.length) * 2 ^ width := Nat.mul_le_mul_right _ ih

/-- The digits of a list are recovered from their number. -/
theorem digits_ofDigits {width : Nat} {ds : List Nat} (h : ∀ d ∈ ds, d < 2 ^ width) :
    digits width ds.length (ofDigits width ds) = ds := by
  induction ds with
  | nil => rfl
  | cons d ds ih =>
    have hd := h d List.mem_cons_self
    have ih := ih fun x hx => h x (List.mem_cons_of_mem d hx)
    rw [List.length_cons, digits, ofDigits, Nat.one_shiftLeft, Nat.shiftLeft_eq,
      Nat.shiftRight_eq_div_pow, Nat.add_mul_mod_self_right, Nat.mod_eq_of_lt hd,
      Nat.add_mul_div_right _ _ (Nat.two_pow_pos width), Nat.div_eq_of_lt hd, Nat.zero_add, ih]

/-! ## Polynomials -/

/-- A polynomial whose coefficients have `width` bits. -/
structure Poly.HasWidth (width : Nat) (f : Poly) : Prop where
  length_eq : f.length = 256
  lt : ∀ x ∈ f, x < 2 ^ width

/-- A packed polynomial takes 32 bytes for each bit of a coefficient. -/
@[simp]
theorem length_pack (width : Nat) (f : Poly) : (pack width f).length = 32 * width :=
  Bytes.length_ofNatLE _ _

/-- A polynomial whose coefficients fit is read back. -/
theorem unpack_pack {width : Nat} {f : Poly} (h : f.HasWidth width) :
    unpack width (pack width f) = f := by
  have hlt : ofDigits width f < 256 ^ (32 * width) := by
    have hbound := ofDigits_lt h.lt
    have hpow : 2 ^ (width * 256) = 256 ^ (32 * width) := by
      rw [show 256 = 2 ^ 8 from rfl, ← Nat.pow_mul]
      congr 1
      omega
    rwa [h.length_eq, hpow] at hbound
  have hdigits := digits_ofDigits h.lt
  rw [h.length_eq] at hdigits
  rw [unpack, pack, Bytes.toNatLE_ofNatLE hlt, hdigits]

/-- What is unpacked fits. -/
theorem hasWidth_unpack (width : Nat) (b : Bytes) : (unpack width b).HasWidth width :=
  ⟨length_digits _ _ _, digits_lt⟩

/-- Coefficients of at most 22 bits are residues, since `q` has 23. -/
theorem Poly.HasWidth.isReduced {width : Nat} {f : Poly} (h : f.HasWidth width)
    (hwidth : width ≤ 22) : f.IsReduced 256 := by
  refine ⟨h.length_eq, fun x hx => ?_⟩
  have hpow : 2 ^ width ≤ 2 ^ 22 := Nat.pow_le_pow_right (by decide) hwidth
  have hq : 2 ^ 22 < q := by decide
  have hx := h.lt x hx
  omega

/-- A polynomial fits if all its coefficients do. -/
theorem Poly.hasWidth_map {width : Nat} {f : Poly} {r : Nat → Nat} (hf : f.length = 256)
    (h : ∀ x ∈ f, r x < 2 ^ width) : HasWidth width (f.map r) := by
  refine ⟨by rw [List.length_map, hf], fun x hx => ?_⟩
  obtain ⟨y, hy, rfl⟩ := List.mem_map.mp hx
  exact h y hy

/-! ## Coefficients of both signs -/

/-- Reflected coefficients are residues. -/
theorem isReduced_reflectFrom (top : Nat) {f : Poly} (h : f.length = 256) :
    (reflectFrom top f).IsReduced 256 :=
  Poly.isReduced_map h fun _ _ => Nat.mod_lt _ q_pos

/-- Reflection undoes itself on residues. -/
theorem subMod_subMod (top : Nat) {x : Nat} (hx : x < q) :
    subMod top (subMod top x q) q = x := by
  rw [subMod, subMod, Nat.mod_eq_of_lt hx]
  rw [q] at *
  omega

/-- Reflecting twice gives the coefficients back. -/
theorem reflectFrom_reflectFrom (top : Nat) {f : Poly} (h : f.IsReduced 256) :
    reflectFrom top (reflectFrom top f) = f := by
  rw [reflectFrom, reflectFrom, List.map_map]
  calc f.map _ = f.map id := List.map_congr_left fun x hx => subMod_subMod top (h.lt x hx)
    _ = f := List.map_id f

/-! ## Vectors -/

/-- Blocks of one size are told apart. -/
theorem blocks_flatten {size : Nat} {bs : List Bytes} (h : ∀ b ∈ bs, b.length = size)
    (rest : Bytes) : Bytes.blocks size bs.length (bs.flatten ++ rest) = bs := by
  induction bs with
  | nil => rfl
  | cons b bs ih =>
    have hb := h b List.mem_cons_self
    have ih := ih fun x hx => h x (List.mem_cons_of_mem b hx)
    rw [List.length_cons, Bytes.blocks, List.flatten_cons, List.append_assoc, List.take_left' hb,
      List.drop_left' hb, ih]

@[simp]
theorem length_blocks (size count : Nat) (b : Bytes) :
    (Bytes.blocks size count b).length = count := by
  induction count generalizing b with
  | zero => rfl
  | succ count ih => rw [Bytes.blocks, List.length_cons, ih]

/-- A packed vector takes 32 bytes for each polynomial and each bit of a coefficient. -/
theorem length_flatMap_pack (width : Nat) (v : PolyVec) :
    (v.flatMap (pack width)).length = v.length * (32 * width) := by
  induction v with
  | nil => rw [List.flatMap_nil, List.length_nil, List.length_nil, Nat.zero_mul]
  | cons f v ih =>
    rw [List.flatMap_cons, List.length_append, length_pack, ih, List.length_cons,
      Nat.add_one_mul v.length, Nat.add_comm]

/-- A vector whose coefficients fit is read back, whatever follows. -/
theorem unpackVec_flatMap {width : Nat} {v : PolyVec} (h : ∀ f ∈ v, f.HasWidth width)
    (rest : Bytes) : unpackVec width v.length (v.flatMap (pack width) ++ rest) = v := by
  have hsize : ∀ b ∈ v.map (pack width), b.length = 32 * width := by
    intro b hb
    obtain ⟨f, -, rfl⟩ := List.mem_map.mp hb
    exact length_pack width f
  have hblocks := blocks_flatten hsize rest
  rw [List.length_map] at hblocks
  rw [unpackVec, List.flatMap_def, hblocks, List.map_map]
  calc v.map (unpack width ∘ pack width) = v.map id :=
        List.map_congr_left fun f hf => unpack_pack (h f hf)
    _ = v := List.map_id v

/-- A vector of coefficients of both signs is read back. -/
theorem unpackVec_reflectFrom {count width top : Nat} {v : PolyVec}
    (hv : v.IsReduced count) (h : ∀ f ∈ v, (reflectFrom top f).HasWidth width) (rest : Bytes) :
    (unpackVec width count (v.flatMap (fun f => pack width (reflectFrom top f)) ++ rest)).map
      (reflectFrom top) = v := by
  have hlength : (v.map (reflectFrom top)).length = count := by rw [List.length_map, hv.length_eq]
  have hwidth : ∀ f ∈ v.map (reflectFrom top), f.HasWidth width := by
    intro f hf
    obtain ⟨g, hg, rfl⟩ := List.mem_map.mp hf
    exact h g hg
  have hpacked : v.flatMap (fun f => pack width (reflectFrom top f)) =
      (v.map (reflectFrom top)).flatMap (pack width) := by
    rw [List.flatMap_map]
  rw [hpacked, ← hlength, unpackVec_flatMap hwidth, List.map_map]
  calc v.map (reflectFrom top ∘ reflectFrom top) = v.map id :=
        List.map_congr_left fun f hf => reflectFrom_reflectFrom top (hv.isReduced f hf)
    _ = v := List.map_id v

/-- A vector that is packed reflected takes as many bytes. -/
theorem length_flatMap_reflectFrom {count width top : Nat} {v : PolyVec}
    (hv : v.IsReduced count) :
    (v.flatMap fun f => pack width (reflectFrom top f)).length = count * (32 * width) := by
  have hpacked : v.flatMap (fun f => pack width (reflectFrom top f)) =
      (v.map (reflectFrom top)).flatMap (pack width) := by
    rw [List.flatMap_map]
  rw [hpacked, length_flatMap_pack, List.length_map, hv.length_eq]

/-! ## Hints -/

/-- Rows of increasing positions below 256, with at most 75 positions in all. -/
structure Hint.IsValid (h : Hint) : Prop where
  increasing : ∀ row ∈ h, increasing row = true
  lt : ∀ row ∈ h, ∀ i ∈ row, i < 256
  weight_le : h.weight ≤ omega

/-- There is an end for each row. -/
@[simp]
theorem length_rowEnds (start : Nat) (h : Hint) : (rowEnds start h).length = h.length := by
  induction h generalizing start with
  | nil => rfl
  | cons row h ih => rw [rowEnds, List.length_cons, List.length_cons, ih]

/-- The row ends lie between the start and the end of all rows. -/
theorem rowEnds_le {start : Nat} {h : Hint} :
    ∀ stop ∈ rowEnds start h, stop ≤ start + h.weight := by
  induction h generalizing start with
  | nil => simp [rowEnds]
  | cons row h ih =>
    have hweight : Hint.weight (row :: h) = row.length + Hint.weight h := by
      rw [Hint.weight, List.flatten_cons, List.length_append, Hint.weight]
    intro stop hstop
    rw [hweight]
    rcases List.mem_cons.mp hstop with rfl | hstop
    · omega
    · have := ih stop hstop
      omega

/-- Rows are cut out of their positions at their ends. -/
theorem unpackRows?_rowEnds {start : Nat} {h : Hint} (hinc : ∀ row ∈ h, increasing row = true)
    (hweight : start + h.weight ≤ omega) (zeros : Nat) :
    unpackRows? (rowEnds start h) start (h.flatten ++ List.replicate zeros 0) = some h := by
  induction h generalizing start with
  | nil => simp [rowEnds, unpackRows?]
  | cons row h ih =>
    have hsum : Hint.weight (row :: h) = row.length + Hint.weight h := by
      rw [Hint.weight, List.flatten_cons, List.length_append, Hint.weight]
    rw [hsum] at hweight
    have hrest : unpackRows? (rowEnds (start + row.length) h) (start + row.length)
        (h.flatten ++ List.replicate zeros 0) = some h :=
      ih (fun r hr => hinc r (List.mem_cons_of_mem row hr)) (by omega)
    -- The first row ends where its positions do, and the others start there.
    rw [rowEnds, unpackRows?, Nat.add_sub_cancel_left, List.flatten_cons, List.append_assoc]
    simp only [List.take_left, List.drop_left, hrest, hinc row List.mem_cons_self]
    simp
    omega

/-- Packed hints take a byte for each possible hint, and one for each row. -/
theorem length_packHint {h : Hint} (hweight : h.weight ≤ omega) :
    (packHint h).length = omega + h.length := by
  rw [packHint, List.length_map, List.length_append, List.length_append, List.length_replicate,
    length_rowEnds, ← Hint.weight]
  omega

/-- A hint is read back. -/
theorem unpackHint?_packHint {h : Hint} (hvalid : h.IsValid) :
    unpackHint? (packHint h) = some h := by
  obtain ⟨hinc, hlt, hweight⟩ := hvalid
  have hlength : (h.flatten ++ List.replicate (omega - h.weight) 0).length = omega := by
    rw [List.length_append, List.length_replicate, ← Hint.weight]
    omega
  -- Positions and ends are bytes.
  have hbytes : ∀ x ∈ h.flatten ++ List.replicate (omega - h.weight) 0 ++ rowEnds 0 h, x < 256 := by
    rw [List.forall_mem_append, List.forall_mem_append]
    refine ⟨⟨fun x hx => ?_, fun x hx => ?_⟩, fun x hx => ?_⟩
    · obtain ⟨row, hrow, hx⟩ := List.mem_flatten.mp hx
      exact hlt row hrow x hx
    · rw [List.eq_of_mem_replicate hx]
      decide
    · have hend := rowEnds_le x hx
      have homega : omega = 75 := rfl
      omega
  have hvalues : (packHint h).map UInt8.toNat =
      h.flatten ++ List.replicate (omega - h.weight) 0 ++ rowEnds 0 h := by
    rw [packHint, List.map_map]
    calc _ = (h.flatten ++ List.replicate (omega - h.weight) 0 ++ rowEnds 0 h).map id := by
          refine List.map_congr_left fun x hx => ?_
          rw [Function.comp_apply, UInt8.toNat_ofNat', id, Nat.mod_eq_of_lt (hbytes x hx)]
      _ = _ := List.map_id _
  rw [unpackHint?]
  simp only [hvalues, List.take_left' hlength, List.drop_left' hlength]
  exact unpackRows?_rowEnds hinc (by omega) _

end PeerIdentity.MlDsa
