/-
Rescaling over doubles. The extent of a list bounds every number in it, whatever else the list
holds (`bounds_of_extent`), and a fault stops a span that is not finite. So between finite targets
a value lands on no number exactly if it was none. Main statement:
`forall₂_isNaN_of_rescale`.
-/
import PathCurves.Extent
import PathCurves.Proofs.Magnitude
import PathCurves.Scalar.Double

namespace PathCurves

open Double

/-! ## The extent -/

section

variable {r : ℚ → ℚ → Prop} [Std.Total r] {x y : Float} {v : ℚ}

/-- Of two doubles the one that is not beyond the other stays, or the one that is a number. -/
theorem exists_kept {c : Prop} [Decidable c]
    (hc : c ↔ ∃ p q, number? x = some p ∧ number? y = some q ∧ ¬ r p q)
    (h : number? x = some v ∨ number? y = some v) :
    ∃ u, r u v ∧ number? (if c then y else if x == x then x else y) = some u := by
  have hrefl (p : ℚ) : r p p := (Std.Total.total p p).elim id id
  split
  · next hcut =>
    obtain ⟨p, q, hx, hy, hpq⟩ := hc.mp hcut
    refine ⟨q, ?_, hy⟩
    rcases h with h | h
    · obtain rfl : p = v := Option.some.inj (hx.symm.trans h)
      exact (Std.Total.total p q).resolve_left hpq
    · obtain rfl : q = v := Option.some.inj (hy.symm.trans h)
      exact hrefl q
  · next hcut =>
    split
    · next hself =>
      obtain ⟨p, hx, -⟩ := beq_iff.mp hself
      refine ⟨p, ?_, hx⟩
      rcases h with h | h
      · obtain rfl : p = v := Option.some.inj (hx.symm.trans h)
        exact hrefl p
      · by_contra hpv
        exact hcut (hc.mpr ⟨p, v, hx, h, hpv⟩)
    · next hself =>
      refine ⟨v, hrefl v, h.resolve_left fun hx => hself (beq_iff.mpr ⟨v, hx, hx⟩)⟩

/-- What a choice between two keeps to, the choice among all members of a list keeps to. -/
theorem exists_foldl_kept [IsTrans ℚ r] {choose : Float → Float → Float}
    (hchoose : ∀ {x y v}, number? x = some v ∨ number? y = some v →
      ∃ u, r u v ∧ number? (choose x y) = some u) :
    ∀ {rest : List Float} {first x : Float} {v : ℚ}, x ∈ first :: rest → number? x = some v →
      ∃ u, r u v ∧ number? (rest.foldl choose first) = some u
  | [], first, x, v, hx, hv => by
    obtain rfl := List.mem_singleton.mp hx
    exact ⟨v, (Std.Total.total v v).elim id id, hv⟩
  | y :: rest, first, x, v, hx, hv => by
    rw [List.foldl_cons]
    by_cases hrest : x ∈ rest
    · exact exists_foldl_kept hchoose (List.mem_cons_of_mem _ hrest) hv
    · have hxy : number? first = some v ∨ number? y = some v := by
        rcases List.mem_cons.mp hx with rfl | hx
        · exact .inl hv
        · rw [(List.mem_cons.mp hx).resolve_right hrest] at hv
          exact .inr hv
      obtain ⟨u, huv, hu⟩ := hchoose hxy
      obtain ⟨w, hwu, hw⟩ := exists_foldl_kept hchoose (List.mem_cons_self (l := rest)) hu
      exact ⟨w, trans_of r hwu huv, hw⟩

end

theorem exists_lesser {x y : Float} {v : ℚ} (h : number? x = some v ∨ number? y = some v) :
    ∃ u, u ≤ v ∧ number? (Scalar.lesser x y) = some u := by
  refine exists_kept (c := y < x) ?_ h
  rw [lt_iff]
  refine ⟨?_, ?_⟩
  · rintro ⟨q, p, hy, hx, hlt⟩
    exact ⟨p, q, hx, hy, not_le.mpr hlt⟩
  · rintro ⟨p, q, hx, hy, hlt⟩
    exact ⟨q, p, hy, hx, not_le.mp hlt⟩

theorem exists_greater {x y : Float} {v : ℚ} (h : number? x = some v ∨ number? y = some v) :
    ∃ u, u ≥ v ∧ number? (Scalar.greater x y) = some u := by
  refine exists_kept (c := x < y) ?_ h
  rw [lt_iff]
  simp only [ge_iff_le, not_le]

theorem bounds_of_extent {values : List Float} {low high x : Float} {v : ℚ}
    (h : extent values = some (low, high)) (hx : x ∈ values) (hv : number? x = some v) :
    ∃ l u, number? low = some l ∧ number? high = some u ∧ l ≤ v ∧ v ≤ u := by
  cases values with
  | nil => cases hx
  | cons first rest =>
    cases h
    obtain ⟨l, hl, hlow⟩ := exists_foldl_kept (r := (· ≤ ·)) exists_lesser hx hv
    obtain ⟨u, hu, hhigh⟩ := exists_foldl_kept (r := (· ≥ ·)) exists_greater hx hv
    exact ⟨l, u, hlow, hhigh, hl, hu⟩

/-! ## Interpolation -/

section

variable {a b low high x : Float} {p q l u d v : ℚ}

theorem exists_unit {q : ℚ} {x : Float} (h : Rounded q x) (hq : 0 ≤ q) (hq' : q ≤ 1) :
    ∃ v, HasValue x v ∧ 0 ≤ v ∧ v ≤ 1 := by
  obtain ⟨v, hv, -, hround⟩ := h.hasValue onGrid_one (one_lt_pow₀ one_lt_two (by norm_num))
    (by rwa [abs_of_nonneg hq])
  exact ⟨v, hv, hround.ge onGrid_zero hq, hround.le onGrid_one hq'⟩

/-- What lies in the span is a part of it between none and all. -/
theorem exists_part (hlow : HasValue low l) (hhigh : HasValue high u)
    (hspan : HasValue (high - low) d) (hd : 0 < d) (hx : number? x = some v) (hl : l ≤ v)
    (hu : v ≤ u) : ∃ f, HasValue ((x - low) / (high - low)) f ∧ 0 ≤ f ∧ f ≤ 1 := by
  have hx : HasValue x v := by
    refine ⟨hx, abs_lt.mpr ⟨?_, hu.trans_lt (abs_lt.mp hhigh.2).2⟩⟩
    exact (abs_lt.mp hlow.2).1.trans_le hl
  obtain ⟨d', hd', hround⟩ := hhigh.sub hlow
  obtain rfl : d = d' := Option.some.inj (hspan.1.symm.trans hd')
  obtain ⟨e, he, hround'⟩ := hx.sub hlow
  have he₀ : 0 ≤ e := hround'.ge onGrid_zero (sub_nonneg.mpr hl)
  have hed : e ≤ d := hround'.mono hround (by linarith)
  have hvalue : HasValue (x - low) e :=
    ⟨he, by rw [abs_of_nonneg he₀]; exact (hed.trans (le_abs_self d)).trans_lt hspan.2⟩
  exact exists_unit (hvalue.div hspan hd.ne') (by positivity) ((div_le_one hd).mpr hed)

theorem exists_interpolate (ha : HasValue a p) (hb : HasValue b q)
    (h : ∃ f, HasValue ((x - low) / (high - low)) f ∧ 0 ≤ f ∧ f ≤ 1) :
    ∃ w, number? (interpolate a b low (high - low) x) = some w := by
  obtain ⟨f, hf, hf₀, hf₁⟩ := h
  obtain ⟨g, hg, hg₀, hg₁⟩ := exists_unit (hasValue_one.sub hf) (by linarith) (by linarith)
  obtain ⟨w, hw, -⟩ := ha.mul_of_le_one hg (abs_le.mpr ⟨by linarith, hg₁⟩)
  obtain ⟨z, hz, -⟩ := hb.mul_of_le_one hf (abs_le.mpr ⟨by linarith, hf₁⟩)
  obtain ⟨v, hv, -⟩ := hw.add hz
  exact ⟨v, hv⟩

theorem number?_interpolate_of_none (h : number? x = none) :
    number? (interpolate a b low (high - low) x) = none :=
  number?_add (.inr (number?_mul (.inr (number?_div (.inl (number?_sub (.inl h)))))))

end

/-! ## Rescaling -/

/-- A list is rescaled only if its extent is finite and has a positive span. -/
theorem finite_of_rescale {axis : Axis} {a b : Float} {values out : List Float}
    (h : rescale axis a b values = .ok out) (hne : values ≠ []) :
    ∃ low high, extent values = some (low, high) ∧
      (∃ l u d, HasValue low l ∧ HasValue high u ∧ HasValue (high - low) d ∧ 0 < d) ∧
      out = values.map (interpolate a b low (high - low)) := by
  obtain ⟨low, high, hextent⟩ := exists_extent hne
  simp only [rescale, hextent] at h
  split at h
  · cases h
  split at h
  · cases h
  next hspan =>
  cases h
  rw [not_or, Bool.not_eq_false] at hspan
  obtain ⟨hpos, hfinite⟩ := hspan
  refine ⟨low, high, hextent, ?_, rfl⟩
  obtain ⟨hhigh, hlow⟩ := isFinite_of_sub hfinite
  obtain ⟨u, hu⟩ := isFinite_iff.mp hhigh
  obtain ⟨l, hl⟩ := isFinite_iff.mp hlow
  obtain ⟨d, hd⟩ := isFinite_iff.mp hfinite
  refine ⟨l, u, d, hl, hu, hd, ?_⟩
  exact not_le.mp (mt (le_iff_of_some hd.1 hasValue_zero.1).mpr hpos)

/-- Between finite targets the values that are no numbers land on none, and no others do. -/
theorem forall₂_isNaN_of_rescale {axis : Axis} {a b : Float} {values out : List Float}
    (ha : a.isFinite = true) (hb : b.isFinite = true) (h : rescale axis a b values = .ok out) :
    List.Forall₂ (fun v w => w.isNaN = true ↔ v.isNaN = true) values out := by
  by_cases hne : values = []
  · subst hne
    rw [List.eq_nil_of_length_eq_zero (length_of_rescale h)]
    exact .nil
  · obtain ⟨p, hp⟩ := isFinite_iff.mp ha
    obtain ⟨q, hq⟩ := isFinite_iff.mp hb
    obtain ⟨low, high, hextent, ⟨l, u, d, hl, hu, hd, hpos⟩, rfl⟩ := finite_of_rescale h hne
    rw [List.forall₂_map_right_iff, List.forall₂_same]
    intro x hx
    rw [isNaN_iff, isNaN_iff]
    refine ⟨fun hnone => ?_, number?_interpolate_of_none⟩
    cases hv : number? x with
    | none => rfl
    | some v =>
      obtain ⟨l', u', hl', hu', hlv, hvu⟩ := bounds_of_extent hextent hx hv
      obtain rfl : l = l' := Option.some.inj (hl.1.symm.trans hl')
      obtain rfl : u = u' := Option.some.inj (hu.1.symm.trans hu')
      obtain ⟨w, hw⟩ := exists_interpolate hp hq (exists_part hl hu hd hpos hv hlv hvu)
      rw [hnone] at hw
      cases hw

end PathCurves
