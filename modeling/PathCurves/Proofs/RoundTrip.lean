/-
Reading undoes writing. Main statement: `read_print`, the bytes of the text of a path are read
as this path, whatever doubles its coordinates are and however the bytes are handed out.
-/
import PathCurves.Polyline.Printer
import PathCurves.Proofs.Printing
import PathCurves.Proofs.Reading

namespace PathCurves

open Text Text.Numeral

/-! ## Lines of points -/

theorem Text.row_pair {x y : List Char} (hx : IsWord x) (hy : IsWord y) :
    Row (x ++ ' ' :: y) [x, y] := by
  have hnil : Row ([] : List Char) [] := .blank fun c hc => absurd hc List.not_mem_nil
  have hlast : Row ([' '] ++ (y ++ [])) [y] :=
    .word (List.forall_mem_singleton.mpr rfl) hy (by simp) hnil
  rw [List.append_nil] at hlast
  have hspace : ∀ c ∈ ([' '] ++ y).head?, isBlank c = true := by
    intro c hc
    obtain rfl := Option.some.inj hc
    rfl
  exact .word (fun c hc => absurd hc List.not_mem_nil) hx hspace hlast

namespace Point

theorem isWord_ofDouble (x : Float) : IsWord (ofDouble x) := by
  obtain ⟨n, hspells, -⟩ := (shown_ofDouble x).spells
  exact hspells.isWord

theorem toList_line (p : Point Float) : p.line.toList = ofDouble p.x ++ ' ' :: ofDouble p.y :=
  String.toList_ofList

theorem lineMeans_line (p : Point Float) : Polyline.LineMeans (utf8 p.line.toList) (some p) := by
  obtain ⟨m, hx, hm⟩ := (shown_ofDouble p.x).spells
  obtain ⟨n, hy, hn⟩ := (shown_ofDouble p.y).spells
  rw [toList_line]
  exact .point (row_pair hx.isWord hy.isWord) hx hy hm hn

/-- A space is the only white space in the line of a point. -/
theorem not_mem_line (p : Point Float) {c : Char} (hc : isBlank c = true) (hne : c ≠ ' ') :
    c ∉ p.line.toList := by
  have hword : ∀ x, c ∉ ofDouble x := by
    intro x hx
    rw [(isWord_ofDouble x).2 c hx] at hc
    cases hc
  rw [toList_line, List.mem_append, List.mem_cons]
  intro h
  rcases h with h | h | h
  · exact hword _ h
  · exact hne h
  · exact hword _ h

end Point

namespace Polyline

theorem toList_print_cons (p : Point Float) (points : List (Point Float)) :
    (print ⟨p :: points⟩).toList = p.line.toList ++ '\n' :: (print ⟨points⟩).toList := by
  simp [print, Point.lines]

theorem lines_print (points : List (Point Float)) :
    lines '\n' '\r' (print ⟨points⟩).toList = points.map fun p => p.line.toList := by
  induction points with
  | nil => rfl
  | cons p points ih =>
    rw [toList_print_cons, lines_append_cons (p.not_mem_line rfl (by decide)), ih,
      withoutEnd_of_not_mem (p.not_mem_line rfl (by decide)), List.map_cons]

/-- The bytes of the text of a path are read as the path. Every coordinate is written as a word
or by the fewest digits that are read as it, and digits are read as the nearest double. -/
theorem read_print :
    (∀ (path : Polyline Float) (chunks : List (List UInt8)),
      chunks.flatten = path.print.toUTF8.data.toList → read ⟨chunks, .complete⟩ = .ok path) ∧
    (∀ x, Shown x (ofDouble x)) ∧
    ∀ digits exponent, Double.Nearest (Double.decimalValue digits exponent)
      (Double.ofDecimal digits exponent) := by
  refine ⟨fun path chunks hchunks => ?_, shown_ofDouble, Double.nearest_ofDecimal⟩
  obtain ⟨points⟩ := path
  refine read_eq_ok_iff.mpr ⟨points.map some, ?_, by simp [List.reduceOption]⟩
  rw [hchunks, toUTF8_eq, lines_utf8, lines_print, List.map_map, List.forall₂_map_left_iff,
    List.forall₂_map_right_iff, List.forall₂_same]
  exact fun p _ => p.lineMeans_line

/-- The negative zero, the least positive double, one with seventeen digits, what is no number, and
an infinity, in chunks that end within three of their numbers. -/
theorem read_print_example :
    read ⟨[utf8 "-0 0.".toList ++ List.replicate 300 0x30,
        List.replicate 23 0x30 ++ utf8 "5\n0.3000".toList,
        utf8 "0000000000004 NaN\n-inf 1000".toList,
        utf8 "0000000000000000000\n".toList], .complete⟩ =
      .ok ⟨[⟨-0.0, 5e-324⟩, ⟨0.1 + 0.2, Double.undefined⟩, ⟨-Double.infinity, 1e22⟩]⟩ := by
  refine read_print.1 _ _ ?_
  simp only [toUTF8_eq, toList_print_cons, Point.toList_line]
  decide +kernel

end Polyline

end PathCurves
